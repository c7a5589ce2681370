import Mathlib

/-!
# A copy that is kept by edits

A list of entries is edited one entry at a time; as a set it `Mirrors` what is wanted. The rules say what a list mirrors
after an edit.
-/
namespace Lib.Mirror

variable {α : Type} [DecidableEq α] {s : List α} {W W' : α → Prop}

inductive Edit (α : Type)
  | add (a : α)
  | delete (a : α)
deriving DecidableEq, Repr

/-- An entry that is there is not added again. -/
def edit (s : List α) : Edit α → List α
  | .add a => if a ∈ s then s else s ++ [a]
  | .delete a => s.filter (· ≠ a)

def edits (s : List α) (es : List (Edit α)) : List α := es.foldl edit s

@[simp] theorem edits_nil (s : List α) : edits s [] = s := rfl
@[simp] theorem edits_cons (s : List α) (e : Edit α) (es : List (Edit α)) : edits s (e :: es) = edits (edit s e) es := rfl

theorem mem_add {a b : α} : b ∈ edit s (.add a) ↔ b = a ∨ b ∈ s := by
  show b ∈ (if a ∈ s then s else s ++ [a]) ↔ _
  by_cases ha : a ∈ s
  · rw [if_pos ha]
    exact (or_iff_right_of_imp fun h => h ▸ ha).symm
  · rw [if_neg ha, List.mem_append, List.mem_singleton, or_comm]

theorem mem_delete {a b : α} : b ∈ edit s (.delete a) ↔ b ≠ a ∧ b ∈ s := by
  show b ∈ s.filter (· ≠ a) ↔ _
  rw [List.mem_filter, decide_eq_true_eq, and_comm]

/-- The entries are the wanted ones. -/
def Mirrors (s : List α) (W : α → Prop) : Prop := ∀ a, a ∈ s ↔ W a

omit [DecidableEq α] in
theorem Mirrors.congr (h : Mirrors s W) (hW : ∀ a, W a ↔ W' a) : Mirrors s W' := fun a => (h a).trans (hW a)

theorem Mirrors.add (h : Mirrors s W) (a : α) : Mirrors (edit s (.add a)) fun b => b = a ∨ W b := fun b => by
  rw [mem_add, h b]

theorem Mirrors.delete (h : Mirrors s W) (a : α) : Mirrors (edit s (.delete a)) fun b => b ≠ a ∧ W b := fun b => by
  rw [mem_delete, h b]

end Lib.Mirror
