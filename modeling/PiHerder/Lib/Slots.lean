import PiHerder.Lib.Replace

/-!
# Texts with places for values

A text is a list of slots: characters, and names that stand for values. Where a value begins nowhere but at its own places (`Placed`),
replacing it replaces what is put in those places and nothing else (`replaceAll_eval`); and so do several replacements one after another
(`foldl_eval`).
-/
namespace Lib.Str

inductive Slot
  | text (c : Char)
  | name (k : Str)
deriving DecidableEq, Repr

namespace Slot

def eval (f : Str → Str) : List Slot → Str
  | [] => []
  | text c :: rest => c :: eval f rest
  | name k :: rest => f k ++ eval f rest

def names : List Slot → List Str
  | [] => []
  | text _ :: rest => names rest
  | name k :: rest => k :: names rest

theorem eval_append (f : Str → Str) (as bs : List Slot) : eval f (as ++ bs) = eval f as ++ eval f bs := by
  induction as with
  | nil => rfl
  | cons a as ih =>
    cases a with
    | text c => exact congrArg (c :: ·) ih
    | name k => rw [List.cons_append, eval, eval, ih, List.append_assoc]

@[simp] theorem eval_text (f : Str → Str) (s : Str) : eval f (s.map text) = s := by
  induction s with
  | nil => rfl
  | cons c s ih => exact congrArg (c :: ·) ih

@[simp] theorem names_text (s : Str) : names (s.map text) = [] := by
  induction s with
  | nil => rfl
  | cons c s ih => exact ih

theorem eval_congr {f g : Str → Str} : ∀ {slots : List Slot}, (∀ k ∈ names slots, f k = g k) → eval f slots = eval g slots
  | [], _ => rfl
  | text c :: rest, h => congrArg (c :: ·) (show eval f rest = eval g rest from eval_congr h)
  | name k :: rest, h => by
    rw [eval, eval, h k List.mem_cons_self, eval_congr fun m hm => h m (List.mem_cons_of_mem k hm)]

/-- `v` begins nowhere but where it is put in. -/
def Placed (v : Str) (f : Str → Str) : List Slot → Prop
  | [] => True
  | text c :: rest => ¬ v <+: c :: eval f rest ∧ Placed v f rest
  | name k :: rest => (f k = v ∨ ∀ t ∈ (f k).tails, t ≠ [] → ¬ v <+: t ++ eval f rest) ∧ Placed v f rest

instance decidablePlaced (v : Str) (f : Str → Str) : ∀ slots : List Slot, Decidable (Placed v f slots)
  | [] => inferInstanceAs (Decidable True)
  | text _ :: rest => haveI := decidablePlaced v f rest; inferInstanceAs (Decidable (_ ∧ Placed v f rest))
  | name _ :: rest => haveI := decidablePlaced v f rest; inferInstanceAs (Decidable (_ ∧ Placed v f rest))

/-- The values, with `v` replaced. -/
def replaced (v r : Str) (f : Str → Str) (k : Str) : Str := if f k = v then r else f k

/-- Each value is placed, once those in front of it are replaced. -/
def PlacedAll (r : Str) : List Str → (Str → Str) → List Slot → Prop
  | [], _, _ => True
  | v :: vs, f, slots => Placed v f slots ∧ PlacedAll r vs (replaced v r f) slots

instance decidablePlacedAll (r : Str) : ∀ (vs : List Str) (f : Str → Str) (slots : List Slot), Decidable (PlacedAll r vs f slots)
  | [], _, _ => inferInstanceAs (Decidable True)
  | v :: vs, f, slots => haveI := decidablePlacedAll r vs (replaced v r f) slots; inferInstanceAs (Decidable (Placed v f slots ∧ _))

section
variable {v r : Str}

/-- A text in which `v` does not begin is passed over. -/
theorem replaceAll_skip {a b : Str} (h : ∀ t ∈ a.tails, t ≠ [] → ¬ v <+: t ++ b) : replaceAll v r (a ++ b) = a ++ replaceAll v r b := by
  induction a with
  | nil => rfl
  | cons c a ih =>
    have hstart : ¬ startsWith v (c :: (a ++ b)) = true := fun hpre =>
      h (c :: a) (by simp) (List.cons_ne_nil c a) (List.isPrefixOf_iff_prefix.1 hpre)
    rw [List.cons_append, replaceAll, replaceFrom, if_neg hstart]
    refine congrArg (c :: ·) (ih fun t ht => h t ?_)
    rw [List.tails_cons]
    exact List.mem_cons_of_mem _ ht

theorem replaceAll_eval (hv : v ≠ []) {f : Str → Str} : ∀ {slots : List Slot}, Placed v f slots →
    replaceAll v r (eval f slots) = eval (replaced v r f) slots
  | [], _ => rfl
  | text c :: rest, h => by
    have hstart : ¬ startsWith v (c :: eval f rest) = true := fun hpre => h.1 (List.isPrefixOf_iff_prefix.1 hpre)
    rw [eval, replaceAll, replaceFrom, if_neg hstart]
    exact congrArg (c :: ·) (replaceAll_eval hv h.2)
  | name k :: rest, h => by
    rw [eval, eval, replaced]
    by_cases hk : f k = v
    · rw [if_pos hk, hk, replaceAll_append hv, replaceAll_eval hv h.2]
    · rw [if_neg hk, replaceAll_skip (h.1.resolve_left hk), replaceAll_eval hv h.2]

/-- The replacements one after another put `r` for every value that is replaced. -/
theorem foldl_eval {slots : List Slot} : ∀ {vs : List Str} {f : Str → Str}, (∀ v ∈ vs, v ≠ []) → r ∉ vs → PlacedAll r vs f slots →
    vs.foldl (fun text v => replaceAll v r text) (eval f slots) = eval (fun k => if f k ∈ vs then r else f k) slots
  | [], f, _, _, _ => eval_congr fun k _ => (if_neg List.not_mem_nil).symm
  | v :: vs, f, hne, hr, h => by
    rw [List.foldl_cons, replaceAll_eval (hne v List.mem_cons_self) h.1,
      foldl_eval (fun w hw => hne w (List.mem_cons_of_mem v hw)) (fun hmem => hr (List.mem_cons_of_mem v hmem)) h.2]
    refine eval_congr fun k _ => ?_
    unfold replaced
    by_cases hk : f k = v
    · rw [if_pos hk, if_neg fun hmem => hr (List.mem_cons_of_mem v hmem), if_pos (hk ▸ List.mem_cons_self)]
    · rw [if_neg hk]
      have hiff : f k ∈ v :: vs ↔ f k ∈ vs := ⟨fun hmem => (List.mem_cons.1 hmem).resolve_left hk, List.mem_cons_of_mem v⟩
      rw [if_congr hiff rfl rfl]

end

end Slot

end Lib.Str
