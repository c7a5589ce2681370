import Mathlib

/-!
# Ids, and the sequence that numbers them

A table as the set of its ids, beside the last number that its sequence gave. A row is written under an id of its own, or under the next
number, which is refused where a row has it already. `Ahead` says that no row has a number that the sequence is yet to give. Whether it holds
after a list of writes depends on what they are and where they start (`Writes.ahead_iff`).
-/
namespace Lib

structure Sequence where
  ids : Set Int
  last : Nat

namespace Sequence

/-- Every id is below the next number. -/
def Ahead (s : Sequence) : Prop := ∀ i ∈ s.ids, i < s.last + 1

/-- There are ids, and none that a sequence gives. -/
def Low (s : Sequence) : Prop := s.ids.Nonempty ∧ ∀ i ∈ s.ids, i < 1

/-- All ids are such as a sequence gives. -/
def Counted (s : Sequence) : Prop := ∀ i ∈ s.ids, 1 ≤ i

/-- A write under an id, or under the next number. -/
inductive Write : Option Int → Sequence → Sequence → Prop
  | own (i : Int) (s : Sequence) : Write (some i) s ⟨insert i s.ids, s.last⟩
  | next (s : Sequence) : (s.last + 1 : Int) ∉ s.ids → Write none s ⟨insert (s.last + 1 : Int) s.ids, s.last + 1⟩

inductive Writes : List (Option Int) → Sequence → Sequence → Prop
  | nil (s : Sequence) : Writes [] s s
  | cons {w : Option Int} {ws : List (Option Int)} {s m s' : Sequence} : Write w s m → Writes ws m s' → Writes (w :: ws) s s'

variable {w : Option Int} {ws : List (Option Int)} {s s' : Sequence}

theorem Counted.not_low (h : s.Counted) : ¬ s.Low := by
  rintro ⟨⟨i, hi⟩, hlow⟩
  have := h i hi
  have := hlow i hi
  omega

/-! ## One write -/

/-- A write under an id that is there, or under the next number, leaves the sequence as far ahead as it was. -/
theorem Write.ahead_iff (h : Write w s s') (hknown : ∀ i ∈ w, i ∈ s.ids) : s'.Ahead ↔ s.Ahead := by
  cases h with
  | own i =>
    have hsame : insert i s.ids = s.ids := Set.insert_eq_of_mem (hknown i rfl)
    rw [hsame]
  | next _ hfree =>
    unfold Ahead
    simp only [Set.forall_mem_insert]
    constructor
    · rintro ⟨-, hall⟩ i hi
      have hne : i ≠ s.last + 1 := by
        rintro rfl
        exact hfree hi
      have := hall i hi
      omega
    · intro hall
      refine ⟨by omega, fun i hi => ?_⟩
      have := hall i hi
      omega

theorem Write.counted (h : Write w s s') (hknown : ∀ i ∈ w, i ∈ s.ids) (hs : s.Counted) : s'.Counted := by
  cases h with
  | own i => exact Set.forall_mem_insert.2 ⟨hs i (hknown i rfl), hs⟩
  | next _ _ => exact Set.forall_mem_insert.2 ⟨by omega, hs⟩

theorem Write.subset (h : Write w s s') : s.ids ⊆ s'.ids := by
  cases h with
  | own i => exact Set.subset_insert ..
  | next _ _ => exact Set.subset_insert ..

/-! ## A list of writes -/

theorem Writes.last (h : Writes ws s s') : s'.last = s.last + ws.count none := by
  induction h with
  | nil => simp
  | cons hw _ ih =>
    cases hw with
    | own i => simpa using ih
    | next _ _ =>
      simp only [List.count_cons_self] at ih ⊢
      omega

/-- The ids that were there, those that were written, and the numbers that were given. -/
theorem Writes.mem_ids (h : Writes ws s s') (i : Int) : i ∈ s'.ids ↔ i ∈ s.ids ∨ some i ∈ ws ∨ (s.last : Int) < i ∧ i ≤ s'.last := by
  induction h with
  | nil => simp
  | @cons w ws s m s' hw hrest ih =>
    have hlast := hrest.last
    rw [ih]
    cases hw with
    | own j =>
      simp only [Set.mem_insert_iff, List.mem_cons, Option.some.injEq]
      tauto
    | next _ _ =>
      simp only [Set.mem_insert_iff, List.mem_cons, reduceCtorEq, false_or] at hlast ⊢
      constructor
      · rintro ((rfl | hi) | hi | hi)
        · right; right; omega
        · exact Or.inl hi
        · exact Or.inr (Or.inl hi)
        · right; right; omega
      · rintro (hi | hi | hi)
        · exact Or.inl (Or.inr hi)
        · exact Or.inr (Or.inl hi)
        · by_cases hnext : i = s.last + 1
          · exact Or.inl (Or.inl hnext)
          · right; right; omega

/-- **After a list of writes** the sequence is ahead, if the numbers it gave take it past the ids that were there or written. -/
theorem Writes.ahead_iff (h : Writes ws s s') : s'.Ahead ↔ ∀ i, i ∈ s.ids ∨ some i ∈ ws → i ≤ s.last + ws.count none := by
  have hlast := h.last
  unfold Ahead
  simp only [h.mem_ids]
  constructor
  · intro hall i hi
    have := hall i (hi.imp_right Or.inl)
    omega
  · rintro hall i (hi | hi | hi)
    · have := hall i (Or.inl hi)
      omega
    · have := hall i (Or.inr hi)
      omega
    · omega

/-- Only low ids come of a list of writes, if it writes such, and into an empty table, and numbers nothing. -/
theorem Writes.low_iff (h : Writes ws s s') (hs : s.Counted) : s'.Low ↔ s.ids = ∅ ∧ ws ≠ [] ∧ ∀ w ∈ ws, ∃ i, w = some i ∧ i < 1 := by
  have hlast := h.last
  constructor
  · rintro ⟨hsome, hlow⟩
    have hempty : s.ids = ∅ := by
      rw [Set.eq_empty_iff_forall_notMem]
      intro i hi
      have := hs i hi
      have := hlow i ((h.mem_ids i).2 (Or.inl hi))
      omega
    have hgiven : s'.last = s.last := by
      by_contra hne
      have := hlow s'.last ((h.mem_ids _).2 (Or.inr (Or.inr (by omega))))
      omega
    refine ⟨hempty, ?_, fun w hw => ?_⟩
    · rintro rfl
      obtain ⟨i, hi⟩ := hsome
      rw [h.mem_ids, hempty] at hi
      simp at hi
      omega
    · cases w with
      | none =>
        have := List.count_pos_iff.2 hw
        omega
      | some i => exact ⟨i, rfl, hlow i ((h.mem_ids i).2 (Or.inr (Or.inl hw)))⟩
  · rintro ⟨hempty, hne, hall⟩
    have hnone : ws.count none = 0 := List.count_eq_zero.2 fun hmem => by
      obtain ⟨i, hi, -⟩ := hall none hmem
      cases hi
    constructor
    · obtain ⟨w, hw⟩ := List.exists_mem_of_ne_nil ws hne
      obtain ⟨i, rfl, -⟩ := hall w hw
      exact ⟨i, (h.mem_ids i).2 (Or.inr (Or.inl hw))⟩
    · intro i hi
      rw [h.mem_ids, hempty] at hi
      rcases hi with hi | hi | hi
      · cases hi
      · obtain ⟨j, hj, hlow⟩ := hall _ hi
        obtain rfl := Option.some.inj hj
        exact hlow
      · omega

end Sequence
end Lib
