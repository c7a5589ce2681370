import Mathlib

/-!
# Counted leases

Leases of one resource are taken and given back by holders; a counter for each holder and one for all are kept
beside them. Leases are numbered in the order in which they are taken: `out` are those held, with their holders,
and `back` those given back. A lease may change hands (`out` is permuted) without the counters noticing.
-/
namespace Lib

variable {U : Type} [DecidableEq U]

/-- The counters say what is held, and every lease taken is held or was given back, once. -/
structure Balanced (count : U → Nat) (total : Nat) (out : List (U × Nat)) (back : List Nat) (next : Nat) : Prop where
  count : ∀ u, count u = (out.map Prod.fst).count u
  total : total = out.length
  once : (out.map Prod.snd ++ back).Perm (List.range next)

namespace Balanced
variable {count : U → Nat} {total next : Nat} {out out' : List (U × Nat)} {back : List Nat}

theorem start : Balanced (fun _ : U => 0) 0 [] [] 0 := ⟨fun _ => rfl, rfl, List.Perm.refl _⟩

/-- Leases change hands within one holder's count. -/
theorem perm (h : Balanced count total out back next) (hp : out'.Perm out) : Balanced count total out' back next :=
  ⟨fun u => by rw [h.count, (hp.map Prod.fst).count_eq], by rw [h.total, hp.length_eq],
    ((hp.map Prod.snd).append_right back).trans h.once⟩

/-- The counters as other functions of the same values. -/
theorem congr (h : Balanced count total out back next) {count' : U → Nat} {total' : Nat} (hc : ∀ u, count' u = count u)
    (ht : total' = total) : Balanced count' total' out back next :=
  ⟨fun u => (hc u).trans (h.count u), ht.trans h.total, h.once⟩

theorem acquire (h : Balanced count total out back next) (u : U) :
    Balanced (fun v => if v = u then count u + 1 else count v) (total + 1) ((u, next) :: out) back (next + 1) := by
  refine ⟨?_, ?_, ?_⟩
  · intro v
    rw [List.map_cons, List.count_cons]
    by_cases hv : v = u
    · subst hv
      simp [h.count]
    · simp [hv, Ne.symm hv, h.count]
  · rw [h.total, List.length_cons]
  · rw [List.range_succ]
    exact (h.once.cons next).trans (List.perm_append_singleton ..).symm

theorem release {u : U} {n : Nat} (h : Balanced count total ((u, n) :: out) back next) :
    Balanced (fun v => if v = u then count u - 1 else count v) (total - 1) out (back ++ [n]) next := by
  refine ⟨?_, ?_, ?_⟩
  · intro v
    by_cases hv : v = u
    · subst hv
      simp [h.count]
    · simp [hv, Ne.symm hv, h.count]
  · rw [h.total, List.length_cons, Nat.add_sub_cancel]
  · refine List.Perm.trans ?_ h.once
    rw [← List.append_assoc]
    exact List.perm_append_singleton ..

/-- Whoever holds a lease is counted. -/
theorem pos {u : U} {n : Nat} (h : Balanced count total ((u, n) :: out) back next) : 0 < count u ∧ 0 < total := by
  constructor
  · rw [h.count]
    simp
  · rw [h.total]
    simp

/-- No lease is given back twice, and one is given back iff it was taken and nobody holds it. -/
theorem back_iff (h : Balanced count total out back next) :
    back.Nodup ∧ ∀ n, n ∈ back ↔ n < next ∧ ∀ u, (u, n) ∉ out := by
  have hnd : (out.map Prod.snd ++ back).Nodup := h.once.nodup_iff.2 List.nodup_range
  obtain ⟨hout, hback, hapart⟩ := List.nodup_append.1 hnd
  refine ⟨hback, ?_⟩
  intro n
  constructor
  · intro hn
    refine ⟨List.mem_range.1 (h.once.mem_iff.1 (List.mem_append_right _ hn)), ?_⟩
    intro u hu
    exact hapart n (List.mem_map_of_mem hu) n hn rfl
  · rintro ⟨hlt, hno⟩
    rcases List.mem_append.1 (h.once.mem_iff.2 (List.mem_range.2 hlt)) with hin | hin
    · obtain ⟨⟨u, m⟩, hmem, rfl⟩ := List.mem_map.1 hin
      exact absurd hmem (hno u)
    · exact hin

end Balanced
end Lib
