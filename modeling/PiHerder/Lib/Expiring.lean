import PiHerder.Lib.Dict

/-!
# Stores whose entries expire

`Expiring K V` maps a key to a value and the time the entry expires at; `peek now` reads what has not
expired yet. `setNx`, `delIf` and `expireIf` are the atomic commands of a Redis server: `SET k v NX EX ttl`,
and the two scripts that delete, or extend, an entry which still has the given value.
-/
namespace Lib

abbrev Expiring (K V : Type) := Dict K (V × Nat)

namespace Expiring
variable {K V : Type} [DecidableEq K]

def peek (now : Nat) (k : K) (d : Expiring K V) : Option V :=
  match d.get? k with
  | some (v, exp) => if now < exp then some v else none
  | none => none

theorem peek_eq_some {now : Nat} {k : K} {v : V} {d : Expiring K V} :
    peek now k d = some v ↔ ∃ exp, d.get? k = some (v, exp) ∧ now < exp := by
  unfold peek
  cases hget : d.get? k with
  | none => simp
  | some e =>
    obtain ⟨v', exp⟩ := e
    by_cases h : now < exp
    · simp only [if_pos h, Option.some.injEq, Prod.mk.injEq]
      constructor
      · rintro rfl
        exact ⟨exp, ⟨rfl, rfl⟩, h⟩
      · rintro ⟨exp', ⟨rfl, -⟩, -⟩
        rfl
    · simp only [if_neg h, Option.some.injEq, Prod.mk.injEq, reduceCtorEq, false_iff, not_exists, not_and]
      rintro exp' ⟨-, rfl⟩
      exact h

@[simp] theorem peek_nil (now : Nat) (k : K) : peek now k ([] : Expiring K V) = none := rfl

theorem peek_set (now : Nat) (k k' : K) (v : V) (exp : Nat) (d : Expiring K V) :
    peek now k' (d.set k (v, exp)) = if k' = k then (if now < exp then some v else none) else peek now k' d := by
  unfold peek
  rw [Dict.get?_set]
  by_cases h : k' = k <;> simp [h]

theorem peek_del (now : Nat) (k k' : K) (d : Expiring K V) :
    peek now k' (d.del k) = if k' = k then none else peek now k' d := by
  unfold peek
  rw [Dict.get?_del]
  by_cases h : k' = k <;> simp [h]

/-- Time only takes entries away. -/
theorem peek_of_later {now later : Nat} {k : K} {v : V} {d : Expiring K V} (hle : now ≤ later)
    (h : peek later k d = some v) : peek now k d = some v := by
  rw [peek_eq_some] at h ⊢
  obtain ⟨exp, hget, hlt⟩ := h
  exact ⟨exp, hget, Nat.lt_of_le_of_lt hle hlt⟩

/-- `SET k v NX EX ttl`, and whether it was set. -/
def setNx (now : Nat) (k : K) (v : V) (ttl : Nat) (d : Expiring K V) : Bool × Expiring K V :=
  if (peek now k d).isSome then (false, d) else (true, d.set k (v, now + ttl))

variable [DecidableEq V]

/-- Delete the entry under `k` if its value is `v`. -/
def delIf (now : Nat) (k : K) (v : V) (d : Expiring K V) : Bool × Expiring K V :=
  if peek now k d = some v then (true, d.del k) else (false, d)

/-- Set the expiry of the entry under `k` if its value is `v`. -/
def expireIf (now : Nat) (k : K) (v : V) (ttl : Nat) (d : Expiring K V) : Bool × Expiring K V :=
  if peek now k d = some v then (true, d.set k (v, now + ttl)) else (false, d)

end Expiring
end Lib
