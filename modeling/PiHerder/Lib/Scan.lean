import Mathlib

/-!
# Scanning

A scanner takes one token off the front of its input, or nothing when the input ends within one. What it leaves is held.
-/
namespace Lib

variable {α τ : Type}

structure Scanner (α τ : Type) where
  next : List α → Option (τ × List α)
  takes : ∀ {s t rest}, next s = some (t, rest) → ∃ u, u ≠ [] ∧ s = u ++ rest

namespace Scanner
variable (m : Scanner α τ)

/-- A token has at least one element, so the length is fuel enough. -/
def scanFuel : Nat → List α → List τ × List α
  | 0, s => ([], s)
  | n + 1, s =>
    match m.next s with
    | none => ([], s)
    | some (t, rest) => (t :: (scanFuel n rest).1, (scanFuel n rest).2)

/-- The tokens, and what is held. -/
def scan (s : List α) : List τ × List α := m.scanFuel s.length s

variable {m}

theorem shorter {s rest : List α} {t : τ} (h : m.next s = some (t, rest)) : rest.length < s.length := by
  obtain ⟨u, hu, rfl⟩ := m.takes h
  have hpos := List.length_pos_iff.2 hu
  simp only [List.length_append]
  omega

theorem next_nil : m.next [] = none := by
  cases h : m.next [] with
  | none => rfl
  | some out =>
    have hlt : out.2.length < ([] : List α).length := shorter h
    exact absurd hlt (Nat.not_lt_zero _)

theorem scanFuel_eq {n : Nat} : ∀ {s : List α}, s.length ≤ n → m.scanFuel n s = m.scan s := by
  induction n using Nat.strong_induction_on with
  | _ n ih =>
    intro s hs
    cases n with
    | zero =>
      obtain rfl := List.length_eq_zero_iff.1 (Nat.le_zero.1 hs)
      rfl
    | succ n =>
      cases hl : s.length with
      | zero =>
        obtain rfl := List.length_eq_zero_iff.1 hl
        simp [scanFuel, scan, next_nil]
      | succ l =>
        unfold scan
        rw [hl]
        unfold scanFuel
        cases h : m.next s with
        | none => rfl
        | some out =>
          have hlt : out.2.length < s.length := shorter h
          simp only
          rw [ih n (by omega) (by omega), ih l (by omega) (by omega)]

theorem scan_none {s : List α} (h : m.next s = none) : m.scan s = ([], s) := by
  unfold scan
  cases s.length <;> simp [scanFuel, h]

theorem scan_some {s rest : List α} {t : τ} (h : m.next s = some (t, rest)) : m.scan s = (t :: (m.scan rest).1, (m.scan rest).2) := by
  have hlt := shorter h
  unfold scan
  cases hl : s.length with
  | zero => omega
  | succ n =>
    simp only [scanFuel, h]
    rw [scanFuel_eq (by omega)]
    rfl

theorem scan_nil : m.scan [] = ([], []) := scan_none next_nil

end Scanner

end Lib
