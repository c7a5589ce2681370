import Mathlib

/-!
# Sliding windows

A limiter that keeps the times it let in during the last `window`, and lets in while there are fewer than `limit` of them.
Where the clock does not go back, no stretch of that length has more than `limit` (`admitted_le`), and nothing is refused
that would not be one too many (`refused_full`).
-/
namespace Lib

/-- How many at most, and in how long. -/
structure Rate where
  limit : Nat
  window : Int
deriving DecidableEq, Repr

namespace Rate
variable (q : Rate)

/-- What still counts at `now`. -/
def kept (now : Int) (log : List Int) : List Int := log.filter fun t => decide (now - t < q.window)

/-- One attempt at `now`, and the log it leaves. -/
def attempt (now : Int) (log : List Int) : Bool × List Int :=
  if q.limit ≤ (q.kept now log).length then (false, q.kept now log) else (true, q.kept now log ++ [now])

/-- The log, and the times that were let in. -/
def step (s : List Int × List Int) (now : Int) : List Int × List Int :=
  ((q.attempt now s.1).2, if (q.attempt now s.1).1 then s.2 ++ [now] else s.2)

def run (nows : List Int) : List Int × List Int := nows.foldl q.step ([], [])

def after (nows : List Int) : List Int := (q.run nows).1

def admitted (nows : List Int) : List Int := (q.run nows).2

/-- Is one more attempt let in? -/
def lets (nows : List Int) (now : Int) : Bool := (q.attempt now (q.after nows)).1

/-- The admitted times of the stretch of a window that ends at `t`. -/
def within (t : Int) (times : List Int) : List Int := times.filter fun a => decide (t - q.window < a ∧ a ≤ t)

variable {q}

theorem run_append (nows : List Int) (now : Int) : q.run (nows ++ [now]) = q.step (q.run nows) now := by
  simp [run]

theorem after_append (nows : List Int) (now : Int) : q.after (nows ++ [now]) = (q.attempt now (q.after nows)).2 := by
  simp [after, run_append, step]

theorem admitted_append (nows : List Int) (now : Int) :
    q.admitted (nows ++ [now]) = if q.lets nows now then q.admitted nows ++ [now] else q.admitted nows := by
  rw [admitted, run_append]
  rfl

@[simp] theorem admitted_nil : q.admitted [] = [] := rfl

theorem kept_append (now : Int) (l m : List Int) : q.kept now (l ++ m) = q.kept now l ++ q.kept now m := by
  simp [kept]

theorem kept_kept {now n : Int} (h : now ≤ n) (log : List Int) : q.kept n (q.kept now log) = q.kept n log := by
  simp only [kept, List.filter_filter]
  refine List.filter_congr fun t _ => ?_
  simp only [← Bool.decide_and]
  refine decide_eq_decide.2 ⟨fun h => h.1, fun hn => ⟨hn, by omega⟩⟩

/-- The log has what was let in and still counts. -/
theorem kept_after {nows : List Int} (hclock : nows.Pairwise (· ≤ ·)) :
    ∀ n, (∀ now ∈ nows, now ≤ n) → q.kept n (q.after nows) = q.kept n (q.admitted nows) := by
  induction nows using List.reverseRecOn with
  | nil => intro n _; rfl
  | append_singleton nows now ih =>
    intro n hn
    rw [List.pairwise_append] at hclock
    have hnow : ∀ t ∈ nows, t ≤ now := fun t ht => hclock.2.2 t ht now (by simp)
    have hle : now ≤ n := hn now (by simp)
    have hkeep := ih hclock.1 n fun t ht => hn t (by simp [ht])
    rw [after_append, admitted_append]
    unfold lets attempt
    split
    · simp [kept_kept hle, hkeep]
    · simp [kept_append, kept_kept hle, hkeep]

theorem mem_of_mem_admitted {nows : List Int} : ∀ {a : Int}, a ∈ q.admitted nows → a ∈ nows := by
  induction nows using List.reverseRecOn with
  | nil => intro a h; simp at h
  | append_singleton nows now ih =>
    intro a h
    rw [admitted_append] at h
    split at h
    · rcases List.mem_append.1 h with h | h
      · exact List.mem_append_left _ (ih h)
      · exact List.mem_append_right _ h
    · exact List.mem_append_left _ (ih h)

/-- **No stretch of a window's length has more than the limit.** -/
theorem admitted_le {nows : List Int} (hclock : nows.Pairwise (· ≤ ·)) (t : Int) :
    (q.within t (q.admitted nows)).length ≤ q.limit := by
  induction nows using List.reverseRecOn with
  | nil => simp [within]
  | append_singleton nows now ih =>
    rw [List.pairwise_append] at hclock
    have hle := ih hclock.1
    have hlast : ∀ a ∈ q.admitted nows, a ≤ now := fun a ha => hclock.2.2 a (mem_of_mem_admitted ha) now (by simp)
    rw [admitted_append]
    cases hlets : q.lets nows now with
    | false => simpa using hle
    | true =>
      simp only [if_true]
      by_cases hin : t - q.window < now ∧ now ≤ t
      · -- all that counts at `t` still counts at `now`
        have hsub : (q.within t (q.admitted nows)).length ≤ (q.kept now (q.admitted nows)).length := by
          simp only [within, kept, ← List.countP_eq_length_filter]
          refine List.countP_mono_left fun a _ ha => ?_
          simp only [decide_eq_true_eq] at ha ⊢
          omega
        have hroom : (q.kept now (q.admitted nows)).length < q.limit := by
          rw [← kept_after hclock.1 now fun a ha => hclock.2.2 a ha now (by simp)]
          unfold lets attempt at hlets
          split at hlets
          · cases hlets
          · omega
        have hsplit : q.within t (q.admitted nows ++ [now]) = q.within t (q.admitted nows) ++ [now] := by
          simp [within, hin]
        rw [hsplit, List.length_append, List.length_singleton]
        omega
      · have hsplit : q.within t (q.admitted nows ++ [now]) = q.within t (q.admitted nows) := by
          simp [within, hin]
        rwa [hsplit]

/-- **What is refused would be one too many.** -/
theorem refused_full {nows : List Int} {now : Int} (hclock : (nows ++ [now]).Pairwise (· ≤ ·)) (h : q.lets nows now = false) :
    (q.within now (q.admitted nows)).length = q.limit := by
  rw [List.pairwise_append] at hclock
  have hpast : ∀ a ∈ nows, a ≤ now := fun a ha => hclock.2.2 a ha now (by simp)
  have hsame : q.within now (q.admitted nows) = q.kept now (q.admitted nows) := by
    refine List.filter_congr fun a ha => decide_eq_decide.2 ?_
    have := hpast a (mem_of_mem_admitted ha)
    omega
  refine Nat.le_antisymm (admitted_le hclock.1 now) ?_
  rw [hsame, ← kept_after hclock.1 now hpast]
  unfold lets attempt at h
  split at h
  · assumption
  · cases h

end Rate
end Lib
