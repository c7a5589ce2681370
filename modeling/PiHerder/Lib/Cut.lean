import Mathlib

/-!
# Steps that change named files, cut at the first that fails

A list of steps is carried out until one fails, which may leave something under the name that it writes. Each step has an `Answer` of its
own, by its number. `Fate` says which steps of a list touch a name, and `run_fate` what is under the name where the list is cut.
-/
namespace Lib.Cut
variable {N C : Type} [DecidableEq N]

/-- Whether a step is carried out, whether it fails, and what a write that is not carried out leaves. -/
structure Answer (C : Type) where
  done : Bool := true
  raises : Bool := false
  left : Option C := none
deriving DecidableEq, Repr

/-- What a write of `c` puts under its name, if it touches it. -/
def Answer.wrote (c : C) (a : Answer C) : Option C := if a.done then some c else a.left

/-- A write fails when it is not carried out; whether something is moved or removed shows at once; an attempt never fails. -/
inductive Step (N C : Type)
  | pass
  | put (n : N) (c : C)
  | move (tmp n : N) (c : C)
  | drop (n : N)
  | attempt (n : N) (c : C)

def Step.stops (a : Answer C) : Step N C → Bool
  | pass => a.raises
  | put .. => a.raises || !a.done
  | move .. => !a.done
  | drop _ => a.raises
  | attempt .. => false

def Step.change (a : Answer C) (files : N → Option C) : Step N C → N → Option C
  | pass => files
  | put n c => if a.done then Function.update files n (some c) else a.left.elim files fun x => Function.update files n (some x)
  | move tmp n c => if a.done then Function.update (Function.update files tmp none) n (some c) else files
  | drop n => if a.done then Function.update files n none else files
  | attempt n c => if a.done then Function.update files n (some c) else files

/-- The names that a step may change. -/
def Step.names : Step N C → List N
  | pass => []
  | put n _ => [n]
  | move tmp n _ => [tmp, n]
  | drop n => [n]
  | attempt n _ => [n]

/-- How many steps pass, from the `k`th on. -/
def passed (answers : Nat → Answer C) : Nat → List (Step N C) → Nat
  | _, [] => 0
  | k, s :: ss => if s.stops (answers k) then 0 else passed answers (k + 1) ss + 1

def run (answers : Nat → Answer C) : Nat → List (Step N C) → (N → Option C) → N → Option C
  | _, [], files => files
  | k, s :: ss, files => if s.stops (answers k) then s.change (answers k) files else run answers (k + 1) ss (s.change (answers k) files)

section
variable {answers : Nat → Answer C} {k : Nat} {n : N} {c : C} {files : N → Option C}

theorem change_of_not_mem {a : Answer C} {s : Step N C} (h : n ∉ s.names) : s.change a files n = files n := by
  cases s with
  | pass => rfl
  | put m c =>
    have hne : n ≠ m := fun heq => h (heq ▸ List.mem_cons_self)
    simp only [Step.change]
    split
    · rw [Function.update_of_ne hne]
    · cases a.left with
      | none => rfl
      | some x => exact Function.update_of_ne hne _ _
  | move tmp m c =>
    have htmp : n ≠ tmp := fun heq => h (heq ▸ List.mem_cons_self)
    have hne : n ≠ m := fun heq => h (heq ▸ List.mem_cons_of_mem _ List.mem_cons_self)
    simp only [Step.change]
    split
    · rw [Function.update_of_ne hne, Function.update_of_ne htmp]
    · rfl
  | drop m =>
    have hne : n ≠ m := fun heq => h (heq ▸ List.mem_cons_self)
    simp only [Step.change]
    split
    · rw [Function.update_of_ne hne]
    · rfl
  | attempt m c =>
    have hne : n ≠ m := fun heq => h (heq ▸ List.mem_cons_self)
    simp only [Step.change]
    split
    · rw [Function.update_of_ne hne]
    · rfl

/-- Steps that do not name a file leave it. -/
theorem run_of_not_mem : ∀ {ss : List (Step N C)} {k : Nat} {files : N → Option C}, (∀ s ∈ ss, n ∉ s.names) →
    run answers k ss files n = files n
  | [], _, _, _ => rfl
  | s :: ss, k, files, h => by
    have hs : s.change (answers k) files n = files n := change_of_not_mem (h s List.mem_cons_self)
    rw [run]
    split
    · exact hs
    · rw [run_of_not_mem fun t ht => h t (List.mem_cons_of_mem s ht), hs]

omit [DecidableEq N] in
theorem passed_le : ∀ {ss : List (Step N C)} {k : Nat}, passed answers k ss ≤ ss.length
  | [], _ => Nat.le_refl 0
  | s :: ss, k => by
    rw [passed, List.length_cons]
    split
    · exact Nat.zero_le _
    · exact Nat.succ_le_succ passed_le

/-- A list is cut in its first part, or passes it. -/
theorem run_append (as bs : List (Step N C)) (k : Nat) (files : N → Option C) :
    (passed answers k as < as.length ∧ passed answers k (as ++ bs) = passed answers k as ∧ run answers k (as ++ bs) files = run answers k as files) ∨
      (passed answers k as = as.length ∧ passed answers k (as ++ bs) = as.length + passed answers (k + as.length) bs ∧
        run answers k (as ++ bs) files = run answers (k + as.length) bs (run answers k as files)) := by
  induction as generalizing k files with
  | nil => exact Or.inr ⟨rfl, by simp, rfl⟩
  | cons a as ih =>
    rw [List.cons_append, passed, passed, run, run, List.length_cons]
    by_cases hstop : a.stops (answers k) = true
    · rw [if_pos hstop, if_pos hstop, if_pos hstop, if_pos hstop]
      exact Or.inl ⟨Nat.succ_pos _, rfl, rfl⟩
    · rw [if_neg hstop, if_neg hstop, if_neg hstop, if_neg hstop]
      obtain ⟨hlt, hpassed, hrun⟩ | ⟨heq, hpassed, hrun⟩ := ih (k + 1) (a.change (answers k) files)
      · exact Or.inl ⟨Nat.succ_lt_succ hlt, by rw [hpassed], hrun⟩
      · have hshift : k + 1 + as.length = k + (as.length + 1) := by omega
        rw [hshift] at hpassed hrun
        exact Or.inr ⟨by rw [heq], by omega, hrun⟩

/-! ## What is under a name -/

/-- The steps that name a file: none, a write at `p`, or a write at `p` and a removal at `d`; a step that is missing counts as past the end. -/
inductive Fate (steps : List (Step N C)) (n : N) (c : C) : Nat → Nat → Prop
  | absent (h : ∀ s ∈ steps, n ∉ s.names) : Fate steps n c steps.length steps.length
  | kept (pre post : List (Step N C)) (hsteps : steps = pre ++ .put n c :: post) (hpre : ∀ s ∈ pre, n ∉ s.names)
      (hpost : ∀ s ∈ post, n ∉ s.names) : Fate steps n c pre.length steps.length
  | dropped (pre mid post : List (Step N C)) (hsteps : steps = pre ++ .put n c :: (mid ++ .drop n :: post)) (hpre : ∀ s ∈ pre, n ∉ s.names)
      (hmid : ∀ s ∈ mid, n ∉ s.names) (hpost : ∀ s ∈ post, n ∉ s.names) : Fate steps n c pre.length (pre.length + 1 + mid.length)

omit [DecidableEq N] in
/-- What is not written is not removed. -/
theorem Fate.absent_drop {steps : List (Step N C)} {p d : Nat} (h : Fate steps n c p d) (hp : p = steps.length) : d = steps.length := by
  cases h with
  | absent h => rfl
  | kept pre post hsteps hpre hpost => rfl
  | dropped pre mid post hsteps hpre hmid hpost =>
    subst hsteps
    simp at hp

/-- What a write leaves. -/
theorem change_put {a : Answer C} : (Step.put n c).change a files n = (a.wrote c).or (files n) := by
  simp only [Step.change, Answer.wrote]
  split
  · exact Function.update_self ..
  · cases a.left with
    | none => rfl
    | some x => exact Function.update_self ..

/-- From the write on. -/
theorem run_put {post : List (Step N C)} :
    run answers k (.put n c :: post) files n =
      if passed answers k (.put n c :: post) = 0 then ((answers k).wrote c).or (files n)
      else run answers (k + 1) post ((Step.put n c).change (answers k) files) n := by
  rw [run, passed]
  by_cases hstop : (Step.put n c : Step N C).stops (answers k) = true
  · rw [if_pos hstop, if_pos hstop, if_pos rfl, change_put]
  · rw [if_neg hstop, if_neg hstop, if_neg (Nat.succ_ne_zero _)]

omit [DecidableEq N] in
theorem done_of_passed {post : List (Step N C)} (h : passed answers k (.put n c :: post) ≠ 0) : (answers k).done = true := by
  by_contra hdone
  rw [Bool.not_eq_true] at hdone
  rw [passed, if_pos (by simp [Step.stops, hdone])] at h
  exact h rfl

/-- From the removal on. -/
theorem run_drop {post : List (Step N C)} (hpost : ∀ s ∈ post, n ∉ s.names) :
    run answers k (.drop n :: post) files n = if (answers k).done then none else files n := by
  have hchange : (Step.drop n : Step N C).change (answers k) files n = if (answers k).done then none else files n := by
    simp only [Step.change]
    split
    · exact Function.update_self ..
    · rfl
  rw [run]
  split
  · exact hchange
  · rw [run_of_not_mem hpost, hchange]

/-- The steps behind a write see what is written. -/
theorem passed_put (g : N → Option C) {post : List (Step N C)} (h : passed answers k (.put n c :: post) ≠ 0) :
    passed answers k (.put n c :: post) = passed answers (k + 1) post + 1 ∧ (Step.put n c).change (answers k) g n = some c := by
  have hdone := done_of_passed h
  rw [change_put, Answer.wrote, if_pos hdone, Option.some_or]
  rw [passed] at h ⊢
  split at h
  · exact absurd rfl h
  · rename_i hstop
    exact ⟨if_neg hstop, rfl⟩

/-- What is under a name, by how many steps have passed. -/
theorem run_fate {steps : List (Step N C)} {p d : Nat} (h : Fate steps n c p d) : run answers 0 steps files n =
    if passed answers 0 steps < p ∨ p = steps.length then files n
    else if passed answers 0 steps = p then ((answers p).wrote c).or (files n)
    else if d < steps.length ∧ d ≤ passed answers 0 steps ∧ (answers d).done then none else some c := by
  cases h with
  | absent h => rw [if_pos (Or.inr rfl), run_of_not_mem h]
  | kept pre post hsteps hpre hpost =>
    subst hsteps
    have hlength : pre.length ≠ (pre ++ Step.put n c :: post).length := by simp
    obtain ⟨hlt, hpassed, hrun⟩ | ⟨-, hpassed, hrun⟩ := @run_append _ _ _ answers pre (Step.put n c :: post) 0 files
    · rw [hrun, hpassed, if_pos (Or.inl hlt), run_of_not_mem hpre]
    · rw [Nat.zero_add] at hpassed hrun
      have hhead : ¬ (passed answers 0 (pre ++ Step.put n c :: post) < pre.length ∨
          pre.length = (pre ++ Step.put n c :: post).length) := by omega
      rw [hrun, run_put, run_of_not_mem hpre, if_neg hhead]
      by_cases hzero : passed answers pre.length (Step.put n c :: post) = 0
      · have hat : passed answers 0 (pre ++ Step.put n c :: post) = pre.length := by omega
        rw [if_pos hzero, if_pos hat]
      · obtain ⟨hsucc, hchange⟩ := passed_put (run answers 0 pre files) hzero
        have hpast : passed answers 0 (pre ++ Step.put n c :: post) ≠ pre.length := by omega
        rw [if_neg hzero, if_neg hpast, if_neg (fun h => Nat.lt_irrefl _ h.1), run_of_not_mem hpost, hchange]
  | dropped pre mid post hsteps hpre hmid hpost =>
    subst hsteps
    obtain ⟨hlt, hpassed, hrun⟩ | ⟨-, hpassed, hrun⟩ :=
      @run_append _ _ _ answers pre (Step.put n c :: (mid ++ Step.drop n :: post)) 0 files
    · rw [hrun, hpassed, if_pos (Or.inl hlt), run_of_not_mem hpre]
    · rw [Nat.zero_add] at hpassed hrun
      have hlength : pre.length ≠ (pre ++ Step.put n c :: (mid ++ Step.drop n :: post)).length := by simp
      have hin : pre.length + 1 + mid.length < (pre ++ Step.put n c :: (mid ++ Step.drop n :: post)).length := by simp; omega
      have hhead : ¬ (passed answers 0 (pre ++ Step.put n c :: (mid ++ Step.drop n :: post)) < pre.length ∨
          pre.length = (pre ++ Step.put n c :: (mid ++ Step.drop n :: post)).length) := by omega
      rw [hrun, run_put, run_of_not_mem hpre, if_neg hhead]
      by_cases hzero : passed answers pre.length (Step.put n c :: (mid ++ Step.drop n :: post)) = 0
      · have hat : passed answers 0 (pre ++ Step.put n c :: (mid ++ Step.drop n :: post)) = pre.length := by omega
        rw [if_pos hzero, if_pos hat]
      · obtain ⟨hsucc, hchange⟩ := passed_put (run answers 0 pre files) hzero
        have hpast : passed answers 0 (pre ++ Step.put n c :: (mid ++ Step.drop n :: post)) ≠ pre.length := by omega
        rw [if_neg hzero, if_neg hpast]
        obtain ⟨hlt, hmidPassed, hrun⟩ | ⟨-, hmidPassed, hrun⟩ := @run_append _ _ _ answers mid (Step.drop n :: post) (pre.length + 1)
          ((Step.put n c).change (answers pre.length) (run answers 0 pre files))
        · have hbefore : ¬ pre.length + 1 + mid.length ≤ passed answers 0 (pre ++ Step.put n c :: (mid ++ Step.drop n :: post)) := by omega
          rw [hrun, run_of_not_mem hmid, hchange, if_neg fun h => hbefore h.2.1]
        · rw [hrun, run_drop hpost, run_of_not_mem hmid, hchange]
          by_cases hdone : (answers (pre.length + 1 + mid.length)).done = true
          · rw [if_pos hdone, if_pos ⟨hin, by omega, hdone⟩]
          · rw [if_neg hdone, if_neg fun h => hdone h.2.2]

/-- What is there stays there, unless a step removes it. -/
theorem run_present : ∀ {ss : List (Step N C)} {k : Nat} {files : N → Option C}, (∀ s ∈ ss, s ≠ .drop n ∧ ∀ m x, s ≠ .move n m x) → files n ≠ none →
    run answers k ss files n ≠ none
  | [], _, _, _, h => h
  | s :: ss, k, files, hss, h => by
    have hchange : s.change (answers k) files n ≠ none := by
      by_cases hn : n ∈ s.names
      · cases s with
        | pass => exact h
        | put m c =>
          obtain rfl := List.mem_singleton.1 hn
          rw [change_put]
          cases (answers k).wrote c with
          | none => exact h
          | some x => exact Option.some_ne_none x
        | move tmp m c =>
          have htmp : n ≠ tmp := fun heq => (hss _ List.mem_cons_self).2 m c (by rw [heq])
          obtain rfl : n = m := by simpa [Step.names, htmp] using hn
          simp only [Step.change]
          split
          · simp
          · exact h
        | drop m =>
          obtain rfl := List.mem_singleton.1 hn
          exact absurd rfl (hss _ List.mem_cons_self).1
        | attempt m c =>
          obtain rfl := List.mem_singleton.1 hn
          simp only [Step.change]
          split
          · simp
          · exact h
      · rw [change_of_not_mem hn]
        exact h
    rw [run]
    split
    · exact hchange
    · exact run_present (fun t ht => hss t (List.mem_cons_of_mem s ht)) hchange

/-- A file that is moved to its name at `p` is there when the move has passed. -/
theorem run_move {pre post : List (Step N C)} {tmp : N} (hpre : ∀ s ∈ pre, n ∉ s.names) (hpost : ∀ s ∈ post, n ∉ s.names) :
    run answers 0 (pre ++ .move tmp n c :: post) files n =
      if passed answers 0 (pre ++ .move tmp n c :: post) ≤ pre.length then files n else some c := by
  obtain ⟨hlt, hpassed, hrun⟩ | ⟨-, hpassed, hrun⟩ := @run_append _ _ _ answers pre (Step.move tmp n c :: post) 0 files
  · rw [hrun, hpassed, if_pos (Nat.le_of_lt hlt), run_of_not_mem hpre]
  · rw [Nat.zero_add] at hpassed hrun
    rw [hrun, hpassed, run, passed]
    cases hdone : (answers pre.length).done with
    | false =>
      have hstop : (Step.move tmp n c : Step N C).stops (answers pre.length) = true := by simp [Step.stops, hdone]
      rw [if_pos hstop, if_pos hstop, Nat.add_zero, if_pos (Nat.le_refl _)]
      simp only [Step.change, hdone, Bool.false_eq_true, if_false]
      exact run_of_not_mem hpre
    | true =>
      have hstop : ¬ (Step.move tmp n c : Step N C).stops (answers pre.length) = true := by simp [Step.stops, hdone]
      rw [if_neg hstop, if_neg hstop, if_neg (by omega), run_of_not_mem hpost]
      simp only [Step.change, hdone, if_true]
      exact Function.update_self ..

end

end Lib.Cut
