import Mathlib

/-!
# Runs of an event-driven system

A system is a total step function `step : σ → ε → σ`; a run is a list of events. An invariant is
proved once per event and then holds after every run. `Guarded step ok` restricts the runs to those
whose every event meets a condition on the state it finds.
-/
namespace Lib

variable {σ ε : Type}

/-- The state after a run. -/
def runs (step : σ → ε → σ) (s : σ) (es : List ε) : σ := es.foldl step s

@[simp] theorem runs_nil (step : σ → ε → σ) (s : σ) : runs step s [] = s := rfl
@[simp] theorem runs_cons (step : σ → ε → σ) (s : σ) (e : ε) (es : List ε) :
    runs step s (e :: es) = runs step (step s e) es := rfl

theorem runs_append (step : σ → ε → σ) (s : σ) (es fs : List ε) :
    runs step s (es ++ fs) = runs step (runs step s es) fs := by
  simp [runs, List.foldl_append]

/-- Every event of the run finds a state in which `ok` holds of it. -/
def Guarded (step : σ → ε → σ) (ok : σ → ε → Prop) : σ → List ε → Prop
  | _, [] => True
  | s, e :: es => ok s e ∧ Guarded step ok (step s e) es

/-- A run is guarded iff each of its events is admitted in the state its prefix leads to. -/
theorem guarded_iff {step : σ → ε → σ} {ok : σ → ε → Prop} :
    ∀ {es : List ε} {s : σ}, Guarded step ok s es ↔
      ∀ pre e post, es = pre ++ e :: post → ok (runs step s pre) e
  | [], _ => by simp [Guarded]
  | e :: es, s => by
    simp only [Guarded, @guarded_iff step ok es]
    constructor
    · rintro ⟨he, hes⟩ pre f post hsplit
      cases pre with
      | nil => obtain ⟨rfl, -⟩ := List.cons.inj hsplit; exact he
      | cons g pre =>
        obtain ⟨rfl, htail⟩ := List.cons.inj hsplit
        exact hes pre f post htail
    · intro h
      exact ⟨h [] e es rfl, fun pre f post hsplit => h (e :: pre) f post (by rw [hsplit]; rfl)⟩

theorem Guarded.of_append {step : σ → ε → σ} {ok : σ → ε → Prop} {s : σ} {es fs : List ε}
    (h : Guarded step ok s (es ++ fs)) : Guarded step ok s es := by
  rw [guarded_iff] at h ⊢
  intro pre e post hsplit
  exact h pre e (post ++ fs) (by rw [hsplit, List.append_assoc, List.cons_append])

/-- Events that are admitted wherever they come. -/
theorem Guarded.of_forall {step : σ → ε → σ} {ok : ε → Prop} : ∀ {es : List ε} {s : σ},
    (∀ e ∈ es, ok e) → Guarded step (fun _ e => ok e) s es
  | [], _, _ => trivial
  | e :: _, _, h => ⟨h e List.mem_cons_self, Guarded.of_forall fun f hf => h f (List.mem_cons_of_mem e hf)⟩

/-- **The invariant rule.** What every admitted event keeps holds after every admitted run. -/
theorem runs_invariant {step : σ → ε → σ} {ok : σ → ε → Prop} {I : σ → Prop}
    (hstep : ∀ s e, I s → ok s e → I (step s e)) :
    ∀ (es : List ε) (s : σ), I s → Guarded step ok s es → I (runs step s es)
  | [], _, hs, _ => hs
  | e :: es, s, hs, hg => runs_invariant hstep es (step s e) (hstep s e hs hg.1) hg.2

/-- What every event keeps holds after every run. -/
theorem runs_keeps {step : σ → ε → σ} {I : σ → Prop} (hstep : ∀ s e, I s → I (step s e)) :
    ∀ (es : List ε) (s : σ), I s → I (runs step s es)
  | [], _, hs => hs
  | e :: es, s, hs => runs_keeps hstep es (step s e) (hstep s e hs)

/-- **The exact rule.** Where an event keeps `P` and does `Q` exactly when `ok` admits it, a run has `P`
all along and `Q` of each of its events exactly when it is guarded. -/
theorem runs_hold_iff {step : σ → ε → σ} {ok Q : σ → ε → Prop} {I P : σ → Prop} {s : σ}
    (hI : ∀ s e, I s → I (step s e)) (hstep : ∀ s e, I s → P s → (P (step s e) ∧ Q s e ↔ ok s e))
    (hs : I s) (hP : P s) (es : List ε) :
    ((∀ pre post, es = pre ++ post → P (runs step s pre)) ∧
      ∀ pre e post, es = pre ++ e :: post → Q (runs step s pre) e) ↔ Guarded step ok s es := by
  have hinv := fun pre => runs_keeps hI pre s hs
  rw [guarded_iff]
  constructor
  · rintro ⟨hp, hq⟩ pre e post rfl
    refine (hstep _ e (hinv pre) (hp pre (e :: post) rfl)).1 ⟨?_, hq pre e post rfl⟩
    have hnext := hp (pre ++ [e]) post (by simp)
    rwa [runs_append, runs_cons, runs_nil] at hnext
  · intro h
    have hp : ∀ pre post, es = pre ++ post → P (runs step s pre) := by
      intro pre
      induction pre using List.reverseRecOn with
      | nil => exact fun _ _ => hP
      | append_singleton pre e ih =>
        intro post heq
        have heq' : es = pre ++ e :: post := by rw [heq, List.append_assoc, List.singleton_append]
        rw [runs_append, runs_cons, runs_nil]
        exact ((hstep _ e (hinv pre) (ih (e :: post) heq')).2 (h pre e post heq')).1
    exact ⟨hp, fun pre e post heq =>
      ((hstep _ e (hinv pre) (hp pre (e :: post) heq)).2 (h pre e post heq)).2⟩

end Lib
