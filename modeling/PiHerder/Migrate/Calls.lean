import PiHerder.Migrate.Pipeline

/-!
# The calls of a Move

What a run may call (`MoveCall`), whatever its hosts answer, and what a copy that returns has called and
got answered (`Copied`).
-/
namespace PiHerder.Migrate
open Lib Lib.Str

/-! ## Single calls -/

theorem run_calls (world : Nat → Answer) (c : Call) (s : RunState) :
    (run world c s).2.calls = s.calls ++ [c] ∧ (run world c s).2.steps = s.steps := by
  unfold run call
  rw [Eff.bind_apply]
  cases world s.calls.length <;> exact ⟨rfl, rfl⟩

theorem checked_calls (world : Nat → Answer) (c : Call) (err : Report → PyExc) (s : RunState) :
    (checked world c err s).2.calls = s.calls ++ [c] ∧ (checked world c err s).2.steps = s.steps := by
  unfold checked call
  rw [Eff.bind_apply]
  cases world s.calls.length with
  | error e => exact ⟨rfl, rfl⟩
  | ok r =>
    simp only
    split <;> exact ⟨rfl, rfl⟩

theorem lift_keeps {α : Type} {P : RunState → Prop} (x : Except PyExc α) : Eff.Keeps P (lift x) := by
  cases x with
  | ok a => exact Eff.Keeps.pure a
  | error e => exact Eff.Keeps.raise e

theorem guardCopy_keeps {P : RunState → Prop} {m : PipeM Unit} (hm : Eff.Keeps P m) : Eff.Keeps P (guardCopy m) :=
  hm.tryCatch fun e => by cases e <;> exact Eff.Keeps.raise _

theorem retrying_keeps {P : RunState → Prop} {m again : PipeM Unit} (hm : Eff.Keeps P m) (ha : Eff.Keeps P again) :
    Eff.Keeps P (retrying m again) :=
  hm.tryCatch fun e => by
    cases e with
    | typeError message => exact ha
    | _ => exact Eff.Keeps.raise _

/-! ## What a run may call -/

/-- The calls a step of the plan may make, the second attempt of each included. -/
def CopyStep.calls (kindOf : Str → RemoteKind) : CopyStep → List Call
  | .volume v d => [.volume v d, .volume v v]
  | .fold src _ => [.pull src (decide (kindOf src = .file)), .pull src false]
  | .bind src dest => [.pull src false, .push dest true, .push dest false]
  | .refuse _ => []

/-- The calls of a Move. -/
inductive MoveCall (m : MoveInput) (name : Str) : Call → Prop
  | stop : MoveCall m name (.stop (m.copyInput name).srcProj)
  | pullProject : MoveCall m name .pullProject
  | copy {step : CopyStep} {c : Call} (hstep : step ∈ m.plan name) (hc : c ∈ step.calls m.kindOf) : MoveCall m name c
  | overrides : MoveCall m name .overrides
  | push (delete : Bool) : MoveCall m name (.push (m.copyInput name).dstProj delete)
  | chown : MoveCall m name (.chown (m.copyInput name).dstProj)
  | removeGhosts : MoveCall m name (.removeGhosts (m.copyInput name).destName)
  | up : MoveCall m name (.up (m.copyInput name).dstProj)
  | cutover : MoveCall m name .cutover
  | rebind : MoveCall m name .rebind
  | validate : MoveCall m name .validate
  | down {path : Str} (hpath : jailedSourceProjectPath m.source name = .ok path)
      (hmode : normalizeLeftover m.leftover ≠ .stopped) : MoveCall m name (.down path)
  | removeVolume {vol : Str} (hvol : vol ∈ namedVolumesFromDataset [] (m.preflight name).dataset.items)
      (hmode : normalizeLeftover m.leftover = .remove) : MoveCall m name (.removeVolume vol)
  | removeTree {path : Str} (hpath : leftoverPath m.source name (m.copyInput name).srcProj = .ok path)
      (hwant : jailedSourceProjectPath m.source name = .ok path) (hmode : normalizeLeftover m.leftover = .remove) :
      MoveCall m name (.removeTree path)
  | leftoverRows : MoveCall m name .leftoverRows

/-- A property that every reported step and every call of the Move keeps. -/
structure CallInvariant (m : MoveInput) (name : Str) (P : RunState → Prop) : Prop where
  step : ∀ (s : RunState) (reported : Step), P s → P { s with steps := s.steps ++ [reported] }
  call : ∀ {c} {s t : RunState}, MoveCall m name c → P s → t.calls = s.calls ++ [c] → t.steps = s.steps → P t

section Keeps
variable {world : Nat → Answer} {m : MoveInput} {name : Str} {P : RunState → Prop}

theorem CallInvariant.run (hP : CallInvariant m name P) {c : Call} (hc : MoveCall m name c) : Eff.Keeps P (run world c) :=
  fun s hs => hP.call hc hs (run_calls world c s).1 (run_calls world c s).2

theorem CallInvariant.checked (hP : CallInvariant m name P) {c : Call} {err : Report → PyExc} (hc : MoveCall m name c) :
    Eff.Keeps P (checked world c err) := fun s hs => hP.call hc hs (checked_calls world c err s).1 (checked_calls world c err s).2

theorem CallInvariant.report (hP : CallInvariant m name P) (reported : Step) : Eff.Keeps P (Migrate.step reported) :=
  Eff.Keeps.modify fun s hs => hP.step s reported hs

/-- A guarded call with its second attempt. -/
theorem CallInvariant.twice (hP : CallInvariant m name P) {c c' : Call} (hc : MoveCall m name c) (hc' : MoveCall m name c') :
    Eff.Keeps P (retrying (guardCopy (Migrate.run world c)) (guardCopy (Migrate.run world c'))) :=
  retrying_keeps (guardCopy_keeps (hP.run hc)) (guardCopy_keeps (hP.run hc'))

theorem CallInvariant.copyStep (hP : CallInvariant m name P) {cs : CopyStep} (hcs : cs ∈ m.plan name) :
    Eff.Keeps P (copyStep world m.kindOf cs) := by
  have hcall : ∀ {c}, c ∈ cs.calls m.kindOf → MoveCall m name c := fun hc => .copy hcs hc
  cases cs with
  | volume v d => exact hP.twice (hcall (by simp [CopyStep.calls])) (hcall (by simp [CopyStep.calls]))
  | fold src dest => exact hP.twice (hcall (by simp [CopyStep.calls])) (hcall (by simp [CopyStep.calls]))
  | bind src dest =>
    exact (hP.twice (hcall (by simp [CopyStep.calls])) (hcall (by simp [CopyStep.calls]))).bind fun _ =>
      hP.twice (hcall (by simp [CopyStep.calls])) (hcall (by simp [CopyStep.calls]))
  | refuse src => exact Eff.Keeps.raise _

theorem CallInvariant.copyPhase (hP : CallInvariant m name P) : Eff.Keeps P (copyPhase world m name) := by
  refine (hP.twice .pullProject .pullProject).bind fun _ => ?_
  refine (Eff.Keeps.forEach fun cs hcs => hP.copyStep hcs).bind fun _ => (hP.run .overrides).bind fun _ => ?_
  refine (hP.twice (.push true) (.push false)).bind fun _ => ?_
  refine Eff.Keeps.bind ?_ fun _ => hP.checked .removeGhosts
  exact retrying_keeps (guardCopy_keeps (hP.run .chown)) (hP.twice .chown .chown)

theorem CallInvariant.namesPhases (world : Nat → Answer) (hP : CallInvariant m name P) : Eff.Keeps P (cutoverPhase world) ∧
    Eff.Keeps P (rebindPhase world) ∧ Eff.Keeps P (validatePhase world) := by
  refine ⟨?_, ?_, ?_⟩
  · exact (retrying_keeps (hP.run .cutover) (hP.run .cutover)).tryCatch fun e => by cases e <;> exact Eff.Keeps.raise _
  · exact (retrying_keeps (hP.run .rebind) (hP.run .rebind)).tryCatch fun e => by cases e <;> exact Eff.Keeps.raise _
  · exact (hP.run .validate).tryCatch fun e => by cases e <;> exact Eff.Keeps.raise _

theorem lift_bind_keeps {α β : Type} {x : Except PyExc α} {f : α → PipeM β} (h : ∀ a, x = .ok a → Eff.Keeps P (f a)) :
    Eff.Keeps P (lift x >>= f) := by
  cases x with
  | ok a => exact h a rfl
  | error e => exact Eff.Keeps.raise e

theorem CallInvariant.leftoverPhase (hP : CallInvariant m name P) : Eff.Keeps P (leftoverPhase world m name) := by
  refine Eff.Keeps.tryCatch ?_ fun e => by cases e <;> exact Eff.Keeps.raise _
  unfold applyLeftover
  split
  · exact Eff.Keeps.pure _
  · rename_i hstopped
    refine .ite (.raise _) (lift_bind_keeps fun path hpath => lift_bind_keeps fun want hwant => ?_)
    split
    · exact Eff.Keeps.raise _
    · rename_i hsame
      obtain rfl : path = want := not_not.1 hsame
      refine (hP.checked (.down hwant hstopped)).bind fun _ => ?_
      split
      · exact Eff.Keeps.pure _
      · rename_i hdown
        have hmode : normalizeLeftover m.leftover = .remove := by
          cases hm : normalizeLeftover m.leftover with
          | stopped => exact absurd hm hstopped
          | down => exact absurd hm hdown
          | remove => rfl
        refine (Eff.Keeps.forEach fun vol hvol => hP.checked (.removeVolume hvol hmode)).bind fun _ => ?_
        exact (hP.checked (.removeTree hpath hwant hmode)).bind fun _ => hP.run .leftoverRows

/-- What the calls keep, the rest of the run after the copy keeps. -/
theorem CallInvariant.afterCopy (world : Nat → Answer) (hP : CallInvariant m name P) : Eff.Keeps P (do
    Migrate.step .destUp
    Migrate.checked world (.up (m.copyInput name).dstProj) upFailed
    Migrate.step .cutover
    cutoverPhase world
    rebindPhase world
    Migrate.step .validate
    validatePhase world
    Migrate.step .leftover
    Migrate.leftoverPhase world m name) := by
  obtain ⟨hcut, hrebind, hvalidate⟩ := hP.namesPhases world
  refine (hP.report _).bind fun _ => (hP.checked .up).bind fun _ => (hP.report _).bind fun _ => hcut.bind fun _ => ?_
  refine hrebind.bind fun _ => (hP.report _).bind fun _ => hvalidate.bind fun _ => (hP.report _).bind fun _ => ?_
  exact hP.leftoverPhase

theorem CallInvariant.runCopyAndStart (hP : CallInvariant m name P) (hname : composeProjectName m.project = .ok name) :
    Eff.Keeps P (runCopyAndStart world m) := by
  refine (hP.report _).bind fun _ => ?_
  rw [hname]
  refine (lift_keeps _).bind fun _ => (hP.report _).bind fun _ => (hP.checked .stop).bind fun _ => ?_
  exact (hP.report _).bind fun _ => hP.copyPhase.bind fun _ => hP.afterCopy world

/-- **Every call of a run is one of the Move's.** -/
theorem runCopyAndStart_calls (hname : composeProjectName m.project = .ok name) {c : Call}
    (hc : c ∈ (Migrate.runCopyAndStart world m {}).2.calls) : MoveCall m name c := by
  have hP : CallInvariant m name fun s => ∀ c ∈ s.calls, MoveCall m name c :=
    { step := fun s _ hs => hs
      call := fun hc hs ht _ d hd => by
        rw [ht, List.mem_append, List.mem_singleton] at hd
        rcases hd with hd | rfl
        · exact hs d hd
        · exact hc }
  exact (hP.runCopyAndStart hname).run (by simp) c hc

end Keeps

/-! ## What a copy that returns has done -/

/-- The call was made and answered. -/
def Done (world : Nat → Answer) (calls : List Call) (c : Call) : Prop := ∃ n r, calls[n]? = some c ∧ world n = .ok r

/-- The call was made, and it or its second attempt was answered. -/
def Tried (world : Nat → Answer) (calls : List Call) (c again : Call) : Prop :=
  c ∈ calls ∧ (Done world calls c ∨ Done world calls again)

/-- A step of the plan has been carried out. -/
def CopyStep.Made (kindOf : Str → RemoteKind) (world : Nat → Answer) (calls : List Call) : CopyStep → Prop
  | .volume v d => Tried world calls (.volume v d) (.volume v v)
  | .fold src _ => Tried world calls (.pull src (decide (kindOf src = .file))) (.pull src false)
  | .bind src dest => Tried world calls (.pull src false) (.pull src false) ∧
      Tried world calls (.push dest true) (.push dest false)
  | .refuse _ => False

/-- The project tree and every step of the plan have been copied. -/
structure Copied (m : MoveInput) (name : Str) (world : Nat → Answer) (calls : List Call) : Prop where
  pulled : Tried world calls .pullProject .pullProject
  made : ∀ step ∈ m.plan name, step.Made m.kindOf world calls
  pushed : Tried world calls (.push (m.copyInput name).dstProj true) (.push (m.copyInput name).dstProj false)

section Done
variable {world : Nat → Answer} {m : MoveInput} {name : Str} {calls more : List Call}

theorem Done.mono {c : Call} (h : Done world calls c) (hpre : calls <+: more) : Done world more c := by
  obtain ⟨n, r, hn, hr⟩ := h
  obtain ⟨rest, rfl⟩ := hpre
  have hlt : n < calls.length := (List.getElem?_eq_some_iff.1 hn).1
  exact ⟨n, r, by rw [List.getElem?_append_left hlt, hn], hr⟩

theorem Tried.mono {c again : Call} (h : Tried world calls c again) (hpre : calls <+: more) : Tried world more c again :=
  ⟨hpre.subset h.1, h.2.imp (·.mono hpre) (·.mono hpre)⟩

theorem CopyStep.Made.mono {kindOf : Str → RemoteKind} {cs : CopyStep} (h : cs.Made kindOf world calls)
    (hpre : calls <+: more) : cs.Made kindOf world more := by
  cases cs with
  | volume v d => exact Tried.mono h hpre
  | fold src dest => exact Tried.mono h hpre
  | bind src dest => exact ⟨h.1.mono hpre, h.2.mono hpre⟩
  | refuse src => exact h

theorem Copied.mono (h : Copied m name world calls) (hpre : calls <+: more) : Copied m name world more where
  pulled := h.pulled.mono hpre
  made step hstep := (h.made step hstep).mono hpre
  pushed := h.pushed.mono hpre

theorem run_ok {c : Call} {s t : RunState} (h : run world c s = (.ok (), t)) :
    t.calls = s.calls ++ [c] ∧ Done world t.calls c := by
  have hcalls := (run_calls world c s).1
  rw [h] at hcalls
  refine ⟨hcalls, s.calls.length, ?_⟩
  unfold run call at h
  rw [Eff.bind_apply] at h
  cases hw : world s.calls.length with
  | error e => rw [hw] at h; cases h
  | ok r => exact ⟨r, by rw [hcalls]; simp, rfl⟩

theorem guardCopy_ok {c : PipeM Unit} {s t : RunState} : guardCopy c s = (.ok (), t) ↔ c s = (.ok (), t) := by
  unfold guardCopy Eff.tryCatch
  cases hc : c s with
  | mk r u =>
    cases r with
    | ok a => rfl
    | error e => cases e <;> simp

theorem twice_ok {c c' : Call} {s t : RunState}
    (h : retrying (guardCopy (run world c)) (guardCopy (run world c')) s = (.ok (), t)) :
    s.calls <+: t.calls ∧ Tried world t.calls c c' := by
  unfold retrying Eff.tryCatch at h
  cases hg : guardCopy (run world c) s with
  | mk r u =>
    rw [hg] at h
    cases r with
    | ok a =>
      cases h
      obtain ⟨hcalls, hdone⟩ := run_ok (guardCopy_ok.1 hg)
      exact ⟨by simp [hcalls], by simp [hcalls], Or.inl hdone⟩
    | error e =>
      cases e with
      | typeError message =>
        have hu : u.calls = s.calls ++ [c] := by
          have := (run_calls world c s).1
          unfold guardCopy Eff.tryCatch at hg
          cases hr : run world c s with
          | mk r' u' =>
            rw [hr] at hg this
            cases r' with
            | ok a => cases hg
            | error e' =>
              cases e' with
              | typeError message' => cases hg; exact this
              | _ => cases hg
        obtain ⟨hcalls, hdone⟩ := run_ok (guardCopy_ok.1 h)
        exact ⟨by simp [hcalls, hu], by simp [hcalls, hu], Or.inr hdone⟩
      | _ => cases h

/-- A step that returns has been carried out. -/
theorem copyStep_ok {kindOf : Str → RemoteKind} {cs : CopyStep} {s t : RunState}
    (h : copyStep world kindOf cs s = (.ok (), t)) : s.calls <+: t.calls ∧ cs.Made kindOf world t.calls := by
  cases cs with
  | volume v d => exact twice_ok h
  | fold src dest => exact twice_ok h
  | bind src dest =>
    obtain ⟨a, u, hpull, hpush⟩ := Eff.bind_eq_ok.1 h
    obtain ⟨hpre, hpulled⟩ := twice_ok hpull
    obtain ⟨hpre', hpushed⟩ := twice_ok hpush
    exact ⟨hpre.trans hpre', hpulled.mono hpre', hpushed⟩
  | refuse src => cases h

theorem forEach_copyStep_ok {kindOf : Str → RemoteKind} {steps : List CopyStep} : ∀ {s t : RunState},
    Eff.forEach (copyStep world kindOf) steps s = (.ok (), t) →
      s.calls <+: t.calls ∧ ∀ cs ∈ steps, cs.Made kindOf world t.calls := by
  induction steps with
  | nil =>
    intro s t h
    cases h
    exact ⟨List.prefix_refl _, by simp⟩
  | cons cs steps ih =>
    intro s t h
    obtain ⟨a, u, hstep, hrest⟩ := Eff.bind_eq_ok.1 h
    obtain ⟨hpre, hmade⟩ := copyStep_ok hstep
    obtain ⟨hpre', hmade'⟩ := ih hrest
    refine ⟨hpre.trans hpre', fun cs' hcs' => ?_⟩
    rcases List.mem_cons.1 hcs' with rfl | hcs'
    · exact hmade.mono hpre'
    · exact hmade' cs' hcs'

/-- The calls of a state only grow. -/
theorem callInvariant_grows (m : MoveInput) (name : Str) (calls : List Call) :
    CallInvariant m name fun s => calls <+: s.calls where
  step s _ hs := hs
  call _ hs ht _ := by rw [ht]; exact hs.trans (List.prefix_append _ _)

theorem copyPhase_ok {s t : RunState} (h : copyPhase world m name s = (.ok (), t)) : Copied m name world t.calls := by
  obtain ⟨_, s₁, hpull, h⟩ := Eff.bind_eq_ok.1 h
  obtain ⟨_, s₂, hplan, h⟩ := Eff.bind_eq_ok.1 h
  obtain ⟨_, s₃, hover, h⟩ := Eff.bind_eq_ok.1 h
  obtain ⟨_, s₄, hpush, hrest⟩ := Eff.bind_eq_ok.1 h
  obtain ⟨-, hpulled⟩ := twice_ok hpull
  obtain ⟨hpre₂, hmade⟩ := forEach_copyStep_ok hplan
  have hpre₃ : s₂.calls <+: s₃.calls := by simp [(run_ok hover).1]
  obtain ⟨hpre₄, hpushed⟩ := twice_ok hpush
  have hP := callInvariant_grows m name s₄.calls
  have hpre₅ : s₄.calls <+: t.calls := by
    have hkeep : Eff.Keeps (fun s => s₄.calls <+: s.calls)
        (retrying (guardCopy (run world (.chown (m.copyInput name).dstProj)))
          (retrying (guardCopy (run world (.chown (m.copyInput name).dstProj)))
            (guardCopy (run world (.chown (m.copyInput name).dstProj)))) >>= fun _ =>
          checked world (.removeGhosts (m.copyInput name).destName) fun r =>
            .migrateError (if r.error ≠ [] then r.error else lit "failed to remove leftover dest containers") (some .destUp)) :=
      (retrying_keeps (guardCopy_keeps (hP.run .chown)) (hP.twice .chown .chown)).bind fun _ => hP.checked .removeGhosts
    have := hkeep s₄ (List.prefix_refl _)
    rwa [hrest] at this
  exact
    { pulled := hpulled.mono (hpre₂.trans (hpre₃.trans (hpre₄.trans hpre₅)))
      made := fun step hstep => (hmade step hstep).mono (hpre₃.trans (hpre₄.trans hpre₅))
      pushed := hpushed.mono hpre₅ }

/-- **A run that returns has copied.** -/
theorem runCopyAndStart_copied (hname : composeProjectName m.project = .ok name) {t : RunState}
    (h : runCopyAndStart world m {} = (.ok (), t)) : m.gate name = .ok () ∧ Copied m name world t.calls := by
  obtain ⟨_, s₁, -, h⟩ := Eff.bind_eq_ok.1 h
  rw [hname] at h
  obtain ⟨_, s₂, hgate, h⟩ := Eff.bind_eq_ok.1 h
  obtain ⟨_, s₃, -, h⟩ := Eff.bind_eq_ok.1 h
  obtain ⟨_, s₄, -, h⟩ := Eff.bind_eq_ok.1 h
  obtain ⟨_, s₅, -, h⟩ := Eff.bind_eq_ok.1 h
  obtain ⟨_, s₆, hcopy, hrest⟩ := Eff.bind_eq_ok.1 h
  have hpre : s₆.calls <+: t.calls := by
    have := (callInvariant_grows m name s₆.calls).afterCopy world s₆ (List.prefix_refl _)
    rwa [hrest] at this
  refine ⟨?_, (copyPhase_ok hcopy).mono hpre⟩
  cases hg : m.gate name with
  | ok u => rfl
  | error e => rw [hg] at hgate; cases hgate

end Done

/-! ## A world without failures -/

/-- Every call is answered with a report that is ok. -/
def allOk : Nat → Answer := fun _ => .ok { ok := true }

theorem forEach_copyStep_allOk (kindOf : Str → RemoteKind) {steps : List CopyStep} (h : ∀ src, .refuse src ∉ steps) :
    ∀ s, ∃ t, Eff.forEach (copyStep allOk kindOf) steps s = (.ok (), t) := by
  induction steps with
  | nil => exact fun s => ⟨s, rfl⟩
  | cons cs steps ih =>
    intro s
    have hstep : ∃ u, copyStep allOk kindOf cs s = (.ok (), u) := by
      cases cs with
      | volume v d => exact ⟨_, rfl⟩
      | fold src dest => exact ⟨_, rfl⟩
      | bind src dest => exact ⟨_, rfl⟩
      | refuse src => exact absurd List.mem_cons_self (h src)
    obtain ⟨u, hu⟩ := hstep
    obtain ⟨t, ht⟩ := ih (fun src hsrc => h src (List.mem_cons_of_mem _ hsrc)) u
    exact ⟨t, Eff.bind_eq_ok.2 ⟨(), u, hu, ht⟩⟩

/-- A dataset holds no truncated path, so the loop refuses none. -/
theorem refuse_notMem_plan (m : MoveInput) (name src : Str) : .refuse src ∉ m.plan name := by
  intro h
  obtain ⟨it, hit, -, hstep⟩ := (bind_mem_copyPlan (by simp)).1 h
  obtain ⟨containers, -, mt, hmt, ht, rfl⟩ := mem_dataset_items hit
  rw [item_source, projectMounts_stripped (mem_freshMounts hmt).1] at hstep
  unfold CopyInput.bindStep at hstep
  rw [if_neg (by simp [ht])] at hstep
  grind

/-- **Where nothing fails, the plan is carried out** before anything can stop the run. -/
theorem runCopyAndStart_allOk {m : MoveInput} {name : Str} (hname : composeProjectName m.project = .ok name)
    (hgate : m.gate name = .ok ()) : Copied m name allOk (runCopyAndStart allOk m {}).2.calls := by
  have hcopy : ∀ s, ∃ t, copyPhase allOk m name s = (.ok (), t) := by
    intro s
    obtain ⟨t, ht⟩ := forEach_copyStep_allOk m.kindOf (refuse_notMem_plan m name)
      { s with calls := s.calls ++ [.pullProject] }
    exact ⟨_, Eff.bind_eq_ok.2 ⟨(), _, rfl, Eff.bind_eq_ok.2 ⟨(), t, ht, rfl⟩⟩⟩
  obtain ⟨t, ht⟩ := hcopy { calls := [.stop (m.copyInput name).srcProj], steps := [.preflight, .stop, .copy] }
  have hrun : ∃ rest : PipeM Unit, runCopyAndStart allOk m {} = rest t ∧ Eff.Keeps (fun s => t.calls <+: s.calls) rest := by
    refine ⟨_, ?_, (callInvariant_grows m name t.calls).afterCopy allOk⟩
    unfold runCopyAndStart
    rw [hname]
    simp only
    rw [hgate]
    exact Eff.bind_of_ok ht
  obtain ⟨rest, hrest, hkeep⟩ := hrun
  rw [hrest]
  exact (copyPhase_ok ht).mono (hkeep t (List.prefix_refl _))

end PiHerder.Migrate
