import PiHerder.Migrate.Calls

/-!
# What a failed Move leaves to recover from

`undo_move_details` and `eligible_undo` (`service_migrate/undo.py:54`, `:83`), `enqueue_service_migrate`
as far as it checks its arguments (`jobs_migrate.py:82`), and `_run_service_migrate_pipeline`
(`jobs_migrate.py:338`), which stores one of two payloads by the `failed_step` of the exception.

Every phase of the pipeline is summed up once: a phase that fails ends with a call, and the
`failed_step` of its exception is `blame` of that call and its answer.
-/
namespace PiHerder.Migrate
open Lib Lib.Str
open PiHerder.Jobs (JobStatus JobType)

/-! ## The job -/

/-- `RECOVER_SOURCE_STEPS` (pipeline.py:47). -/
def recoverSourceSteps : List Step := [.stop, .copy, .destUp]

/-- `UNDO_STEPS` (undo.py:27). -/
def undoSteps : List Step := [.cutover, .rebind, .validate]

/-- The payload of `undo_move`. -/
structure UndoMove where
  sourceId : Nat
  destId : Nat
  project : Str
  destProject : Str
  portMap : Dict Str Str
  failedStep : Step
deriving DecidableEq, Repr

/-- The payload of `recover_source`. -/
structure RecoverSource where
  serverId : Nat
  project : Str
  projectPath : Str
deriving DecidableEq, Repr

def undoMoveDetails (sourceId destId : Nat) (project destProject : Str) (portMap : Dict Str Str)
    (failedStep : Option Step) : Option UndoMove :=
  match failedStep with
  | none => none
  | some s =>
    if s ∉ undoSteps then none
    else match composeProjectName project, composeProjectName (if destProject ≠ [] then destProject else project) with
    | .ok name, .ok destName => some ⟨sourceId, destId, name, destName, portMap, s⟩
    | _, _ => none

/-- A Move's row of the job table, with the keys of its details that recovery reads. -/
structure MoveRow where
  jobType : JobType := .serviceMigrate
  status : JobStatus
  serverId : Nat
  destServerId : Nat
  project : Str
  destProject : Str
  portMap : Dict Str Str
  failedStep : Option Step := none
  recoverSource : Option RecoverSource := none
  undoMove : Option UndoMove := none
deriving DecidableEq, Repr

def eligibleUndo (job : MoveRow) : Option UndoMove :=
  if job.jobType ≠ .serviceMigrate ∨ job.status ≠ .failed then none
  else match job.failedStep with
  | none => none
  | some s =>
    if s ∉ undoSteps then none
    else
      let raw := job.undoMove <|>
        undoMoveDetails job.serverId job.destServerId job.project job.destProject job.portMap (some s)
      raw.filter fun p => decide (0 < p.sourceId) && decide (0 < p.destId) && decide (p.project ≠ [])

/-- A Move that was queued: its names have passed `compose_project_name`, its hosts are rows of the
server table. -/
structure MoveJob extends MoveInput where
  projectChecked : composeProjectName project = .ok project
  destChecked : composeProjectName destProject = .ok destProject
  sourceRow : 0 < source.id
  destRow : 0 < dest.id

/-- What `enqueue_service_migrate` checks of its arguments: the names, the port map, the two hosts. -/
def enqueueServiceMigrate (m : MoveInput) : Except Str MoveJob :=
  match hname : composeProjectName m.project with
  | .error message => .error message
  | .ok name =>
    match hdest : composeProjectName (if strip m.destProject ≠ [] then m.destProject else name) with
    | .error message => .error message
    | .ok destName =>
      if (validatePortMap m.portMap).2 ≠ [] then .error ((validatePortMap m.portMap).2.intersperse (lit "; ")).flatten
      else if m.source.id = m.dest.id then .error (lit "destination must differ from source")
      else if h : 0 < m.source.id ∧ 0 < m.dest.id then
        .ok
          { m with
            project := name
            destProject := destName
            projectChecked := composeProjectName_idem hname
            destChecked := composeProjectName_idem hdest
            sourceRow := h.1
            destRow := h.2 }
      else .error (lit "server not found")

def MoveJob.row (j : MoveJob) : MoveRow :=
  { status := .running
    serverId := j.source.id
    destServerId := j.dest.id
    project := j.project
    destProject := j.destProject
    portMap := j.portMap }

/-- The `except` of `_run_service_migrate_pipeline` (jobs_migrate.py:454-491). -/
def MoveJob.failRow (j : MoveJob) (e : PyExc) : MoveRow :=
  let row := { j.row with status := .failed }
  if e.failedStep.any (· ∈ recoverSourceSteps) then
    match jailedSourceProjectPath j.source j.project with
    | .ok path =>
      { row with failedStep := e.failedStep, recoverSource := some ⟨j.source.id, j.project, path⟩ }
    | .error _ => row
  else match undoMoveDetails j.source.id j.dest.id j.project j.destProject j.portMap e.failedStep with
  | some payload => { row with failedStep := e.failedStep, undoMove := some payload }
  | none => row

/-- `_run_service_migrate_pipeline`: the row it leaves, and the run. -/
def runServiceMigratePipeline (world : Nat → Answer) (j : MoveJob) : MoveRow × RunState :=
  match runCopyAndStart world j.toMoveInput {} with
  | (.ok (), s) => ({ j.row with status := .success }, s)
  | (.error e, s) => (j.failRow e, s)

/-! ## Which step an exception is blamed on -/

/-- The handlers around a call give its answer this `failed_step`. -/
def blame (c : Call) (a : Answer) : Option Step :=
  match c, a with
  | .pullProject, .error (.copyError _) | .pull .., .error (.copyError _) | .volume .., .error (.copyError _)
  | .push .., .error (.copyError _) | .chown _, .error (.copyError _) => some .copy
  | .cutover, .error (.cutoverError _) => some .cutover
  | .rebind, .error (.migrateError _ s) => s
  | .rebind, .error _ => some .rebind
  | .validate, .error (.validateError _) => some .validate
  | .removeGhosts _, .ok _ => some .destUp
  | _, .error e => e.failedStep
  | _, .ok _ => none

/-- The last call of a state, and its answer. -/
def LastCall (world : Nat → Answer) (s : RunState) (c : Call) (a : Answer) : Prop :=
  ∃ before, s.calls = before ++ [c] ∧ a = world before.length

theorem LastCall.unique {world : Nat → Answer} {s : RunState} {c c' : Call} {a a' : Answer} (h : LastCall world s c a)
    (h' : LastCall world s c' a') : c = c' ∧ a = a' := by
  obtain ⟨before, hcalls, rfl⟩ := h
  obtain ⟨before', hcalls', rfl⟩ := h'
  obtain ⟨rfl, hc⟩ := List.append_singleton_inj.1 (hcalls.symm.trans hcalls')
  exact ⟨hc, rfl⟩

/-- The calls of the copy, and those that change names. -/
def Call.copies : Call → Prop
  | .pullProject | .pull .. | .volume .. | .overrides | .push .. | .chown _ | .removeGhosts _ => True
  | _ => False

/-- The calls under `_guard_copy`. -/
def Call.guarded : Call → Bool
  | .pullProject | .pull .. | .volume .. | .push .. | .chown _ => true
  | _ => false

def Call.renames : Call → Prop
  | .cutover | .rebind | .validate => True
  | _ => False

/-- What is left of a run through `m`: only calls in `K` are made, no step is reported, and an exception
is blamed on the last call. -/
structure Phase (world : Nat → Answer) (K : Call → Prop) (m : PipeM Unit) : Prop where
  calls : ∀ s, ∃ more, (m s).2.calls = s.calls ++ more ∧ ∀ c ∈ more, K c
  steps : ∀ s, (m s).2.steps = s.steps
  fails : ∀ s e s', m s = (.error e, s') → ∃ c a, LastCall world s' c a ∧ K c ∧ e.failedStep = blame c a

section Phases
variable {world : Nat → Answer} {K : Call → Prop}

theorem Phase.pure : Phase world K (pure ()) where
  calls s := ⟨[], by simp, by simp⟩
  steps _ := rfl
  fails s e s' h := by cases h

theorem Phase.bind {m : PipeM Unit} {f : Unit → PipeM Unit} (hm : Phase world K m) (hf : Phase world K (f ())) :
    Phase world K (m >>= f) where
  calls s := by
    obtain ⟨more, hmore, hK⟩ := hm.calls s
    rw [Eff.bind_apply]
    split
    · rename_i u s' h
      obtain ⟨more', hmore', hK'⟩ := hf.calls s'
      rw [h] at hmore
      refine ⟨more ++ more', ?_, fun c hc => (List.mem_append.1 hc).elim (hK c) (hK' c)⟩
      rw [hmore', hmore, List.append_assoc]
    · rename_i e s' h
      rw [h] at hmore
      exact ⟨more, hmore, hK⟩
  steps s := by
    have hs := hm.steps s
    rw [Eff.bind_apply]
    split
    · rename_i u s' h
      rw [h] at hs
      exact (hf.steps s').trans hs
    · rename_i e s' h
      rw [h] at hs
      exact hs
  fails s e s' h := by
    rcases Eff.bind_eq_error.1 h with h | ⟨u, t, _, h⟩
    · exact hm.fails s e s' h
    · exact hf.fails t e s' h

theorem Phase.forEach {α : Type} {f : α → PipeM Unit} {xs : List α} (h : ∀ x ∈ xs, Phase world K (f x)) :
    Phase world K (Eff.forEach f xs) := by
  induction xs with
  | nil => exact Phase.pure
  | cons x xs ih => exact (h x (by simp)).bind (ih fun y hy => h y (by simp [hy]))

/-- A handler that answers one call again, or gives its exception the step `blame` says. -/
theorem Phase.tryCatch {m : PipeM Unit} {h : PyExc → PipeM Unit} (calls : ∀ s, ∃ more, (m s).2.calls = s.calls ++ more ∧ ∀ c ∈ more, K c)
    (steps : ∀ s, (m s).2.steps = s.steps)
    (handled : ∀ s e s', m s = (.error e, s') → Phase world K (h e) ∨
      ∃ e' c a, h e = Eff.raise e' ∧ LastCall world s' c a ∧ K c ∧ e'.failedStep = blame c a) :
    Phase world K (Eff.tryCatch m h) where
  calls s := by
    obtain ⟨more, hmore, hK⟩ := calls s
    unfold Eff.tryCatch
    split
    · rename_i u s' hm
      rw [hm] at hmore
      exact ⟨more, hmore, hK⟩
    · rename_i e s' hm
      rw [hm] at hmore
      rcases handled s e s' hm with hphase | ⟨e', _, _, hraise, _⟩
      · obtain ⟨more', hmore', hK'⟩ := hphase.calls s'
        refine ⟨more ++ more', ?_, fun c hc => (List.mem_append.1 hc).elim (hK c) (hK' c)⟩
        rw [hmore', hmore, List.append_assoc]
      · rw [hraise]
        exact ⟨more, hmore, hK⟩
  steps s := by
    have hs := steps s
    unfold Eff.tryCatch
    split
    · rename_i u s' hm
      rw [hm] at hs
      exact hs
    · rename_i e s' hm
      rw [hm] at hs
      rcases handled s e s' hm with hphase | ⟨e', _, _, hraise, _⟩
      · exact (hphase.steps s').trans hs
      · rw [hraise]
        exact hs
  fails s e s' h' := by
    unfold Eff.tryCatch at h'
    split at h'
    · cases h'
    · rename_i e₀ t hm
      rcases handled s e₀ t hm with hphase | ⟨e', c, a, hraise, hrest⟩
      · exact hphase.fails t e s' h'
      · rw [hraise] at h'
        cases h'
        exact ⟨c, a, hrest⟩

/-- A bare call: what it raises is its answer. -/
theorem run_error {c : Call} {s s' : RunState} {e : PyExc} (h : run world c s = (.error e, s')) :
    LastCall world s' c (.error e) := by
  unfold run call at h
  rw [Eff.bind_apply] at h
  cases hw : world s.calls.length with
  | ok r => rw [hw] at h; cases h
  | error e' => rw [hw] at h; cases h; exact ⟨s.calls, rfl, hw.symm⟩

/-- A call without a handler. -/
theorem Phase.run {c : Call} (hK : K c) (hb : ∀ e : PyExc, e.failedStep = blame c (.error e)) : Phase world K (run world c) where
  calls s := ⟨[c], (run_calls world c s).1, by simpa using hK⟩
  steps s := (run_calls world c s).2
  fails s e s' h := ⟨c, _, run_error h, hK, hb e⟩

/-- A call whose exceptions all get the step `blame` says. -/
theorem Phase.handled {c : Call} {h : PyExc → PipeM Unit} (hK : K c)
    (hb : ∀ e, ∃ e' : PyExc, h e = Eff.raise e' ∧ e'.failedStep = blame c (.error e)) :
    Phase world K (Eff.tryCatch (Migrate.run world c) h) :=
  Phase.tryCatch (fun s => ⟨[c], (run_calls world c s).1, by simpa using hK⟩) (fun s => (run_calls world c s).2)
    fun s e s' hm => by
      obtain ⟨e', hraise, hstep⟩ := hb e
      exact Or.inr ⟨e', c, _, hraise, run_error hm, hK, hstep⟩

theorem Phase.guardCopy {c : Call} (hK : K c) (hg : c.guarded = true) : Phase world K (guardCopy (Migrate.run world c)) :=
  Phase.handled hK fun e => by
    cases e with
    | copyError message => exact ⟨_, rfl, by cases c <;> first | rfl | cases hg⟩
    | _ => exact ⟨_, rfl, by cases c <;> first | rfl | cases hg⟩

theorem Phase.retrying {m again : PipeM Unit} (hm : Phase world K m) (ha : Phase world K again) :
    Phase world K (retrying m again) :=
  Phase.tryCatch hm.calls hm.steps fun s e s' h => by
    cases e with
    | typeError _ => exact Or.inl ha
    | _ =>
      obtain ⟨c, a, hlast, hK, hstep⟩ := hm.fails s _ s' h
      exact Or.inr ⟨_, c, a, rfl, hlast, hK, hstep⟩

/-- A report that is not ok. -/
theorem Phase.checked {c : Call} {err : Report → PyExc} (hK : K c) (hb : ∀ e : PyExc, e.failedStep = blame c (.error e))
    (hr : ∀ r : Report, (err r).failedStep = blame c (.ok r)) : Phase world K (checked world c err) where
  calls s := ⟨[c], (checked_calls world c err s).1, by simpa using hK⟩
  steps s := (checked_calls world c err s).2
  fails s e s' h := by
    unfold Migrate.checked call at h
    rw [Eff.bind_apply] at h
    cases hw : world s.calls.length with
    | error e' => rw [hw] at h; cases h; exact ⟨c, _, ⟨s.calls, rfl, hw.symm⟩, hK, hb e⟩
    | ok r =>
      rw [hw] at h
      simp only at h
      split at h
      · cases h
      · cases h; exact ⟨c, _, ⟨s.calls, rfl, hw.symm⟩, hK, hr r⟩

end Phases

/-! ## The phases of the pipeline -/

theorem copyStep_phase (world : Nat → Answer) (kindOf : Str → RemoteKind) {cs : CopyStep} (h : ∀ src, cs ≠ .refuse src) :
    Phase world Call.copies (copyStep world kindOf cs) := by
  cases cs with
  | volume v d => exact .retrying (.guardCopy trivial rfl) (.guardCopy trivial rfl)
  | fold src dest => exact .retrying (.guardCopy trivial rfl) (.guardCopy trivial rfl)
  | bind src dest =>
    exact .bind (.retrying (.guardCopy trivial rfl) (.guardCopy trivial rfl))
      (.retrying (.guardCopy trivial rfl) (.guardCopy trivial rfl))
  | refuse src => exact absurd rfl (h src)

theorem copyPhase_phase (world : Nat → Answer) (m : MoveInput) (name : Str) :
    Phase world Call.copies (copyPhase world m name) := by
  refine .bind (.retrying (.guardCopy trivial rfl) (.guardCopy trivial rfl)) (.bind (.forEach fun cs hcs => ?_) (.bind ?_ ?_))
  · exact copyStep_phase world m.kindOf fun src h => refuse_notMem_plan m name src (h ▸ hcs)
  · exact .run trivial fun e => by cases e <;> rfl
  · refine .bind (.retrying (.guardCopy trivial rfl) (.guardCopy trivial rfl)) (.bind ?_ ?_)
    · exact .retrying (.guardCopy trivial rfl) (.retrying (.guardCopy trivial rfl) (.guardCopy trivial rfl))
    · exact .checked trivial (fun e => by cases e <;> rfl) fun _ => rfl

/-- A call that is made again after a `TypeError` answers in the end once. -/
theorem retrying_run_calls (world : Nat → Answer) (c : Call) (s : RunState) :
    (∃ more, (retrying (run world c) (run world c) s).2.calls = s.calls ++ c :: more ∧ ∀ d ∈ more, d = c) ∧
      (retrying (run world c) (run world c) s).2.steps = s.steps := by
  have h := run_calls world c s
  unfold retrying Eff.tryCatch
  split
  · rename_i u s' hr
    rw [hr] at h
    exact ⟨⟨[], by rw [h.1], by simp⟩, h.2⟩
  · rename_i e s' hr
    rw [hr] at h
    cases e with
    | typeError message =>
      have h' := run_calls world c s'
      exact ⟨⟨[c], by rw [h'.1, h.1, List.append_assoc]; rfl, by simp⟩, h'.2.trans h.2⟩
    | _ => exact ⟨⟨[], by rw [← h.1]; rfl, by simp⟩, h.2⟩

theorem retrying_run_error {world : Nat → Answer} {c : Call} {s s' : RunState} {e : PyExc}
    (h : retrying (run world c) (run world c) s = (.error e, s')) : LastCall world s' c (.error e) := by
  unfold retrying Eff.tryCatch at h
  split at h
  · cases h
  · rename_i e₀ t hr
    cases e₀ with
    | typeError message => exact run_error h
    | _ => cases h; exact run_error hr

theorem cutoverPhase_phase (world : Nat → Answer) : Phase world Call.renames (cutoverPhase world) := by
  refine Phase.tryCatch (fun s => ?_) (fun s => (retrying_run_calls world .cutover s).2) fun s e s' h => Or.inr ?_
  · obtain ⟨more, hmore, hall⟩ := (retrying_run_calls world .cutover s).1
    refine ⟨_, hmore, fun c hc => ?_⟩
    rcases List.mem_cons.1 hc with rfl | hc
    · trivial
    · rw [hall c hc]; trivial
  · cases e <;> exact ⟨_, _, _, rfl, retrying_run_error h, trivial, rfl⟩

theorem rebindPhase_phase (world : Nat → Answer) : Phase world Call.renames (rebindPhase world) := by
  refine Phase.tryCatch (fun s => ?_) (fun s => (retrying_run_calls world .rebind s).2) fun s e s' h => Or.inr ?_
  · obtain ⟨more, hmore, hall⟩ := (retrying_run_calls world .rebind s).1
    refine ⟨_, hmore, fun c hc => ?_⟩
    rcases List.mem_cons.1 hc with rfl | hc
    · trivial
    · rw [hall c hc]; trivial
  · cases e <;> exact ⟨_, _, _, rfl, retrying_run_error h, trivial, rfl⟩

theorem validatePhase_phase (world : Nat → Answer) : Phase world Call.renames (validatePhase world) :=
  .handled trivial fun e => by cases e <;> exact ⟨_, rfl, rfl⟩

/-! ## How a run fails -/

/-- A failing run, by the phase its exception comes from. -/
inductive FailedIn (world : Nat → Answer) (e : PyExc) (s : RunState) : Prop
  | beforeCopy (hcopy : .copy ∉ s.steps) (hcut : .cutover ∉ s.calls)
  | copy (hcopy : .copy ∈ s.steps) (hup : ∀ p, .up p ∉ s.calls) (hcut : .cutover ∉ s.calls)
      (hlast : ∃ c a, LastCall world s c a ∧ c.copies ∧ e.failedStep = blame c a)
  | up (hup : ∃ p, .up p ∈ s.calls) (hcut : .cutover ∉ s.calls)
  | names (hup : ∃ p, .up p ∈ s.calls) (hcut : .cutover ∈ s.calls) (hleft : .leftover ∉ s.steps)
      (hlast : ∃ c a, LastCall world s c a ∧ c.renames ∧ e.failedStep = blame c a)
  | leftover (hup : ∃ p, .up p ∈ s.calls) (hleft : .leftover ∈ s.steps)

/-- Before the destination is started; before the names change; before the leftover. -/
structure NotUp (s : RunState) : Prop where
  up : ∀ p, .up p ∉ s.calls
  cutover : .cutover ∉ s.calls
  leftover : .leftover ∉ s.steps

structure IsUp (s : RunState) : Prop where
  up : ∃ p, .up p ∈ s.calls
  cutover : .cutover ∉ s.calls
  leftover : .leftover ∉ s.steps

structure Renaming (s : RunState) : Prop where
  up : ∃ p, .up p ∈ s.calls
  cutover : .cutover ∈ s.calls
  leftover : .leftover ∉ s.steps

section Stages
variable (world : Nat → Answer)

theorem step_triple {P Q : RunState → Prop} {R : PyExc → RunState → Prop} (name : Step)
    (h : ∀ s, P s → Q { s with steps := s.steps ++ [name] }) : Eff.Triple P (step name) (fun _ => Q) R :=
  Eff.Triple.modify h

theorem lift_triple {α : Type} {P : RunState → Prop} {R : PyExc → RunState → Prop} (x : Except PyExc α)
    (h : ∀ e s, P s → R e s) : Eff.Triple P (lift x) (fun _ => P) R := by
  cases x with
  | ok a => exact Eff.Triple.pure fun s hs => hs
  | error e => exact Eff.Triple.raise fun s hs => h e s hs

theorem checked_triple {P Q : RunState → Prop} {R : PyExc → RunState → Prop} (c : Call) (err : Report → PyExc)
    (hQ : ∀ s t : RunState, P s → t.calls = s.calls ++ [c] → t.steps = s.steps → Q t)
    (hR : ∀ e (s t : RunState), P s → t.calls = s.calls ++ [c] → t.steps = s.steps → R e t) :
    Eff.Triple P (checked world c err) (fun _ => Q) R := by
  intro s hs
  have h := checked_calls world c err s
  split
  · rename_i u t heq; rw [heq] at h; exact hQ s t hs h.1 h.2
  · rename_i e t heq; rw [heq] at h; exact hR e s t hs h.1 h.2

theorem Phase.triple {world : Nat → Answer} {K : Call → Prop} {m : PipeM Unit} (hm : Phase world K m)
    {P Q : RunState → Prop} {R : PyExc → RunState → Prop}
    (hQ : ∀ (s t : RunState) more, P s → t.calls = s.calls ++ more → (∀ c ∈ more, K c) → t.steps = s.steps → Q t)
    (hR : ∀ e t, Q t → (∃ c a, LastCall world t c a ∧ K c ∧ e.failedStep = blame c a) → R e t) :
    Eff.Triple P m (fun _ => Q) R := by
  intro s hs
  obtain ⟨more, hmore, hK⟩ := hm.calls s
  have hsteps := hm.steps s
  split
  · rename_i u t heq
    rw [heq] at hmore hsteps
    exact hQ s t more hs hmore hK hsteps
  · rename_i e t heq
    rw [heq] at hmore hsteps
    exact hR e t (hQ s t more hs hmore hK hsteps) (hm.fails s e t heq)

theorem NotUp.append {s t : RunState} (h : NotUp s) {more : List Call} (hc : t.calls = s.calls ++ more)
    (hup : ∀ p, .up p ∉ more) (hcut : .cutover ∉ more) (hs : t.steps = s.steps) : NotUp t where
  up p := by rw [hc, List.mem_append, not_or]; exact ⟨h.up p, hup p⟩
  cutover := by rw [hc, List.mem_append, not_or]; exact ⟨h.cutover, hcut⟩
  leftover := hs ▸ h.leftover

theorem Renaming.append {s t : RunState} (h : Renaming s) {more : List Call} (hc : t.calls = s.calls ++ more)
    (hs : t.steps = s.steps) : Renaming t where
  up := h.up.imp fun _ hp => hc ▸ List.mem_append_left _ hp
  cutover := hc ▸ List.mem_append_left _ h.cutover
  leftover := hs ▸ h.leftover

theorem copyPhase_triple (m : MoveInput) (name : Str) :
    Eff.Triple (fun s => NotUp s ∧ .copy ∈ s.steps) (copyPhase world m name) (fun _ s => NotUp s ∧ .copy ∈ s.steps)
      (FailedIn world) :=
  (copyPhase_phase world m name).triple
    (fun _ _ _ h hc hK hs => ⟨h.1.append hc (fun _ hp => hK _ hp) (fun hcut => hK _ hcut) hs, hs ▸ h.2⟩)
    fun _ _ h hlast => .copy h.2 h.1.up h.1.cutover hlast

theorem cutoverPhase_triple : Eff.Triple IsUp (cutoverPhase world) (fun _ => Renaming) (FailedIn world) := by
  intro s h
  have hcalls : Renaming (cutoverPhase world s).2 := by
    obtain ⟨⟨more, hmore, -⟩, hsteps⟩ := retrying_run_calls world .cutover s
    have hstate : (cutoverPhase world s).2 = (retrying (run world .cutover) (run world .cutover) s).2 := by
      unfold cutoverPhase Eff.tryCatch
      split
      · rename_i heq; rw [heq]
      · rename_i e t heq; rw [heq]; cases e <;> rfl
    rw [hstate]
    exact ⟨h.up.imp fun _ hp => hmore ▸ List.mem_append_left _ hp, hmore ▸ by simp, hsteps ▸ h.leftover⟩
  split
  · rename_i u t heq; rw [heq] at hcalls; exact hcalls
  · rename_i e t heq
    rw [heq] at hcalls
    exact .names hcalls.up hcalls.cutover hcalls.leftover ((cutoverPhase_phase world).fails s e t heq)

theorem renaming_triple {m : PipeM Unit} (hm : Phase world Call.renames m) :
    Eff.Triple Renaming m (fun _ => Renaming) (FailedIn world) :=
  hm.triple (fun _ _ _ h hc _ hs => h.append hc hs) fun _ _ h hlast => .names h.up h.cutover h.leftover hlast

theorem leftoverPhase_triple (m : MoveInput) (name : Str) :
    Eff.Triple (fun s => (∃ p, .up p ∈ s.calls) ∧ .leftover ∈ s.steps) (leftoverPhase world m name) (fun _ _ => True)
      (FailedIn world) := by
  have hP : CallInvariant m name fun s => (∃ p, .up p ∈ s.calls) ∧ .leftover ∈ s.steps :=
    { step := fun s _ h => ⟨h.1, List.mem_append_left _ h.2⟩
      call := fun _ h hc hs => ⟨h.1.imp fun _ hp => hc ▸ List.mem_append_left _ hp, hs ▸ h.2⟩ }
  exact hP.leftoverPhase.triple.conseq (fun _ h => h) (fun _ _ _ => trivial) fun e s h => .leftover h.1 h.2

/-- **Every failing run fails in one of the phases**, and in a copy or renaming phase with the step that
its last call is blamed for. -/
theorem runCopyAndStart_triple (m : MoveInput) :
    Eff.Triple (fun s => s = {}) (runCopyAndStart world m) (fun _ _ => True) (FailedIn world) := by
  refine Eff.Triple.bind (step_triple .preflight (Q := fun s => s.calls = [] ∧ .copy ∉ s.steps ∧ .leftover ∉ s.steps) ?_)
    fun _ => ?_
  · rintro s rfl
    simp
  have hbefore : ∀ (e : PyExc) (s : RunState), s.calls = [] ∧ .copy ∉ s.steps ∧ .leftover ∉ s.steps → FailedIn world e s :=
    fun e s h => .beforeCopy h.2.1 (by rw [h.1]; simp)
  split
  · exact Eff.Triple.raise fun s h => hbefore _ s h
  rename_i name _
  refine (lift_triple _ hbefore).bind fun _ => ?_
  refine (step_triple .stop (Q := fun s => s.calls = [] ∧ .copy ∉ s.steps ∧ .leftover ∉ s.steps) ?_).bind fun _ => ?_
  · intro s h
    simp [h]
  refine (checked_triple world (Q := NotUp) _ _ ?_ ?_).bind fun _ => ?_
  · intro s t h hc hs
    exact ⟨fun p => by simp [hc, h.1], by simp [hc, h.1], hs ▸ h.2.2⟩
  · intro e s t h hc hs
    exact .beforeCopy (hs ▸ h.2.1) (by simp [hc, h.1])
  refine (step_triple .copy (Q := fun s => NotUp s ∧ .copy ∈ s.steps) ?_).bind fun _ => ?_
  · intro s h
    exact ⟨⟨h.up, h.cutover, by simp [h.leftover]⟩, by simp⟩
  refine (copyPhase_triple world m name).bind fun _ => ?_
  refine (step_triple .destUp (Q := NotUp) fun s h => ⟨h.1.up, h.1.cutover, by simp [h.1.leftover]⟩).bind fun _ => ?_
  refine (checked_triple world (Q := IsUp) _ _ ?_ ?_).bind fun _ => ?_
  · intro s t h hc hs
    exact ⟨⟨(m.copyInput name).dstProj, by rw [hc]; simp⟩, by simp [hc, h.cutover], hs ▸ h.leftover⟩
  · intro e s t h hc hs
    exact .up ⟨(m.copyInput name).dstProj, by rw [hc]; simp⟩ (by simp [hc, h.cutover])
  refine (step_triple .cutover (Q := IsUp) fun s h => ⟨h.up, h.cutover, by simp [h.leftover]⟩).bind fun _ => ?_
  refine (cutoverPhase_triple world).bind fun _ => (renaming_triple world (rebindPhase_phase world)).bind fun _ => ?_
  refine (step_triple .validate (Q := Renaming) fun s h => ⟨h.up, h.cutover, by simp [h.leftover]⟩).bind fun _ => ?_
  refine (renaming_triple world (validatePhase_phase world)).bind fun _ => ?_
  refine (step_triple .leftover (Q := fun s => (∃ p, .up p ∈ s.calls) ∧ .leftover ∈ s.steps) ?_).bind fun _ => ?_
  · intro s h
    exact ⟨h.up, by simp⟩
  exact leftoverPhase_triple world m name

end Stages

/-! ## Which failures leave a payload -/

/-- The failures of a copy call that carry a `failed_step` of `RECOVER_SOURCE_STEPS`: a `CopyError` from a
guarded call, the ghosts' own report, or a `MigrateError` that names such a step. -/
def Recoverable (c : Call) (a : Answer) : Prop :=
  (c.guarded = true ∧ ∃ message, a = .error (.copyError message)) ∨ ((∃ p, c = .removeGhosts p) ∧ ∃ r, a = .ok r) ∨
    ∃ s ∈ recoverSourceSteps, ∃ message, a = .error (.migrateError message (some s))

/-- The failures of a renaming call that carry a `failed_step` of `UNDO_STEPS`: each step's own class, anything
from the rebind but a `MigrateError`, or a `MigrateError` that names such a step. -/
def Undoable (c : Call) (a : Answer) : Prop :=
  (c = .cutover ∧ ∃ message, a = .error (.cutoverError message)) ∨
    (c = .rebind ∧ ∃ e, a = .error e ∧ ∀ message s, e ≠ .migrateError message s) ∨
    (c = .validate ∧ ∃ message, a = .error (.validateError message)) ∨
    ∃ s ∈ undoSteps, ∃ message, a = .error (.migrateError message (some s))

theorem recoverable_iff {c : Call} {a : Answer} (hc : c.copies) :
    (∃ s ∈ recoverSourceSteps, blame c a = some s) ↔ Recoverable c a := by
  cases c <;> first | exact hc.elim | skip
  all_goals
    cases a with
    | ok r => simp [blame, Recoverable, recoverSourceSteps, Call.guarded]
    | error e => cases e <;> simp [blame, Recoverable, recoverSourceSteps, Call.guarded, PyExc.failedStep]

theorem undoable_iff {c : Call} {a : Answer} (hc : c.renames) :
    (∃ s ∈ undoSteps, blame c a = some s) ↔ Undoable c a := by
  cases c <;> first | exact hc.elim | skip
  all_goals
    cases a with
    | ok r => simp [blame, Undoable, undoSteps]
    | error e => cases e <;> simp [blame, Undoable, undoSteps, PyExc.failedStep]

/-- A project folder below a base that is not the root is a place that may be removed. -/
theorem jailed_eq_ok (source : MoveHost) {name : Str} (hname : ValidProject name) (hbase : rstrip '/' source.dockerBase ≠ []) :
    jailedSourceProjectPath source name = .ok (rstrip '/' source.dockerBase ++ '/' :: name) := by
  unfold jailedSourceProjectPath
  generalize rstrip '/' source.dockerBase = base at hbase ⊢
  simp only [if_neg hbase]
  have hpath : rstrip '/' (base ++ '/' :: name) = base ++ '/' :: name := by
    have h := rstrip_append (s := base ++ ['/']) hname.nonempty hname.noSlash
    rwa [List.append_assoc] at h
  have hroot : ∀ t : Str, '/' ∉ t → base ++ '/' :: name ≠ '/' :: t := by
    rintro t ht heq
    obtain ⟨b, bs, rfl⟩ := List.exists_cons_of_ne_nil hbase
    rw [List.cons_append, List.cons.injEq] at heq
    exact ht (heq.2 ▸ by simp)
  rw [if_neg]
  rw [hpath]
  simp only [List.mem_cons, List.not_mem_nil, or_false, not_or]
  refine ⟨by simp, hroot [] (by simp), fun heq => ?_, hroot _ (by decide), hroot _ (by decide), hroot _ (by decide),
    hroot _ (by decide)⟩
  have := congrArg List.length heq
  simp at this

theorem jailed_isOk (source : MoveHost) {name : Str} (hname : ValidProject name) :
    (∃ path, jailedSourceProjectPath source name = .ok path) ↔ rstrip '/' source.dockerBase ≠ [] := by
  refine ⟨fun ⟨path, h⟩ hbase => ?_, fun h => ⟨_, jailed_eq_ok source hname h⟩⟩
  unfold jailedSourceProjectPath at h
  simp [hbase] at h

/-- The names of a queued Move are good, so the payload depends on the step alone. -/
theorem undoMoveDetails_job (j : MoveJob) (s : Step) :
    undoMoveDetails j.source.id j.dest.id j.project j.destProject j.portMap (some s) =
      if s ∈ undoSteps then some ⟨j.source.id, j.dest.id, j.project, j.destProject, j.portMap, s⟩ else none := by
  have hdest : (if j.destProject ≠ [] then j.destProject else j.project) = j.destProject :=
    if_pos (composeProjectName_valid j.destChecked).1.nonempty
  unfold undoMoveDetails
  simp only [hdest, j.projectChecked, j.destChecked]
  by_cases hs : s ∈ undoSteps <;> simp [hs]

theorem failRow_recover (j : MoveJob) (e : PyExc) :
    (j.failRow e).recoverSource.isSome = true ↔
      (∃ s ∈ recoverSourceSteps, e.failedStep = some s) ∧ rstrip '/' j.source.dockerBase ≠ [] := by
  rw [← jailed_isOk j.source (composeProjectName_valid j.projectChecked).1]
  unfold MoveJob.failRow
  simp only
  by_cases hs : e.failedStep.any (· ∈ recoverSourceSteps) = true
  · rw [if_pos hs]
    have hs' : ∃ s ∈ recoverSourceSteps, e.failedStep = some s := by
      simpa [Option.any_eq_true, and_comm] using hs
    cases jailedSourceProjectPath j.source j.project <;> simp [hs', MoveJob.row]
  · rw [if_neg hs]
    have hs' : ¬ ∃ s ∈ recoverSourceSteps, e.failedStep = some s := by
      simpa [Option.any_eq_true, and_comm] using hs
    split <;> simp [hs', MoveJob.row]

/-- The payload of an undo passes `eligible_undo`. -/
theorem failRow_undo (j : MoveJob) (e : PyExc) :
    ((j.failRow e).undoMove.isSome = true ∧ (eligibleUndo (j.failRow e)).isSome = true) ↔
      ∃ s ∈ undoSteps, e.failedStep = some s := by
  unfold MoveJob.failRow
  simp only
  by_cases hs : e.failedStep.any (· ∈ recoverSourceSteps) = true
  · -- the two sets of steps are disjoint
    have hno : ¬ ∃ s ∈ undoSteps, e.failedStep = some s := by
      rintro ⟨s, hundo, heq⟩
      simp only [heq, Option.any_some, decide_eq_true_eq] at hs
      revert hs hundo
      cases s <;> simp [undoSteps, recoverSourceSteps]
    rw [if_pos hs]
    cases jailedSourceProjectPath j.source j.project <;> simp [hno, MoveJob.row]
  · rw [if_neg hs]
    cases hstep : e.failedStep with
    | none => simp [undoMoveDetails, MoveJob.row]
    | some s =>
      rw [undoMoveDetails_job]
      by_cases hundo : s ∈ undoSteps
      · have hproject := (composeProjectName_valid j.projectChecked).1.nonempty
        simp [hundo, eligibleUndo, MoveJob.row, j.sourceRow, j.destRow, hproject]
      · simp [hundo, MoveJob.row]

/-- **Recovery.** When the source was stopped and the destination not yet started, a failed Move stores
`recover_source` exactly when its last call failed as `Recoverable` says and the source's docker base is
not the root; when the cutover was entered and the leftover was not, it stores an `undo_move` that
`eligible_undo` accepts exactly when its last call failed as `Undoable` says. -/
theorem recovery_payload_iff (world : Nat → Answer) (j : MoveJob)
    (hfailed : (runServiceMigratePipeline world j).1.status = .failed) :
    let row := (runServiceMigratePipeline world j).1
    let s := (runServiceMigratePipeline world j).2
    (.copy ∈ s.steps → (∀ p, .up p ∉ s.calls) →
      (row.recoverSource.isSome = true ↔
        rstrip '/' j.source.dockerBase ≠ [] ∧ ∃ c a, LastCall world s c a ∧ Recoverable c a)) ∧
    (.cutover ∈ s.calls → .leftover ∉ s.steps →
      (row.undoMove.isSome = true ∧ (eligibleUndo row).isSome = true ↔ ∃ c a, LastCall world s c a ∧ Undoable c a)) := by
  have hrun := runCopyAndStart_triple world j.toMoveInput {} rfl
  unfold runServiceMigratePipeline at hfailed ⊢
  cases hr : runCopyAndStart world j.toMoveInput {} with
  | mk result s =>
    rw [hr] at hfailed hrun
    cases result with
    | ok u => cases hfailed
    | error e =>
      simp only at hrun ⊢
      refine ⟨fun hcopy hup => ?_, fun hcut hleft => ?_⟩
      · obtain ⟨c, a, hlast, hc, hblame⟩ : ∃ c a, LastCall world s c a ∧ c.copies ∧ e.failedStep = blame c a := by
          cases hrun with
          | beforeCopy h => exact absurd hcopy h
          | copy _ _ _ h => exact h
          | up h | names h | leftover h => exact (h.elim fun p hp => absurd hp (hup p))
        rw [failRow_recover, hblame, and_comm, recoverable_iff hc]
        refine and_congr_right fun _ => ⟨fun h => ⟨c, a, hlast, h⟩, ?_⟩
        rintro ⟨c', a', hlast', h⟩
        obtain ⟨rfl, rfl⟩ := hlast.unique hlast'
        exact h
      · obtain ⟨c, a, hlast, hc, hblame⟩ : ∃ c a, LastCall world s c a ∧ c.renames ∧ e.failedStep = blame c a := by
          cases hrun with
          | beforeCopy _ h | copy _ _ h | up _ h => exact absurd hcut h
          | names _ _ _ h => exact h
          | leftover _ h => exact absurd h hleft
        rw [failRow_undo, hblame, undoable_iff hc]
        refine ⟨fun h => ⟨c, a, hlast, h⟩, ?_⟩
        rintro ⟨c', a', hlast', h⟩
        obtain ⟨rfl, rfl⟩ := hlast.unique hlast'
        exact h

namespace WebMove

/-- A Move of "web" between two hosts with an inventory of one container. -/
def job : MoveJob where
  source := { id := 1, dockerBase := lit "/home/pi/docker" }
  dest := { id := 2, dockerBase := lit "/home/pi/docker" }
  project := lit "web"
  destProject := lit "web"
  containers := some [{}]
  projectChecked := by decide
  destChecked := by decide
  sourceRow := by decide
  destRow := by decide

/-- Every call works but the `n`-th, which raises `e`. -/
def failing (n : Nat) (e : PyExc) : Nat → Answer := fun k => if k = n then .error e else .ok { ok := true }

end WebMove

/-- A pull that raises a `CopyError` leaves `recover_source`. -/
theorem recovery_payload_copyError :
    (runServiceMigratePipeline (WebMove.failing 1 (.copyError (lit "rsync failed"))) WebMove.job).1.recoverSource.isSome = true :=
  ((recovery_payload_iff (WebMove.failing 1 (.copyError (lit "rsync failed"))) WebMove.job (by decide +kernel)).1
    (by decide +kernel) (fun p => by
      have hcalls : (runServiceMigratePipeline (WebMove.failing 1 (.copyError (lit "rsync failed"))) WebMove.job).2.calls =
          [.stop (lit "/home/pi/docker/web"), .pullProject] := by decide +kernel
      rw [hcalls]
      simp)).2
    ⟨by decide +kernel, .pullProject, .error (.copyError (lit "rsync failed")),
      ⟨[.stop (lit "/home/pi/docker/web")], by decide +kernel, rfl⟩, Or.inl ⟨rfl, _, rfl⟩⟩

/-- An SSH error in the first pull leaves no `recover_source`, and one in the cutover no `undo_move`. -/
theorem ssh_error_leaves_no_payload :
    (let r := runServiceMigratePipeline (WebMove.failing 1 (.other (lit "SSH connection lost"))) WebMove.job
     r.1.status = .failed ∧ .copy ∈ r.2.steps ∧ r.2.calls = [.stop (lit "/home/pi/docker/web"), .pullProject] ∧
       r.1.recoverSource = none) ∧
    (let r := runServiceMigratePipeline (WebMove.failing 7 (.other (lit "database is locked"))) WebMove.job
     r.1.status = .failed ∧ .cutover ∈ r.2.calls ∧ .leftover ∉ r.2.steps ∧ r.1.undoMove = none ∧ eligibleUndo r.1 = none) := by
  decide +kernel

end PiHerder.Migrate
