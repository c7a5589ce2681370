import PiHerder.Lib.Eff
import PiHerder.Lib.PyStr
import PiHerder.Lib.Runs

/-!
# Undo of a failed Move: which copy of the stack runs

`run_undo_pipeline` (`service_migrate/undo.py:239`) and what `_execute_service_migrate_undo`
(`jobs_migrate.py:636`) keeps of it on the parent job. The names (DNS, NPM, rebind, certificates) are
reports here: what they change is in `Fabric.lean` and `Rebind.lean`.

An attempt is given the reports of its calls. A report is accurate: a stop that reports ok leaves the
stack stopped, one that reports failure leaves it running, and a start the other way round. The guard
on `action == "down"` never fires, since `compose_action` answers with the action it was asked for.
-/
namespace PiHerder.Migrate
open Lib Lib.Str

/-! ## The pipeline -/

inductive UndoStep
  | stop | dns | rebind | certs
deriving DecidableEq, Repr

/-- The dictionary a step function returns: `_ok`, and the texts an error is made of. -/
structure Report where
  ok : Bool
  error : Str := []
  output : Str := []
deriving DecidableEq, Repr

/-- `str(error or output or "") or default`. -/
def Report.message (r : Report) (default : Str) : Str :=
  if r.error ≠ [] then r.error else if r.output ≠ [] then r.output else default

/-- A step function returns its report or raises something that is not an `UndoError`. (A `TypeError`
is retried once with fewer arguments; this is the outcome after the retry.) -/
inductive Outcome
  | returned (r : Report)
  | raised (message : Str)
deriving DecidableEq, Repr

/-- The reports one attempt meets. `paths` is the error of `compose_project_name` or
`jailed_source_project_path`, when one of them refuses; `certs` is `none` when the call returned. -/
structure UndoReports where
  paths : Option Str := none
  stop : Report
  restart : Report
  dns : Outcome
  rebind : Outcome
  certs : Option Str := none
  start : Report
deriving DecidableEq, Repr

inductive Host
  | source | dest
deriving DecidableEq, Repr

inductive StackAction
  | stop | start
deriving DecidableEq, Repr

/-- A compose call, with the state of the destination stack it was issued in. -/
structure StackCall where
  host : Host
  action : StackAction
  destUp : Bool
deriving DecidableEq, Repr

/-- The two stacks, the local `steps`, and the compose calls so far. -/
structure UndoState where
  destUp : Bool
  sourceUp : Bool
  steps : List UndoStep
  calls : List StackCall
deriving DecidableEq, Repr

/-- `UndoError` with its `steps`, or an exception without them. -/
inductive UndoFailure
  | undo (message : Str) (steps : List UndoStep)
  | other (message : Str)
deriving DecidableEq, Repr

abbrev UndoM := Eff UndoState UndoFailure

def composeStopDest (r : Report) : UndoM Report := fun s =>
  (.ok r, { s with destUp := !r.ok, calls := s.calls ++ [⟨.dest, .stop, s.destUp⟩] })

def composeStartDest (r : Report) : UndoM Report := fun s =>
  (.ok r, { s with destUp := r.ok, calls := s.calls ++ [⟨.dest, .start, s.destUp⟩] })

def composeStartSource (r : Report) : UndoM Report := fun s =>
  (.ok r, { s with sourceUp := r.ok, calls := s.calls ++ [⟨.source, .start, s.destUp⟩] })

def recordStep (step : UndoStep) : UndoM Unit := Eff.modify fun s => { s with steps := s.steps ++ [step] }

/-- `raise UndoError(msg, steps=list(steps))`. -/
def raiseUndo (message : Str) : UndoM Unit := fun s => (.error (.undo message s.steps), s)

/-- `_fail(msg, restart_dest=True)` (undo.py:283): dest is started again, and only a start that worked
takes `stop` out of the steps. -/
def failRestartDest (restart : Report) (message : Str) : UndoM Unit := do
  let back ← composeStartDest restart
  if back.ok then Eff.modify fun s => { s with steps := s.steps.erase .stop } else pure ()
  raiseUndo message

/-- `if step in steps: … else: body; steps.append(step)`. -/
def unlessDone (step : UndoStep) (body : UndoM Unit) : UndoM Unit := do
  let s ← Eff.get
  if step ∈ s.steps then pure () else do
    body
    recordStep step

/-- What follows a step function: its own exception and a report that is not ok end in `fail`. -/
def checkOutcome (o : Outcome) (default : Str) (fail : Str → UndoM Unit) : UndoM Unit :=
  match o with
  | .raised message => fail (if message ≠ [] then message else default)
  | .returned r => if r.ok then pure () else fail (r.message default)

/-- `run_undo_pipeline` (undo.py:239). -/
def runUndoPipeline (r : UndoReports) : UndoM Unit := do
  match r.paths with
  | some message => Eff.raise (.other message)
  | none => pure ()
  unlessDone .stop do
    let stopped ← composeStopDest r.stop
    if stopped.ok then pure () else raiseUndo (stopped.message (lit "dest compose stop failed"))
  unlessDone .dns (checkOutcome r.dns (lit "DNS revert failed") (failRestartDest r.restart))
  unlessDone .rebind (checkOutcome r.rebind (lit "rebind failed") raiseUndo)
  unlessDone .certs
    (match r.certs with
      | some message => raiseUndo (if message ≠ [] then message else lit "certificate re-enable failed")
      | none => pure ())
  let started ← composeStartSource r.start
  if started.ok then pure () else raiseUndo (started.message (lit "source compose start failed"))

/-! ## Attempts on one parent job -/

/-- The failed Move: its two stacks, and what its job row remembers of earlier attempts. -/
structure FailedMove where
  destUp : Bool := true
  sourceUp : Bool := false
  undoSteps : List UndoStep := []
  undone : Bool := false
  calls : List StackCall := []
deriving DecidableEq, Repr

/-- One undo job on the parent (`_execute_service_migrate_undo`). `steps` of an `UndoError` replace the
stored ones, another exception leaves them; after a success `_parent_already_undone` refuses more. -/
def attemptUndo (p : FailedMove) (r : UndoReports) : FailedMove :=
  if p.undone then p
  else match runUndoPipeline r ⟨p.destUp, p.sourceUp, p.undoSteps, p.calls⟩ with
  | (.ok (), s) => ⟨s.destUp, s.sourceUp, p.undoSteps, true, s.calls⟩
  | (.error (.undo _ steps), s) => ⟨s.destUp, s.sourceUp, steps, false, s.calls⟩
  | (.error (.other _), s) => ⟨s.destUp, s.sourceUp, p.undoSteps, false, s.calls⟩

/-! ## What the pipeline keeps -/

/-- The source is only ever started with the destination stopped. -/
def SafeCalls (calls : List StackCall) : Prop :=
  ∀ c ∈ calls, c.host = .source → c.action = .start → c.destUp = false

/-- `stop` is recorded exactly when the destination is stopped, and the source is not running. -/
structure UndoInv (s : UndoState) : Prop where
  nodup : s.steps.Nodup
  recorded : .stop ∈ s.steps ↔ s.destUp = false
  sourceDown : s.sourceUp = false
  calls : SafeCalls s.calls

/-- The invariant, with the destination stopped. -/
def UndoStopped (s : UndoState) : Prop := UndoInv s ∧ .stop ∈ s.steps

/-- A failure leaves the invariant and carries the steps it ends with. -/
def UndoFails (e : UndoFailure) (s : UndoState) : Prop := UndoInv s ∧ ∃ message, e = .undo message s.steps

theorem SafeCalls.append {calls : List StackCall} (h : SafeCalls calls) {c : StackCall}
    (hc : c.host = .source → c.action = .start → c.destUp = false) : SafeCalls (calls ++ [c]) := by
  intro d hd
  rcases List.mem_append.1 hd with hd | hd
  · exact h d hd
  · obtain rfl := List.mem_singleton.1 hd
    exact hc

theorem nodup_append_new {steps : List UndoStep} (h : steps.Nodup) {step : UndoStep} (hnew : step ∉ steps) :
    (steps ++ [step]).Nodup := by
  simp only [List.nodup_append, List.nodup_cons, List.not_mem_nil, not_false_eq_true, List.nodup_nil, and_self,
    List.mem_singleton, forall_eq, true_and, h]
  rintro a ha rfl
  exact hnew ha

theorem UndoInv.record {s : UndoState} (h : UndoInv s) {step : UndoStep} (hnew : step ∉ s.steps)
    (hstep : step ≠ .stop) : UndoInv { s with steps := s.steps ++ [step] } := by
  refine ⟨nodup_append_new h.nodup hnew, ?_, h.sourceDown, h.calls⟩
  rw [← h.recorded, List.mem_append, List.mem_singleton]
  exact ⟨fun h => h.resolve_right hstep.symm, Or.inl⟩

/-- The two forms of `_fail` never return. -/
theorem raiseUndo_spec (message : Str) : Eff.Triple UndoInv (raiseUndo message) (fun _ _ => False) UndoFails :=
  fun _ hs => ⟨hs, message, rfl⟩

/-- **Compensation.** A dest that starts again is taken off the record; one that does not stays on it. -/
theorem failRestartDest_spec (restart : Report) (message : Str) :
    Eff.Triple UndoStopped (failRestartDest restart message) (fun _ _ => False) UndoFails := by
  rintro s ⟨hs, hstop⟩
  have hcalls : SafeCalls (s.calls ++ [⟨.dest, .start, s.destUp⟩]) := hs.calls.append nofun
  cases hok : restart.ok with
  | true =>
    simp only [failRestartDest, composeStartDest, Eff.bind_apply, hok, if_true, Eff.modify_apply, raiseUndo]
    refine ⟨⟨hs.nodup.erase _, ?_, hs.sourceDown, hcalls⟩, message, rfl⟩
    simp [hs.nodup.mem_erase_iff]
  | false =>
    simp only [failRestartDest, composeStartDest, Eff.bind_apply, hok, Bool.false_eq_true, if_false, raiseUndo]
    exact ⟨⟨hs.nodup, by simp [hstop], hs.sourceDown, hcalls⟩, message, rfl⟩

/-- A step after the stop: skipped when recorded, recorded when its body returns. -/
theorem unlessDone_spec {step : UndoStep} (hstep : step ≠ .stop) {body : UndoM Unit}
    (hbody : Eff.Triple (fun s => UndoStopped s ∧ step ∉ s.steps) body
      (fun _ s => UndoStopped s ∧ step ∉ s.steps) UndoFails) :
    Eff.Triple UndoStopped (unlessDone step body) (fun _ => UndoStopped) UndoFails := by
  intro s hs
  unfold unlessDone
  rw [Eff.bind_apply, Eff.get_apply]
  by_cases hdone : step ∈ s.steps
  · simp only [hdone, if_true, Eff.pure_apply]
    exact hs
  · simp only [hdone, if_false]
    refine Eff.Triple.bind hbody (fun _ => ?_) s ⟨hs, hdone⟩
    exact Eff.Triple.modify fun t ⟨ht, hnew⟩ => ⟨ht.1.record hnew hstep, List.mem_append_left _ ht.2⟩

/-- A step function changes neither stack, so a good outcome keeps what holds. -/
theorem checkOutcome_spec {P : UndoState → Prop} (hP : ∀ s, P s → UndoStopped s) {o : Outcome} {default : Str}
    {fail : Str → UndoM Unit} (hfail : ∀ m, Eff.Triple UndoStopped (fail m) (fun _ _ => False) UndoFails) :
    Eff.Triple P (checkOutcome o default fail) (fun _ => P) UndoFails := by
  have hfail' : ∀ m, Eff.Triple P (fail m) (fun _ => P) UndoFails :=
    fun m => (hfail m).conseq hP (fun _ _ h => h.elim) fun _ _ h => h
  unfold checkOutcome
  cases o with
  | raised message => exact hfail' _
  | returned r =>
    simp only
    split
    · exact Eff.Triple.pure fun _ hs => hs
    · exact hfail' _

/-- Stopping dest: recorded when it worked, and a failed stop leaves dest running and unrecorded. -/
theorem stopDest_spec (r : Report) :
    Eff.Triple UndoInv
      (unlessDone .stop do
        let stopped ← composeStopDest r
        if stopped.ok then pure () else raiseUndo (stopped.message (lit "dest compose stop failed")))
      (fun _ => UndoStopped) UndoFails := by
  intro s hs
  have hcalls : SafeCalls (s.calls ++ [⟨.dest, .stop, s.destUp⟩]) := hs.calls.append nofun
  unfold unlessDone
  rw [Eff.bind_apply, Eff.get_apply]
  by_cases hdone : .stop ∈ s.steps
  · simp only [hdone, if_true, Eff.pure_apply]
    exact ⟨hs, hdone⟩
  · cases hok : r.ok with
    | true =>
      simp only [hdone, if_false, Eff.bind_apply, composeStopDest, hok, if_true, Eff.pure_apply, recordStep,
        Eff.modify_apply]
      exact ⟨⟨nodup_append_new hs.nodup hdone, by simp, hs.sourceDown, hcalls⟩, by simp⟩
    | false =>
      simp only [hdone, if_false, Eff.bind_apply, composeStopDest, hok, Bool.false_eq_true, raiseUndo]
      exact ⟨⟨hs.nodup, by simp [hdone], hs.sourceDown, hcalls⟩, _, rfl⟩

/-- What a finished pipeline leaves: dest stopped, and every source start issued while it was. -/
def UndoDone (s : UndoState) : Prop := s.destUp = false ∧ SafeCalls s.calls

/-- The source is started with dest stopped. -/
theorem startSource_spec (r : Report) :
    Eff.Triple UndoStopped
      (do
        let started ← composeStartSource r
        if started.ok then pure () else raiseUndo (started.message (lit "source compose start failed")))
      (fun _ => UndoDone) UndoFails := by
  rintro s ⟨hs, hstop⟩
  have hdown : s.destUp = false := hs.recorded.1 hstop
  have hcalls : SafeCalls (s.calls ++ [⟨.source, .start, s.destUp⟩]) := hs.calls.append fun _ _ => hdown
  cases hok : r.ok with
  | true =>
    simp only [Eff.bind_apply, composeStartSource, hok, if_true, Eff.pure_apply]
    exact ⟨hdown, hcalls⟩
  | false =>
    simp only [Eff.bind_apply, composeStartSource, hok, Bool.false_eq_true, if_false, raiseUndo]
    exact ⟨⟨hs.nodup, hs.recorded, rfl, hcalls⟩, _, rfl⟩

/-- **The pipeline.** Past the path checks, it ends with dest stopped and the source started, or fails
with the invariant and its steps. -/
theorem runUndoPipeline_spec {r : UndoReports} (hpaths : r.paths = none) :
    Eff.Triple UndoInv (runUndoPipeline r) (fun _ => UndoDone) UndoFails := by
  have raises : ∀ m, Eff.Triple UndoStopped (raiseUndo m) (fun _ _ => False) UndoFails :=
    fun m => (raiseUndo_spec m).conseq (fun _ hs => hs.1) (fun _ _ h => h) fun _ _ h => h
  unfold runUndoPipeline
  rw [hpaths]
  refine Eff.Triple.bind (stopDest_spec r.stop) fun _ => ?_
  refine Eff.Triple.bind (unlessDone_spec (by decide) (checkOutcome_spec (fun _ h => h.1) ?_)) fun _ => ?_
  · exact failRestartDest_spec r.restart
  refine Eff.Triple.bind (unlessDone_spec (by decide) (checkOutcome_spec (fun _ h => h.1) raises)) fun _ => ?_
  refine Eff.Triple.bind (unlessDone_spec (by decide) ?_) fun _ => startSource_spec r.start
  split
  · exact (raises _).conseq (fun _ h => h.1) (fun _ _ h => h.elim) fun _ _ h => h
  · exact Eff.Triple.pure fun _ hs => hs

/-! ## Any sequence of attempts -/

/-- The parent between attempts. -/
structure MoveInv (p : FailedMove) : Prop where
  calls : SafeCalls p.calls
  open_ : p.undone = false → UndoInv ⟨p.destUp, p.sourceUp, p.undoSteps, p.calls⟩
  closed : p.undone = true → p.destUp = false

theorem attemptUndo_inv (p : FailedMove) (r : UndoReports) (h : MoveInv p) : MoveInv (attemptUndo p r) := by
  unfold attemptUndo
  split
  · exact h
  · rename_i hopen
    have hinv := h.open_ (by simpa using hopen)
    cases hpaths : r.paths with
    | some message =>
      have hrun : runUndoPipeline r ⟨p.destUp, p.sourceUp, p.undoSteps, p.calls⟩ =
          (.error (.other message), ⟨p.destUp, p.sourceUp, p.undoSteps, p.calls⟩) := by
        unfold runUndoPipeline
        rw [hpaths]
        rfl
      rw [hrun]
      exact ⟨h.calls, fun _ => hinv, nofun⟩
    | none =>
      have hspec := runUndoPipeline_spec hpaths
      split
      · rename_i s hrun
        have hdone := hspec.ok hinv hrun
        exact ⟨hdone.2, nofun, fun _ => hdone.1⟩
      · rename_i m steps s hrun
        obtain ⟨hs, message, he⟩ := hspec.error hinv hrun
        obtain ⟨rfl, rfl⟩ := UndoFailure.undo.inj he
        exact ⟨hs.calls, fun _ => hs, nofun⟩
      · rename_i m s hrun
        obtain ⟨hs, message, he⟩ := hspec.error hinv hrun
        cases he

theorem attempts_inv (rs : List UndoReports) : MoveInv (runs attemptUndo {} rs) := by
  refine runs_keeps attemptUndo_inv rs {} ⟨nofun, fun _ => ⟨List.nodup_nil, ?_, rfl, nofun⟩, nofun⟩
  simp

/-- **Undo never runs both copies.** After any sequence of attempts on a failed Move, every start of the
source stack was issued with the destination stopped, and while the undo has not succeeded and `dns` is
not recorded, the destination is running and `stop` is not recorded, or stopped and recorded. -/
theorem undo_never_runs_both (rs : List UndoReports) :
    let p := runs attemptUndo {} rs
    (∀ c ∈ p.calls, c.host = .source → c.action = .start → c.destUp = false) ∧
    (p.undone = false → .dns ∉ p.undoSteps →
      (p.destUp = true ∧ .stop ∉ p.undoSteps) ∨ (p.destUp = false ∧ .stop ∈ p.undoSteps)) ∧
    ¬ (p.destUp = true ∧ p.sourceUp = true) := by
  have h := attempts_inv rs
  refine ⟨h.calls, fun hopen _ => ?_, ?_⟩
  · have hrec := (h.open_ hopen).recorded
    cases hd : (runs attemptUndo {} rs).destUp with
    | true => exact Or.inl ⟨rfl, fun hs => by simpa [hd] using hrec.1 hs⟩
    | false => exact Or.inr ⟨rfl, hrec.2 hd⟩
  · rintro ⟨hd, hs⟩
    cases hu : (runs attemptUndo {} rs).undone with
    | true => rw [h.closed hu] at hd; cases hd
    | false => exact absurd hs (by rw [show (runs attemptUndo {} rs).sourceUp = false from (h.open_ hu).sourceDown]; nofun)

end PiHerder.Migrate
