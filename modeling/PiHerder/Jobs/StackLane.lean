import PiHerder.Jobs.Status
import PiHerder.Lib.Eff
import PiHerder.Migrate.Names

/-!
# The lane of stack mutations

The nine entry points that queue a job which writes or starts compose stacks: `create_job_and_run`,
`enqueue_docker_stack_deploy`, `_lifecycle`, `_remove`, `enqueue_template_deploy`, `_redeploy`
(`services/jobs/service.py`) and `enqueue_service_migrate`, `_undo`, `_dest_recover`
(`services/jobs_migrate.py`). Each runs its own check against the job table, inserts a pending row
and hands the job over; each call is one atomic step.

A host is held by every active row of `_STACK_MUTATING_JOB_TYPES` on it, and by an active Move, undo
or recover that names it as destination. Two kinds of check are missing: `create_job_and_run` looks
for the same type only (container jobs apart), and no entry point other than Move's three looks for a
Move whose destination is the host.
-/
namespace PiHerder.Jobs
open Lib Lib.Str

/-! ## Queries -/

/-- `ORDER BY … LIMIT 1`: the first row no other row comes before. -/
def pickBy (before : Job → Job → Bool) : List Job → Option Job
  | [] => none
  | j :: js => match pickBy before js with
    | none => some j
    | some k => if before k j then some k else some j

def newest : List Job → Option Job := pickBy fun a b => decide (b.createdAt < a.createdAt)
def oldest : List Job → Option Job := pickBy fun a b => decide (a.createdAt < b.createdAt)

/-- The active rows of a type on a host. -/
def JobStore.activeRows (s : JobStore) (host : Nat) (t : JobType) : List Job :=
  s.jobs.filter fun j => decide (j.serverId = some host) && decide (j.jobType = t) && j.status.active

/-- `_active_job_of_type` (service.py:2729). -/
def JobStore.activeJobOfType (s : JobStore) (host : Nat) (t : JobType) : Option Job :=
  newest (s.activeRows host t)

/-- `_active_stack_mutating_job` (service.py:4421). -/
def JobStore.activeStackMutatingJob (s : JobStore) (host : Nat) : Option Job :=
  JobType.stackMutatingTypes.findSome? (s.activeJobOfType host)

/-- `_active_migrate_as_dest` (service.py:4430). -/
def JobStore.activeMigrateAsDest (s : JobStore) (host : Nat) : Option Job :=
  s.jobs.find? fun j => j.jobType.dualHost && j.status.active &&
    j.serverId.any (fun h => decide (h ≠ host)) && decide (j.details.destServerId = some host)

/-- `_project_basename` (service.py:3517). -/
def projectBasename (projectPath : Str) : Str :=
  let b := basename (rstrip '/' projectPath)
  if b ≠ [] then b else if projectPath ≠ [] then projectPath else lit "project"

/-- `_active_docker_stack_job` (service.py:3523). -/
def JobStore.activeDockerStackJob (s : JobStore) (host : Nat) (t : JobType) (projectPath : Str) : Option Job :=
  let want := strip projectPath
  newest ((s.activeRows host t).filter fun j =>
    let path := strip ((j.details.projectPath <|> j.details.sourceFilter).getD [])
    decide (want = []) || decide (path = want) || decide (projectBasename path = projectBasename want))

/-- `get_active_backup_jobs` (service.py:296), the first of them. -/
def JobStore.activeBackupJob (s : JobStore) (host : Nat) : Option Job := oldest (s.activeRows host .backup)

/-- `get_active_job_for_source` (service.py:565). -/
def JobStore.activeJobForSource (s : JobStore) (host : Nat) (sourceFilter : Option Str) : Option Job :=
  oldest ((s.activeRows host .backup).filter fun j =>
    decide (j.details.sourceFilter.filter (· ≠ []) = sourceFilter.filter (· ≠ [])))

/-- `_reboot_lane_blocker` (service.py:2752). -/
def JobStore.rebootLaneBlocker (s : JobStore) (host : Nat) : JobType → Option Job
  | .hostReboot => [JobType.osPatch, .containerPatch, .backup].findSome? (s.activeJobOfType host)
  | .osPatch | .containerPatch | .backup => s.activeJobOfType host .hostReboot
  | _ => none

/-- `_parent_has_child` (jobs_migrate.py:496). -/
def JobStore.parentHasChild (s : JobStore) (parentId : Nat) (t : JobType) : Bool :=
  s.jobs.any fun j => decide (j.jobType = t) && (j.status.active || decide (j.status = .success)) &&
    decide (j.details.parentJobId.getD 0 = parentId)

/-- What Move, undo and recover look for on each of their two hosts. -/
def JobStore.moveBlocker (s : JobStore) (host : Nat) : Option Job :=
  s.activeStackMutatingJob host <|> s.activeMigrateAsDest host <|> s.activeBackupJob host

/-! ## The entry points -/

inductive LaneError
  | jobAlreadyActive (job : Job)
  | backupAlreadyRunning (job : Job)
  | valueError (message : Str)
  | runtimeError
deriving DecidableEq, Repr

/-- What a call finds outside the job table: the clock, the servers, demo mode, and the Celery task id
when a worker is there and the broker takes the message. -/
structure Env where
  now : Nat
  servers : List Nat
  demo : Bool
  celery : Option Nat
deriving DecidableEq, Repr

/-- The row an entry point inserts once its checks have passed. -/
structure NewRow where
  serverId : Option Nat
  jobType : JobType
  details : JobDetails
deriving DecidableEq, Repr

/-- `if active: raise JobAlreadyActive(active)`. -/
def raiseActive (active : Option Job) : Except LaneError Unit :=
  match active with
  | some j => .error (.jobAlreadyActive j)
  | none => .ok ()

/-- `if not server: raise ValueError("server not found")`. -/
def raiseNoServer (env : Env) (host : Nat) : Except LaneError Unit :=
  raiseIf (host ∉ env.servers) (.valueError (lit "server not found"))

def raiseNoPath (path : Str) : Except LaneError Unit :=
  raiseIf (path = []) (.valueError (lit "project_path required"))

/-- `PRUNE_TYPES` (input_validation.py:219). -/
def pruneTypes : List Str := [lit "images", lit "containers", lit "both", lit "networks", lit "volumes"]

/-- The sweep that a backup request runs before it looks for a running backup. -/
def sweepFirst (env : Env) (t : JobType) (s : JobStore) : JobStore :=
  if t = .backup then s.update (cleanupStaleBackupJobs env.now 120) else s

/-- The details `create_job_and_run` stores. -/
def createdDetails (t : JobType) (sourceFilter : Option Str) : JobDetails :=
  if t = .backup then { sourceFilter := sourceFilter }
  else if t.containerService then { sourceFilter := some (strip (sourceFilter.getD [])) }
  else {}

/-- The checks of `create_job_and_run` (service.py:1052-1103). -/
def createJobChecks (env : Env) (serverId : Option Nat) (t : JobType) (sourceFilter service : Option Str)
    (s : JobStore) : Except LaneError NewRow := do
  raiseActive (serverId.bind (s.rebootLaneBlocker · t))
  raiseIf (t.containerService = true ∧ (strip (sourceFilter.getD []) = [] ∨ strip (service.getD []) = []))
    (.valueError (lit "container start and stop need a compose directory and a service name"))
  raiseActive (if t.containerService then serverId.bind s.activeStackMutatingJob else none)
  match (if t = .backup then serverId.bind ((sweepFirst env t s).activeJobForSource · sourceFilter) else none) with
  | some j => .error (.backupAlreadyRunning j)
  | none => do
    let prune := lower (strip (sourceFilter.getD (lit "both")))
    raiseIf (t = .dockerPrune ∧ prune ≠ [] ∧ prune ∉ pruneTypes)
      (.valueError (lit "prune_type must be images, containers, both, networks, or volumes"))
    raiseActive (if t.exclusive ∧ t ≠ .hostBootstrap then serverId.bind (s.activeJobOfType · t) else none)
    pure ⟨serverId, t, createdDetails t sourceFilter⟩

/-- `enqueue_docker_stack_deploy` (service.py:3609). -/
def stackDeployChecks (env : Env) (host : Nat) (projectPath : Str) (s : JobStore) : Except LaneError NewRow := do
  let path := strip projectPath
  raiseNoPath path
  raiseNoServer env host
  raiseActive (s.activeDockerStackJob host .dockerStackDeploy path <|> s.activeStackMutatingJob host)
  pure ⟨some host, .dockerStackDeploy, { projectPath := some path }⟩

/-- `_STACK_LIFECYCLE_ACTIONS`, each with its `docker_stack_{act}` type. -/
def lifecycleType (act : Str) : Option JobType :=
  if act = lit "stop" then some .dockerStackStop
  else if act = lit "start" then some .dockerStackStart
  else if act = lit "restart" then some .dockerStackRestart
  else if act = lit "down" then some .dockerStackDown
  else none

/-- `enqueue_docker_stack_lifecycle` (service.py:3953). -/
def stackLifecycleChecks (env : Env) (host : Nat) (projectPath action : Str) (s : JobStore) :
    Except LaneError NewRow :=
  match lifecycleType (lower (strip action)) with
  | none => .error (.valueError (lit "invalid lifecycle action: " ++ action))
  | some t => do
    let path := strip projectPath
    raiseNoPath path
    raiseNoServer env host
    raiseActive (s.activeDockerStackJob host t path <|> s.activeStackMutatingJob host)
    pure ⟨some host, t, { projectPath := some path }⟩

/-- `enqueue_docker_stack_remove` (service.py:4024); `wipe` is the answer of `assert_wipe_allowed`. -/
def stackRemoveChecks (env : Env) (host : Nat) (projectPath : Str) (wipe : Except Str Unit) (s : JobStore) :
    Except LaneError NewRow := do
  let path := strip projectPath
  raiseNoPath path
  raiseNoServer env host
  wipe.mapError .valueError
  raiseActive (s.activeDockerStackJob host .dockerStackRemove path <|> s.activeStackMutatingJob host)
  pure ⟨some host, .dockerStackRemove, { projectPath := some path }⟩

/-- `enqueue_template_deploy` (service.py:4458). -/
def templateDeployChecks (env : Env) (host : Nat) (slug : Str) (valuesIsDict : Bool) (s : JobStore) :
    Except LaneError NewRow := do
  raiseIf (strip slug = []) (.valueError (lit "template_slug required"))
  raiseIf (valuesIsDict = false) (.valueError (lit "values must be a dict"))
  raiseNoServer env host
  raiseActive (s.activeStackMutatingJob host)
  pure ⟨some host, .templateDeploy, {}⟩

/-- `enqueue_template_redeploy` (service.py:4526). -/
def templateRedeployChecks (env : Env) (host : Nat) (s : JobStore) : Except LaneError NewRow := do
  raiseNoServer env host
  raiseActive (s.activeStackMutatingJob host)
  pure ⟨some host, .templateRedeploy, {}⟩

/-- `enqueue_service_migrate` (jobs_migrate.py:43). -/
def serviceMigrateChecks (env : Env) (source dest : Nat) (project : Str) (destProject : Option Str)
    (portMap : Dict Str Str) (s : JobStore) : Except LaneError NewRow := do
  let name ← (Migrate.composeProjectName project).mapError .valueError
  let destErr := (Migrate.normalizeDestProject name destProject).2
  raiseIf (destErr.isSome = true) (.valueError (destErr.getD []))
  let errs := (Migrate.validatePortMap portMap).2
  raiseIf (errs ≠ []) (.valueError (List.intercalate (lit "; ") (errs.take 4)))
  raiseIf (source = dest) (.valueError (lit "destination must differ from source"))
  raiseNoServer env source
  raiseNoServer env dest
  raiseActive (s.moveBlocker source)
  raiseActive (s.moveBlocker dest)
  pure ⟨some source, .serviceMigrate, { destServerId := some dest }⟩

/-- The hosts of the payload that `eligible_undo` or `eligible_dest_up_recover` returns. -/
structure ParentPayload where
  sourceId : Nat
  destId : Nat
deriving DecidableEq, Repr

/-- `enqueue_service_migrate_undo` (jobs_migrate.py:519) and `enqueue_service_migrate_dest_recover`
(jobs_migrate.py:727): the same checks under two job types and two pairs of texts. -/
def parentJobChecks (t : JobType) (notEligible alreadyDone : Str) (env : Env) (surfaceAllowed : Bool)
    (parentId : Nat) (payload : Option ParentPayload) (s : JobStore) : Except LaneError NewRow := do
  raiseIf (surfaceAllowed = false) (.valueError (lit "Service migration is off"))
  match payload with
  | none => .error (.valueError notEligible)
  | some p => do
    raiseIf (s.parentHasChild parentId t = true) (.valueError alreadyDone)
    raiseActive (s.moveBlocker p.sourceId)
    raiseActive (s.moveBlocker p.destId)
    raiseIf (p.sourceId ∉ env.servers ∨ p.destId ∉ env.servers)
      (.valueError (lit "source or destination host is gone"))
    pure ⟨some p.sourceId, t, { destServerId := some p.destId, parentJobId := some parentId }⟩

def serviceMigrateUndoChecks : Env → Bool → Nat → Option ParentPayload → JobStore → Except LaneError NewRow :=
  parentJobChecks .serviceMigrateUndo (lit "Undo is only for a failed Move after names flipped")
    (lit "This Move was already undone or an undo is still running")

def destRecoverChecks : Env → Bool → Nat → Option ParentPayload → JobStore → Except LaneError NewRow :=
  parentJobChecks .serviceMigrateDestRecover
    (lit "This helper is only for a Move that died while starting the destination")
    (lit "Dest was already recovered or that job is still running")

/-! ## Hand-over -/

/-- A job sent to Celery keeps the task id; without a worker its row is failed and the call raises. -/
def enqueueCelery (env : Env) (jid : Nat) : Eff JobStore LaneError Nat :=
  match env.celery with
  | some task => do
    Eff.modify (·.update (onJob jid fun j => { j with celeryTaskId := some task }))
    pure jid
  | none => do
    Eff.modify (·.update (onJob jid (markJobTerminal env.now .failed)))
    Eff.raise .runtimeError

/-- `handoff_exclusive` (jobs_exclusive.py:175): demo mode finishes the row as a simulation. -/
def handoffExclusive (env : Env) (jid : Nat) : Eff JobStore LaneError Nat :=
  if env.demo then do
    Eff.modify (·.update (onJob jid (finishDemoJob env.now)))
    pure jid
  else enqueueCelery env jid

/-- The types `create_job_and_run` has a hand-over for. A row of another type stays pending. -/
def JobType.createRuns (t : JobType) : Bool :=
  match t with
  | .templateDeploy | .templateRedeploy | .templateDriftCheck
  | .serviceMigrate | .serviceMigrateUndo | .serviceMigrateDestRecover
  | .nmap _ | .other _ => false
  | _ => true

/-- The tail of `create_job_and_run`: demo mode first, then the hand-over of the type; a busy host
fails a bootstrap row at once. -/
def handoffCreated (env : Env) (serverId : Option Nat) (t : JobType) (jid : Nat) : Eff JobStore LaneError Nat :=
  if env.demo then handoffExclusive env jid
  else if ¬ t.createRuns then pure jid
  else if t = .hostBootstrap then do
    let s ← Eff.get
    if s.otherActiveJob serverId t jid then
      Eff.modify (·.update (onJob jid (markJobTerminal env.now .failed)))
      pure jid
    else enqueueCelery env jid
  else enqueueCelery env jid

/-- The calls of the entry points, and the ends of jobs. -/
inductive LaneEvent
  | createJobAndRun (env : Env) (serverId : Option Nat) (t : JobType) (sourceFilter service : Option Str)
  | enqueueDockerStackDeploy (env : Env) (host : Nat) (projectPath : Str)
  | enqueueDockerStackLifecycle (env : Env) (host : Nat) (projectPath action : Str)
  | enqueueDockerStackRemove (env : Env) (host : Nat) (projectPath : Str) (wipe : Except Str Unit)
  | enqueueTemplateDeploy (env : Env) (host : Nat) (slug : Str) (valuesIsDict : Bool)
  | enqueueTemplateRedeploy (env : Env) (host : Nat)
  | enqueueServiceMigrate (env : Env) (source dest : Nat) (project : Str) (destProject : Option Str)
      (portMap : Dict Str Str)
  | enqueueServiceMigrateUndo (env : Env) (surfaceAllowed : Bool) (parentId : Nat) (payload : Option ParentPayload)
  | enqueueServiceMigrateDestRecover (env : Env) (surfaceAllowed : Bool) (parentId : Nat)
      (payload : Option ParentPayload)
  | complete (jid : Nat) (ok : Bool) (now : Nat)
  | cancelJob (jid now : Nat)

/-- The checks of an entry point, with the hand-over of the row they let through. -/
def LaneEvent.request : LaneEvent → JobStore → Option (Env × Except LaneError NewRow × (Nat → Eff JobStore LaneError Nat))
  | .createJobAndRun env h t sf svc, s =>
    some (env, createJobChecks env h t sf svc s, handoffCreated env h t)
  | .enqueueDockerStackDeploy env h path, s => some (env, stackDeployChecks env h path s, handoffExclusive env)
  | .enqueueDockerStackLifecycle env h path act, s =>
    some (env, stackLifecycleChecks env h path act s, handoffExclusive env)
  | .enqueueDockerStackRemove env h path wipe, s =>
    some (env, stackRemoveChecks env h path wipe s, handoffExclusive env)
  | .enqueueTemplateDeploy env h slug ok, s => some (env, templateDeployChecks env h slug ok s, handoffExclusive env)
  | .enqueueTemplateRedeploy env h, s => some (env, templateRedeployChecks env h s, handoffExclusive env)
  | .enqueueServiceMigrate env a b p q m, s => some (env, serviceMigrateChecks env a b p q m s, enqueueCelery env)
  | .enqueueServiceMigrateUndo env on parent p, s =>
    some (env, serviceMigrateUndoChecks env on parent p s, enqueueCelery env)
  | .enqueueServiceMigrateDestRecover env on parent p, s =>
    some (env, destRecoverChecks env on parent p s, enqueueCelery env)
  | .complete .., _ | .cancelJob .., _ => none

/-- What the call does to the table before its checks, and what the end of a job does. -/
def LaneEvent.before : LaneEvent → JobStore → JobStore
  | .createJobAndRun env h t _ _, s => if (h.bind (s.rebootLaneBlocker · t)).isSome then s else sweepFirst env t s
  | .complete jid ok now, s => s.update (onJob jid (Jobs.finish (if ok then .success else .failed) now))
  | .cancelJob jid now, s => s.update (onJob jid (Jobs.cancelJob now))
  | _, s => s

/-- Insert the row the checks let through, and hand it over. -/
def insertAndHandoff (env : Env) (r : NewRow) (handoff : Nat → Eff JobStore LaneError Nat) (s : JobStore) : JobStore :=
  (handoff s.nextId (s.create env.now r.serverId r.jobType r.details)).2

/-- One call, or the end of one job. -/
def laneStep (s : JobStore) (e : LaneEvent) : JobStore :=
  match e.request s with
  | some (env, .ok r, handoff) => insertAndHandoff env r handoff (e.before s)
  | _ => e.before s

/-! ## Who holds a host -/

/-- An active stack mutation holds its host, and one that stands for two hosts its destination too. -/
def Job.holds (j : Job) (h : Nat) : Prop :=
  j.status.active = true ∧ j.jobType.stackMutating = true ∧
    (j.serverId = some h ∨ (j.jobType.dualHost = true ∧ j.details.destServerId = some h))

/-- **One stack mutation per host**: no two rows hold the same host. -/
def OneMutationPerHost (s : JobStore) : Prop := s.jobs.Pairwise fun i j => ¬ ∃ h, i.holds h ∧ j.holds h

/-- A row that names a destination names a source. -/
def Job.Placed (j : Job) : Prop := j.details.destServerId.isSome = true → j.serverId.isSome = true

structure LaneInv (s : JobStore) : Prop where
  exclusive : OneMutationPerHost s
  placed : ∀ j ∈ s.jobs, j.Placed

/-- A row-wise write that moves no row to another host or lane and makes none active. -/
structure Calms (f : Job → Job) : Prop where
  serverId : ∀ j, (f j).serverId = j.serverId
  jobType : ∀ j, (f j).jobType = j.jobType
  dest : ∀ j, (f j).details.destServerId = j.details.destServerId
  active : ∀ j, (f j).status.active = true → j.status.active = true

theorem Calms.holds {f : Job → Job} (hf : Calms f) {j : Job} {h : Nat} (hh : (f j).holds h) : j.holds h := by
  obtain ⟨ha, hm, hs⟩ := hh
  rw [hf.jobType] at hm
  rw [hf.serverId, hf.jobType, hf.dest] at hs
  exact ⟨hf.active j ha, hm, hs⟩

theorem Calms.onJob {f : Job → Job} (hf : Calms f) (jid : Nat) : Calms (onJob jid f) := by
  refine ⟨fun j => ?_, fun j => ?_, fun j => ?_, fun j => ?_⟩ <;> unfold Jobs.onJob <;> split
  · exact hf.serverId j
  · rfl
  · exact hf.jobType j
  · rfl
  · exact hf.dest j
  · rfl
  · exact hf.active j
  · exact id

/-- Ending rows, under any condition. -/
theorem Calms.mark {p : Job → Prop} [DecidablePred p] (now : Nat) {st : JobStatus} (hst : st.active = false) :
    Calms fun j => if p j then markJobTerminal now st j else j := by
  refine ⟨fun j => ?_, fun j => ?_, fun j => ?_, fun j h => ?_⟩
  · split <;> rfl
  · split <;> rfl
  · split <;> rfl
  · split at h
    · exact absurd (hst.symm.trans h) Bool.false_ne_true
    · exact h

theorem calms_markFailed (now : Nat) : Calms (markJobTerminal now .failed) :=
  ⟨fun _ => rfl, fun _ => rfl, fun _ => rfl, fun _ h => by cases h⟩

theorem calms_celery (task : Nat) : Calms fun j => { j with celeryTaskId := some task } :=
  ⟨fun _ => rfl, fun _ => rfl, fun _ => rfl, fun _ h => h⟩

theorem calms_cancelJob (now : Nat) : Calms (cancelJob now) := .mark now rfl

theorem calms_cleanupStaleBackupJobs (now age : Nat) : Calms (cleanupStaleBackupJobs now age) := .mark now rfl

theorem calms_finishDemoJob (now : Nat) : Calms (finishDemoJob now) := by
  refine ⟨fun j => ?_, fun j => ?_, fun j => ?_, fun _ h => by cases h⟩ <;>
    unfold finishDemoJob startDemoJob <;> split_ifs <;> rfl

theorem calms_finish {st : JobStatus} (hst : st.active = false) (now : Nat) : Calms (finish st now) := by
  refine ⟨fun j => ?_, fun j => ?_, fun j => ?_, fun j h => ?_⟩
  · unfold finish; split_ifs <;> rfl
  · unfold finish; split_ifs <;> rfl
  · unfold finish; split_ifs <;> rfl
  · unfold finish at h
    split_ifs at h
    · exact h
    · exact h
    · exact absurd (hst.symm.trans h) Bool.false_ne_true

theorem LaneInv.update {s : JobStore} (h : LaneInv s) {f : Job → Job} (hf : Calms f) : LaneInv (s.update f) := by
  refine ⟨?_, fun j hj => ?_⟩
  · refine List.pairwise_map.2 (h.exclusive.imp fun hij hh => hij ?_)
    obtain ⟨host, hi, hj⟩ := hh
    exact ⟨host, hf.holds hi, hf.holds hj⟩
  · obtain ⟨i, hi, rfl⟩ := List.mem_map.1 hj
    intro hd
    rw [hf.dest] at hd
    rw [hf.serverId]
    exact h.placed i hi hd

/-- The hosts a row would hold. -/
def NewRow.hosts (r : NewRow) : List Nat :=
  r.serverId.toList ++ if r.jobType.dualHost then r.details.destServerId.toList else []

theorem NewRow.holds_iff {r : NewRow} {jid now h : Nat} :
    Job.holds { id := jid, serverId := r.serverId, jobType := r.jobType, createdAt := now, details := r.details } h ↔
      r.jobType.stackMutating = true ∧ h ∈ r.hosts := by
  unfold Job.holds NewRow.hosts
  cases r.jobType.dualHost <;> simp [JobStatus.active, Option.mem_toList]

/-! ## What the queries find -/

theorem pickBy_eq_none {before : Job → Job → Bool} : ∀ {l : List Job}, pickBy before l = none ↔ l = []
  | [] => by simp [pickBy]
  | j :: js => by
    simp only [pickBy, reduceCtorEq, iff_false]
    split
    · simp
    · split <;> simp

theorem pickBy_mem {before : Job → Job → Bool} {l : List Job} : ∀ {j : Job}, pickBy before l = some j → j ∈ l := by
  induction l with
  | nil => intro j h; simp [pickBy] at h
  | cons i is ih =>
    intro j h
    cases hk : pickBy before is with
    | none =>
      simp only [pickBy, hk, Option.some.injEq] at h
      exact h ▸ List.mem_cons_self
    | some k =>
      simp only [pickBy, hk] at h
      split at h
      · exact List.mem_cons_of_mem _ (Option.some.inj h ▸ ih hk)
      · exact Option.some.inj h ▸ List.mem_cons_self

theorem mem_activeRows {s : JobStore} {host : Nat} {t : JobType} {j : Job} :
    j ∈ s.activeRows host t ↔ j ∈ s.jobs ∧ j.serverId = some host ∧ j.jobType = t ∧ j.status.active = true := by
  simp [JobStore.activeRows, and_assoc]

theorem activeStackMutatingJob_some {s : JobStore} {host : Nat} {j : Job} (h : s.activeStackMutatingJob host = some j) :
    j ∈ s.jobs ∧ j.holds host := by
  obtain ⟨t, ht, hj⟩ := List.exists_of_findSome?_eq_some h
  obtain ⟨hm, hs, rfl, ha⟩ := mem_activeRows.1 (pickBy_mem hj)
  exact ⟨hm, ha, decide_eq_true ht, Or.inl hs⟩

theorem activeStackMutatingJob_none {s : JobStore} {host : Nat} (h : s.activeStackMutatingJob host = none)
    {j : Job} (hj : j ∈ s.jobs) (hs : j.serverId = some host) (hm : j.jobType.stackMutating = true) :
    j.status.active = false := by
  have hrow := List.findSome?_eq_none_iff.1 h j.jobType (of_decide_eq_true hm)
  by_contra ha
  have : j ∈ s.activeRows host j.jobType := mem_activeRows.2 ⟨hj, hs, rfl, by simpa using ha⟩
  rw [pickBy_eq_none.1 hrow] at this
  cases this

theorem JobType.stackMutating_of_dualHost {t : JobType} (h : t.dualHost = true) : t.stackMutating = true := by
  cases t <;> first | rfl | cases h

theorem activeMigrateAsDest_some {s : JobStore} {host : Nat} {j : Job} (h : s.activeMigrateAsDest host = some j) :
    j ∈ s.jobs ∧ j.holds host := by
  have hp := List.find?_some h
  simp only [Bool.and_eq_true, decide_eq_true_eq] at hp
  obtain ⟨⟨⟨hd, ha⟩, -⟩, hdest⟩ := hp
  exact ⟨List.mem_of_find?_eq_some h, ha, JobType.stackMutating_of_dualHost hd, Or.inr ⟨hd, hdest⟩⟩

/-- **The two checks of Move together leave nothing that holds the host.** -/
theorem free_of_checks {s : JobStore} (hinv : LaneInv s) {host : Nat} (h1 : s.activeStackMutatingJob host = none)
    (h2 : s.activeMigrateAsDest host = none) {j : Job} (hj : j ∈ s.jobs) : ¬ j.holds host := by
  rintro ⟨ha, hm, hs | ⟨hd, hdest⟩⟩
  · rw [activeStackMutatingJob_none h1 hj hs hm] at ha; cases ha
  · obtain ⟨src, hsrc⟩ := Option.isSome_iff_exists.1 (hinv.placed j hj (by rw [hdest]; rfl))
    by_cases he : src = host
    · subst he
      rw [activeStackMutatingJob_none h1 hj hsrc hm] at ha; cases ha
    · have := List.find?_eq_none.1 h2 j hj
      simp [hd, ha, hsrc, he, hdest] at this

/-! ## What the checks of an entry point leave out -/

/-- A holder of the host that the entry point does not look for: another type of stack mutation, for
the types that `create_job_and_run` compares with themselves only, and an active Move with the host as
destination, for every entry point but Move's own three. -/
def LaneEvent.missed (s : JobStore) : LaneEvent → Option Job
  | .createJobAndRun _ (some host) t _ _ =>
    if t.stackMutating then
      (if t.containerService then none else s.activeStackMutatingJob host) <|> s.activeMigrateAsDest host
    else none
  | .enqueueDockerStackDeploy _ host _ | .enqueueDockerStackLifecycle _ host _ _
  | .enqueueDockerStackRemove _ host _ _ | .enqueueTemplateDeploy _ host _ _ | .enqueueTemplateRedeploy _ host =>
    s.activeMigrateAsDest host
  | _ => none

/-- The row of the call stays pending: no demo simulation, and a worker takes it. -/
def LaneEvent.staysPending : LaneEvent → Bool
  | .createJobAndRun env _ t _ _ => !env.demo && (!t.createRuns || env.celery.isSome)
  | .enqueueDockerStackDeploy env _ _ | .enqueueDockerStackLifecycle env _ _ _
  | .enqueueDockerStackRemove env _ _ _ | .enqueueTemplateDeploy env _ _ _ | .enqueueTemplateRedeploy env _ =>
    !env.demo && env.celery.isSome
  | .enqueueServiceMigrate env _ _ _ _ _ | .enqueueServiceMigrateUndo env _ _ _
  | .enqueueServiceMigrateDestRecover env _ _ _ => env.celery.isSome
  | .complete .. | .cancelJob .. => false

theorem raiseActive_eq_ok {a : Option Job} {u : Unit} : raiseActive a = .ok u ↔ a = none := by
  cases a <;> simp [raiseActive]

theorem orElse_eq_none {α : Type} {a b : Option α} : (a <|> b) = none ↔ a = none ∧ b = none := by
  cases a <;> simp

theorem orElse_eq_some {α : Type} {a b : Option α} {x : α} :
    (a <|> b) = some x ↔ a = some x ∨ (a = none ∧ b = some x) := by
  cases a <;> simp

/-- A row for one host, let through when no stack mutation was active there. -/
structure SingleHost (s : JobStore) (host : Nat) (r : NewRow) : Prop where
  serverId : r.serverId = some host
  mutating : r.jobType.stackMutating = true
  single : r.jobType.dualHost = false
  noDest : r.details.destServerId = none
  checked : s.activeStackMutatingJob host = none

/-- A row for two hosts, let through when neither was held. -/
structure TwoHosts (s : JobStore) (source target : Nat) (r : NewRow) : Prop where
  serverId : r.serverId = some source
  dest : r.details.destServerId = some target
  dual : r.jobType.dualHost = true
  sourceFree : s.moveBlocker source = none
  destFree : s.moveBlocker target = none

theorem stackDeployChecks_ok {env : Env} {host : Nat} {path : Str} {s : JobStore} {r : NewRow}
    (h : stackDeployChecks env host path s = .ok r) : SingleHost s host r := by
  simp only [stackDeployChecks, except_bind_eq_ok, raiseActive_eq_ok, orElse_eq_none] at h
  obtain ⟨_, _, _, _, _, ⟨-, hfree⟩, h⟩ := h
  cases h
  exact ⟨rfl, rfl, rfl, rfl, hfree⟩

theorem lifecycleType_mutating {act : Str} {t : JobType} (h : lifecycleType act = some t) :
    t.stackMutating = true ∧ t.dualHost = false := by
  unfold lifecycleType at h
  split_ifs at h <;> cases h <;> exact ⟨rfl, rfl⟩

theorem stackLifecycleChecks_ok {env : Env} {host : Nat} {path act : Str} {s : JobStore} {r : NewRow}
    (h : stackLifecycleChecks env host path act s = .ok r) : SingleHost s host r := by
  unfold stackLifecycleChecks at h
  split at h
  · cases h
  · rename_i t ht
    obtain ⟨hm, hd⟩ := lifecycleType_mutating ht
    simp only [except_bind_eq_ok, raiseActive_eq_ok, orElse_eq_none] at h
    obtain ⟨_, _, _, _, _, ⟨-, hfree⟩, h⟩ := h
    cases h
    exact ⟨rfl, hm, hd, rfl, hfree⟩

theorem stackRemoveChecks_ok {env : Env} {host : Nat} {path : Str} {wipe : Except Str Unit} {s : JobStore}
    {r : NewRow} (h : stackRemoveChecks env host path wipe s = .ok r) : SingleHost s host r := by
  simp only [stackRemoveChecks, except_bind_eq_ok, raiseActive_eq_ok, orElse_eq_none] at h
  obtain ⟨_, _, _, _, _, _, _, ⟨-, hfree⟩, h⟩ := h
  cases h
  exact ⟨rfl, rfl, rfl, rfl, hfree⟩

theorem templateDeployChecks_ok {env : Env} {host : Nat} {slug : Str} {ok : Bool} {s : JobStore} {r : NewRow}
    (h : templateDeployChecks env host slug ok s = .ok r) : SingleHost s host r := by
  simp only [templateDeployChecks, except_bind_eq_ok, raiseActive_eq_ok] at h
  obtain ⟨_, _, _, _, _, _, _, hfree, h⟩ := h
  cases h
  exact ⟨rfl, rfl, rfl, rfl, hfree⟩

theorem templateRedeployChecks_ok {env : Env} {host : Nat} {s : JobStore} {r : NewRow}
    (h : templateRedeployChecks env host s = .ok r) : SingleHost s host r := by
  simp only [templateRedeployChecks, except_bind_eq_ok, raiseActive_eq_ok] at h
  obtain ⟨_, _, _, hfree, h⟩ := h
  cases h
  exact ⟨rfl, rfl, rfl, rfl, hfree⟩

theorem serviceMigrateChecks_ok {env : Env} {source dest : Nat} {project : Str} {destProject : Option Str}
    {portMap : Dict Str Str} {s : JobStore} {r : NewRow}
    (h : serviceMigrateChecks env source dest project destProject portMap s = .ok r) :
    TwoHosts s source dest r := by
  simp only [serviceMigrateChecks, except_bind_eq_ok, raiseActive_eq_ok] at h
  obtain ⟨_, _, _, _, _, _, _, _, _, _, _, _, _, hsource, _, hdest, h⟩ := h
  cases h
  exact ⟨rfl, rfl, rfl, hsource, hdest⟩

theorem parentJobChecks_ok {t : JobType} (ht : t.dualHost = true) {notEligible alreadyDone : Str} {env : Env}
    {on : Bool} {parent : Nat} {payload : Option ParentPayload} {s : JobStore} {r : NewRow}
    (h : parentJobChecks t notEligible alreadyDone env on parent payload s = .ok r) :
    ∃ p, payload = some p ∧ TwoHosts s p.sourceId p.destId r := by
  unfold parentJobChecks at h
  rw [except_bind_eq_ok] at h
  obtain ⟨_, -, h⟩ := h
  cases payload with
  | none => cases h
  | some p =>
    simp only [except_bind_eq_ok, raiseActive_eq_ok] at h
    obtain ⟨_, _, _, hsource, _, hdest, _, _, h⟩ := h
    cases h
    exact ⟨p, rfl, rfl, rfl, ht, hsource, hdest⟩

theorem createJobChecks_ok {env : Env} {h : Option Nat} {t : JobType} {sf svc : Option Str} {s : JobStore} {r : NewRow}
    (hr : createJobChecks env h t sf svc s = .ok r) :
    r = ⟨h, t, createdDetails t sf⟩ ∧ (t.containerService = true → h.bind s.activeStackMutatingJob = none) := by
  unfold createJobChecks at hr
  simp only [except_bind_eq_ok, raiseActive_eq_ok] at hr
  obtain ⟨_, -, _, -, _, hlane, hr⟩ := hr
  split at hr
  · cases hr
  · simp only [except_bind_eq_ok] at hr
    obtain ⟨_, -, _, -, hr⟩ := hr
    cases hr
    exact ⟨rfl, fun hc => by rwa [if_pos hc] at hlane⟩

/-- What an admitted call is: one host that was checked for stack mutations, Move's two checked hosts,
or whatever `create_job_and_run` was given. -/
theorem LaneEvent.request_ok {e : LaneEvent} {s : JobStore} {env : Env} {r : NewRow}
    {handoff : Nat → Eff JobStore LaneError Nat} (h : e.request s = some (env, .ok r, handoff)) :
    (∃ host, SingleHost s host r ∧ e.missed s = s.activeMigrateAsDest host ∧ e.before s = s) ∨
    (∃ a b, TwoHosts s a b r ∧ e.missed s = none ∧ e.before s = s) ∨
    (∃ server t sf svc, e = .createJobAndRun env server t sf svc ∧ r = ⟨server, t, createdDetails t sf⟩ ∧
      (t.containerService = true → server.bind s.activeStackMutatingJob = none)) := by
  cases e with
  | createJobAndRun env' server t sf svc =>
    simp only [LaneEvent.request, Option.some.injEq, Prod.mk.injEq] at h
    obtain ⟨rfl, hr, -⟩ := h
    obtain ⟨rfl, hc⟩ := createJobChecks_ok hr
    exact Or.inr (Or.inr ⟨server, t, sf, svc, rfl, rfl, hc⟩)
  | enqueueDockerStackDeploy env' host path =>
    simp only [LaneEvent.request, Option.some.injEq, Prod.mk.injEq] at h
    exact Or.inl ⟨host, stackDeployChecks_ok h.2.1, rfl, rfl⟩
  | enqueueDockerStackLifecycle env' host path act =>
    simp only [LaneEvent.request, Option.some.injEq, Prod.mk.injEq] at h
    exact Or.inl ⟨host, stackLifecycleChecks_ok h.2.1, rfl, rfl⟩
  | enqueueDockerStackRemove env' host path wipe =>
    simp only [LaneEvent.request, Option.some.injEq, Prod.mk.injEq] at h
    exact Or.inl ⟨host, stackRemoveChecks_ok h.2.1, rfl, rfl⟩
  | enqueueTemplateDeploy env' host slug ok =>
    simp only [LaneEvent.request, Option.some.injEq, Prod.mk.injEq] at h
    exact Or.inl ⟨host, templateDeployChecks_ok h.2.1, rfl, rfl⟩
  | enqueueTemplateRedeploy env' host =>
    simp only [LaneEvent.request, Option.some.injEq, Prod.mk.injEq] at h
    exact Or.inl ⟨host, templateRedeployChecks_ok h.2.1, rfl, rfl⟩
  | enqueueServiceMigrate env' a b p q m =>
    simp only [LaneEvent.request, Option.some.injEq, Prod.mk.injEq] at h
    exact Or.inr (Or.inl ⟨a, b, serviceMigrateChecks_ok h.2.1, rfl, rfl⟩)
  | enqueueServiceMigrateUndo env' on parent p =>
    simp only [LaneEvent.request, Option.some.injEq, Prod.mk.injEq] at h
    obtain ⟨p', -, htwo⟩ := parentJobChecks_ok rfl h.2.1
    exact Or.inr (Or.inl ⟨p'.sourceId, p'.destId, htwo, rfl, rfl⟩)
  | enqueueServiceMigrateDestRecover env' on parent p =>
    simp only [LaneEvent.request, Option.some.injEq, Prod.mk.injEq] at h
    obtain ⟨p', -, htwo⟩ := parentJobChecks_ok rfl h.2.1
    exact Or.inr (Or.inl ⟨p'.sourceId, p'.destId, htwo, rfl, rfl⟩)
  | complete => cases h
  | cancelJob => cases h

theorem SingleHost.hosts {s : JobStore} {host : Nat} {r : NewRow} (h : SingleHost s host r) : r.hosts = [host] := by
  simp [NewRow.hosts, h.serverId, h.single]

theorem TwoHosts.hosts {s : JobStore} {a b : Nat} {r : NewRow} (h : TwoHosts s a b r) : r.hosts = [a, b] := by
  simp [NewRow.hosts, h.serverId, h.dual, h.dest]

theorem createdDetails_dest (t : JobType) (sf : Option Str) : (createdDetails t sf).destServerId = none := by
  unfold createdDetails; split_ifs <;> rfl

theorem hosts_created (server : Option Nat) (t : JobType) (sf : Option Str) :
    NewRow.hosts ⟨server, t, createdDetails t sf⟩ = server.toList := by
  simp [NewRow.hosts, createdDetails_dest]

theorem sweepFirst_of_mutating {env : Env} {t : JobType} {s : JobStore} (ht : t.stackMutating = true) :
    sweepFirst env t s = s := by
  unfold sweepFirst
  rw [if_neg]
  rintro rfl
  cases ht

theorem moveBlocker_none {s : JobStore} {host : Nat} (h : s.moveBlocker host = none) :
    s.activeStackMutatingJob host = none ∧ s.activeMigrateAsDest host = none := by
  unfold JobStore.moveBlocker at h
  rw [orElse_eq_none, orElse_eq_none] at h
  exact ⟨h.1, h.2.1⟩

/-- **When the missing checks would have found nothing, the hosts of the new row are free.** -/
theorem LaneEvent.request_free {e : LaneEvent} {s : JobStore} {env : Env} {r : NewRow}
    {handoff : Nat → Eff JobStore LaneError Nat} (hinv : LaneInv s) (h : e.request s = some (env, .ok r, handoff))
    (hmiss : e.missed s = none) (hm : r.jobType.stackMutating = true) :
    ∀ host ∈ r.hosts, ∀ j ∈ (e.before s).jobs, ¬ j.holds host := by
  rcases LaneEvent.request_ok h with ⟨host, hone, hmissed, hbefore⟩ | ⟨a, b, htwo, -, hbefore⟩ |
      ⟨server, t, sf, svc, rfl, rfl, hc⟩
  · intro host' hhost j hj
    rw [hone.hosts, List.mem_singleton] at hhost
    subst hhost
    rw [hbefore] at hj
    exact free_of_checks hinv hone.checked (hmissed ▸ hmiss) hj
  · intro host hhost j hj
    rw [hbefore] at hj
    rw [htwo.hosts] at hhost
    rcases List.mem_cons.1 hhost with rfl | hhost
    · exact free_of_checks hinv (moveBlocker_none htwo.sourceFree).1 (moveBlocker_none htwo.sourceFree).2 hj
    · obtain rfl := List.mem_singleton.1 hhost
      exact free_of_checks hinv (moveBlocker_none htwo.destFree).1 (moveBlocker_none htwo.destFree).2 hj
  · intro host hhost j hj
    rw [hosts_created, Option.mem_toList] at hhost
    obtain rfl : server = some host := hhost
    simp only [LaneEvent.before, sweepFirst_of_mutating hm, ite_self] at hj
    simp only [LaneEvent.missed] at hmiss
    rw [if_pos hm, orElse_eq_none] at hmiss
    refine free_of_checks hinv ?_ hmiss.2 hj
    by_cases hcs : t.containerService = true
    · exact hc hcs
    · rw [if_neg hcs] at hmiss; exact hmiss.1

/-- **What a missing check would have found holds a host of the new row.** -/
theorem LaneEvent.request_missed {e : LaneEvent} {s : JobStore} {env : Env} {r : NewRow}
    {handoff : Nat → Eff JobStore LaneError Nat} (h : e.request s = some (env, .ok r, handoff)) {b : Job}
    (hmiss : e.missed s = some b) :
    r.jobType.stackMutating = true ∧ ∃ host ∈ r.hosts, b ∈ (e.before s).jobs ∧ b.holds host := by
  rcases LaneEvent.request_ok h with ⟨host, hone, hmissed, hbefore⟩ | ⟨_, _, -, hmissed, -⟩ |
      ⟨server, t, sf, svc, rfl, rfl, -⟩
  · rw [hmissed] at hmiss
    rw [hbefore]
    exact ⟨hone.mutating, host, by simp [hone.hosts], activeMigrateAsDest_some hmiss⟩
  · rw [hmissed] at hmiss; cases hmiss
  · cases server with
    | none => cases hmiss
    | some host =>
      simp only [LaneEvent.missed] at hmiss
      split at hmiss
      · rename_i hm
        refine ⟨hm, host, by simp [hosts_created], ?_⟩
        simp only [LaneEvent.before, sweepFirst_of_mutating hm, ite_self]
        rcases orElse_eq_some.1 hmiss with h1 | ⟨-, h2⟩
        · split at h1
          · cases h1
          · exact activeStackMutatingJob_some h1
        · exact activeMigrateAsDest_some h2
      · cases hmiss

theorem LaneEvent.request_placed {e : LaneEvent} {s : JobStore} {env : Env} {r : NewRow}
    {handoff : Nat → Eff JobStore LaneError Nat} (h : e.request s = some (env, .ok r, handoff))
    (hd : r.details.destServerId.isSome = true) : r.serverId.isSome = true := by
  rcases LaneEvent.request_ok h with ⟨host, hone, -, -⟩ | ⟨_, _, htwo, -, -⟩ | ⟨server, t, sf, svc, -, rfl, -⟩
  · rw [hone.serverId]; rfl
  · rw [htwo.serverId]; rfl
  · rw [createdDetails_dest] at hd; cases hd

/-! ## The hand-over -/

/-- A hand-over that leaves every status as it is, or one that ends the row it was given. -/
structure HandsOverBy (f : Job → Job) (jid : Nat) (pending : Bool) : Prop where
  calms : Calms f
  keeps : pending = true → ∀ j, (f j).status = j.status
  ends : pending = false → ∀ j, j.id = jid → (f j).status.active = false

def HandsOver (s s' : JobStore) (jid : Nat) (pending : Bool) : Prop :=
  ∃ f, HandsOverBy f jid pending ∧ s' = s.update f

theorem HandsOver.refl (s : JobStore) (jid : Nat) : HandsOver s s jid true :=
  ⟨id, ⟨⟨fun _ => rfl, fun _ => rfl, fun _ => rfl, fun _ h => h⟩, fun _ _ => rfl, nofun⟩,
    by simp [JobStore.update]⟩

theorem HandsOver.ended {s : JobStore} {jid : Nat} {f : Job → Job} (hf : Calms f)
    (hend : ∀ j, (f j).status.active = false) : HandsOver s (s.update (onJob jid f)) jid false :=
  ⟨_, ⟨hf.onJob jid, nofun, fun _ j hj => by simp [onJob, hj, hend]⟩, rfl⟩

theorem enqueueCelery_handsOver (env : Env) (s : JobStore) (jid : Nat) :
    HandsOver s (enqueueCelery env jid s).2 jid env.celery.isSome := by
  unfold enqueueCelery
  cases env.celery with
  | none => exact .ended (calms_markFailed env.now) fun _ => rfl
  | some task =>
    refine ⟨_, ⟨(calms_celery task).onJob jid, fun _ j => ?_, nofun⟩, rfl⟩
    unfold onJob; split <;> rfl

theorem handoffExclusive_handsOver (env : Env) (s : JobStore) (jid : Nat) :
    HandsOver s (handoffExclusive env jid s).2 jid (!env.demo && env.celery.isSome) := by
  unfold handoffExclusive
  cases hd : env.demo with
  | true => exact .ended (calms_finishDemoJob env.now) fun _ => rfl
  | false => exact enqueueCelery_handsOver env s jid

/-- A busy host ends a bootstrap row, which is no stack mutation; every other row is handed over. -/
theorem handoffCreated_handsOver (env : Env) (server : Option Nat) (t : JobType) (s : JobStore) (jid : Nat) :
    ∃ pending, HandsOver s (handoffCreated env server t jid s).2 jid pending ∧
      (t.stackMutating = true → pending = (!env.demo && (!t.createRuns || env.celery.isSome))) := by
  unfold handoffCreated
  cases hd : env.demo with
  | true => exact ⟨_, handoffExclusive_handsOver env s jid, fun _ => by simp [hd]⟩
  | false =>
    cases hr : t.createRuns with
    | false => exact ⟨true, .refl s jid, fun _ => rfl⟩
    | true =>
      have hcelery := enqueueCelery_handsOver env s jid
      by_cases hb : t = .hostBootstrap
      · subst hb
        by_cases hbusy : s.otherActiveJob server .hostBootstrap jid = true
        · refine ⟨false, ?_, fun h => by cases h⟩
          simp only [Bool.false_eq_true, not_true_eq_false, if_false, if_true, Eff.bind_apply, Eff.get_apply, hbusy,
            Eff.modify_apply, Eff.pure_apply]
          exact .ended (calms_markFailed env.now) fun _ => rfl
        · refine ⟨env.celery.isSome, ?_, fun h => by cases h⟩
          simpa only [Bool.false_eq_true, not_true_eq_false, if_false, if_true, Eff.bind_apply, Eff.get_apply, hbusy]
            using hcelery
      · refine ⟨env.celery.isSome, ?_, fun _ => by simp⟩
        simpa only [Bool.false_eq_true, not_true_eq_false, if_false, if_neg hb] using hcelery

/-- **One hand-over lemma for every entry point.** -/
theorem LaneEvent.request_handsOver {e : LaneEvent} {s : JobStore} {env : Env} {r : NewRow}
    {handoff : Nat → Eff JobStore LaneError Nat} (h : e.request s = some (env, .ok r, handoff)) (s' : JobStore)
    (jid : Nat) : ∃ pending, HandsOver s' (handoff jid s').2 jid pending ∧
      (r.jobType.stackMutating = true → pending = e.staysPending) := by
  cases e with
  | createJobAndRun env' server t sf svc =>
    simp only [LaneEvent.request, Option.some.injEq, Prod.mk.injEq] at h
    obtain ⟨rfl, hr, rfl⟩ := h
    obtain ⟨rfl, -⟩ := createJobChecks_ok hr
    exact handoffCreated_handsOver env' server t s' jid
  | complete => cases h
  | cancelJob => cases h
  | enqueueServiceMigrate | enqueueServiceMigrateUndo | enqueueServiceMigrateDestRecover =>
    simp only [LaneEvent.request, Option.some.injEq, Prod.mk.injEq] at h
    obtain ⟨rfl, -, rfl⟩ := h
    exact ⟨_, enqueueCelery_handsOver _ s' jid, fun _ => rfl⟩
  | _ =>
    simp only [LaneEvent.request, Option.some.injEq, Prod.mk.injEq] at h
    obtain ⟨rfl, -, rfl⟩ := h
    exact ⟨_, handoffExclusive_handsOver _ s' jid, fun _ => rfl⟩

/-! ## Runs -/

/-- The call passes its own checks, and its row stays pending. -/
def LaneEvent.enters (s : JobStore) (e : LaneEvent) : Prop :=
  e.staysPending = true ∧ ∃ env r handoff, e.request s = some (env, .ok r, handoff)

/-- A call that queues its row finds no holder in the checks it leaves out. -/
def LaneClean (s : JobStore) (e : LaneEvent) : Prop := e.enters s → e.missed s = none

theorem LaneInv.before {s : JobStore} (h : LaneInv s) (e : LaneEvent) : LaneInv (e.before s) := by
  have hsweep : ∀ env t, LaneInv (sweepFirst env t s) := by
    intro env t
    unfold sweepFirst; split
    · exact h.update (calms_cleanupStaleBackupJobs _ _)
    · exact h
  cases e with
  | createJobAndRun env server t sf svc =>
    simp only [LaneEvent.before]; split
    · exact h
    · exact hsweep env t
  | complete jid ok now =>
    have hend : (if ok then JobStatus.success else .failed).active = false := by cases ok <;> rfl
    exact h.update ((calms_finish hend now).onJob jid)
  | cancelJob jid now => exact h.update ((calms_cancelJob now).onJob jid)
  | _ => exact h

/-- The row of an admitted call. -/
def NewRow.job (r : NewRow) (jid now : Nat) : Job :=
  { id := jid, serverId := r.serverId, jobType := r.jobType, createdAt := now, details := r.details }

/-- The new row holds a host after the hand-over only when it was let through and stays pending. -/
theorem HandsOverBy.new_holds {f : Job → Job} {r : NewRow} {jid now : Nat} {pending : Bool}
    (hf : HandsOverBy f jid pending) {host : Nat} (h : (f (r.job jid now)).holds host) :
    pending = true ∧ r.jobType.stackMutating = true ∧ host ∈ r.hosts := by
  refine ⟨?_, NewRow.holds_iff.1 (hf.calms.holds h)⟩
  by_contra hp
  have hended := hf.ends (by simpa using hp) (r.job jid now) rfl
  exact Bool.false_ne_true (hended.symm.trans h.1)

theorem HandsOverBy.holds_of_pending {f : Job → Job} {jid : Nat} (hf : HandsOverBy f jid true) {j : Job} {host : Nat}
    (h : j.holds host) : (f j).holds host := by
  unfold Job.holds at h ⊢
  rwa [hf.keeps rfl, hf.calms.jobType, hf.calms.serverId, hf.calms.dest]

/-- The table after an admitted call: the old rows and the new one, through the hand-over. -/
theorem laneStep_jobs {s : JobStore} {e : LaneEvent} {env : Env} {r : NewRow}
    {handoff : Nat → Eff JobStore LaneError Nat} (hreq : e.request s = some (env, .ok r, handoff)) :
    ∃ f pending, HandsOverBy f (e.before s).nextId pending ∧
      (r.jobType.stackMutating = true → pending = e.staysPending) ∧
      (laneStep s e).jobs = ((e.before s).jobs ++ [r.job (e.before s).nextId env.now]).map f := by
  obtain ⟨pending, ⟨f, hf, hs'⟩, hpend⟩ := LaneEvent.request_handsOver hreq
    ((e.before s).create env.now r.serverId r.jobType r.details) (e.before s).nextId
  refine ⟨f, pending, hf, hpend, ?_⟩
  unfold laneStep
  simp only [hreq, insertAndHandoff, hs']
  rfl

/-- **One step.** A clean call keeps the lane exclusive. -/
theorem laneStep_inv (s : JobStore) (e : LaneEvent) (h : LaneInv s) (hclean : LaneClean s e) :
    LaneInv (laneStep s e) := by
  have hbefore := h.before e
  by_cases hreq : ∃ env r handoff, e.request s = some (env, .ok r, handoff)
  · obtain ⟨env, r, handoff, hreq⟩ := hreq
    obtain ⟨f, pending, hf, hpend, hjobs⟩ := laneStep_jobs hreq
    refine ⟨?_, fun j hj => ?_⟩
    · unfold OneMutationPerHost
      rw [hjobs, List.pairwise_map, List.pairwise_append]
      refine ⟨?_, List.pairwise_singleton _ _, fun i hi j hj => ?_⟩
      · refine hbefore.exclusive.imp fun hij hh => hij ?_
        obtain ⟨host, hi, hj⟩ := hh
        exact ⟨host, hf.calms.holds hi, hf.calms.holds hj⟩
      · obtain rfl := List.mem_singleton.1 hj
        rintro ⟨host, hih, hnew⟩
        obtain ⟨hp, hm, hhost⟩ := hf.new_holds hnew
        have hmiss : e.missed s = none := hclean ⟨hpend hm ▸ hp, env, r, handoff, hreq⟩
        exact LaneEvent.request_free h hreq hmiss hm host hhost i hi (hf.calms.holds hih)
    · rw [hjobs] at hj
      obtain ⟨i, hi, rfl⟩ := List.mem_map.1 hj
      intro hd
      rw [hf.calms.dest] at hd
      rw [hf.calms.serverId]
      rcases List.mem_append.1 hi with hi | hi
      · exact hbefore.placed i hi hd
      · obtain rfl := List.mem_singleton.1 hi
        exact LaneEvent.request_placed hreq hd
  · have hsame : laneStep s e = e.before s := by
      unfold laneStep
      split
      · rename_i env r handoff hr
        exact absurd ⟨env, r, handoff, hr⟩ hreq
      · rfl
    rw [hsame]
    exact hbefore

/-- A call that queues its row beside a holder it did not look for leaves two holders. -/
theorem laneStep_breaks {s : JobStore} {e : LaneEvent} (hent : e.enters s) {b : Job} (hmiss : e.missed s = some b) :
    ¬ OneMutationPerHost (laneStep s e) := by
  obtain ⟨hstay, env, r, handoff, hreq⟩ := hent
  obtain ⟨hm, host, hhost, hb, hholds⟩ := LaneEvent.request_missed hreq hmiss
  obtain ⟨f, pending, hf, hpend, hjobs⟩ := laneStep_jobs hreq
  obtain rfl : pending = true := (hpend hm).trans hstay
  intro hone
  unfold OneMutationPerHost at hone
  rw [hjobs, List.pairwise_map, List.pairwise_append] at hone
  have hnew : (r.job (e.before s).nextId env.now).holds host := NewRow.holds_iff.2 ⟨hm, hhost⟩
  exact hone.2.2 b hb _ (by simp) ⟨host, hf.holds_of_pending hholds, hf.holds_of_pending hnew⟩

/-- **One stack mutation per host, in every state of a run, exactly in the runs where no call queues
its row beside a holder it does not look for.** -/
theorem one_mutation_per_host_iff (es : List LaneEvent) :
    (∀ pre post, es = pre ++ post → OneMutationPerHost (runs laneStep JobStore.empty pre)) ↔
      Guarded laneStep LaneClean JobStore.empty es := by
  have hempty : LaneInv JobStore.empty := ⟨List.Pairwise.nil, by simp [JobStore.empty]⟩
  constructor
  · intro h
    rw [guarded_iff]
    intro pre e post hsplit hent
    cases hmiss : e.missed (runs laneStep JobStore.empty pre) with
    | none => rfl
    | some b =>
      have hone := h (pre ++ [e]) post (by rw [hsplit]; simp)
      rw [runs_append, runs_cons, runs_nil] at hone
      exact absurd hone (laneStep_breaks hent hmiss)
  · rintro h pre post rfl
    exact (runs_invariant laneStep_inv pre JobStore.empty hempty h.of_append).exclusive

/-- A Move to host 2 is queued, then a stack deploy on host 2. -/
def deployOnMoveDest : List LaneEvent :=
  let env : Env := ⟨0, [1, 2], false, some 9⟩
  [.enqueueServiceMigrate env 1 2 (lit "web") none [],
   .enqueueDockerStackDeploy env 2 (lit "/home/pi/docker/app")]

theorem deploy_beside_move : ¬ ∀ es pre post, es = pre ++ post →
    OneMutationPerHost (runs laneStep JobStore.empty pre) := by
  intro h
  have hone := h deployOnMoveDest deployOnMoveDest [] (by simp)
  have hjobs : (runs laneStep JobStore.empty deployOnMoveDest).jobs =
      [{ id := 1, serverId := some 1, jobType := .serviceMigrate, celeryTaskId := some 9, createdAt := 0,
         details := { destServerId := some 2 } },
       { id := 2, serverId := some 2, jobType := .dockerStackDeploy, celeryTaskId := some 9, createdAt := 0,
         details := { projectPath := some (lit "/home/pi/docker/app") } }] := by decide
  unfold OneMutationPerHost at hone
  rw [hjobs, List.pairwise_pair] at hone
  exact hone ⟨2, ⟨rfl, rfl, Or.inr ⟨rfl, rfl⟩⟩, ⟨rfl, rfl, Or.inl rfl⟩⟩

end PiHerder.Jobs
