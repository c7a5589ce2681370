import PiHerder.Lib.PyStr
import PiHerder.Lib.Table

/-!
# The `Job` table

Rows of `models.Job` with the columns the queueing and status code reads, the keys of
`Job.details` that code looks at, and the sets of job types that `services/jobs/service.py` and
`services/jobs_exclusive.py` group them by. Times are seconds.
-/
namespace PiHerder.Jobs
open Lib

inductive JobStatus
  | pending | running | success | failed | cancelled
deriving DecidableEq, Repr

/-- `status in ("pending", "running")`. -/
def JobStatus.active : JobStatus → Bool
  | .pending | .running => true
  | _ => false

/-- `status in ("success", "failed", "cancelled")`. -/
def JobStatus.terminal (s : JobStatus) : Bool := !s.active

inductive JobType
  | backup | osPatch | containerPatch | hostReboot | osUpdateCheck | containerUpdateCheck
  | containerStart | containerStop | containerRestart | containerRedeploy
  | dockerStackCheck | dockerStackDeploy
  | dockerStackStop | dockerStackStart | dockerStackRestart | dockerStackDown | dockerStackRemove
  | templateDeploy | templateRedeploy | templateDriftCheck
  | serviceMigrate | serviceMigrateUndo | serviceMigrateDestRecover
  | hostFacts | dockerPrune | hostBootstrap
  | retention | herderBackup
  | nmap (task : Str)
  | other (name : Str)
deriving DecidableEq, Repr

namespace JobType

/-- `_EXCLUSIVE_JOB_TYPES` (service.py:59). -/
def exclusive : JobType → Bool
  | .osPatch | .containerPatch | .hostReboot | .osUpdateCheck | .containerUpdateCheck
  | .containerStart | .containerStop | .containerRestart | .containerRedeploy
  | .dockerStackCheck | .dockerStackDeploy
  | .dockerStackStop | .dockerStackStart | .dockerStackRestart | .dockerStackDown | .dockerStackRemove
  | .templateDeploy | .templateRedeploy | .templateDriftCheck
  | .serviceMigrate | .serviceMigrateUndo | .serviceMigrateDestRecover
  | .hostFacts | .dockerPrune | .hostBootstrap => true
  | _ => false

/-- `_STACK_MUTATING_JOB_TYPES` (service.py:90). -/
def stackMutatingTypes : List JobType :=
  [.dockerStackDeploy, .dockerStackStop, .dockerStackStart, .dockerStackRestart, .dockerStackDown,
   .dockerStackRemove, .containerStart, .containerStop, .containerRestart, .containerRedeploy,
   .templateDeploy, .templateRedeploy,
   .serviceMigrate, .serviceMigrateUndo, .serviceMigrateDestRecover]

def stackMutating (t : JobType) : Bool := decide (t ∈ stackMutatingTypes)

/-- `_CONTAINER_SERVICE_JOB_TYPES` (service.py:115). -/
def containerService : JobType → Bool
  | .containerStart | .containerStop | .containerRestart | .containerRedeploy => true
  | _ => false

/-- The types whose row stands for two hosts (`_active_migrate_as_dest`, service.py:4430). -/
def dualHost : JobType → Bool
  | .serviceMigrate | .serviceMigrateUndo | .serviceMigrateDestRecover => true
  | _ => false

/-- `EXCLUSIVE_CELERY_TYPES` (jobs_exclusive.py:30): the exclusive types less Move's three. -/
def exclusiveCelery (t : JobType) : Bool := t.exclusive && !t.dualHost

/-- The types `cleanup_stale_backup_jobs` sweeps (service.py:771). -/
def sweptWhenStale (t : JobType) : Bool := t == .backup || t.dualHost || t.exclusiveCelery

/-- `_CELERY_JOB_TYPES` or an `nmap_` type (service.py:805-823). -/
def celeryOwned : JobType → Bool
  | .nmap _ => true
  | .retention | .herderBackup => true
  | t => t.sweptWhenStale

end JobType

/-- The keys of `Job.details` read by the queueing and status code. -/
structure JobDetails where
  current : Option Str := none
  sourceFilter : Option Str := none
  projectPath : Option Str := none
  destServerId : Option Nat := none
  parentJobId : Option Nat := none
  hostWaitStarted : Option Nat := none
deriving DecidableEq, Repr

structure Job where
  id : Nat
  serverId : Option Nat
  jobType : JobType
  status : JobStatus := .pending
  celeryTaskId : Option Nat := none
  createdAt : Nat
  startedAt : Option Nat := none
  finishedAt : Option Nat := none
  details : JobDetails := {}
deriving DecidableEq, Repr

/-- `_is_celery_owned_job` (service.py:819). -/
def Job.isCeleryOwned (j : Job) : Bool := j.celeryTaskId.isSome || j.jobType.celeryOwned

/-- The table and its id sequence. -/
structure JobStore where
  jobs : List Job
  nextId : Nat
deriving DecidableEq, Repr

namespace JobStore

/-- The table of a fresh install. -/
def empty : JobStore := ⟨[], 1⟩

/-- `session.get(Job, job_id)`. -/
def get (s : JobStore) (jid : Nat) : Option Job := Table.lookup Job.id jid s.jobs

def statusOf (s : JobStore) (jid : Nat) : Option JobStatus := (s.get jid).map Job.status

/-- Every row passes through `f`: a sweep over the table, or a write of one row by its id. -/
def update (s : JobStore) (f : Job → Job) : JobStore := { s with jobs := s.jobs.map f }

/-- `session.add(Job(...)); session.commit()`: a pending row under the next id. -/
def create (s : JobStore) (now : Nat) (serverId : Option Nat) (t : JobType) (d : JobDetails) : JobStore :=
  { jobs := s.jobs ++ [{ id := s.nextId, serverId := serverId, jobType := t, createdAt := now, details := d }]
    nextId := s.nextId + 1 }

theorem get_update (s : JobStore) {f : Job → Job} (hf : ∀ j, (f j).id = j.id) (jid : Nat) :
    (s.update f).get jid = (s.get jid).map f :=
  Table.lookup_map hf jid s.jobs

theorem get_id {s : JobStore} {jid : Nat} {j : Job} (h : s.get jid = some j) : j.id = jid :=
  Table.lookup_key h

theorem get_mem {s : JobStore} {jid : Nat} {j : Job} (h : s.get jid = some j) : j ∈ s.jobs :=
  Table.lookup_mem h

theorem get_create {s : JobStore} {jid : Nat} {j : Job} (h : s.get jid = some j) (now : Nat)
    (host : Option Nat) (t : JobType) (d : JobDetails) : (s.create now host t d).get jid = some j :=
  Table.lookup_append_some h

theorem statusOf_eq_some {s : JobStore} {jid : Nat} {st : JobStatus} :
    s.statusOf jid = some st ↔ ∃ j, s.get jid = some j ∧ j.status = st := by
  simp [statusOf]

end JobStore
end PiHerder.Jobs
