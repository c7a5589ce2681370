import PiHerder.Jobs.Model
import PiHerder.Lib.Runs

/-!
# Who writes `Job.status`

The writers of `Job.status`, each as what it does to one row: the `_execute_*` bodies and `_finish`
(`services/jobs/service.py`), `_update_job_status` (`tasks.py`), `cancel_job`, the three sweeps
`cleanup_stale_backup_jobs`, `cleanup_orphan_web_jobs`, `reconcile_orphaned_running_jobs`, and
`run_exclusive_job` with the failures it writes itself (`services/jobs_exclusive.py`). A run is any
sequence of them over a table that starts empty.

The guards differ. Most writers leave a terminal row alone; the `_execute_*` bodies have no guard,
and `_update_job_status` lets a terminal status through onto `success` and `failed`.
-/
namespace PiHerder.Jobs
open Lib Lib.Str

/-! ## The writers, row by row -/

/-- `_mark_job_terminal` (service.py:217). -/
def markJobTerminal (now : Nat) (status : JobStatus) (j : Job) : Job :=
  { j with
    status := status
    finishedAt := some now
    details := { j.details with current := some (if status = .cancelled then lit "cancelled" else lit "failed") } }

/-- The `current` that the `_execute_*` body of a type writes when it starts; `none` for the types
that have no such body (backup and nmap start through `_update_job_status`). -/
def JobType.startLabel : JobType → Option Str
  | .osPatch => some (lit "patching")
  | .containerPatch => some (lit "starting")
  | .osUpdateCheck | .containerUpdateCheck | .dockerStackCheck | .templateDriftCheck => some (lit "checking")
  | .hostReboot => some (lit "rebooting")
  | .dockerPrune => some (lit "pruning")
  | .hostBootstrap => some (lit "bootstrapping")
  | .dockerStackDeploy | .templateDeploy => some (lit "deploying")
  | .templateRedeploy => some (lit "redeploying")
  | .containerStart | .dockerStackStart => some (lit "start")
  | .containerStop | .dockerStackStop => some (lit "stop")
  | .containerRestart | .dockerStackRestart => some (lit "restart")
  | .containerRedeploy => some (lit "redeploy")
  | .dockerStackDown => some (lit "down")
  | .dockerStackRemove => some (lit "remove")
  | .serviceMigrate => some (lit "migrating")
  | .serviceMigrateUndo => some (lit "undo")
  | .serviceMigrateDestRecover => some (lit "dest_up_recover")
  | .retention => some (lit "cleaning")
  | .herderBackup => some (lit "archiving")
  | .hostFacts => some (lit "refreshing")
  | .backup | .nmap _ | .other _ => none

/-- The bodies that start through `_mark_housekeeping_running`. -/
def JobType.housekeeping : JobType → Bool
  | .retention | .herderBackup | .hostFacts => true
  | _ => false

/-- `_mark_housekeeping_running` (service.py:2274). -/
def markHousekeepingRunning (now : Nat) (label : Str) (j : Job) : Job :=
  let j := if j.status ≠ .running then
      { j with status := .running, startedAt := if j.startedAt.isNone then some now else j.startedAt }
    else j
  { j with details := { j.details with current := some label } }

/-- The first write of an `_execute_*` body. -/
def executeStart (now : Nat) (j : Job) : Job :=
  match j.jobType.startLabel with
  | none => j
  | some label =>
    if j.jobType.housekeeping then markHousekeepingRunning now label j
    else { j with
      status := .running
      startedAt := some now
      details := { j.details with current := some label } }

/-- `_update_job_status` (tasks.py:1214); `current` is what `extra` holds under that key. -/
def updateJobStatus (status : JobStatus) (current : Option Str) (now : Nat) (j : Job) : Job :=
  let details := { j.details with current := current <|> j.details.current }
  if j.status = .cancelled then j
  else if (j.status = .success ∨ j.status = .failed) ∧ j.finishedAt.isSome ∧
      (status = .running ∨ status = .pending) then j
  else if status = .pending ∧ j.status = .pending then { j with details := details }
  else { j with
    status := status
    startedAt := if status = .running ∧ j.startedAt.isNone then some now else j.startedAt
    details := details
    finishedAt := if status.terminal then some now else j.finishedAt }

/-- `_finish` (service.py:1904), the part that writes the job. -/
def finish (status : JobStatus) (now : Nat) (j : Job) : Job :=
  if j.status = .cancelled then j
  else if j.status.terminal ∧ j.finishedAt.isSome then j
  else { j with
    status := status
    finishedAt := some now
    details := { j.details with
      current := match status with
        | .pending => some (lit "pending")
        | .running => some (lit "running")
        | _ => none } }

/-- `cancel_job` (service.py:619); it raises `JobNotCancellable` on a row that is not active. -/
def cancelJob (now : Nat) (j : Job) : Job :=
  if j.status.active then markJobTerminal now .cancelled j else j

/-- `HOST_FACTS_STALE_MINUTES` (service.py:747). -/
def hostFactsStaleMinutes : Nat := 30

/-- `cleanup_stale_backup_jobs` (service.py:763): a row is stale when it was created before the
cutoff of its type. -/
def cleanupStaleBackupJobs (now maxAgeMinutes : Nat) (j : Job) : Job :=
  let age := if j.jobType = .hostFacts then hostFactsStaleMinutes else maxAgeMinutes
  if j.jobType.sweptWhenStale ∧ j.status.active ∧ j.createdAt + age * 60 < now then
    markJobTerminal now .failed j
  else j

/-- `cleanup_orphan_web_jobs` (service.py:851). -/
def cleanupOrphanWebJobs (now : Nat) (j : Job) : Job :=
  if j.status.active ∧ ¬ j.isCeleryOwned then markJobTerminal now .failed j else j

/-- `HOST_BOOTSTRAP_EXPIRES_SEC` and the grace `_HOST_BOOTSTRAP_EXPIRE_GRACE_SEC`. -/
def hostBootstrapExpireSec : Nat := 120 + 30

/-- `_fail_expired_pending_host_bootstrap` (service.py:942). -/
def failExpiredPendingHostBootstrap (now : Nat) (j : Job) : Job :=
  if j.jobType = .hostBootstrap ∧ j.status = .pending ∧ j.createdAt + hostBootstrapExpireSec ≤ now then
    markJobTerminal now .failed j
  else j

/-- The part of `reconcile_orphaned_running_jobs` that reads `celery_worker_activity()`: `alive`,
and the ids of the active tasks. -/
def interruptOrphan (now : Nat) (alive : Bool) (active : List Nat) (j : Job) : Job :=
  if j.status ≠ .running ∨ ¬ j.isCeleryOwned then j
  else if alive ∧ j.celeryTaskId.any fun t => active.contains t then j
  else if alive ∧ now - j.startedAt.getD j.createdAt < 60 then j
  else markJobTerminal now .failed j

/-- `reconcile_orphaned_running_jobs` (service.py:966); no activity means the check could not tell. -/
def reconcileOrphanedRunningJobs (now : Nat) (activity : Option (Bool × List Nat)) (j : Job) : Job :=
  let j := failExpiredPendingHostBootstrap now j
  match activity with
  | none => j
  | some (alive, active) => interruptOrphan now alive active j

/-- `_start_demo_job` (service.py:1569). -/
def startDemoJob (now : Nat) (j : Job) : Job :=
  if j.status.terminal then j
  else if j.status ≠ .running then
    { j with status := .running, startedAt := if j.startedAt.isNone then some now else j.startedAt }
  else j

/-- `_finish_demo_job` (service.py:1589). -/
def finishDemoJob (now : Nat) (j : Job) : Job :=
  let j := startDemoJob now j
  { j with status := .success, finishedAt := some now, details := { j.details with current := some (lit "success") } }

/-- `_fail_message` (jobs_exclusive.py:501). -/
def failMessage (now : Nat) (j : Job) : Job :=
  if j.status.active then finish .failed now j else j

/-- What `run_exclusive_job` finds outside the job table. -/
structure Delivery where
  taskId : Option Nat
  now : Nat
  demo : Bool
  sshReady : Bool
  serverFound : Bool
  hostWaitLimit : Nat
  retriesLeft : Bool
deriving DecidableEq, Repr

/-- When the wait began: now, on the first probe that fails. -/
def Job.hostWaitStart (j : Job) (now : Nat) : Nat := j.details.hostWaitStarted.getD now

def markWaiting (now : Nat) (j : Job) : Job :=
  { j with
    status := .pending
    details := { j.details with
      hostWaitStarted := some (j.hostWaitStart now)
      current := some (lit "waiting_for_host") } }

/-- `_wait_for_host` (jobs_exclusive.py:393) and the retry it ends in. -/
def waitForHost (d : Delivery) (j : Job) : Job :=
  if ¬ d.serverFound ∨ d.hostWaitLimit ≤ d.now - j.hostWaitStart d.now then failMessage d.now j
  else if d.retriesLeft then markWaiting d.now j
  else failMessage d.now (markWaiting d.now j)

/-- The task id is remembered on a row that has none. -/
def Job.rememberTask (j : Job) (taskId : Option Nat) : Job :=
  { j with celeryTaskId := j.celeryTaskId <|> taskId }

/-- `run_exclusive_job` on an active row. A row that is already running is failed; `busy` is
`_other_active_job` for a host bootstrap; the body's own writes are events of their own. -/
def dispatch (busy : Bool) (d : Delivery) (j : Job) : Job :=
  if j.status = .running then failMessage d.now j
  else if d.demo then finishDemoJob d.now (startDemoJob d.now j)
  else if j.jobType = .hostBootstrap then (if busy then failMessage d.now j else j)
  else if d.sshReady then j
  else waitForHost d j

/-- `run_exclusive_job` (jobs_exclusive.py:290) up to the call of the body. -/
def runExclusiveJob (busy : Bool) (d : Delivery) (j : Job) : Job :=
  if ¬ j.jobType.exclusiveCelery ∨ j.status.terminal then j
  else dispatch busy d (j.rememberTask d.taskId)

/-- `_other_active_job` (service.py:2739). -/
def JobStore.otherActiveJob (s : JobStore) (serverId : Option Nat) (t : JobType) (jid : Nat) : Bool :=
  s.jobs.any fun j => decide (j.serverId = serverId) && decide (j.jobType = t) && decide (j.id ≠ jid) && j.status.active

/-! ## Runs -/

inductive Event
  | create (now : Nat) (serverId : Option Nat) (jobType : JobType) (details : JobDetails)
  | start (jid now : Nat)
  | updateJobStatus (jid : Nat) (status : JobStatus) (current : Option Str) (now : Nat)
  | finish (jid : Nat) (status : JobStatus) (now : Nat)
  | cancelJob (jid now : Nat)
  | cleanupStaleBackupJobs (now maxAgeMinutes : Nat)
  | cleanupOrphanWebJobs (now : Nat)
  | reconcileOrphanedRunningJobs (now : Nat) (activity : Option (Bool × List Nat))
  | runExclusiveJob (jid : Nat) (d : Delivery)
  | failUnexpected (jid now : Nat)
deriving DecidableEq, Repr

/-- `f` on the row `jid`, nothing on the others. -/
def onJob (jid : Nat) (f : Job → Job) (j : Job) : Job := if j.id = jid then f j else j

/-- What an event does to a row of the table `s`. -/
def Event.row (s : JobStore) : Event → Job → Job
  | .create .. => id
  | .start jid now => onJob jid (executeStart now)
  | .updateJobStatus jid st current now => onJob jid (Jobs.updateJobStatus st current now)
  | .finish jid st now => onJob jid (Jobs.finish st now)
  | .cancelJob jid now => onJob jid (Jobs.cancelJob now)
  | .cleanupStaleBackupJobs now age => Jobs.cleanupStaleBackupJobs now age
  | .cleanupOrphanWebJobs now => Jobs.cleanupOrphanWebJobs now
  | .reconcileOrphanedRunningJobs now activity => Jobs.reconcileOrphanedRunningJobs now activity
  | .runExclusiveJob jid d => onJob jid fun j =>
      Jobs.runExclusiveJob (s.otherActiveJob j.serverId .hostBootstrap jid) d j
  | .failUnexpected jid now => onJob jid (failMessage now)

/-- One event: a new row, or the rows rewritten. -/
def step (s : JobStore) (e : Event) : JobStore :=
  match e with
  | .create now host t d => s.create now host t d
  | e => s.update (e.row s)

/-! ## What an event leaves of a row -/

/-- A terminal row carries its finish time. -/
def Settled (j : Job) : Prop := j.status.terminal = true → j.finishedAt.isSome = true

theorem onJob_id {f : Job → Job} (hf : ∀ j, (f j).id = j.id) (jid : Nat) (j : Job) :
    (onJob jid f j).id = j.id := by
  unfold onJob; split
  · exact hf j
  · rfl

theorem onJob_settled {f : Job → Job} (hf : ∀ j, Settled j → Settled (f j)) (jid : Nat) {j : Job}
    (h : Settled j) : Settled (onJob jid f j) := by
  unfold onJob; split
  · exact hf j h
  · exact h

theorem terminal_iff_not_active (s : JobStatus) : s.terminal = true ↔ s.active = false := by
  cases s <;> decide

@[simp] theorem markJobTerminal_id (now : Nat) (st : JobStatus) (j : Job) : (markJobTerminal now st j).id = j.id := rfl

theorem markJobTerminal_settled (now : Nat) (st : JobStatus) (j : Job) : Settled (markJobTerminal now st j) :=
  fun _ => rfl

theorem executeStart_id (now : Nat) (j : Job) : (executeStart now j).id = j.id := by
  unfold executeStart markHousekeepingRunning
  split
  · rfl
  · split
    · split <;> rfl
    · rfl

/-- A body that starts leaves its row running. -/
theorem executeStart_status {now : Nat} {j : Job} (h : j.jobType.startLabel.isSome = true) :
    (executeStart now j).status = .running := by
  obtain ⟨label, hl⟩ := Option.isSome_iff_exists.1 h
  unfold executeStart markHousekeepingRunning
  rw [hl]
  by_cases hk : j.jobType.housekeeping = true
  · by_cases hr : j.status = .running <;> simp [hk, hr]
  · simp [hk]

theorem executeStart_of_none {now : Nat} {j : Job} (h : j.jobType.startLabel = none) : executeStart now j = j := by
  unfold executeStart; rw [h]

theorem executeStart_settled (now : Nat) (j : Job) (h : Settled j) : Settled (executeStart now j) := by
  cases hl : j.jobType.startLabel with
  | none => rwa [executeStart_of_none hl]
  | some label =>
    intro ht
    rw [executeStart_status (by rw [hl]; rfl)] at ht
    cases ht

theorem updateJobStatus_id (st : JobStatus) (cur : Option Str) (now : Nat) (j : Job) :
    (updateJobStatus st cur now j).id = j.id := by
  unfold updateJobStatus
  split
  · rfl
  · split
    · rfl
    · split <;> rfl

theorem updateJobStatus_settled (st : JobStatus) (cur : Option Str) (now : Nat) (j : Job) (h : Settled j) :
    Settled (updateJobStatus st cur now j) := by
  unfold updateJobStatus
  split
  · exact h
  · split
    · exact h
    · split
      · exact h
      · intro ht
        simp only at ht ⊢
        rw [if_pos ht]; rfl

theorem finish_id (st : JobStatus) (now : Nat) (j : Job) : (finish st now j).id = j.id := by
  unfold finish; split
  · rfl
  · split <;> rfl

theorem finish_settled (st : JobStatus) (now : Nat) (j : Job) (h : Settled j) : Settled (finish st now j) := by
  unfold finish
  split
  · exact h
  · split
    · exact h
    · intro _; rfl

/-- `_finish` leaves a finished row alone. -/
theorem finish_of_terminal {st : JobStatus} {now : Nat} {j : Job} (h : Settled j)
    (ht : j.status.terminal = true) : finish st now j = j := by
  unfold finish
  split
  · rfl
  · rw [if_pos ⟨ht, h ht⟩]

/-- A writer that is guarded by "still active": it keeps the key, settles what it ends, and leaves a
terminal row alone. -/
structure ActiveOnly (f : Job → Job) : Prop where
  id : ∀ j, (f j).id = j.id
  settled : ∀ j, Settled j → Settled (f j)
  terminal : ∀ j, j.status.terminal = true → f j = j

theorem ActiveOnly.comp {f g : Job → Job} (hf : ActiveOnly f) (hg : ActiveOnly g) :
    ActiveOnly (fun j => g (f j)) :=
  ⟨fun j => (hg.id _).trans (hf.id j), fun j h => hg.settled _ (hf.settled j h),
   fun j h => by rw [hf.terminal j h, hg.terminal j h]⟩

/-- Marking a row terminal under any condition that only active rows meet. -/
theorem ActiveOnly.mark {p : Job → Prop} [DecidablePred p] (now : Nat) (st : JobStatus)
    (hp : ∀ j, p j → j.status.active = true) :
    ActiveOnly fun j => if p j then markJobTerminal now st j else j := by
  refine ⟨fun j => ?_, fun j h => ?_, fun j ht => ?_⟩
  · split <;> rfl
  · split
    · exact markJobTerminal_settled now st j
    · exact h
  · rw [if_neg]
    intro h
    have := hp j h
    rw [(terminal_iff_not_active _).1 ht] at this
    cases this

theorem cancelJob_activeOnly (now : Nat) : ActiveOnly (cancelJob now) :=
  .mark now .cancelled fun _ h => h

theorem cleanupStaleBackupJobs_activeOnly (now age : Nat) : ActiveOnly (cleanupStaleBackupJobs now age) :=
  .mark now .failed fun _ h => h.2.1

theorem cleanupOrphanWebJobs_activeOnly (now : Nat) : ActiveOnly (cleanupOrphanWebJobs now) :=
  .mark now .failed fun _ h => h.1

theorem failExpiredPendingHostBootstrap_activeOnly (now : Nat) :
    ActiveOnly (failExpiredPendingHostBootstrap now) :=
  .mark now .failed fun _ h => by rw [h.2.1]; rfl

theorem interruptOrphan_activeOnly (now : Nat) (alive : Bool) (active : List Nat) :
    ActiveOnly (interruptOrphan now alive active) := by
  refine ⟨fun j => ?_, fun j h => ?_, fun j ht => ?_⟩
  · unfold interruptOrphan; split_ifs <;> rfl
  · unfold interruptOrphan; split_ifs
    · exact h
    · exact h
    · exact h
    · exact markJobTerminal_settled _ _ _
  · have hr : j.status ≠ .running := by intro hr; rw [hr] at ht; cases ht
    unfold interruptOrphan
    rw [if_pos (Or.inl hr)]

theorem reconcileOrphanedRunningJobs_activeOnly (now : Nat) (activity : Option (Bool × List Nat)) :
    ActiveOnly (reconcileOrphanedRunningJobs now activity) := by
  cases activity with
  | none => exact failExpiredPendingHostBootstrap_activeOnly now
  | some a => exact (failExpiredPendingHostBootstrap_activeOnly now).comp (interruptOrphan_activeOnly now a.1 a.2)

theorem failMessage_activeOnly (now : Nat) : ActiveOnly (failMessage now) := by
  refine ⟨fun j => ?_, fun j h => ?_, fun j ht => ?_⟩
  · unfold failMessage; split
    · exact finish_id _ _ _
    · rfl
  · unfold failMessage; split
    · exact finish_settled _ _ _ h
    · exact h
  · unfold failMessage
    rw [if_neg (by rw [(terminal_iff_not_active _).1 ht]; exact Bool.false_ne_true)]

theorem startDemoJob_id (now : Nat) (j : Job) : (startDemoJob now j).id = j.id := by
  unfold startDemoJob; split_ifs <;> rfl

theorem waitForHost_id (d : Delivery) (j : Job) : (waitForHost d j).id = j.id := by
  unfold waitForHost
  split_ifs
  · exact (failMessage_activeOnly _).id _
  · rfl
  · exact (failMessage_activeOnly _).id _

theorem waitForHost_settled (d : Delivery) {j : Job} (h : Settled j) : Settled (waitForHost d j) := by
  have hw : Settled (markWaiting d.now j) := fun ht => by cases ht
  unfold waitForHost
  split_ifs
  · exact (failMessage_activeOnly _).settled _ h
  · exact hw
  · exact (failMessage_activeOnly _).settled _ hw

theorem dispatch_id (busy : Bool) (d : Delivery) (j : Job) : (dispatch busy d j).id = j.id := by
  unfold dispatch
  split_ifs
  · exact (failMessage_activeOnly _).id _
  · exact (startDemoJob_id _ _).trans (startDemoJob_id _ _)
  · exact (failMessage_activeOnly _).id _
  · rfl
  · rfl
  · exact waitForHost_id _ _

theorem dispatch_settled (busy : Bool) (d : Delivery) {j : Job} (h : Settled j) :
    Settled (dispatch busy d j) := by
  unfold dispatch
  split_ifs
  · exact (failMessage_activeOnly _).settled _ h
  · exact fun _ => rfl
  · exact (failMessage_activeOnly _).settled _ h
  · exact h
  · exact h
  · exact waitForHost_settled _ h

theorem runExclusiveJob_activeOnly (busy : Bool) (d : Delivery) : ActiveOnly (runExclusiveJob busy d) := by
  refine ⟨fun j => ?_, fun j h => ?_, fun j ht => ?_⟩
  · unfold runExclusiveJob; split
    · rfl
    · exact dispatch_id _ _ _
  · unfold runExclusiveJob; split
    · exact h
    · exact dispatch_settled _ _ (j := j.rememberTask d.taskId) h
  · unfold runExclusiveJob
    rw [if_pos (Or.inr ht)]

theorem Event.row_id (s : JobStore) (e : Event) (j : Job) : (e.row s j).id = j.id := by
  cases e with
  | create => rfl
  | start jid now => exact onJob_id (executeStart_id now) jid j
  | updateJobStatus jid st cur now => exact onJob_id (updateJobStatus_id st cur now) jid j
  | finish jid st now => exact onJob_id (finish_id st now) jid j
  | cancelJob jid now => exact onJob_id (cancelJob_activeOnly now).id jid j
  | cleanupStaleBackupJobs now age => exact (cleanupStaleBackupJobs_activeOnly now age).id j
  | cleanupOrphanWebJobs now => exact (cleanupOrphanWebJobs_activeOnly now).id j
  | reconcileOrphanedRunningJobs now a => exact (reconcileOrphanedRunningJobs_activeOnly now a).id j
  | runExclusiveJob jid d => exact onJob_id (fun j => (runExclusiveJob_activeOnly _ d).id j) jid j
  | failUnexpected jid now => exact onJob_id (failMessage_activeOnly now).id jid j

theorem Event.row_settled (s : JobStore) (e : Event) {j : Job} (h : Settled j) : Settled (e.row s j) := by
  cases e with
  | create => exact h
  | start jid now => exact onJob_settled (executeStart_settled now) jid h
  | updateJobStatus jid st cur now => exact onJob_settled (updateJobStatus_settled st cur now) jid h
  | finish jid st now => exact onJob_settled (finish_settled st now) jid h
  | cancelJob jid now => exact onJob_settled (cancelJob_activeOnly now).settled jid h
  | cleanupStaleBackupJobs now age => exact (cleanupStaleBackupJobs_activeOnly now age).settled j h
  | cleanupOrphanWebJobs now => exact (cleanupOrphanWebJobs_activeOnly now).settled j h
  | reconcileOrphanedRunningJobs now a => exact (reconcileOrphanedRunningJobs_activeOnly now a).settled j h
  | runExclusiveJob jid d => exact onJob_settled (fun j => (runExclusiveJob_activeOnly _ d).settled j) jid h
  | failUnexpected jid now => exact onJob_settled (failMessage_activeOnly now).settled jid h

/-! ## The events that write over a finished row -/

/-- The event would write a new status over the finished row `j`: the start of a body, which has no
guard, or `_update_job_status` with another terminal status, which its guard lets through onto
`success` and `failed`. -/
def Event.rewrites (j : Job) : Event → Bool
  | .start jid _ => decide (j.id = jid) && j.jobType.startLabel.isSome
  | .updateJobStatus jid st _ _ =>
    decide (j.id = jid) && decide (j.status ≠ .cancelled) && st.terminal && decide (st ≠ j.status)
  | _ => false

/-- On a finished row `_update_job_status` changes the status exactly when both statuses are terminal,
differ, and the row is not cancelled. -/
theorem updateJobStatus_status {st : JobStatus} {cur : Option Str} {now : Nat} {j : Job} (h : Settled j)
    (ht : j.status.terminal = true) :
    (updateJobStatus st cur now j).status = j.status ↔
      (j.status = .cancelled ∨ st.terminal = false ∨ st = j.status) := by
  have hf := h ht
  unfold updateJobStatus
  cases hs : j.status with
  | pending => rw [hs] at ht; cases ht
  | running => rw [hs] at ht; cases ht
  | cancelled => simp [hs]
  | success => cases st <;> simp [hf, hs, JobStatus.terminal, JobStatus.active]
  | failed => cases st <;> simp [hf, hs, JobStatus.terminal, JobStatus.active]

/-- **A finished row keeps its status exactly when the event does not rewrite it.** -/
theorem Event.row_status_iff (s : JobStore) (e : Event) {j : Job} (h : Settled j)
    (ht : j.status.terminal = true) : (e.row s j).status = j.status ↔ e.rewrites j = false := by
  have guarded : ∀ {f : Job → Job} (jid : Nat), ActiveOnly f → (onJob jid f j).status = j.status := by
    intro f jid hf
    unfold onJob; split
    · rw [hf.terminal j ht]
    · rfl
  cases e with
  | create => simp [Event.row, Event.rewrites]
  | start jid now =>
    by_cases hid : j.id = jid
    · cases hl : j.jobType.startLabel with
      | none => simp [Event.row, Event.rewrites, onJob, hid, hl, executeStart_of_none hl]
      | some label =>
        have hr : (executeStart now j).status = .running := executeStart_status (by rw [hl]; rfl)
        have hne : JobStatus.running ≠ j.status := by intro he; rw [← he] at ht; cases ht
        simp [Event.row, Event.rewrites, onJob, hid, hl, hr, hne]
    · simp [Event.row, Event.rewrites, onJob, hid]
  | updateJobStatus jid st cur now =>
    by_cases hid : j.id = jid
    · simp only [Event.row, onJob, hid, if_true, updateJobStatus_status h ht, Event.rewrites]
      by_cases hc : j.status = .cancelled
      · simp [hc]
      · by_cases he : st = j.status <;> simp [hc, he]
    · simp [Event.row, Event.rewrites, onJob, hid]
  | finish jid st now =>
    have : (onJob jid (Jobs.finish st now) j).status = j.status := by
      unfold onJob; split
      · rw [finish_of_terminal h ht]
      · rfl
    simp [Event.row, Event.rewrites, this]
  | cancelJob jid now => simp [Event.row, Event.rewrites, guarded jid (cancelJob_activeOnly now)]
  | cleanupStaleBackupJobs now age =>
    simp [Event.row, Event.rewrites, (cleanupStaleBackupJobs_activeOnly now age).terminal j ht]
  | cleanupOrphanWebJobs now =>
    simp [Event.row, Event.rewrites, (cleanupOrphanWebJobs_activeOnly now).terminal j ht]
  | reconcileOrphanedRunningJobs now a =>
    simp [Event.row, Event.rewrites, (reconcileOrphanedRunningJobs_activeOnly now a).terminal j ht]
  | runExclusiveJob jid d =>
    have : (onJob jid (fun j => Jobs.runExclusiveJob (s.otherActiveJob j.serverId .hostBootstrap jid) d j) j).status =
        j.status := by
      unfold onJob; split
      · exact congrArg Job.status ((runExclusiveJob_activeOnly _ d).terminal j ht)
      · rfl
    simp [Event.row, Event.rewrites, this]
  | failUnexpected jid now => simp [Event.row, Event.rewrites, guarded jid (failMessage_activeOnly now)]

/-! ## Runs keep finished jobs finished -/

/-- An event reaches the row `jid` through its row function only. -/
theorem get_step {s : JobStore} {jid : Nat} {j : Job} (h : s.get jid = some j) (e : Event) :
    (step s e).get jid = some (e.row s j) := by
  have hupd : ∀ e : Event, (s.update (e.row s)).get jid = some (e.row s j) := fun e => by
    rw [JobStore.get_update s (e.row_id s), h]; rfl
  cases e with
  | create now host t d => exact JobStore.get_create h now host t d
  | _ => exact hupd _

theorem step_settled (s : JobStore) (e : Event) (h : ∀ j ∈ s.jobs, Settled j) :
    ∀ j ∈ (step s e).jobs, Settled j := by
  have hupd : ∀ e : Event, ∀ j ∈ (s.update (e.row s)).jobs, Settled j := by
    intro e j hj
    obtain ⟨i, hi, rfl⟩ := List.mem_map.1 hj
    exact e.row_settled s (h i hi)
  cases e with
  | create now host t d =>
    intro j hj
    rcases List.mem_append.1 hj with hj | hj
    · exact h j hj
    · obtain rfl := List.mem_singleton.1 hj
      intro ht; cases ht
  | _ => exact hupd _

/-- Every row of every reachable table is settled. -/
theorem runs_settled (es : List Event) : ∀ j ∈ (runs step JobStore.empty es).jobs, Settled j :=
  runs_keeps (I := fun s : JobStore => ∀ j ∈ s.jobs, Settled j) step_settled es _ (by simp [JobStore.empty])

/-- Once a job's status is terminal, it is the job's status in every later state of the run. -/
def FinishedStays (es : List Event) : Prop :=
  ∀ pre mid post, es = pre ++ mid ++ post → ∀ jid st, (runs step JobStore.empty pre).statusOf jid = some st →
    st.terminal = true → (runs step JobStore.empty (pre ++ mid)).statusOf jid = some st

/-- No event of the run writes over a finished row: bodies start on active rows, and
`_update_job_status` brings a terminal status onto an active row, a cancelled one, or its own. -/
def Clean (s : JobStore) (e : Event) : Prop :=
  ∀ jid j, s.get jid = some j → j.status.terminal = true → e.rewrites j = false

/-- **A finished job stays finished, exactly in the runs without a rewriting event.** -/
theorem finished_stays_iff (es : List Event) : FinishedStays es ↔ Guarded step Clean JobStore.empty es := by
  rw [guarded_iff]
  constructor
  · rintro h pre e post rfl jid j hj ht
    have hs := runs_settled pre j (JobStore.get_mem hj)
    have hstay := h pre [e] post (by simp) jid j.status (JobStore.statusOf_eq_some.2 ⟨j, hj, rfl⟩) ht
    rw [runs_append] at hstay
    obtain ⟨j', hj', hst⟩ := JobStore.statusOf_eq_some.1 hstay
    have := get_step hj e
    simp only [runs_cons, runs_nil] at hj'
    rw [this] at hj'
    obtain rfl := Option.some.inj hj'
    exact (e.row_status_iff _ hs ht).1 hst
  · intro h pre mid
    induction mid generalizing pre with
    | nil => intro post _ jid st hst _; rwa [List.append_nil]
    | cons e mid ih =>
      rintro post rfl jid st hst ht
      obtain ⟨j, hj, rfl⟩ := JobStore.statusOf_eq_some.1 hst
      have hclean := h pre e (mid ++ post) (by simp) jid j hj ht
      have hkeep := (e.row_status_iff (runs step JobStore.empty pre) (runs_settled pre j (JobStore.get_mem hj)) ht).2 hclean
      have hnext : (runs step JobStore.empty (pre ++ [e])).statusOf jid = some j.status := by
        rw [runs_append, runs_cons, runs_nil]
        exact JobStore.statusOf_eq_some.2 ⟨_, get_step hj e, hkeep⟩
      have := ih (pre ++ [e]) post (by simp) jid j.status hnext ht
      rwa [List.append_assoc, List.singleton_append] at this

/-- An OS patch is cancelled between the checks of `run_exclusive_job` and the start of its body. -/
def cancelledThenStarted : List Event :=
  [.create 0 (some 1) .osPatch {},
   .runExclusiveJob 1 ⟨some 7, 1, false, true, true, 1800, true⟩,
   .cancelJob 1 2,
   .start 1 3]

theorem cancelled_job_restarts : ¬ ∀ es, FinishedStays es := by
  intro h
  have := h cancelledThenStarted (cancelledThenStarted.take 3) (cancelledThenStarted.drop 3) [] (by decide)
    1 .cancelled (by decide) (by decide)
  revert this
  decide

end PiHerder.Jobs
