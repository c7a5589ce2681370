import PiHerder.Jobs.ServerLock
import PiHerder.Jobs.Status

/-!
# A backup that is delivered again

| here | there |
| --- | --- |
| `isTransient` | `is_transient` (tasks.py:401) |
| `backupServer` | `backup_server` (tasks.py:188–454), from its row and its mutex to what it asks of Celery |
| `deliverAll` | the message and the retries that follow it |

`_update_job_status` swallows what the database raises: `written` says whether the last status of a delivery reached it.
The mutex is free or held by a token.
-/
namespace PiHerder.Jobs
open Lib Lib.Str

def LOCK_MAX_RETRIES : Nat := 180

def isTransient (error : Str) : Bool :=
  [lit "connection", lit "timeout", lit "refused", lit "reset", lit "closed"].any fun x => hasInfix x (lower error)

/-- What `run_backup` does: it returns a summary, or raises. -/
inductive RunBackup
  | finished (ok : Bool)
  | raised (error : Str)
deriving DecidableEq, Repr

structure BackupDelivery where
  retries : Nat
  now : Nat
  serverFound : Bool
  run : RunBackup
  cancelled : Bool
  written : Bool
deriving DecidableEq, Repr

structure BackupState where
  job : Job
  lock : Option LockToken
  drawn : Nat
  runs : Nat
deriving DecidableEq, Repr

/-- A write that may not reach the row. -/
def writeIf (written : Bool) (f : Job → Job) (j : Job) : Job := if written then f j else j

/-- Whether it asks to be delivered again, and what it leaves. -/
def backupServer (d : BackupDelivery) (s : BackupState) : Bool × BackupState :=
  if d.serverFound = false then (false, { s with job := writeIf d.written (updateJobStatus .failed none d.now) s.job })
  else if s.job.status.active = false then (false, s)
  else if s.lock.isSome then
    if LOCK_MAX_RETRIES ≤ d.retries then
      (false, { s with job := writeIf d.written (updateJobStatus .failed (some (lit "failed")) d.now) s.job })
    else (true, { s with job := updateJobStatus .pending (some (lit "waiting_for_server")) d.now s.job })
  else
    let token : LockToken := ⟨ofNat s.job.id, s.drawn⟩
    let s := { s with lock := some token, drawn := s.drawn + 1 }
    let s := { s with job := updateJobStatus .running (some (lit "starting")) d.now s.job }
    let s := { s with runs := s.runs + 1, job := if d.cancelled then cancelJob d.now s.job else s.job }
    -- the mutex is released on every way out
    let ends (status : JobStatus) (current : String) : BackupState :=
      { s with lock := none, job := writeIf d.written (updateJobStatus status (some (lit current)) d.now) s.job }
    if s.job.status = .cancelled then (false, { s with lock := none })
    else
      match d.run with
      | .finished true => (false, ends .success "completed")
      | .finished false => (false, ends .failed "failed")
      | .raised error => (isTransient error, ends .failed "failed")

/-- Each delivery after the first follows from a retry. -/
def deliverAll (s : BackupState) : List BackupDelivery → BackupState
  | [] => s
  | d :: rest =>
    let (again, s) := backupServer d s
    if again then deliverAll s rest else s

/-! ## One delivery -/

section Delivery
variable {d : BackupDelivery} {s : BackupState}

/-- The row while `run_backup` runs. -/
def runningRow (d : BackupDelivery) (j : Job) : Job := updateJobStatus .running (some (lit "starting")) d.now j

theorem runningRow_status (d : BackupDelivery) {j : Job} (h : j.status.active = true) : (runningRow d j).status = .running := by
  unfold runningRow updateJobStatus
  cases hs : j.status <;> simp_all [JobStatus.active]

/-- A delivery that comes to run: the mutex is free again, and `run_backup` has run once. -/
theorem backupServer_runs (hfound : d.serverFound = true) (hactive : s.job.status.active = true) (hlock : s.lock = none)
    (hkept : d.cancelled = false) : ((backupServer d s).2.lock = none ∧ (backupServer d s).2.runs = s.runs + 1) ∧
      (backupServer d s).1 = (match d.run with | .finished _ => false | .raised error => isTransient error) := by
  have hrunning := runningRow_status d hactive
  have hgoes : ¬ (runningRow d s.job).status = .cancelled := by rw [hrunning]; decide
  unfold runningRow at hgoes
  unfold backupServer
  simp only [hfound, hactive, hlock, hkept, Bool.true_eq_false, Bool.false_eq_true, Option.isSome_none, if_false]
  rw [if_neg hgoes]
  cases d.run with
  | finished ok => cases ok <;> exact ⟨⟨rfl, rfl⟩, rfl⟩
  | raised error => exact ⟨⟨rfl, rfl⟩, rfl⟩

/-- What a failure leaves of the row. -/
theorem backupServer_failed {error : Str} (hfound : d.serverFound = true) (hactive : s.job.status.active = true) (hlock : s.lock = none)
    (hkept : d.cancelled = false) (hrun : d.run = .raised error) : (backupServer d s).2.job.status = if d.written then .failed else .running := by
  have hrunning := runningRow_status d hactive
  have hgoes : ¬ (runningRow d s.job).status = .cancelled := by rw [hrunning]; decide
  unfold runningRow at hgoes hrunning
  unfold backupServer
  simp only [hfound, hactive, hlock, hkept, hrun, Bool.true_eq_false, Bool.false_eq_true, Option.isSome_none, if_false]
  rw [if_neg hgoes]
  unfold writeIf
  cases hw : d.written with
  | false => exact hrunning
  | true =>
    simp only [if_true]
    rw [updateJobStatus]
    simp [hrunning]

/-- A row that is not active is passed by. -/
theorem backupServer_skips (hfound : d.serverFound = true) (hactive : s.job.status.active = false) : backupServer d s = (false, s) := by
  unfold backupServer
  rw [hfound, if_neg (by decide), if_pos hactive]

/-- A delivery during which the user cancels asks for nothing more. -/
theorem backupServer_cancelled (hfound : d.serverFound = true) (hactive : s.job.status.active = true) (hlock : s.lock = none)
    (hcancel : d.cancelled = true) : (backupServer d s).1 = false ∧ (backupServer d s).2.runs = s.runs + 1 := by
  have hrunning := runningRow_status d hactive
  have hcancelled : (cancelJob d.now (runningRow d s.job)).status = .cancelled := by
    unfold cancelJob
    rw [hrunning]
    rfl
  unfold runningRow at hcancelled
  unfold backupServer
  simp only [hfound, hactive, hlock, hcancel, Bool.true_eq_false, Bool.false_eq_true, Option.isSome_none, if_false, if_true]
  rw [if_pos hcancelled]
  exact ⟨rfl, rfl⟩

theorem deliverAll_cons (s : BackupState) (d : BackupDelivery) (rest : List BackupDelivery) :
    deliverAll s (d :: rest) = if (backupServer d s).1 then deliverAll (backupServer d s).2 rest else (backupServer d s).2 := rfl

/-- Once the row has ended nothing more is run. -/
theorem deliverAll_ended (hactive : s.job.status.active = false) (ds : List BackupDelivery) : (deliverAll s ds).runs = s.runs := by
  cases ds with
  | nil => rfl
  | cons d ds =>
    rw [deliverAll_cons]
    by_cases hfound : d.serverFound = true
    · rw [backupServer_skips hfound hactive]
      rfl
    · rw [Bool.not_eq_true] at hfound
      unfold backupServer
      rw [hfound, if_pos rfl]
      rfl

end Delivery

/-! ## The second attempt -/

/-- After the failed delivery the mutex is free, and what follows runs the backup once. -/
def RetriedOnce (s : BackupState) (d₁ d₂ : BackupDelivery) : Prop :=
  (backupServer d₁ s).2.lock = none ∧
    ∀ rest, (deliverAll (backupServer d₁ s).2 (d₂ :: rest)).runs = (backupServer d₁ s).2.runs + 1

/-- The delivery asks for one more, with the row still running. -/
def AsksAgain (d : BackupDelivery) : Prop := d.cancelled = false ∧ d.written = false ∧ ∃ error, d.run = .raised error ∧ isTransient error = true

/-- **A transient error is retried once exactly when the failure is not written**: what is written ends the job that the
second delivery looks for. -/
theorem retried_once_iff {s : BackupState} {d₁ d₂ : BackupDelivery} {error : Str} (hactive : s.job.status.active = true) (hlock : s.lock = none)
    (hfound₁ : d₁.serverFound = true) (hrun : d₁.run = .raised error) (htransient : isTransient error = true) (hkept : d₁.cancelled = false)
    (hfound₂ : d₂.serverFound = true) : (backupServer d₁ s).1 = true ∧ (RetriedOnce s d₁ d₂ ↔ d₁.written = false ∧ ¬ AsksAgain d₂) := by
  obtain ⟨⟨hfree, -⟩, hreply⟩ := backupServer_runs hfound₁ hactive hlock hkept
  have hstatus := backupServer_failed hfound₁ hactive hlock hkept hrun
  rw [hrun] at hreply
  refine ⟨hreply.trans htransient, ?_⟩
  unfold RetriedOnce
  generalize (backupServer d₁ s).2 = s₁ at hfree hstatus ⊢
  cases hw : d₁.written with
  | true =>
    rw [hw, if_pos rfl] at hstatus
    refine iff_of_false (fun h => ?_) (fun h => Bool.noConfusion h.1)
    have hruns := h.2 []
    rw [deliverAll_cons, backupServer_skips hfound₂ (by rw [hstatus]; rfl)] at hruns
    simp at hruns
  | false =>
    rw [hw, if_neg (by decide)] at hstatus
    have hactive₁ : s₁.job.status.active = true := by rw [hstatus]; rfl
    by_cases hagain : AsksAgain d₂
    · refine iff_of_false (fun h => ?_) fun h => h.2 hagain
      obtain ⟨hcancel, hwritten, error₂, hrun₂, htransient₂⟩ := hagain
      obtain ⟨⟨hfree₂, hruns₂⟩, hreply₂⟩ := backupServer_runs hfound₂ hactive₁ hfree hcancel
      have hstatus₂ := backupServer_failed hfound₂ hactive₁ hfree hcancel hrun₂
      rw [hrun₂] at hreply₂
      rw [hwritten, if_neg (by decide)] at hstatus₂
      -- the third delivery finds the row running, as the second did
      obtain ⟨⟨-, hruns₃⟩, hreply₃⟩ := backupServer_runs hfound₂ (show (backupServer d₂ s₁).2.job.status.active = true by rw [hstatus₂]; rfl) hfree₂ hcancel
      rw [hrun₂] at hreply₃
      have hall := h.2 [d₂]
      rw [deliverAll_cons, if_pos (hreply₂.trans htransient₂), deliverAll_cons, if_pos (hreply₃.trans htransient₂)] at hall
      simp only [deliverAll] at hall
      omega
    · refine iff_of_true ⟨hfree, fun rest => ?_⟩ ⟨rfl, hagain⟩
      rw [deliverAll_cons]
      by_cases hcancel : d₂.cancelled = true
      · obtain ⟨hreply₂, hruns₂⟩ := backupServer_cancelled hfound₂ hactive₁ hfree hcancel
        rw [hreply₂, if_neg (by decide), hruns₂]
      · rw [Bool.not_eq_true] at hcancel
        obtain ⟨⟨-, hruns₂⟩, hreply₂⟩ := backupServer_runs hfound₂ hactive₁ hfree hcancel
        rw [hreply₂]
        cases hrun₂ : d₂.run with
        | finished ok =>
          simp only [Bool.false_eq_true, if_false]
          exact hruns₂
        | raised error₂ =>
          simp only
          by_cases htransient₂ : isTransient error₂ = true
          · have hwritten : d₂.written = true := by
              by_contra hlost
              exact hagain ⟨hcancel, by simpa using hlost, error₂, hrun₂, htransient₂⟩
            have hstatus₂ := backupServer_failed hfound₂ hactive₁ hfree hcancel hrun₂
            rw [hwritten, if_pos rfl] at hstatus₂
            rw [if_pos htransient₂, deliverAll_ended (by rw [hstatus₂]; rfl), hruns₂]
          · rw [if_neg htransient₂, hruns₂]

/-- A job that is queued, and an attempt that loses its connection. -/
def queuedBackup : BackupState := ⟨{ id := 1, serverId := some 1, jobType := .backup, createdAt := 0 }, none, 0, 0⟩

def resetAttempt (written : Bool) : BackupDelivery := ⟨0, 10, true, .raised (lit "Connection reset by peer"), false, written⟩

theorem lost_failure_retried : (backupServer (resetAttempt false) queuedBackup).1 = true ∧
    (RetriedOnce queuedBackup (resetAttempt false) (resetAttempt true) ↔ (resetAttempt false).written = false ∧ ¬ AsksAgain (resetAttempt true)) :=
  retried_once_iff (by decide) rfl rfl rfl (by decide +kernel) rfl rfl

theorem reset_not_retried : ¬ ∀ (s : BackupState) (d₁ d₂ : BackupDelivery) (error : Str), s.job.status.active = true → s.lock = none →
    d₁.serverFound = true → d₁.run = .raised error → isTransient error = true → d₁.cancelled = false → d₂.serverFound = true →
      RetriedOnce s d₁ d₂ := by
  intro h
  have hruns := (h queuedBackup (resetAttempt true) (resetAttempt true) _ (by decide) rfl rfl rfl (by decide +kernel) rfl rfl).2 []
  revert hruns
  decide +kernel

end PiHerder.Jobs
