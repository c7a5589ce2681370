import PiHerder.Jobs.Status

/-!
# Does the audit log tell what happened to a job?

A job other than a backup is inserted with a running `AuditLog` row (`_create_queued_job_with_audit`,
`service.py:1739`, and `create_job`, `:1213`). The row is closed in two ways: `_finish` (`:1904`) is handed its id, the sweeps go by
`_finish_running_audit_for_job` (`:826`), a search for the text `Job #N` among the running rows of the
same action and host. The cancel itself closes nothing; the row waits for the worker's `_finish`.

| here | there |
| --- | --- |
| `AuditRow.jobId`               | which job's workers are handed the row's id |
| `AuditRow.runsFor`             | the filter of `_finish_running_audit_for_job` |
| `finishAudit`                  | the audit half of `_finish` |
| `Entry.swept`                  | the jobs a sweep fails, in the order it walks them |
| `closings`                     | the rows each of them closes |

The rows of backups, which have log rows of their own, and of the cancel action are left out.
-/
namespace PiHerder.Jobs
open Lib Lib.Str

/-! ## The log -/

structure AuditRow where
  jobId : Nat
  action : JobType
  serverId : Option Nat
  status : JobStatus := .running
  details : Str
deriving DecidableEq, Repr

/-- The job table with its log. -/
structure Ledger where
  store : JobStore
  audits : List AuditRow
deriving DecidableEq, Repr

def Ledger.empty : Ledger := ⟨JobStore.empty, []⟩

/-- `f"Job #{job.id}"`. -/
def needle (jid : Nat) : Str := lit "Job #" ++ Str.ofNat jid

/-- `_JOB_STARTED_RE`: `^Job #\d+ started`. -/
def jobStarted (details : Str) : Bool :=
  let rest := details.drop (lit "Job #").length
  startsWith (lit "Job #") details && !(rest.takeWhile isDigit).isEmpty &&
    startsWith (lit " started") (rest.dropWhile isDigit)

/-- The hosts of the job and of the row do not tell them apart. -/
def sameHost : Option Nat → Option Nat → Bool
  | some x, some y => decide (x = 0) || decide (y = 0) || decide (x = y)
  | _, _ => true

/-- `_finish_running_audit_for_job` takes the row for the job's. -/
def AuditRow.runsFor (a : AuditRow) (j : Job) : Bool :=
  decide (a.status = .running) && decide (a.action = j.jobType) && hasInfix (needle j.id) a.details &&
    sameHost j.serverId a.serverId

def AuditRow.close (a : AuditRow) (status : JobStatus) (details : Str) : AuditRow :=
  { a with status := status, details := details }

/-- `_finish_running_audit_for_job`. -/
def finishRunningAuditForJob (j : Job) (status : JobStatus) (message : Str) (audits : List AuditRow) : List AuditRow :=
  audits.map fun a => if a.runsFor j then a.close status ((needle j.id ++ lit " · " ++ message).take 500) else a

/-- The audit half of `_finish`, on the row it was handed. -/
def finishAudit (j : Job) (status : JobStatus) (summary : Str) (a : AuditRow) : AuditRow :=
  if j.status = .cancelled then
    if a.status = .running then
      a.close .cancelled
        (if a.details = [] ∨ jobStarted a.details then (needle j.id ++ lit " · Cancelled by user").take 500 else a.details)
    else a
  else
    a.close status
      (if (j.jobType = .osPatch ∧ summary ≠ []) ∨
          (status.terminal ∧ summary ≠ [] ∧ (a.details = [] ∨ jobStarted a.details)) then
        (needle j.id ++ lit " · " ++ summary).take 500
      else a.details)

/-! ## Runs -/

inductive Entry
  | create (now : Nat) (serverId : Option Nat) (jobType : JobType) (details : JobDetails) (auditDetails : Str)
  | start (jid now : Nat)
  | progress (jid : Nat) (current : Option Str)
  | finish (jid : Nat) (status : JobStatus) (summary : Str) (now : Nat)
  | cancelJob (jid now : Nat)
  | cleanupOrphanWebJobs (now : Nat)
  | reconcileOrphanedRunningJobs (now : Nat) (activity : Option (Bool × List Nat))
deriving DecidableEq, Repr

/-- `_merge_job_details` of a progress report. -/
def reportProgress (current : Option Str) (j : Job) : Job :=
  { j with details := { j.details with current := current <|> j.details.current } }

/-- What an entry does to a row of the job table. -/
def Entry.row : Entry → Job → Job
  | .create .. => id
  | .start jid now => onJob jid (executeStart now)
  | .progress jid current => onJob jid (reportProgress current)
  | .finish jid st _ now => onJob jid (Jobs.finish st now)
  | .cancelJob jid now => onJob jid (Jobs.cancelJob now)
  | .cleanupOrphanWebJobs now => Jobs.cleanupOrphanWebJobs now
  | .reconcileOrphanedRunningJobs now activity => Jobs.reconcileOrphanedRunningJobs now activity

/-- The rows of the table that a sweep writes. -/
def endedBy (f : Job → Job) (jobs : List Job) : List Job := jobs.filter fun j => decide ((f j).status ≠ j.status)

def orphanWebReason : Str := lit "Web process restarted — this job was no longer running"
def orphanReason : Str := lit "Interrupted. The Celery worker is no longer alive."
def hostBootstrapExpiredReason : Str := lit "expired before a worker picked it up, rerun with a fresh password"

/-- The jobs a sweep fails, with its reason. The expired bootstraps come first. -/
def Entry.swept (s : JobStore) : Entry → List (Job × Str)
  | .cleanupOrphanWebJobs now => (endedBy (Jobs.cleanupOrphanWebJobs now) s.jobs).map (·, orphanWebReason)
  | .reconcileOrphanedRunningJobs now activity =>
    (endedBy (failExpiredPendingHostBootstrap now) s.jobs).map (·, hostBootstrapExpiredReason) ++
      match activity with
      | none => []
      | some (alive, active) =>
        (endedBy (interruptOrphan now alive active) (s.jobs.map (failExpiredPendingHostBootstrap now))).map (·, orphanReason)
  | _ => []

def sweepAudits (swept : List (Job × Str)) (audits : List AuditRow) : List AuditRow :=
  swept.foldl (fun as p => finishRunningAuditForJob p.1 .failed p.2 as) audits

/-- The rows that each job of a sweep closes. -/
def closings : List (Job × Str) → List AuditRow → List (Job × AuditRow)
  | [], _ => []
  | p :: ps, audits =>
    (audits.filter (·.runsFor p.1)).map (p.1, ·) ++ closings ps (finishRunningAuditForJob p.1 .failed p.2 audits)

def Entry.audits (s : Ledger) : Entry → List AuditRow
  | .create _ serverId t _ auditDetails =>
    if t = .backup then s.audits
    else s.audits ++ [⟨s.store.nextId, t, serverId, .running, needle s.store.nextId ++ auditDetails⟩]
  | .finish jid st summary _ =>
    match s.store.get jid with
    | none => s.audits
    | some j => s.audits.map fun (a : AuditRow) => if a.jobId = jid then finishAudit j st summary a else a
  | e => sweepAudits (e.swept s.store) s.audits

def record (s : Ledger) (e : Entry) : Ledger :=
  { store := match e with
      | .create now serverId t d _ => s.store.create now serverId t d
      | e => s.store.update e.row
    audits := e.audits s }

/-! ## What the log promises -/

/-- A closed row of an ended job has the job's status. -/
def Agrees (s : Ledger) : Prop :=
  ∀ j ∈ s.store.jobs, ∀ a ∈ s.audits, a.jobId = j.id → j.status.terminal = true → a.status.terminal = true →
    a.status = j.status

/-- Nothing closes another job's row. (`_finish` is handed the row of its own job.) -/
def ClosesOwn (s : Ledger) (e : Entry) : Prop := ∀ c ∈ closings (e.swept s.store) s.audits, c.2.jobId = c.1.id

/-- The log tells the truth in every state of the run and at every sweep. -/
def LogHolds (es : List Entry) : Prop :=
  (∀ pre post, es = pre ++ post → Agrees (runs record Ledger.empty pre)) ∧
    ∀ pre e post, es = pre ++ e :: post → ClosesOwn (runs record Ledger.empty pre) e

/-- The entry meets no row that it would leave wrong:

* a worker that reports late, on a job that is over, reports the outcome the job already has;
* no job is cancelled or swept whose row was closed before with another status: a job whose body was
  started after its end;
* no swept job's `Job #N` stands in the running row of another job, unless that row was closed by a job
  swept before. -/
structure InOrder (s : Ledger) (e : Entry) : Prop where
  late : ∀ jid st summary now, e = .finish jid st summary now → ∀ j, s.store.get jid = some j → j.status ≠ .cancelled →
    j.status.terminal = true → ∀ a ∈ s.audits, a.jobId = jid → st.terminal = true → st = j.status
  cancelled : ∀ jid now, e = .cancelJob jid now → ∀ j, s.store.get jid = some j → j.status.active = true →
    ∀ a ∈ s.audits, a.jobId = jid → a.status.terminal = true → a.status = .cancelled
  failed : ∀ p ∈ e.swept s.store, ∀ a ∈ s.audits, a.jobId = p.1.id → a.status.terminal = true → a.status = .failed
  named : ∀ before p after, e.swept s.store = before ++ p :: after → ∀ a ∈ s.audits, a.runsFor p.1 = true →
    a.jobId = p.1.id ∨ ∃ q ∈ before, a.runsFor q.1 = true

/-! ## What a sweep closes -/

theorem endedBy_status {f : Job → Job} {jobs : List Job} {j : Job} : j ∈ endedBy f jobs ↔ j ∈ jobs ∧ (f j).status ≠ j.status := by
  simp [endedBy]

theorem runsFor_running {a : AuditRow} {j : Job} (h : a.runsFor j = true) : a.status = .running := by
  simp only [AuditRow.runsFor, Bool.and_eq_true, decide_eq_true_eq] at h
  exact h.1.1.1

theorem close_not_runsFor (a : AuditRow) (details : Str) (j : Job) : (a.close .failed details).runsFor j = false := by
  simp [AuditRow.runsFor, AuditRow.close]

/-- A row after a sweep: it was not touched, or one of the sweep's jobs has closed it as failed. -/
theorem mem_sweepAudits {a' : AuditRow} : ∀ {swept : List (Job × Str)} {audits : List AuditRow},
    a' ∈ sweepAudits swept audits → ∃ a ∈ audits, a'.jobId = a.jobId ∧
      (a' = a ∨ (a'.status = .failed ∧ ∃ c ∈ closings swept audits, c.2 = a))
  | [], audits, h => ⟨a', h, rfl, Or.inl rfl⟩
  | p :: ps, audits, h => by
    obtain ⟨b, hb, hid, hcase⟩ := @mem_sweepAudits a' ps _ h
    obtain ⟨a, ha, rfl⟩ := List.mem_map.1 hb
    refine ⟨a, ha, ?_, ?_⟩
    · rw [hid]
      split <;> rfl
    · by_cases hrun : a.runsFor p.1 = true
      · have hclosed : (p.1, a) ∈ closings (p :: ps) audits := by
          unfold closings
          exact List.mem_append_left _ (List.mem_map_of_mem (List.mem_filter.2 ⟨ha, hrun⟩))
        rw [if_pos hrun] at hcase
        refine Or.inr ⟨?_, _, hclosed, rfl⟩
        rcases hcase with rfl | ⟨hfailed, -⟩
        · rfl
        · exact hfailed
      · rw [if_neg hrun] at hcase
        refine hcase.imp_right fun ⟨hfailed, c, hc, hca⟩ => ⟨hfailed, c, ?_, hca⟩
        unfold closings
        exact List.mem_append_right _ hc

/-- A row that nobody closes survives the sweep. -/
theorem mem_sweepAudits_of_notRunning {a : AuditRow} (h : a.status ≠ .running) : ∀ {swept : List (Job × Str)} {audits},
    a ∈ audits → a ∈ sweepAudits swept audits
  | [], _, ha => ha
  | p :: ps, audits, ha => by
    exact @mem_sweepAudits_of_notRunning a h ps _ (List.mem_map.2 ⟨a, ha, if_neg fun hrun => h (runsFor_running hrun)⟩)

/-- **Who closes what**: a job of the sweep closes a running row of the log that names it and that no job
before it has closed. -/
theorem mem_closings {c : Job × AuditRow} : ∀ {swept : List (Job × Str)} {audits : List AuditRow},
    c ∈ closings swept audits ↔ ∃ before p after, swept = before ++ p :: after ∧ p.1 = c.1 ∧ c.2 ∈ audits ∧
      c.2.runsFor c.1 = true ∧ ∀ q ∈ before, c.2.runsFor q.1 = false
  | [], audits => by simp [closings]
  | p :: ps, audits => by
    have hrest : ∀ b, (b ∈ finishRunningAuditForJob p.1 .failed p.2 audits ∧ b.runsFor c.1 = true) ↔
        b ∈ audits ∧ b.runsFor c.1 = true ∧ b.runsFor p.1 = false := by
      intro b
      constructor
      · rintro ⟨hb, hrun⟩
        obtain ⟨a, ha, rfl⟩ := List.mem_map.1 hb
        by_cases hp : a.runsFor p.1 = true
        · rw [if_pos hp, close_not_runsFor] at hrun
          cases hrun
        · rw [if_neg hp] at hrun ⊢
          exact ⟨ha, hrun, by simpa using hp⟩
      · rintro ⟨hb, hrun, hp⟩
        exact ⟨List.mem_map.2 ⟨b, hb, if_neg (by simp [hp])⟩, hrun⟩
    unfold closings
    rw [List.mem_append, @mem_closings c ps]
    constructor
    · rintro (hhead | ⟨before, q, after, rfl, hq, hmem, hrun, hbefore⟩)
      · obtain ⟨a, ha, rfl⟩ := List.mem_map.1 hhead
        exact ⟨[], p, ps, rfl, rfl, (List.mem_filter.1 ha).1, (List.mem_filter.1 ha).2, by simp⟩
      · obtain ⟨hmem', -, hp⟩ := (hrest c.2).1 ⟨hmem, hrun⟩
        refine ⟨p :: before, q, after, rfl, hq, hmem', hrun, fun r hr => ?_⟩
        rcases List.mem_cons.1 hr with rfl | hr
        · exact hp
        · exact hbefore r hr
    · rintro ⟨before, q, after, heq, hq, hmem, hrun, hbefore⟩
      cases before with
      | nil =>
        obtain ⟨rfl, rfl⟩ := List.cons.inj heq
        refine Or.inl (List.mem_map.2 ⟨c.2, List.mem_filter.2 ⟨hmem, hq ▸ hrun⟩, ?_⟩)
        rw [hq]
      | cons r before =>
        obtain ⟨rfl, rfl⟩ := List.cons.inj heq
        have hp := hbefore p List.mem_cons_self
        obtain ⟨hmem', hrun'⟩ := (hrest c.2).2 ⟨hmem, hrun, hp⟩
        exact Or.inr ⟨before, q, after, rfl, hq, hmem', hrun', fun s hs => hbefore s (List.mem_cons_of_mem _ hs)⟩

/-! ## Jobs a sweep ends -/

/-- What a sweep does to the rows of the table: the swept ones fail, the others keep their status. -/
structure Sweeps (f : Job → Job) (swept : List (Job × Str)) (jobs : List Job) : Prop where
  ended : ∀ p ∈ swept, p.1 ∈ jobs ∧ p.1.status.active = true ∧ (f p.1).status = .failed
  kept : ∀ j ∈ jobs, (∃ p ∈ swept, p.1 = j) ∨ (f j).status = j.status

theorem failExpired_cases (now : Nat) (j : Job) :
    ((failExpiredPendingHostBootstrap now j).status = .failed ∧ j.status = .pending) ∨ failExpiredPendingHostBootstrap now j = j := by
  unfold failExpiredPendingHostBootstrap
  split
  · rename_i h
    exact Or.inl ⟨rfl, h.2.1⟩
  · exact Or.inr rfl

theorem interruptOrphan_cases (now : Nat) (alive : Bool) (active : List Nat) (j : Job) :
    ((interruptOrphan now alive active j).status = .failed ∧ j.status = .running) ∨ interruptOrphan now alive active j = j := by
  unfold interruptOrphan
  split_ifs with h
  · exact Or.inr rfl
  · exact Or.inr rfl
  · exact Or.inr rfl
  · rw [not_or, not_not] at h
    exact Or.inl ⟨rfl, h.1⟩

theorem Entry.sweeps (s : JobStore) {e : Entry} (h : e.swept s ≠ [] ∨ (∃ now, e = .cleanupOrphanWebJobs now) ∨
    ∃ now a, e = .reconcileOrphanedRunningJobs now a) : Sweeps e.row (e.swept s) s.jobs := by
  cases e with
  | cleanupOrphanWebJobs now =>
    have hcases : ∀ j, (Jobs.cleanupOrphanWebJobs now j).status ≠ j.status →
        j.status.active = true ∧ (Jobs.cleanupOrphanWebJobs now j).status = .failed := by
      intro j hne
      unfold Jobs.cleanupOrphanWebJobs at hne ⊢
      split at hne
      · rename_i hc
        rw [if_pos hc]
        exact ⟨hc.1, rfl⟩
      · exact absurd rfl hne
    refine ⟨fun p hp => ?_, fun j hj => ?_⟩
    · obtain ⟨j, hj, rfl⟩ := List.mem_map.1 hp
      obtain ⟨hmem, hne⟩ := endedBy_status.1 hj
      exact ⟨hmem, hcases j hne⟩
    · by_cases hne : (Jobs.cleanupOrphanWebJobs now j).status = j.status
      · exact Or.inr hne
      · exact Or.inl ⟨_, List.mem_map_of_mem (endedBy_status.2 ⟨hj, hne⟩), rfl⟩
  | reconcileOrphanedRunningJobs now activity =>
    have hexpired : ∀ p ∈ (endedBy (failExpiredPendingHostBootstrap now) s.jobs).map (·, hostBootstrapExpiredReason),
        p.1 ∈ s.jobs ∧ p.1.status = .pending ∧ (failExpiredPendingHostBootstrap now p.1).status = .failed := by
      intro p hp
      obtain ⟨j, hj, rfl⟩ := List.mem_map.1 hp
      obtain ⟨hmem, hne⟩ := endedBy_status.1 hj
      rcases failExpired_cases now j with ⟨hfailed, hpending⟩ | hsame
      · exact ⟨hmem, hpending, hfailed⟩
      · exact absurd (congrArg Job.status hsame) hne
    cases activity with
    | none =>
      refine ⟨fun p hp => ?_, fun j hj => ?_⟩
      · have hp' : p ∈ (endedBy (failExpiredPendingHostBootstrap now) s.jobs).map (·, hostBootstrapExpiredReason) := by
          simpa [Entry.swept] using hp
        obtain ⟨hmem, hpending, hfailed⟩ := hexpired p hp'
        exact ⟨hmem, by rw [hpending]; rfl, hfailed⟩
      · by_cases hne : (failExpiredPendingHostBootstrap now j).status = j.status
        · exact Or.inr hne
        · refine Or.inl ⟨_, List.mem_append_left _ (List.mem_map_of_mem (endedBy_status.2 ⟨hj, hne⟩)), rfl⟩
    | some activity =>
      obtain ⟨alive, active⟩ := activity
      refine ⟨fun p hp => ?_, fun j hj => ?_⟩
      · rcases List.mem_append.1 hp with hp | hp
        · obtain ⟨hmem, hpending, hfailed⟩ := hexpired p hp
          refine ⟨hmem, by rw [hpending]; rfl, ?_⟩
          show (interruptOrphan now alive active (failExpiredPendingHostBootstrap now p.1)).status = .failed
          rcases interruptOrphan_cases now alive active (failExpiredPendingHostBootstrap now p.1) with ⟨hf, -⟩ | hsame
          · exact hf
          · rw [hsame, hfailed]
        · obtain ⟨j', hj', rfl⟩ := List.mem_map.1 hp
          obtain ⟨hmem, hne⟩ := endedBy_status.1 hj'
          obtain ⟨j, hj, rfl⟩ := List.mem_map.1 hmem
          rcases interruptOrphan_cases now alive active (failExpiredPendingHostBootstrap now j) with ⟨hf, hrunning⟩ | hsame
          · rcases failExpired_cases now j with ⟨hfailed, -⟩ | hid
            · rw [hfailed] at hrunning
              cases hrunning
            · simp only [hid] at hf hrunning ⊢
              refine ⟨hj, by rw [hrunning]; rfl, ?_⟩
              show (interruptOrphan now alive active (failExpiredPendingHostBootstrap now j)).status = .failed
              rw [hid, hf]
          · exact absurd (congrArg Job.status hsame) hne
      · rcases failExpired_cases now j with ⟨hfailed, hpending⟩ | hid
        · refine Or.inl ⟨_, List.mem_append_left _ (List.mem_map_of_mem (endedBy_status.2 ⟨hj, ?_⟩)), rfl⟩
          rw [hfailed, hpending]
          decide
        · by_cases hne : (interruptOrphan now alive active j).status = j.status
          · refine Or.inr ?_
            show (interruptOrphan now alive active (failExpiredPendingHostBootstrap now j)).status = j.status
            rw [hid, hne]
          · refine Or.inl ⟨_, List.mem_append_right _ (List.mem_map_of_mem (endedBy_status.2 ⟨?_, hne⟩)), rfl⟩
            exact List.mem_map.2 ⟨j, hj, hid⟩
  | create => simp [Entry.swept] at h
  | start => simp [Entry.swept] at h
  | progress => simp [Entry.swept] at h
  | finish => simp [Entry.swept] at h
  | cancelJob => simp [Entry.swept] at h

/-! ## Reachable ledgers -/

/-- One row a job, ids below the next one, and the log speaks of known jobs. -/
structure Ledger.Sound (s : Ledger) : Prop where
  settled : ∀ j ∈ s.store.jobs, Settled j
  unique : ∀ j ∈ s.store.jobs, ∀ j' ∈ s.store.jobs, j.id = j'.id → j = j'
  jobs_lt : ∀ j ∈ s.store.jobs, j.id < s.store.nextId
  audits_lt : ∀ a ∈ s.audits, a.jobId < s.store.nextId

theorem Entry.row_id (e : Entry) (j : Job) : (e.row j).id = j.id := by
  cases e with
  | create => rfl
  | start jid now => exact onJob_id (executeStart_id now) jid j
  | progress jid current =>
    have hid : ∀ i, (reportProgress current i).id = i.id := fun _ => rfl
    exact onJob_id hid jid j
  | finish jid st summary now => exact onJob_id (finish_id st now) jid j
  | cancelJob jid now => exact onJob_id (cancelJob_activeOnly now).id jid j
  | cleanupOrphanWebJobs now => exact (cleanupOrphanWebJobs_activeOnly now).id j
  | reconcileOrphanedRunningJobs now a => exact (reconcileOrphanedRunningJobs_activeOnly now a).id j

theorem Entry.row_settled (e : Entry) {j : Job} (h : Settled j) : Settled (e.row j) := by
  cases e with
  | create => exact h
  | start jid now => exact onJob_settled (executeStart_settled now) jid h
  | progress jid current =>
    have hkeep : ∀ i, Settled i → Settled (reportProgress current i) := fun _ hi => hi
    exact onJob_settled hkeep jid h
  | finish jid st summary now => exact onJob_settled (finish_settled st now) jid h
  | cancelJob jid now => exact onJob_settled (cancelJob_activeOnly now).settled jid h
  | cleanupOrphanWebJobs now => exact (cleanupOrphanWebJobs_activeOnly now).settled j h
  | reconcileOrphanedRunningJobs now a => exact (reconcileOrphanedRunningJobs_activeOnly now a).settled j h

theorem finishAudit_jobId (j : Job) (st : JobStatus) (summary : Str) (a : AuditRow) : (finishAudit j st summary a).jobId = a.jobId := by
  unfold finishAudit AuditRow.close
  split
  · split <;> rfl
  · rfl

theorem Entry.audits_create (s : Ledger) (now : Nat) (host : Option Nat) (t : JobType) (d : JobDetails) (x : Str) :
    Entry.audits s (.create now host t d x) = if t = .backup then s.audits
      else s.audits ++ [⟨s.store.nextId, t, host, .running, needle s.store.nextId ++ x⟩] := rfl

theorem Entry.audits_finish {s : Ledger} {jid : Nat} {j : Job} (h : s.store.get jid = some j) (st : JobStatus) (summary : Str)
    (now : Nat) : Entry.audits s (.finish jid st summary now) =
      s.audits.map fun (a : AuditRow) => if a.jobId = jid then finishAudit j st summary a else a := by
  show (match s.store.get jid with
    | none => s.audits
    | some j => s.audits.map fun (a : AuditRow) => if a.jobId = jid then finishAudit j st summary a else a) = _
  rw [h]

theorem Entry.audits_finish_none {s : Ledger} {jid : Nat} (h : s.store.get jid = none) (st : JobStatus) (summary : Str)
    (now : Nat) : Entry.audits s (.finish jid st summary now) = s.audits := by
  show (match s.store.get jid with
    | none => s.audits
    | some j => s.audits.map fun (a : AuditRow) => if a.jobId = jid then finishAudit j st summary a else a) = _
  rw [h]

/-- Every row of the log comes from the row of the same job, but for the row of a new one. -/
theorem Entry.audits_jobId {s : Ledger} {e : Entry} {a' : AuditRow} (h : a' ∈ e.audits s) :
    (∃ a ∈ s.audits, a'.jobId = a.jobId) ∨ (a'.jobId = s.store.nextId ∧ ∃ now host t d x, e = .create now host t d x) := by
  have hsweep : ∀ swept, a' ∈ sweepAudits swept s.audits → ∃ a ∈ s.audits, a'.jobId = a.jobId := by
    intro swept h
    obtain ⟨a, ha, hid, -⟩ := mem_sweepAudits h
    exact ⟨a, ha, hid⟩
  cases e with
  | create now host t d x =>
    rw [Entry.audits_create] at h
    split at h
    · exact Or.inl ⟨a', h, rfl⟩
    · rcases List.mem_append.1 h with h | h
      · exact Or.inl ⟨a', h, rfl⟩
      · rw [List.mem_singleton] at h
        exact Or.inr ⟨by rw [h], now, host, t, d, x, rfl⟩
  | finish jid st summary now =>
    cases hget : s.store.get jid with
    | none =>
      rw [Entry.audits_finish_none hget] at h
      exact Or.inl ⟨a', h, rfl⟩
    | some j =>
      rw [Entry.audits_finish hget] at h
      obtain ⟨a, ha, rfl⟩ := List.mem_map.1 h
      refine Or.inl ⟨a, ha, ?_⟩
      split
      · exact finishAudit_jobId j st summary a
      · rfl
  | start => exact Or.inl (hsweep _ h)
  | progress => exact Or.inl (hsweep _ h)
  | cancelJob => exact Or.inl (hsweep _ h)
  | cleanupOrphanWebJobs => exact Or.inl (hsweep _ h)
  | reconcileOrphanedRunningJobs => exact Or.inl (hsweep _ h)

theorem record_sound (s : Ledger) (e : Entry) (h : s.Sound) : (record s e).Sound := by
  have hupd : ∀ e : Entry, (∀ now host t d x, e ≠ .create now host t d x) →
      Ledger.Sound ⟨s.store.update e.row, e.audits s⟩ := by
    intro e hne
    refine ⟨fun j hj => ?_, fun j hj j' hj' hid => ?_, fun j hj => ?_, fun a ha => ?_⟩
    · obtain ⟨i, hi, rfl⟩ := List.mem_map.1 hj
      exact e.row_settled (h.settled i hi)
    · obtain ⟨i, hi, rfl⟩ := List.mem_map.1 hj
      obtain ⟨i', hi', rfl⟩ := List.mem_map.1 hj'
      rw [e.row_id, e.row_id] at hid
      rw [h.unique i hi i' hi' hid]
    · obtain ⟨i, hi, rfl⟩ := List.mem_map.1 hj
      rw [e.row_id]
      exact h.jobs_lt i hi
    · rcases Entry.audits_jobId ha with ⟨b, hb, hid⟩ | ⟨-, now, host, t, d, x, heq⟩
      · rw [hid]
        exact h.audits_lt b hb
      · exact absurd heq (hne now host t d x)
  cases e with
  | create now host t d x =>
    refine ⟨fun j hj => ?_, fun j hj j' hj' hid => ?_, fun j hj => ?_, fun a ha => ?_⟩
    · rcases List.mem_append.1 hj with hj | hj
      · exact h.settled j hj
      · obtain rfl := List.mem_singleton.1 hj
        exact fun ht => by cases ht
    · rcases List.mem_append.1 hj with hj | hj <;> rcases List.mem_append.1 hj' with hj' | hj'
      · exact h.unique j hj j' hj' hid
      · obtain rfl := List.mem_singleton.1 hj'
        exact absurd hid (Nat.ne_of_lt (h.jobs_lt j hj))
      · obtain rfl := List.mem_singleton.1 hj
        exact absurd hid.symm (Nat.ne_of_lt (h.jobs_lt j' hj'))
      · rw [List.mem_singleton.1 hj, List.mem_singleton.1 hj']
    · rcases List.mem_append.1 hj with hj | hj
      · exact Nat.lt_succ_of_lt (h.jobs_lt j hj)
      · obtain rfl := List.mem_singleton.1 hj
        exact Nat.lt_succ_self _
    · have ha' : a ∈ Entry.audits s (.create now host t d x) := ha
      rcases Entry.audits_jobId ha' with ⟨b, hb, hid⟩ | ⟨hid, -⟩
      · rw [hid]
        exact Nat.lt_succ_of_lt (h.audits_lt b hb)
      · rw [hid]
        exact Nat.lt_succ_self _
  | start => exact hupd _ (by simp)
  | progress => exact hupd _ (by simp)
  | finish => exact hupd _ (by simp)
  | cancelJob => exact hupd _ (by simp)
  | cleanupOrphanWebJobs => exact hupd _ (by simp)
  | reconcileOrphanedRunningJobs => exact hupd _ (by simp)

theorem Ledger.empty_sound : Ledger.empty.Sound :=
  ⟨by simp [Ledger.empty, JobStore.empty], by simp [Ledger.empty, JobStore.empty], by simp [Ledger.empty, JobStore.empty],
    by simp [Ledger.empty]⟩

theorem Ledger.Sound.get {s : Ledger} (h : s.Sound) {j : Job} (hj : j ∈ s.store.jobs) : s.store.get j.id = some j := by
  cases hget : s.store.get j.id with
  | none =>
    have := List.find?_eq_none.1 hget j hj
    simp at this
  | some j' => rw [h.unique j' (JobStore.get_mem hget) j hj (JobStore.get_id hget)]

/-! ## One entry -/

section Step
variable {s : Ledger} {e : Entry}

theorem record_store (hne : ∀ now host t d x, e ≠ .create now host t d x) :
    (record s e).store.jobs = s.store.jobs.map e.row := by
  cases e with
  | create now host t d x => exact absurd rfl (hne now host t d x)
  | start => rfl
  | progress => rfl
  | finish => rfl
  | cancelJob => rfl
  | cleanupOrphanWebJobs => rfl
  | reconcileOrphanedRunningJobs => rfl

/-- An entry that leaves a log in order keeps it true. -/
theorem record_agrees (hs : s.Sound) (ha : Agrees s) (h : InOrder s e) (hown : ClosesOwn s e) : Agrees (record s e) := by
  -- a swept job fails, its own row is closed as failed; the row of a job that is not swept is not closed
  have hsweep : (∀ a', a' ∈ (record s e).audits → a' ∈ sweepAudits (e.swept s.store) s.audits) →
      (∀ now host t d x, e ≠ .create now host t d x) → Sweeps e.row (e.swept s.store) s.store.jobs → Agrees (record s e) := by
    intro haudits hne hsw j' hj' a' ha' hid ht hta
    rw [record_store hne] at hj'
    obtain ⟨j, hj, rfl⟩ := List.mem_map.1 hj'
    obtain ⟨a, hmem, haid, hcase⟩ := mem_sweepAudits (haudits a' ha')
    rw [e.row_id, haid] at hid
    rcases hsw.kept j hj with ⟨p, hp, rfl⟩ | hkept
    · rw [(hsw.ended p hp).2.2]
      rcases hcase with rfl | ⟨hfailed, -⟩
      · exact h.failed p hp _ hmem hid hta
      · exact hfailed
    · rw [hkept] at ht ⊢
      rcases hcase with rfl | ⟨-, c, hc, rfl⟩
      · exact ha j hj _ hmem hid ht hta
      · obtain ⟨before, p, after, heq, hp, -⟩ := mem_closings.1 hc
        have hpm : p ∈ e.swept s.store := by rw [heq]; simp
        have hjp : p.1 = j := hs.unique _ (hsw.ended p hpm).1 j hj (by rw [hp, ← hid, hown c hc])
        have hactive := (hsw.ended p hpm).2.1
        rw [hjp] at hactive
        rw [(terminal_iff_not_active _).1 ht] at hactive
        cases hactive
  cases e with
  | create now host t d x =>
    intro j hj a hmem hid ht hta
    rcases List.mem_append.1 hj with hj | hj
    · have hold : a ∈ s.audits := by
        have hmem' : a ∈ Entry.audits s (.create now host t d x) := hmem
        rw [Entry.audits_create] at hmem'
        split at hmem'
        · exact hmem'
        · rcases List.mem_append.1 hmem' with hmem' | hmem'
          · exact hmem'
          · rw [List.mem_singleton] at hmem'
            rw [hmem'] at hta
            cases hta
      exact ha j hj a hold hid ht hta
    · obtain rfl := List.mem_singleton.1 hj
      cases ht
  | start jid now =>
    intro j' hj' a hmem hid ht hta
    obtain ⟨j, hj, rfl⟩ := List.mem_map.1 hj'
    have hsame : (Entry.row (.start jid now) j).status = j.status := by
      show (onJob jid (executeStart now) j).status = j.status
      unfold onJob
      by_cases hj0 : j.id = jid
      · rw [if_pos hj0]
        cases hl : j.jobType.startLabel with
        | none => rw [executeStart_of_none hl]
        | some label =>
          have hrun : (Entry.row (.start jid now) j).status = .running := by
            show (onJob jid (executeStart now) j).status = .running
            unfold onJob
            rw [if_pos hj0]
            exact executeStart_status (by rw [hl]; rfl)
          rw [hrun] at ht
          cases ht
      · rw [if_neg hj0]
    rw [hsame] at ht ⊢
    rw [Entry.row_id] at hid
    exact ha j hj a hmem hid ht hta
  | progress jid current =>
    intro j' hj' a hmem hid ht hta
    obtain ⟨j, hj, rfl⟩ := List.mem_map.1 hj'
    have hsame : (Entry.row (.progress jid current) j).status = j.status := by
      show (onJob jid (reportProgress current) j).status = j.status
      unfold onJob
      split <;> rfl
    rw [hsame] at ht ⊢
    rw [Entry.row_id] at hid
    exact ha j hj a hmem hid ht hta
  | finish jid st summary now =>
    intro j' hj' a' hmem hid ht hta
    obtain ⟨j, hj, rfl⟩ := List.mem_map.1 hj'
    rw [Entry.row_id] at hid
    have hrow : Entry.row (.finish jid st summary now) j = onJob jid (Jobs.finish st now) j := rfl
    rw [hrow] at ht ⊢
    have hmem' : a' ∈ Entry.audits s (.finish jid st summary now) := hmem
    by_cases hj0 : j.id = jid
    · subst hj0
      rw [Entry.audits_finish (hs.get hj)] at hmem'
      obtain ⟨a, hma, rfl⟩ := List.mem_map.1 hmem'
      have haid : a.jobId = j.id := by
        split at hid
        · assumption
        · exact hid
      rw [if_pos haid] at hta ⊢
      unfold onJob at ht ⊢
      rw [if_pos rfl] at ht ⊢
      unfold finishAudit at hta ⊢
      by_cases hc : j.status = .cancelled
      · have hfin : Jobs.finish st now j = j := by
          unfold Jobs.finish
          rw [if_pos hc]
        rw [if_pos hc] at hta ⊢
        rw [hfin] at ht ⊢
        by_cases har : a.status = .running
        · rw [if_pos har]
          exact hc.symm
        · rw [if_neg har] at hta ⊢
          exact ha j hj a hma haid ht hta
      · rw [if_neg hc] at hta ⊢
        by_cases htj : j.status.terminal = true
        · rw [finish_of_terminal (hs.settled j hj) htj]
          exact h.late j.id st summary now rfl j (hs.get hj) hc htj a hma haid hta
        · have hfin : (Jobs.finish st now j).status = st := by
            unfold Jobs.finish
            rw [if_neg hc, if_neg fun h => htj h.1]
          rw [hfin]
          rfl
    · have hsame : onJob jid (Jobs.finish st now) j = j := if_neg hj0
      rw [hsame] at ht ⊢
      cases hget : s.store.get jid with
      | none =>
        rw [Entry.audits_finish_none hget] at hmem'
        exact ha j hj a' hmem' hid ht hta
      | some j₀ =>
        rw [Entry.audits_finish hget] at hmem'
        obtain ⟨a, hma, rfl⟩ := List.mem_map.1 hmem'
        by_cases hja : a.jobId = jid
        · rw [if_pos hja, finishAudit_jobId, hja] at hid
          exact absurd hid.symm hj0
        · rw [if_neg hja] at hid hta ⊢
          exact ha j hj a hma hid ht hta
  | cancelJob jid now =>
    intro j' hj' a hmem hid ht hta
    obtain ⟨j, hj, rfl⟩ := List.mem_map.1 hj'
    rw [Entry.row_id] at hid
    have hrow : Entry.row (.cancelJob jid now) j = onJob jid (Jobs.cancelJob now) j := rfl
    rw [hrow] at ht ⊢
    unfold onJob at ht ⊢
    by_cases hj0 : j.id = jid
    · subst hj0
      rw [if_pos rfl] at ht ⊢
      by_cases hact : j.status.active = true
      · have hcancel : (Jobs.cancelJob now j).status = .cancelled := by
          unfold Jobs.cancelJob
          rw [if_pos hact]
          rfl
        rw [hcancel]
        exact h.cancelled j.id now rfl j (hs.get hj) hact a hmem hid hta
      · have hsame : Jobs.cancelJob now j = j := if_neg hact
        rw [hsame] at ht ⊢
        exact ha j hj a hmem hid ht hta
    · rw [if_neg hj0] at ht ⊢
      exact ha j hj a hmem hid ht hta
  | cleanupOrphanWebJobs now =>
    exact hsweep (fun _ h => h) (by simp) (Entry.sweeps s.store (Or.inr (Or.inl ⟨now, rfl⟩)))
  | reconcileOrphanedRunningJobs now a =>
    exact hsweep (fun _ h => h) (by simp) (Entry.sweeps s.store (Or.inr (Or.inr ⟨now, a, rfl⟩)))

/-- **One entry keeps the log true and closes only its own rows iff it finds the log in order.** -/
theorem record_holds_iff (hs : s.Sound) (ha : Agrees s) : Agrees (record s e) ∧ ClosesOwn s e ↔ InOrder s e := by
  constructor
  · rintro ⟨hagrees, hown⟩
    refine ⟨?_, ?_, fun p hp a hma hid hta => ?_, fun before p after heq a hma hrun => ?_⟩
    · rintro jid st summary now rfl j hj hc htj a hma hid htst
      have hjm := JobStore.get_mem hj
      have hjid : j.id = jid := JobStore.get_id hj
      have hrow : (Entry.row (.finish jid st summary now) j) = j := by
        show onJob jid (Jobs.finish st now) j = j
        unfold onJob
        rw [if_pos hjid, finish_of_terminal (hs.settled j hjm) htj]
      have hj' : j ∈ (record s (.finish jid st summary now)).store.jobs := List.mem_map.2 ⟨j, hjm, hrow⟩
      have ha' : finishAudit j st summary a ∈ (record s (.finish jid st summary now)).audits := by
        show finishAudit j st summary a ∈ Entry.audits s (.finish jid st summary now)
        rw [Entry.audits_finish hj]
        exact List.mem_map.2 ⟨a, hma, if_pos hid⟩
      have hst : (finishAudit j st summary a).status = st := by
        unfold finishAudit
        rw [if_neg hc]
        rfl
      have := hagrees j hj' _ ha' (by rw [finishAudit_jobId, hid, hjid]) htj (by rwa [hst])
      rwa [hst] at this
    · rintro jid now rfl j hj hact a hma hid hta
      have hjm := JobStore.get_mem hj
      have hjid : j.id = jid := JobStore.get_id hj
      have hrow : Entry.row (.cancelJob jid now) j = markJobTerminal now .cancelled j := by
        show onJob jid (Jobs.cancelJob now) j = _
        unfold onJob Jobs.cancelJob
        rw [if_pos hjid, if_pos hact]
      have hj' : markJobTerminal now .cancelled j ∈ (record s (.cancelJob jid now)).store.jobs := List.mem_map.2 ⟨j, hjm, hrow⟩
      exact hagrees _ hj' a hma (by rw [hid, markJobTerminal_id, hjid]) rfl hta
    · have hsw := Entry.sweeps s.store (Or.inl (List.ne_nil_of_mem hp))
      have hne : ∀ now host t d x, e ≠ .create now host t d x := by
        rintro now host t d x rfl
        cases hp
      have hfin : ∀ jid st summary now, e ≠ .finish jid st summary now := by
        rintro jid st summary now rfl
        cases hp
      have hj' : e.row p.1 ∈ (record s e).store.jobs := by
        rw [record_store hne]
        exact List.mem_map_of_mem (hsw.ended p hp).1
      have ha' : a ∈ (record s e).audits := by
        have hrun : a.status ≠ .running := by
          intro hrun
          rw [hrun] at hta
          cases hta
        have hkeep : a ∈ sweepAudits (e.swept s.store) s.audits := mem_sweepAudits_of_notRunning hrun hma
        cases e with
        | create now host t d x => exact absurd rfl (hne now host t d x)
        | finish jid st summary now => exact absurd rfl (hfin jid st summary now)
        | start => exact hkeep
        | progress => exact hkeep
        | cancelJob => exact hkeep
        | cleanupOrphanWebJobs => exact hkeep
        | reconcileOrphanedRunningJobs => exact hkeep
      have hfailed := (hsw.ended p hp).2.2
      have := hagrees _ hj' a ha' (by rw [hid, e.row_id]) (by rw [hfailed]; rfl) hta
      rwa [hfailed] at this
    · by_cases hq : ∃ q ∈ before, a.runsFor q.1 = true
      · exact Or.inr hq
      · have hnone : ∀ q ∈ before, a.runsFor q.1 = false := fun q hqm => by
          cases hqr : a.runsFor q.1 with
          | false => rfl
          | true => exact absurd ⟨q, hqm, hqr⟩ hq
        exact Or.inl (hown (p.1, a) (mem_closings.2 ⟨before, p, after, heq, rfl, hma, hrun, hnone⟩))
  · intro h
    have hown : ClosesOwn s e := by
      intro c hc
      obtain ⟨before, p, after, heq, hp, hmem, hrun, hnone⟩ := mem_closings.1 hc
      rcases h.named before p after heq c.2 hmem (hp ▸ hrun) with hid | ⟨q, hq, hqr⟩
      · rw [hid, hp]
      · rw [hnone q hq] at hqr
        cases hqr
    exact ⟨record_agrees hs ha h hown, hown⟩

end Step

/-! ## Runs -/

/-- **Job and audit row agree, and only own rows are closed, exactly in the runs whose every entry finds
the log in order.** -/
theorem log_holds_iff (es : List Entry) : LogHolds es ↔ Guarded record InOrder Ledger.empty es :=
  runs_hold_iff record_sound (fun _ _ hs ha => record_holds_iff hs ha) Ledger.empty_sound (fun _ hj => by cases hj) es

/-- A worker that the sweep took for dead reports a success. -/
def lateWorker : List Entry :=
  [.create 0 (some 1) .osPatch {} (lit " started"),
   .start 1 1,
   .reconcileOrphanedRunningJobs 100 (some (true, [])),
   .finish 1 .success (lit "patched") 200]

theorem lateWorker_disagrees : ¬ ∀ es, LogHolds es := by
  intro h
  have hrun := (h lateWorker).1 lateWorker [] (List.append_nil _).symm
  revert hrun
  unfold Agrees
  decide

/-- Ten jobs; the sweep of the first one closes the row of the tenth, too. -/
def tenBootstraps : List Entry :=
  (List.range 9).map (fun _ => .create 0 (some 1) .hostBootstrap {} (lit " started")) ++
    [.create 1000 (some 1) .hostBootstrap {} (lit " started"), .reconcileOrphanedRunningJobs 1000 none]

example : ¬ ClosesOwn (runs record Ledger.empty (tenBootstraps.take 10)) (.reconcileOrphanedRunningJobs 1000 none) := by
  unfold ClosesOwn
  decide +kernel

end PiHerder.Jobs
