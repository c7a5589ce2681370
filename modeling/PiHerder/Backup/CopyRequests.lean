import PiHerder.Backup.Direct
import PiHerder.Lib.Runs
import PiHerder.Lib.Table

/-!
# The copies of one destination

A destination has one slot: while a copy of it is pending or running, a new request is answered with that job. The
direct half of a request is a job of its own, queued beside the folder copy or after it (`services/backup_replicate.py`,
`tasks.py`).

| here | there |
| --- | --- |
| `scopedParts` | `_scoped_parts` (1500–1507), over `parse_selection`, `_take_direct`, `_groups_for_destination` |
| `CopyJob` | a `backup_replicate` row, with the keys of its `details` that are read |
| `activeReplicate`, `activeDirect` | `_active_replicate`, `_active_direct` (1805–1846) |
| `createReplicateJob`, `failUnstarted` | `_create_replicate_job`, `_fail_unstarted` (1881–1950) |
| `enqueue`, `enqueueDirectFollowup` | the functions of these names (1953–2016) |
| `enqueueAfterHostBackup` | one destination of `enqueue_after_host_backup` (2129–2150) |
| `copyEffect` | these, the row of `enqueue_herder_archive`, and `replicate_backup` of `tasks.py` (971–1091): its start, its end, and `_start_direct_followup` |

The self-backup row is taken with any archive name. `broker` is whether Celery's `delay` accepts the task.
-/
namespace PiHerder.Backup
open Lib Lib.Str

/-! ## The code -/

structure BackupDestination where
  id : Nat
  provider : Str
  enabled : Bool
  afterHostBackup : Bool
  credentialsEncrypted : Str
  /-- The two lists of `selection_json`. -/
  checked : List Str
  skipped : List Str

def credentialsSaved (d : BackupDestination) : Bool := strip d.credentialsEncrypted != []

def parseSelection (d : BackupDestination) : List Str × List Str :=
  normalizeSelection (d.checked.filter fun p => strip p != []) (d.skipped.filter fun p => strip p != [])

structure CopySite where
  hosts : List Host
  /-- `parse_direct_targets` of the host's column. -/
  directTargets : Host → List Str
  destinations : Keyed BackupDestination Nat BackupDestination.id
  demoMode : Bool

def CopySite.destination (site : CopySite) (id : Nat) : Option BackupDestination :=
  Table.lookup BackupDestination.id id site.destinations.rows

/-- A direct host stays where this destination is one it sends to. -/
def groupsForDestination (site : CopySite) (d : BackupDestination) (groups : List (Host × List Str)) : List (Host × List Str) :=
  let provider := lower (strip d.provider)
  groups.filter fun group => provider != [] && (site.directTargets group.1).contains provider

structure ScopedParts where
  herder : List Str
  groups : List (Host × List Str)
  skipped : List Str

def scopedParts (site : CopySite) (d : BackupDestination) (scope : Str) : ScopedParts :=
  let selection := parseSelection d
  let narrowed := pathsForScope selection.1 selection.2 scope
  let split := partitionChecked narrowed.1 site.hosts
  ⟨split.1, groupsForDestination site d split.2, narrowed.2⟩

inductive CopyStatus
  | pending
  | running
  | success
  | failed
  | cancelled
deriving DecidableEq, Repr

structure CopyJob where
  id : Nat
  status : CopyStatus
  destinationId : Nat
  /-- Empty for the whole selection. -/
  scope : Str
  herderArchive : Str
  directHost : Bool
  directAfter : Bool
  startedAt : Option Nat
deriving DecidableEq, Repr

def CopyJob.active (job : CopyJob) : Bool := job.status = .pending || job.status = .running

def isFolderHop (job : CopyJob) : Bool := strip job.herderArchive == [] && !job.directHost

/-- A host backup that ended well, at a destination that is to follow it. -/
structure FinishedBackup where
  destination : BackupDestination
  folder : Str
  since : Nat

structure CopyQueue where
  /-- The rows, oldest first. -/
  jobs : Keyed CopyJob Nat CopyJob.id
  /-- Folder jobs whose task has ended and whose direct half is still to be queued. -/
  due : List Nat
  clock : Nat
  backups : List FinishedBackup

def activeReplicate (q : CopyQueue) (destinationId : Nat) : Option CopyJob :=
  q.jobs.rows.reverse.find? fun job => job.active && strip job.herderArchive == [] && job.destinationId = destinationId

def activeDirect (q : CopyQueue) (destinationId : Nat) : Option CopyJob :=
  q.jobs.rows.reverse.find? fun job => job.active && job.directHost && job.destinationId = destinationId

/-- In memory only: the row has no id. -/
def refusedCopyJob (d : BackupDestination) : CopyJob := ⟨0, .failed, d.id, [], [], false, false, none⟩

/-- The details are written anew, without the scope. -/
def failUnstarted (job : CopyJob) : CopyJob := { job with status := .failed, scope := [], directAfter := false }

/-- `session.add` and `commit`, under a new id. -/
def CopyQueue.add (q : CopyQueue) (job : CopyJob) : CopyJob × CopyQueue :=
  let row := { job with id := freshId (q.jobs.rows.map CopyJob.id) }
  (row, { q with jobs := q.jobs.insert row (freshId_not_mem _) })

def createReplicateJob (site : CopySite) (q : CopyQueue) (d : BackupDestination) (scope : Str) (directHost directAfter broker : Bool) :
    CopyJob × CopyQueue :=
  let job : CopyJob := ⟨0, .pending, d.id, scope, [], directHost, directAfter, none⟩
  q.add (if site.demoMode || !broker then failUnstarted job else job)

def enqueueDirectFollowup (site : CopySite) (q : CopyQueue) (d : BackupDestination) (scope : Str) (broker : Bool) :
    Option CopyJob × CopyQueue :=
  if !credentialsSaved d || (scopedParts site d scope).groups.isEmpty then (none, q)
  else
    match activeDirect q d.id with
    | some active => (some active, q)
    | none =>
      let made := createReplicateJob site q d scope true false broker
      (some made.1, made.2)

def enqueue (site : CopySite) (q : CopyQueue) (d : BackupDestination) (scope : Str) (broker : Bool) : CopyJob × CopyQueue :=
  if !credentialsSaved d then (refusedCopyJob d, q)
  else
    let parts := scopedParts site d scope
    let directOnly := !parts.groups.isEmpty && parts.herder.isEmpty
    let follow := !parts.groups.isEmpty && !parts.herder.isEmpty
    match activeReplicate q d.id with
    | some active =>
      if isFolderHop active && !parts.groups.isEmpty then
        let direct := enqueueDirectFollowup site q d scope broker
        (direct.1.getD active, direct.2)
      else (active, q)
    | none => createReplicateJob site q d scope directOnly follow broker

/-- The destinations a finished backup is copied to: the copy follows host backups, and has something of the host. -/
def copiesAfter (host : Host) (d : BackupDestination) : Bool :=
  let selection := parseSelection d
  !host.backupDirect && hostFolderName host != [] && d.enabled && d.afterHostBackup && credentialsSaved d &&
    !(pathsForScope selection.1 selection.2 (hostFolderName host)).1.isEmpty

def enqueueAfterHostBackup (site : CopySite) (q : CopyQueue) (host : Host) (d : BackupDestination) (broker : Bool) : CopyQueue :=
  if copiesAfter host d then (enqueue site q d (hostFolderName host) broker).2 else q

inductive CopyEvent
  | enqueue (destination : Nat) (scope : Str) (broker : Bool)
  | hostBackup (host : Host) (destination : Nat) (broker : Bool)
  | archive (destination : Nat) (name : Str) (broker : Bool)
  | start (job : Nat)
  | finish (job : Nat) (ok : Bool)
  | followup (job : Nat) (broker : Bool)

def CopyQueue.write (q : CopyQueue) (id : Nat) (f : CopyJob → CopyJob) (hf : ∀ job, (f job).id = job.id) : CopyQueue :=
  { q with jobs := q.jobs.modify id f hf }

def CopyQueue.job (q : CopyQueue) (id : Nat) : Option CopyJob := Table.lookup CopyJob.id id q.jobs.rows

def CopyQueue.dropDue (q : CopyQueue) (id : Nat) : CopyQueue := { q with due := q.due.filter (· != id) }

/-- The task begins to read; it keeps its first start. Without its destination it fails. -/
def startCopy (site : CopySite) (clock : Nat) (job : CopyJob) : CopyJob :=
  if job.active then
    if (site.destination job.destinationId).isSome then
      { job with status := .running, startedAt := some (job.startedAt.getD clock) }
    else { job with status := .failed }
  else job

def finishCopy (ok : Bool) (job : CopyJob) : CopyJob :=
  if job.status = .running then { job with status := if ok then .success else .failed } else job

theorem startCopy_id (site : CopySite) (clock : Nat) (job : CopyJob) : (startCopy site clock job).id = job.id := by
  unfold startCopy
  split
  · split <;> rfl
  · rfl

theorem finishCopy_id (ok : Bool) (job : CopyJob) : (finishCopy ok job).id = job.id := by
  unfold finishCopy
  split <;> rfl

/-- The folder jobs that end here with a direct half to queue. -/
def endsWithHalf (job : CopyJob) : Bool := job.status = .running && job.directAfter && isFolderHop job

def startDirectFollowup (site : CopySite) (q : CopyQueue) (id : Nat) (broker : Bool) : CopyQueue :=
  match q.job id with
  | none => q
  | some job =>
    if job.status = .cancelled then q
    else
      match site.destination job.destinationId with
      | none => q
      | some d => (enqueueDirectFollowup site q d job.scope broker).2

def copyEffect (site : CopySite) (q : CopyQueue) : CopyEvent → CopyQueue
  | .enqueue id scope broker =>
    match site.destination id with
    | none => q
    | some d => (enqueue site q d scope broker).2
  | .hostBackup host id broker =>
    match site.destination id with
    | none => q
    | some d =>
      let after := enqueueAfterHostBackup site q host d broker
      if copiesAfter host d then { after with backups := ⟨d, hostFolderName host, q.clock⟩ :: after.backups } else after
  | .archive id name broker =>
    if strip name = [] then q
    else (q.add ⟨0, if site.demoMode || !broker then .failed else .pending, id, [], name, false, false, none⟩).2
  | .start id => q.write id (startCopy site q.clock) (startCopy_id site q.clock)
  | .finish id ok =>
    let after := q.write id (finishCopy ok) (finishCopy_id ok)
    if (q.job id).any endsWithHalf then { after with due := id :: after.due } else after
  | .followup id broker => if id ∈ q.due then startDirectFollowup site (q.dropDue id) id broker else q

def CopyQueue.tick (q : CopyQueue) : CopyQueue := { q with clock := q.clock + 1 }

def copyStep (site : CopySite) (q : CopyQueue) (e : CopyEvent) : CopyQueue := (copyEffect site q e).tick

def CopyQueue.empty : CopyQueue := ⟨⟨[], List.nodup_nil⟩, [], 0, []⟩

/-! ## What is asked, and what answers it -/

section requests
variable (site : CopySite)

def AsksHerder (d : BackupDestination) (scope p : Str) : Prop :=
  pathIncluded p (scopedParts site d scope).herder (scopedParts site d scope).skipped = .ok true

def AsksDirect (d : BackupDestination) (scope p : Str) : Prop :=
  ∃ group ∈ (scopedParts site d scope).groups, pathIncluded p group.2 (scopedParts site d scope).skipped = .ok true

/-- The paths a request of this scope asks the destination for. -/
def Asks (d : BackupDestination) (scope p : Str) : Prop := AsksHerder site d scope p ∨ AsksDirect site d scope p

/-- The paths a job copies when it runs. -/
def Copies (d : BackupDestination) (job : CopyJob) (p : Str) : Prop :=
  job.destinationId = d.id ∧ strip job.herderArchive = [] ∧
    if job.directHost then AsksDirect site d job.scope p else AsksHerder site d job.scope p

/-- A folder job that has a direct half to queue when it ends. -/
def Follows (q : CopyQueue) (d : BackupDestination) (job : CopyJob) (p : Str) : Prop :=
  job.destinationId = d.id ∧ job.directAfter = true ∧ isFolderHop job = true ∧ (job.active = true ∨ job.id ∈ q.due) ∧
    AsksDirect site d job.scope p

/-- The job has not begun to read, or began after `since`. -/
def ReadsAfter (since : Nat) (job : CopyJob) : Prop := job.status = .pending ∨ ∃ t, job.startedAt = some t ∧ since < t

/-- The path waits to be copied, or was copied by a job that began after `since`. -/
def Assured (q : CopyQueue) (d : BackupDestination) (since : Nat) (p : Str) : Prop :=
  ∃ job ∈ q.jobs.rows, ReadsAfter since job ∧ Copies site d job p ∨ Follows site q d job p

/-- The paths of the host's backup in the selection. -/
def FinishedBackup.Selects (b : FinishedBackup) (p : Str) : Prop :=
  let selection := parseSelection b.destination
  let narrowed := pathsForScope selection.1 selection.2 b.folder
  pathIncluded p narrowed.1 narrowed.2 = .ok true

def AllAssured (q : CopyQueue) : Prop := ∀ b ∈ q.backups, ∀ p, b.Selects p → Assured site q b.destination b.since p

def ScopeCovers (d : BackupDestination) (wide scope : Str) : Prop := ∀ p, Asks site d scope p → Asks site d wide p

/-- The job that answers has not begun to read, or covers the scope that was asked for. -/
def AnsweredBy (d : BackupDestination) (scope : Str) (job : CopyJob) : Prop :=
  job.startedAt = none ∨ ScopeCovers site d job.scope scope

def Answered (q : CopyQueue) : CopyEvent → Prop
  | .enqueue id scope broker => ∀ d, site.destination id = some d → AnsweredBy site d scope (enqueue site q d scope broker).1
  | .hostBackup host id broker => ∀ d, site.destination id = some d → copiesAfter host d = true →
      AnsweredBy site d (hostFolderName host) (enqueue site q d (hostFolderName host) broker).1
  | _ => True

/-- **No request is swallowed**: each is answered, and in every state of the run each finished backup is assured. -/
def NothingSwallowed (es : List CopyEvent) : Prop :=
  (∀ pre post, es = pre ++ post → AllAssured site (runs (copyStep site) .empty pre)) ∧
    ∀ pre e post, es = pre ++ e :: post → Answered site (runs (copyStep site) .empty pre) e

/-! ## When a request is answered -/

/-- The job that holds the slot against a request: of a folder copy only its direct job, if there are direct hosts. -/
def holder (q : CopyQueue) (d : BackupDestination) (scope : Str) : Option CopyJob :=
  match activeReplicate q d.id with
  | none => none
  | some active => if isFolderHop active && !(scopedParts site d scope).groups.isEmpty then activeDirect q d.id else some active

def Accepts (broker : Bool) : Prop := site.demoMode = false ∧ broker = true

/-- What a request adds to the table: everything it asks for where the slot is free, the direct half beside a folder
copy. -/
def Adds (q : CopyQueue) (d : BackupDestination) (scope : Str) (broker : Bool) (p : Str) : Prop :=
  Accepts site broker ∧ match activeReplicate q d.id with
    | none => Asks site d scope p
    | some active => isFolderHop active = true ∧ activeDirect q d.id = none ∧ AsksDirect site d scope p

/-- Whoever holds the slot has not begun to read, or covers the scope. -/
def SlotFits (q : CopyQueue) (d : BackupDestination) (scope : Str) : Prop :=
  ∀ job, holder site q d scope = some job → job.status = .pending ∨ ScopeCovers site d job.scope scope

/-- The direct half can be queued: no direct copy of the destination is under way. -/
def FollowupFree (q : CopyQueue) (id : Nat) (broker : Bool) : Prop :=
  ∃ job d, q.job id = some job ∧ job.status ≠ .cancelled ∧ site.destination job.destinationId = some d ∧
    credentialsSaved d = true ∧ activeDirect q d.id = none ∧ Accepts site broker

/-- The events that swallow nothing. -/
def Fits (q : CopyQueue) : CopyEvent → Prop
  | .enqueue id scope _ => ∀ d, site.destination id = some d → credentialsSaved d = true → SlotFits site q d scope
  | .hostBackup host id broker => ∀ d, site.destination id = some d → copiesAfter host d = true →
      SlotFits site q d (hostFolderName host) ∧ ∀ p, FinishedBackup.Selects ⟨d, hostFolderName host, q.clock⟩ p →
        Assured site q d q.clock p ∨ Adds site q d (hostFolderName host) broker p
  | .followup id broker => id ∈ q.due → FollowupFree site q id broker ∨ AllAssured site (q.dropDue id)
  | _ => True

/-! ## What a request adds -/

variable {site} {q q' : CopyQueue} {d : BackupDestination} {scope p : Str} {broker : Bool} {since : Nat}

/-- Rows are added that have not run, and nothing else changes. -/
structure Grows (q q' : CopyQueue) : Prop where
  rows : ∃ more, q'.jobs.rows = q.jobs.rows ++ more ∧ ∀ job ∈ more, job.startedAt = none ∧ job.status ≠ .running
  due : q'.due = q.due
  clock : q'.clock = q.clock
  backups : q'.backups = q.backups

theorem Grows.refl (q : CopyQueue) : Grows q q := ⟨⟨[], (List.append_nil _).symm, fun _ h => nomatch h⟩, rfl, rfl, rfl⟩

theorem grows_add {job : CopyJob} (hstart : job.startedAt = none) (hstatus : job.status ≠ .running) : Grows q (q.add job).2 := by
  refine ⟨⟨[(q.add job).1], rfl, fun row hrow => ?_⟩, rfl, rfl, rfl⟩
  obtain rfl := List.mem_singleton.1 hrow
  exact ⟨hstart, hstatus⟩

theorem grows_create (direct after : Bool) : Grows q (createReplicateJob site q d scope direct after broker).2 := by
  unfold createReplicateJob
  simp only
  split
  · exact grows_add rfl (fun h => CopyStatus.noConfusion h)
  · exact grows_add rfl (fun h => CopyStatus.noConfusion h)

theorem grows_followup : Grows q (enqueueDirectFollowup site q d scope broker).2 := by
  unfold enqueueDirectFollowup
  split
  · exact Grows.refl q
  · split
    · exact Grows.refl q
    · exact grows_create true false

theorem grows_enqueue : Grows q (enqueue site q d scope broker).2 := by
  unfold enqueue
  split
  · exact Grows.refl q
  · simp only
    split
    · split
      · exact grows_followup
      · exact Grows.refl q
    · exact grows_create _ _

theorem grows_startFollowup {id : Nat} : Grows q (startDirectFollowup site q id broker) := by
  unfold startDirectFollowup
  split
  · exact Grows.refl q
  · split
    · exact Grows.refl q
    · split
      · exact Grows.refl q
      · exact grows_followup

theorem Grows.assured (h : Grows q q') (hp : Assured site q d since p) : Assured site q' d since p := by
  obtain ⟨more, hrows, -⟩ := h.rows
  obtain ⟨job, hjob, hcase⟩ := hp
  refine ⟨job, hrows ▸ List.mem_append_left _ hjob, hcase.imp_right fun hf => ?_⟩
  unfold Follows at hf ⊢
  rwa [h.due]

theorem Grows.allAssured (h : Grows q q') (hall : AllAssured site q) : AllAssured site q' := by
  intro b hb p hp
  rw [h.backups] at hb
  exact h.assured (hall b hb p hp)

/-- A new row, and what it assures: its own half, and the direct one where it is to follow. -/
theorem assured_create {d' : BackupDestination} {direct after : Bool} :
    Assured site (createReplicateJob site q d scope direct after broker).2 d' since p ↔ Assured site q d' since p ∨
      Accepts site broker ∧ d.id = d'.id ∧ ((if direct then AsksDirect site d' scope p else AsksHerder site d' scope p) ∨
        after = true ∧ direct = false ∧ AsksDirect site d' scope p) := by
  have hadd : ∀ job : CopyJob, Assured site (q.add job).2 d' since p ↔ Assured site q d' since p ∨
      (ReadsAfter since (q.add job).1 ∧ Copies site d' (q.add job).1 p ∨ Follows site q d' (q.add job).1 p) := by
    intro job
    constructor
    · rintro ⟨row, hrow, hcase⟩
      rcases List.mem_append.1 hrow with hrow | hrow
      · exact .inl ⟨row, hrow, hcase⟩
      · obtain rfl := List.mem_singleton.1 hrow
        exact .inr hcase
    · rintro (⟨row, hrow, hcase⟩ | hcase)
      · exact ⟨row, List.mem_append_left _ hrow, hcase⟩
      · exact ⟨_, List.mem_append_right _ (List.mem_singleton_self _), hcase⟩
  unfold createReplicateJob Accepts
  simp only
  rw [hadd]
  refine or_congr_right ?_
  by_cases hfail : (site.demoMode || !broker) = true
  · -- the row that could not be started copies nothing, and nothing follows it
    rw [if_pos hfail]
    refine iff_of_false ?_ fun h => ?_
    · rintro (⟨hread | ⟨t, ht, -⟩, -⟩ | ⟨-, hafter, -⟩)
      · exact CopyStatus.noConfusion hread
      · cases ht
      · exact Bool.noConfusion hafter
    · rw [h.1.1, h.1.2] at hfail
      exact Bool.noConfusion hfail
  · rw [if_neg hfail]
    rw [Bool.or_eq_true, not_or, Bool.not_eq_true, Bool.not_eq_true, Bool.not_eq_false'] at hfail
    rw [and_iff_right hfail, and_or_left]
    refine or_congr ?_ ?_
    · exact ⟨fun h => ⟨h.2.1, h.2.2.2⟩, fun h => ⟨.inl rfl, h.1, rfl, h.2⟩⟩
    · constructor
      · rintro ⟨hid, hafter, hhop, -, hasks⟩
        refine ⟨hid, hafter, ?_, hasks⟩
        unfold isFolderHop at hhop
        rw [Bool.and_eq_true, Bool.not_eq_true'] at hhop
        exact hhop.2
      · rintro ⟨hid, hafter, rfl, hasks⟩
        exact ⟨hid, hafter, rfl, .inl rfl, hasks⟩

theorem groups_of_asksDirect (h : AsksDirect site d scope p) : (scopedParts site d scope).groups.isEmpty = false := by
  obtain ⟨group, hg, -⟩ := h
  cases hgroups : (scopedParts site d scope).groups with
  | nil =>
    rw [hgroups] at hg
    cases hg
  | cons => rfl

theorem herder_of_asksHerder (h : AsksHerder site d scope p) : (scopedParts site d scope).herder.isEmpty = false := by
  cases hherder : (scopedParts site d scope).herder with
  | nil =>
    unfold AsksHerder pathIncluded at h
    rw [hherder] at h
    split at h
    · cases h
    · split at h
      · cases h
      · split at h <;> cases h
  | cons => rfl

theorem assured_followup (hsaved : credentialsSaved d = true) :
    Assured site (enqueueDirectFollowup site q d scope broker).2 d since p ↔ Assured site q d since p ∨
      Accepts site broker ∧ activeDirect q d.id = none ∧ AsksDirect site d scope p := by
  unfold enqueueDirectFollowup
  rw [hsaved]
  simp only [Bool.not_true, Bool.false_or]
  by_cases hgroups : (scopedParts site d scope).groups.isEmpty = true
  · rw [if_pos hgroups]
    refine (or_iff_left fun h => ?_).symm
    rw [groups_of_asksDirect h.2.2] at hgroups
    exact Bool.noConfusion hgroups
  · rw [if_neg hgroups]
    cases hactive : activeDirect q d.id with
    | some active => exact (or_iff_left fun h => (nomatch h.2.1)).symm
    | none =>
      simp only [assured_create, if_true, true_and]
      exact or_congr_right (and_congr_right fun _ => or_iff_left fun h => Bool.noConfusion h.1)

/-- **What a request adds**, exactly. -/
theorem assured_enqueue (hsaved : credentialsSaved d = true) :
    Assured site (enqueue site q d scope broker).2 d since p ↔ Assured site q d since p ∨ Adds site q d scope broker p := by
  unfold enqueue Adds
  rw [hsaved]
  simp only [Bool.not_true, Bool.false_eq_true, if_false]
  cases hactive : activeReplicate q d.id with
  | some active =>
    simp only
    by_cases hhop : (isFolderHop active && !(scopedParts site d scope).groups.isEmpty) = true
    · rw [if_pos hhop, assured_followup hsaved]
      rw [Bool.and_eq_true] at hhop
      rw [and_iff_right hhop.1]
    · rw [if_neg hhop]
      refine (or_iff_left fun h => hhop ?_).symm
      rw [h.2.1, groups_of_asksDirect h.2.2.2]
      rfl
  | none =>
    simp only
    rw [assured_create]
    refine or_congr_right (and_congr_right fun _ => ?_)
    unfold Asks
    cases hgroups : (scopedParts site d scope).groups.isEmpty with
    | true =>
      have hno : ¬ AsksDirect site d scope p := fun h => by rw [groups_of_asksDirect h] at hgroups; cases hgroups
      simp [hno]
    | false =>
      cases hherder : (scopedParts site d scope).herder.isEmpty with
      | true =>
        have hno : ¬ AsksHerder site d scope p := fun h => by rw [herder_of_asksHerder h] at hherder; cases hherder
        simp [hno]
      | false => simp

/-! ## What every event keeps -/

/-- The start of a row agrees with its state and with the clock. -/
structure CopyJob.Timed (clock : Nat) (job : CopyJob) : Prop where
  pending : job.status = .pending → job.startedAt = none
  running : job.status = .running → job.startedAt ≠ none
  past : ∀ t, job.startedAt = some t → t < clock

structure CopyQueue.Sound (site : CopySite) (q : CopyQueue) : Prop where
  jobs : ∀ job ∈ q.jobs.rows, job.Timed q.clock
  backups : ∀ b ∈ q.backups, b.since < q.clock ∧ site.destination b.destination.id = some b.destination

theorem CopyJob.Timed.tick {clock : Nat} {job : CopyJob} (h : job.Timed clock) : job.Timed (clock + 1) :=
  ⟨h.pending, h.running, fun t ht => Nat.lt_succ_of_lt (h.past t ht)⟩

theorem CopyQueue.Sound.tick (h : q.Sound site) : q.tick.Sound site where
  jobs job hjob := (h.jobs job hjob).tick
  backups b hb := (h.backups b hb).imp_left Nat.lt_succ_of_lt

theorem CopyQueue.Sound.grows (h : q.Sound site) (hg : Grows q q') : q'.Sound site := by
  obtain ⟨more, hrows, hmore⟩ := hg.rows
  refine ⟨fun job hjob => ?_, fun b hb => ?_⟩
  · rw [hg.clock]
    rcases List.mem_append.1 (hrows ▸ hjob) with hjob | hjob
    · exact h.jobs job hjob
    · obtain ⟨hstart, hstatus⟩ := hmore job hjob
      exact ⟨fun _ => hstart, fun hr => absurd hr hstatus, fun t ht => by rw [hstart] at ht; cases ht⟩
  · rw [hg.backups] at hb
    exact hg.clock ▸ h.backups b hb

theorem CopySite.destination_id {id : Nat} (h : site.destination id = some d) : site.destination d.id = some d := by
  have := Table.lookup_key h
  rwa [this]

theorem CopyQueue.Sound.backup (h : q.Sound site) (hd : site.destination d.id = some d) (folder : Str) :
    ({ q with backups := ⟨d, folder, q.clock⟩ :: q.backups } : CopyQueue).tick.Sound site where
  jobs job hjob := (h.jobs job hjob).tick
  backups b hb := by
    rcases List.mem_cons.1 hb with rfl | hb
    · exact ⟨Nat.lt_succ_self _, hd⟩
    · exact (h.backups b hb).imp_left Nat.lt_succ_of_lt

/-- What the start of a task does to its row. -/
theorem startCopy_cases (site : CopySite) (clock : Nat) (job : CopyJob) :
    startCopy site clock job = job ∨
      job.active = true ∧ site.destination job.destinationId = none ∧ startCopy site clock job = { job with status := .failed } ∨
      job.active = true ∧ startCopy site clock job = { job with status := .running, startedAt := some (job.startedAt.getD clock) } := by
  unfold startCopy
  by_cases hactive : job.active = true
  · rw [if_pos hactive]
    cases hd : site.destination job.destinationId with
    | none => exact .inr (.inl ⟨hactive, rfl, rfl⟩)
    | some d => exact .inr (.inr ⟨hactive, rfl⟩)
  · exact .inl (if_neg hactive)

theorem CopyJob.Timed.start {clock : Nat} {job : CopyJob} (h : job.Timed clock) : (startCopy site clock job).Timed (clock + 1) := by
  rcases startCopy_cases site clock job with heq | ⟨-, -, heq⟩ | ⟨-, heq⟩ <;> rw [heq]
  · exact h.tick
  · exact ⟨fun hp => (nomatch hp), fun hr => (nomatch hr), h.tick.past⟩
  · refine ⟨fun hp => (nomatch hp), fun _ hno => (nomatch hno), fun t ht => ?_⟩
    obtain rfl := Option.some.inj ht
    cases hs : job.startedAt with
    | none => exact Nat.lt_succ_self _
    | some t => exact h.tick.past t hs

theorem CopyJob.Timed.finish {clock : Nat} {job : CopyJob} (h : job.Timed clock) (ok : Bool) : (finishCopy ok job).Timed (clock + 1) := by
  unfold finishCopy
  split
  · refine ⟨fun hp => ?_, fun hr => ?_, h.tick.past⟩
    · cases ok <;> exact nomatch hp
    · cases ok <;> exact nomatch hr
  · exact h.tick

theorem CopyQueue.Sound.write (h : q.Sound site) {id : Nat} {f : CopyJob → CopyJob} {hf : ∀ job, (f job).id = job.id}
    (hstep : ∀ job, job.Timed q.clock → (f job).Timed (q.clock + 1)) : (q.write id f hf).tick.Sound site where
  jobs job' hjob' := by
    obtain ⟨job, hjob, rfl⟩ := (Keyed.mem_modify hf).1 hjob'
    split
    · exact hstep job (h.jobs job hjob)
    · exact (h.jobs job hjob).tick
  backups b hb := (h.backups b hb).imp_left Nat.lt_succ_of_lt

theorem grows_afterHostBackup {host : Host} : Grows q (enqueueAfterHostBackup site q host d broker) := by
  unfold enqueueAfterHostBackup
  split
  · exact grows_enqueue
  · exact Grows.refl q

theorem copyStep_sound (h : q.Sound site) (e : CopyEvent) : (copyStep site q e).Sound site := by
  unfold copyStep
  cases e with
  | enqueue id scope broker =>
    simp only [copyEffect]
    cases hd : site.destination id with
    | none => exact h.tick
    | some d => exact (h.grows grows_enqueue).tick
  | hostBackup host id broker =>
    simp only [copyEffect]
    cases hd : site.destination id with
    | none => exact h.tick
    | some d =>
      have hgrow := @grows_afterHostBackup site q d broker host
      simp only
      by_cases hafter : copiesAfter host d = true
      · rw [if_pos hafter, ← hgrow.clock]
        exact (h.grows hgrow).backup (CopySite.destination_id hd) _
      · rw [if_neg hafter]
        exact (h.grows hgrow).tick
  | archive id name broker =>
    simp only [copyEffect]
    split
    · exact h.tick
    · refine (h.grows (grows_add rfl ?_)).tick
      show (if site.demoMode || !broker then CopyStatus.failed else CopyStatus.pending) ≠ .running
      split <;> exact fun hr => nomatch hr
  | start id => exact h.write fun job => CopyJob.Timed.start
  | finish id ok =>
    have hnext := @CopyQueue.Sound.write site q h id (finishCopy ok) (finishCopy_id ok) fun job ht => ht.finish ok
    simp only [copyEffect]
    split
    · exact ⟨hnext.jobs, hnext.backups⟩
    · exact hnext
  | followup id broker =>
    simp only [copyEffect]
    split
    · have hdrop : (q.dropDue id).Sound site := ⟨h.jobs, h.backups⟩
      exact (hdrop.grows grows_startFollowup).tick
    · exact h.tick

/-! ## What stays assured -/

theorem CopyQueue.job_of_mem {job : CopyJob} (h : job ∈ q.jobs.rows) : q.job job.id = some job := by
  unfold CopyQueue.job
  cases hfound : Table.lookup CopyJob.id job.id q.jobs.rows with
  | none => exact absurd (List.find?_eq_none.1 hfound job h) (by simp)
  | some row => rw [q.jobs.eq_of_key (Table.lookup_mem hfound) h (Table.lookup_key hfound)]

theorem CopyQueue.mem_write {id : Nat} {f : CopyJob → CopyJob} {hf : ∀ job, (f job).id = job.id} {job : CopyJob} (h : job ∈ q.jobs.rows) :
    (if job.id = id then f job else job) ∈ (q.write id f hf).jobs.rows :=
  (Keyed.mem_modify hf).2 ⟨job, h, rfl⟩

/-- A task that begins reads what its row asks for, from now on. -/
theorem Assured.start (hsound : q.Sound site) (hd : site.destination d.id = some d) (hsince : since < q.clock) (id : Nat)
    (h : Assured site q d since p) : Assured site (q.write id (startCopy site q.clock) (startCopy_id site q.clock)) d since p := by
  obtain ⟨job, hjob, hcase⟩ := h
  refine ⟨_, CopyQueue.mem_write hjob, ?_⟩
  split
  · rcases startCopy_cases site q.clock job with heq | ⟨-, hnone, -⟩ | ⟨-, heq⟩
    · rwa [heq]
    · -- without its destination: but the row is of `d`
      have hid : job.destinationId = d.id := hcase.elim (fun h => h.2.1) (fun h => h.1)
      rw [hid, hd] at hnone
      cases hnone
    · rw [heq]
      refine hcase.imp (fun ⟨hread, hcopies⟩ => ⟨.inr ⟨_, rfl, ?_⟩, hcopies⟩) fun ⟨hid, hafter, hhop, _, hasks⟩ => ⟨hid, hafter, hhop, .inl rfl, hasks⟩
      rcases hread with hpending | ⟨t, ht, hlt⟩
      · rw [(hsound.jobs job hjob).pending hpending]
        exact hsince
      · rw [ht]
        exact hlt
  · exact hcase

/-- A folder job that ends leaves its direct half to be queued. -/
theorem Assured.finish (id : Nat) (ok : Bool) (h : Assured site q d since p) :
    Assured site (copyEffect site q (.finish id ok)) d since p := by
  obtain ⟨job, hjob, hcase⟩ := h
  have hrows : (copyEffect site q (.finish id ok)).jobs = (q.write id (finishCopy ok) (finishCopy_id ok)).jobs := by
    simp only [copyEffect]
    split <;> rfl
  have hdue : (copyEffect site q (.finish id ok)).due = if (q.job id).any endsWithHalf then id :: q.due else q.due := by
    simp only [copyEffect]
    split <;> rfl
  refine ⟨_, hrows ▸ CopyQueue.mem_write hjob, ?_⟩
  by_cases hends : job.id = id ∧ job.status = .running
  · obtain ⟨rfl, hrun⟩ := hends
    rw [if_pos rfl]
    unfold finishCopy
    rw [if_pos hrun]
    rcases hcase with ⟨hread, hcopies⟩ | ⟨hid, hafter, hhop, -, hasks⟩
    · refine .inl ⟨?_, hcopies⟩
      rcases hread with hpending | hstarted
      · rw [hrun] at hpending
        cases hpending
      · exact .inr hstarted
    · refine .inr ⟨hid, hafter, hhop, .inr ?_, hasks⟩
      have hhalf : (q.job job.id).any endsWithHalf = true := by
        rw [CopyQueue.job_of_mem hjob]
        simp [endsWithHalf, hrun, hafter, hhop]
      rw [hdue, if_pos hhalf]
      exact List.mem_cons_self
  · have hsame : (if job.id = id then finishCopy ok job else job) = job := by
      split
      · exact if_neg fun hrun => hends ⟨‹_›, hrun⟩
      · rfl
    rw [hsame]
    refine hcase.imp_right fun ⟨hid, hafter, hhop, hlive, hasks⟩ => ⟨hid, hafter, hhop, hlive.imp_right fun hin => ?_, hasks⟩
    rw [hdue]
    split
    · exact List.mem_cons_of_mem _ hin
    · exact hin

/-! ## The holder of the slot -/

theorem activeReplicate_mem {id : Nat} {job : CopyJob} (h : activeReplicate q id = some job) : job ∈ q.jobs.rows ∧ job.active = true := by
  have hfound := List.find?_some h
  rw [Bool.and_eq_true, Bool.and_eq_true] at hfound
  exact ⟨List.mem_reverse.1 (List.mem_of_find?_eq_some h), hfound.1.1⟩

theorem activeDirect_mem {id : Nat} {job : CopyJob} (h : activeDirect q id = some job) : job ∈ q.jobs.rows ∧ job.active = true := by
  have hfound := List.find?_some h
  rw [Bool.and_eq_true, Bool.and_eq_true] at hfound
  exact ⟨List.mem_reverse.1 (List.mem_of_find?_eq_some h), hfound.1.1⟩

theorem holder_mem {job : CopyJob} (h : holder site q d scope = some job) : job ∈ q.jobs.rows ∧ job.active = true := by
  unfold holder at h
  split at h
  · cases h
  · rename_i active hactive
    split at h
    · exact activeDirect_mem h
    · obtain rfl := Option.some.inj h
      exact activeReplicate_mem hactive

theorem create_startedAt (direct after : Bool) : (createReplicateJob site q d scope direct after broker).1.startedAt = none := by
  unfold createReplicateJob CopyQueue.add
  simp only
  split <;> rfl

/-- The job that answers: the holder of the slot, and otherwise one that has not begun. -/
theorem enqueue_answer (hsaved : credentialsSaved d = true) :
    match holder site q d scope with
    | some job => (enqueue site q d scope broker).1 = job
    | none => (enqueue site q d scope broker).1.startedAt = none := by
  unfold enqueue holder enqueueDirectFollowup
  rw [hsaved]
  simp only [Bool.not_true, Bool.false_eq_true, if_false, Bool.false_or]
  cases activeReplicate q d.id with
  | none => exact create_startedAt _ _
  | some active =>
    simp only
    by_cases hhop : (isFolderHop active && !(scopedParts site d scope).groups.isEmpty) = true
    · rw [if_pos hhop, if_pos hhop]
      rw [Bool.and_eq_true, Bool.not_eq_true'] at hhop
      rw [hhop.2]
      simp only [Bool.false_eq_true, if_false]
      cases activeDirect q d.id with
      | none => exact create_startedAt _ _
      | some direct => rfl
    · rw [if_neg hhop, if_neg hhop]

/-- A request is answered exactly where the slot fits it. -/
theorem answeredBy_iff (hsound : q.Sound site) (hsaved : credentialsSaved d = true) :
    AnsweredBy site d scope (enqueue site q d scope broker).1 ↔ SlotFits site q d scope := by
  have hanswer := @enqueue_answer site q d scope broker hsaved
  unfold AnsweredBy SlotFits
  cases hholder : holder site q d scope with
  | none =>
    rw [hholder] at hanswer
    exact iff_of_true (.inl hanswer) fun _ h => nomatch h
  | some job =>
    rw [hholder] at hanswer
    simp only at hanswer
    obtain ⟨hmem, hactive⟩ := holder_mem hholder
    have htimed := hsound.jobs job hmem
    have hnew : job.startedAt = none ↔ job.status = .pending := by
      refine ⟨fun hstart => ?_, htimed.pending⟩
      unfold CopyJob.active at hactive
      rw [Bool.or_eq_true, decide_eq_true_eq, decide_eq_true_eq] at hactive
      exact hactive.resolve_right fun hrun => htimed.running hrun hstart
    rw [hanswer, hnew]
    exact ⟨fun h _ heq => Option.some.inj heq ▸ h, fun h => h job rfl⟩

/-! ## One event -/

theorem saved_of_copiesAfter {host : Host} (h : copiesAfter host d = true) : credentialsSaved d = true := by
  unfold copiesAfter at h
  simp only [Bool.and_eq_true] at h
  exact h.1.2

theorem enqueue_holds_iff (hsound : q.Sound site) (hall : AllAssured site q) (id : Nat) (scope : Str) (broker : Bool) :
    AllAssured site (copyStep site q (.enqueue id scope broker)) ∧ Answered site q (.enqueue id scope broker) ↔
      Fits site q (.enqueue id scope broker) := by
  have hkept : AllAssured site (copyStep site q (.enqueue id scope broker)) := by
    show AllAssured site (copyEffect site q (.enqueue id scope broker))
    simp only [copyEffect]
    cases site.destination id with
    | none => exact hall
    | some d => exact grows_enqueue.allAssured hall
  rw [and_iff_right hkept]
  refine forall_congr' fun d => forall_congr' fun _ => ?_
  cases hsaved : credentialsSaved d with
  | true => rw [answeredBy_iff hsound hsaved, forall_prop_of_true rfl]
  | false =>
    refine iff_of_true (.inl ?_) fun h => nomatch h
    unfold enqueue
    rw [hsaved]
    rfl

theorem hostBackup_holds_iff (hsound : q.Sound site) (hall : AllAssured site q) (host : Host) (id : Nat) (broker : Bool) :
    AllAssured site (copyStep site q (.hostBackup host id broker)) ∧ Answered site q (.hostBackup host id broker) ↔
      Fits site q (.hostBackup host id broker) := by
  have hgrown : ∀ d, AllAssured site (enqueueAfterHostBackup site q host d broker) := fun d => grows_afterHostBackup.allAssured hall
  cases hd : site.destination id with
  | none =>
    have hnone : ∀ d, ¬ site.destination id = some d := fun d h => by rw [hd] at h; cases h
    refine iff_of_true ⟨?_, fun d h => absurd h (hnone d)⟩ fun d h => absurd h (hnone d)
    show AllAssured site (copyEffect site q (.hostBackup host id broker))
    simp only [copyEffect, hd]
    exact hall
  | some d =>
    have honly : ∀ {P : BackupDestination → Prop}, (∀ d', site.destination id = some d' → P d') ↔ P d := fun {P} =>
      ⟨fun h => h d hd, fun h d' hd' => Option.some.inj (hd.symm.trans hd') ▸ h⟩
    simp only [Answered, Fits, honly]
    by_cases hafter : copiesAfter host d = true
    · have hsaved := saved_of_copiesAfter hafter
      rw [forall_prop_of_true hafter, forall_prop_of_true hafter, answeredBy_iff hsound hsaved, and_comm]
      refine and_congr_right fun _ => ?_
      have hstep : AllAssured site (copyStep site q (.hostBackup host id broker)) ↔
          ∀ p, FinishedBackup.Selects ⟨d, hostFolderName host, q.clock⟩ p →
            Assured site (enqueue site q d (hostFolderName host) broker).2 d q.clock p := by
        show AllAssured site (copyEffect site q (.hostBackup host id broker)) ↔ _
        simp only [copyEffect, hd, if_pos hafter]
        have hold := hgrown d
        unfold enqueueAfterHostBackup at hold ⊢
        rw [if_pos hafter] at hold ⊢
        refine ⟨fun h => h _ List.mem_cons_self, fun h b hb => ?_⟩
        rcases List.mem_cons.1 hb with rfl | hb
        · exact h
        · exact hold b hb
      rw [hstep]
      exact forall_congr' fun p => forall_congr' fun _ => assured_enqueue hsaved
    · refine iff_of_true ⟨?_, fun h => absurd h hafter⟩ fun h => absurd h hafter
      show AllAssured site (copyEffect site q (.hostBackup host id broker))
      simp only [copyEffect, hd, if_neg hafter]
      exact hgrown d

/-- A follow-up that queues nothing assures nothing. -/
theorem followup_idle {d' : BackupDestination} (h : ¬ (activeDirect q d.id = none ∧ credentialsSaved d = true ∧ Accepts site broker))
    (hp : Assured site (enqueueDirectFollowup site q d scope broker).2 d' since p) : Assured site q d' since p := by
  unfold enqueueDirectFollowup at hp
  split at hp
  · exact hp
  · rename_i hgroups
    rw [Bool.or_eq_true, not_or, Bool.not_eq_true', Bool.not_eq_false] at hgroups
    split at hp
    · exact hp
    · rename_i hactive
      rw [assured_create] at hp
      exact hp.resolve_right fun hmore => h ⟨hactive, hgroups.1, hmore.1⟩

/-- What the follow-up of `id` was to assure, it does. -/
theorem followup_free (hsound : q.Sound site) (hall : AllAssured site q) {id : Nat} (hfree : FollowupFree site q id broker) :
    AllAssured site (startDirectFollowup site (q.dropDue id) id broker) := by
  obtain ⟨job, d, hjob, hstatus, hd, hsaved, hactive, hbroker⟩ := hfree
  have hnext : startDirectFollowup site (q.dropDue id) id broker = (enqueueDirectFollowup site (q.dropDue id) d job.scope broker).2 := by
    have hjob' : (q.dropDue id).job id = some job := hjob
    unfold startDirectFollowup
    rw [hjob']
    simp only
    rw [if_neg hstatus, hd]
  rw [hnext]
  intro b hb p hp
  have hgrow := @grows_followup site (q.dropDue id) d job.scope broker
  have hb' : b ∈ q.backups := hgrow.backups ▸ hb
  obtain ⟨row, hrow, hcase⟩ := hall b hb' p hp
  by_cases hlast : row.id = id ∧ row.active = false
  · obtain ⟨hid, hidle⟩ := hlast
    have hrow' : row = job := Option.some.inj ((CopyQueue.job_of_mem hrow).symm.trans (hid ▸ hjob))
    rcases hcase with hread | ⟨hdest, -, -, -, hasks⟩
    · exact hgrow.assured ⟨row, hrow, .inl hread⟩
    · -- the direct half of the folder job that has ended
      have hsame : d = b.destination := by
        rw [hrow'] at hdest
        rw [hdest, (hsound.backups b hb').2] at hd
        exact (Option.some.inj hd).symm
      rw [← hsame] at hasks ⊢
      exact (assured_followup hsaved).2 (.inr ⟨hbroker, hactive, hrow' ▸ hasks⟩)
  · refine hgrow.assured ⟨row, hrow, hcase.imp_right fun ⟨hdest, hafter, hhop, hlive, hasks⟩ => ⟨hdest, hafter, hhop, ?_, hasks⟩⟩
    rcases hlive with hlive | hdue
    · exact .inl hlive
    · by_cases hactive' : row.active = true
      · exact .inl hactive'
      · refine .inr (List.mem_filter.2 ⟨hdue, ?_⟩)
        rw [bne_iff_ne]
        exact fun hid => hlast ⟨hid, Bool.eq_false_iff.2 hactive'⟩

theorem followup_holds_iff (hsound : q.Sound site) (hall : AllAssured site q) (id : Nat) (broker : Bool) :
    AllAssured site (copyStep site q (.followup id broker)) ∧ Answered site q (.followup id broker) ↔ Fits site q (.followup id broker) := by
  simp only [Answered, Fits, and_true]
  show AllAssured site (copyEffect site q (.followup id broker)) ↔ _
  simp only [copyEffect]
  by_cases hdue : id ∈ q.due
  · rw [if_pos hdue, forall_prop_of_true hdue]
    constructor
    · intro h
      by_cases hfree : FollowupFree site q id broker
      · exact .inl hfree
      · refine .inr fun b hb p hp => ?_
        have hgrow := @grows_startFollowup site (q.dropDue id) broker id
        have hkept := h b (hgrow.backups ▸ hb) p hp
        unfold startDirectFollowup at hkept
        split at hkept
        · exact hkept
        · rename_i job hjob
          split at hkept
          · exact hkept
          · rename_i hstatus
            split at hkept
            · exact hkept
            · rename_i d hd
              exact followup_idle (fun h => hfree ⟨job, d, hjob, hstatus, hd, h.2.1, h.1, h.2.2⟩) hkept
    · rintro (hfree | hrest)
      · exact followup_free hsound hall hfree
      · exact grows_startFollowup.allAssured hrest
  · rw [if_neg hdue]
    exact iff_of_true hall fun h => absurd h hdue

/-- **One event** keeps every finished backup assured and answers its request exactly when it fits. -/
theorem copyStep_holds_iff (hsound : q.Sound site) (hall : AllAssured site q) (e : CopyEvent) :
    AllAssured site (copyStep site q e) ∧ Answered site q e ↔ Fits site q e := by
  cases e with
  | enqueue id scope broker => exact enqueue_holds_iff hsound hall id scope broker
  | hostBackup host id broker => exact hostBackup_holds_iff hsound hall host id broker
  | archive id name broker =>
    refine iff_of_true ⟨?_, trivial⟩ trivial
    show AllAssured site (copyEffect site q (.archive id name broker))
    simp only [copyEffect]
    split
    · exact hall
    · refine (grows_add rfl ?_).allAssured hall
      show (if site.demoMode || !broker then CopyStatus.failed else CopyStatus.pending) ≠ .running
      split <;> exact fun hr => nomatch hr
  | start id =>
    exact iff_of_true ⟨fun b hb p hp => (hall b hb p hp).start hsound (hsound.backups b hb).2 (hsound.backups b hb).1 id, trivial⟩ trivial
  | finish id ok =>
    refine iff_of_true ⟨fun b hb p hp => (hall b ?_ p hp).finish id ok, trivial⟩ trivial
    have hsame : (copyEffect site q (.finish id ok)).backups = q.backups := by
      simp only [copyEffect]
      split <;> rfl
    exact hsame ▸ hb
  | followup id broker => exact followup_holds_iff hsound hall id broker

/-- **When everything is over**, each finished backup has been copied by a job that began after it. -/
theorem AllAssured.copied (hall : AllAssured site q) (hidle : ∀ job ∈ q.jobs.rows, job.active = false) (hdue : q.due = [])
    {b : FinishedBackup} (hb : b ∈ q.backups) (hp : b.Selects p) :
    ∃ job ∈ q.jobs.rows, Copies site b.destination job p ∧ ∃ t, job.startedAt = some t ∧ b.since < t := by
  obtain ⟨job, hjob, hcase⟩ := hall b hb p hp
  have hover := hidle job hjob
  rcases hcase with ⟨hread, hcopies⟩ | ⟨-, -, -, hlive, -⟩
  · refine ⟨job, hjob, hcopies, hread.resolve_left fun hpending => ?_⟩
    unfold CopyJob.active at hover
    rw [hpending] at hover
    cases hover
  · rw [hover, hdue] at hlive
    exact absurd hlive (by simp)

theorem CopyQueue.empty_sound : CopyQueue.empty.Sound site := ⟨fun _ h => (nomatch h), fun _ h => (nomatch h)⟩

end requests

/-- **No copy request is swallowed** in exactly those runs whose every event fits: the slot is free, or held by a job
that has not begun and asks for as much. -/
theorem nothing_swallowed_iff (site : CopySite) (es : List CopyEvent) :
    NothingSwallowed site es ↔ Guarded (copyStep site) (Fits site) .empty es :=
  @runs_hold_iff _ _ (copyStep site) (Fits site) (Answered site) (CopyQueue.Sound site) (AllAssured site) .empty
    (fun _ e hs => copyStep_sound hs e) (fun _ e hs hall => copyStep_holds_iff hs hall e) CopyQueue.empty_sound
    (fun _ h => (nomatch h)) es

/-- Two hosts' folders on one drive that follows host backups. -/
def twoFolders : CopySite where
  hosts := []
  directTargets := fun _ => []
  destinations := ⟨[⟨1, lit "drive", true, true, lit "token", [lit "web", lit "nas"], []⟩], List.nodup_singleton _⟩
  demoMode := false

def folderHost (name : Str) : Host := ⟨name, none, none, ⟨[], []⟩, [], false, true⟩

/-- The backup of `nas` ends while the copy of `web` reads: it is answered with that copy. -/
theorem request_goes_to_running_copy :
    ¬ NothingSwallowed twoFolders [.hostBackup (folderHost (lit "web")) 1 true, .start 1, .hostBackup (folderHost (lit "nas")) 1 true] := by
  rintro ⟨-, hanswered⟩
  have hnas := hanswered [.hostBackup (folderHost (lit "web")) 1 true, .start 1] _ [] rfl _ rfl rfl
  rcases hnas with hnew | hcovers
  · cases hnew
  · rcases hcovers (lit "nas") (.inl rfl) with hasks | ⟨_, hg, -⟩
    · cases hasks
    · cases hg

end PiHerder.Backup
