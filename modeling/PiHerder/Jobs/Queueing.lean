import PiHerder.Jobs.Audit
import PiHerder.Jobs.StackLane
import PiHerder.Lib.Format

/-!
# A job and its row of the log

| here | there |
| --- | --- |
| `createQueuedJobWithAudit` | `_create_queued_job_with_audit` (service.py:1739) |
| `Queued` | the enqueue functions of stacks, templates and Move, with the text each passes |
| `Atomic` | the row and its audit row, or neither |

`intField` is what Python makes of a replacement field that asks more of the id than its digits: an attribute, an index, a
conversion, a specification. The actor only fills columns. Outside the demo the audit row holds the text as it is.
-/
namespace PiHerder.Jobs
open Lib Lib.Str Lib.Format

/-! ## The text -/

/-- `audit_details.format(job_id=job.id)`: a field under another name is a `KeyError`, or an `IndexError`. -/
def jobField (intField : Nat → Field → Option Str) (jid : Nat) (f : Field) : Option Str :=
  if f.name.takeWhile (fun c => c != '.' && c != '[') ≠ lit "job_id" then none
  else if f = ⟨lit "job_id", none, []⟩ then some (Str.ofNat jid)
  else intField jid f

inductive Queued
  | stackCheck (path : Str)
  | stackDeploy (path : Str) (composeFiles : List Str)
  | stackLifecycle (path act : Str) (removeVolumes : Bool)
  | stackRemove (path : Str)
  | templateDeploy (slug : Str)
  | templateRedeploy (deploymentId : Nat)
  | templateDriftCheck (deploymentId : Nat)
  | serviceMigrate (name destName : Str)
  | serviceMigrateUndo (project sourceName : Str)
  | serviceMigrateDestRecover (project sourceName : Str)
deriving DecidableEq, Repr

/-- `",".join(files)`. -/
def joinFiles (files : List Str) : Str := List.intercalate [','] files

/-- What follows `Job #{job_id}` in the text of each. -/
def Queued.label : Queued → Str
  | .stackCheck path => lit " · check " ++ projectBasename path
  | .stackDeploy path files =>
    lit " · deploy " ++ projectBasename path ++ (if files = [] then [] else lit " · -f " ++ joinFiles files)
  | .stackLifecycle path act removeVolumes =>
    lit " · " ++ (if removeVolumes ∧ act = lit "down" then lit "down -v" else act) ++ lit " · " ++ projectBasename path
  | .stackRemove path => lit " · delete project · " ++ projectBasename path
  | .templateDeploy slug => lit " · template deploy " ++ slug
  | .templateRedeploy deploymentId => lit " · template redeploy deployment=" ++ Str.ofNat deploymentId
  | .templateDriftCheck deploymentId => lit " · template drift check deployment=" ++ Str.ofNat deploymentId
  | .serviceMigrate name destName => lit " · migrate " ++ name ++ lit " → " ++ destName
  | .serviceMigrateUndo project sourceName => lit " · undo " ++ project ++ lit " back to " ++ sourceName
  | .serviceMigrateDestRecover project sourceName => lit " · dest-up recover " ++ project ++ lit " back to " ++ sourceName

/-- The f-string has put the names in before `format` reads it. -/
def Queued.auditDetails (q : Queued) : Str := lit "Job #{job_id}" ++ q.label

/-! ## Queueing -/

/-- Whether each of the two commits goes through. -/
structure Commits where
  job : Bool
  audit : Bool
deriving DecidableEq, Repr

/-- The id it returns, or `none` when it raises, and what it leaves. -/
def createQueuedJobWithAudit (intField : Nat → Field → Option Str) (commits : Commits) (now : Nat) (row : NewRow)
    (auditDetails : Option Str) (s : Ledger) : Option Nat × Ledger :=
  if commits.job = false then (none, s)
  else
    let jid := s.store.nextId
    let queued := { s with store := s.store.create now row.serverId row.jobType row.details }
    let details := match auditDetails with
      | none => some (needle jid ++ lit " started")
      | some text => format (jobField intField jid) text
    match details with
    | none => (none, queued)
    | some details =>
      if commits.audit = false then (none, queued)
      else (some jid, { queued with audits := s.audits ++ [⟨jid, row.jobType, row.serverId, .running, details⟩] })

/-- The text is about this job, not about one whose id goes on. -/
def Names (jid : Nat) (details : Str) : Prop := ∃ rest, details = needle jid ++ rest ∧ ∀ c ∈ rest.head?, isDigit c = false

/-- **Queued whole or not at all.** -/
def Atomic (s : Ledger) (out : Option Nat × Ledger) : Prop :=
  match out.1 with
  | none => out.2.store.jobs = s.store.jobs
  | some jid =>
    (∃ j ∈ out.2.store.jobs, j.id = jid ∧ j.status = .pending) ∧
      ∃ a ∈ out.2.audits, a.jobId = jid ∧ a.status = .running ∧ Names jid a.details

/-- Every brace of the label is doubled, or part of a field that the id can fill. -/
def Queued.Fills (intField : Nat → Field → Option Str) (jid : Nat) (q : Queued) : Prop :=
  ∀ t ∈ (scanner.scan q.label).1, (t.render (jobField intField jid)).isSome = true

section
variable (intField : Nat → Field → Option Str) (q : Queued)

theorem jobField_self (jid : Nat) : jobField intField jid ⟨lit "job_id", none, []⟩ = some (Str.ofNat jid) := by
  unfold jobField
  rw [if_neg (by decide), if_pos rfl]

/-- `Job #` and the id, before whatever the label makes. -/
theorem format_auditDetails (jid : Nat) :
    format (jobField intField jid) q.auditDetails = (format (jobField intField jid) q.label).map (needle jid ++ ·) := by
  have hplain : ∀ c ∈ lit "job_id", c ∉ ['{', '}', ':', '!', '['] := fun c hc =>
    of_decide_eq_true (List.all_eq_true.1 (show (lit "job_id").all (fun c => decide (c ∉ ['{', '}', ':', '!', '['])) = true from rfl) c hc)
  have hfield := @format_field (jobField intField jid) (lit "job_id") hplain q.label
  have htext : q.auditDetails = lit "Job #" ++ '{' :: (lit "job_id" ++ '}' :: q.label) := rfl
  rw [htext, format_literal (by decide) (by decide), hfield, jobField_self]
  cases format (jobField intField jid) q.label with
  | none => rfl
  | some x => simp [needle]

theorem label_head : ∃ rest, q.label = ' ' :: rest := by
  cases q <;> exact ⟨_, rfl⟩

theorem names_of_format {jid : Nat} {details : Str} (h : format (jobField intField jid) q.auditDetails = some details) : Names jid details := by
  obtain ⟨rest, hrest⟩ := label_head q
  rw [format_auditDetails, hrest, format_char (by decide) (by decide)] at h
  obtain ⟨y, hy, rfl⟩ := Option.map_eq_some_iff.1 h
  obtain ⟨x, hx, rfl⟩ := Option.map_eq_some_iff.1 hy
  refine ⟨' ' :: x, rfl, fun c hc => ?_⟩
  obtain rfl := Option.some.inj hc
  decide

theorem fills_iff (jid : Nat) : q.Fills intField jid ↔ (format (jobField intField jid) q.auditDetails).isSome = true := by
  rw [format_auditDetails, Option.isSome_map]
  exact format_isSome.symm

/-- What is left when the job's row went in and the call raises. -/
theorem not_atomic_pending {s : Ledger} {now : Nat} {row : NewRow} {audits : List AuditRow} :
    ¬ Atomic s (none, ⟨s.store.create now row.serverId row.jobType row.details, audits⟩) := by
  intro h
  have hlen := congrArg List.length (show s.store.jobs ++ [_] = s.store.jobs from h)
  simp at hlen

/-- The row is in the table when the text turns out not to format. -/
theorem createQueuedJobWithAudit_unformatted {commits : Commits} {text : Str} {s : Ledger} (hjob : commits.job = true)
    (hformat : format (jobField intField s.store.nextId) text = none) (now : Nat) (row : NewRow) :
    createQueuedJobWithAudit intField commits now row (some text) s =
      (none, ⟨s.store.create now row.serverId row.jobType row.details, s.audits⟩) := by
  unfold createQueuedJobWithAudit
  rw [if_neg (by simp [hjob])]
  simp only [hformat]

theorem createQueuedJobWithAudit_formatted {commits : Commits} {text details : Str} {s : Ledger} (hjob : commits.job = true)
    (hformat : format (jobField intField s.store.nextId) text = some details) (now : Nat) (row : NewRow) :
    createQueuedJobWithAudit intField commits now row (some text) s =
      if commits.audit = false then (none, ⟨s.store.create now row.serverId row.jobType row.details, s.audits⟩)
      else (some s.store.nextId, ⟨s.store.create now row.serverId row.jobType row.details,
        s.audits ++ [⟨s.store.nextId, row.jobType, row.serverId, .running, details⟩]⟩) := by
  unfold createQueuedJobWithAudit
  rw [if_neg (by simp [hjob])]
  simp only [hformat]

/-- **A queued job stands alone only when its text does not format**, or the log cannot be written. -/
theorem queueing_atomic_iff (commits : Commits) (now : Nat) (row : NewRow) (s : Ledger) :
    Atomic s (createQueuedJobWithAudit intField commits now row (some q.auditDetails) s) ↔
      commits.job = false ∨ (q.Fills intField s.store.nextId ∧ commits.audit = true) := by
  rw [fills_iff]
  by_cases hjob : commits.job = false
  · unfold createQueuedJobWithAudit
    rw [if_pos hjob]
    exact ⟨fun _ => Or.inl hjob, fun _ => rfl⟩
  · have hjob' : commits.job = true := by simpa using hjob
    cases hdetails : format (jobField intField s.store.nextId) q.auditDetails with
    | none =>
      rw [createQueuedJobWithAudit_unformatted intField hjob' hdetails]
      refine ⟨fun h => absurd h not_atomic_pending, ?_⟩
      rintro (h | ⟨h, -⟩)
      · exact absurd h hjob
      · cases h
    | some details =>
      rw [createQueuedJobWithAudit_formatted intField hjob' hdetails]
      by_cases haudit : commits.audit = false
      · rw [if_pos haudit]
        refine ⟨fun h => absurd h not_atomic_pending, ?_⟩
        rintro (h | ⟨-, h⟩)
        · exact absurd h hjob
        · rw [haudit] at h
          cases h
      · rw [if_neg haudit]
        refine ⟨fun _ => Or.inr ⟨rfl, by simpa using haudit⟩, fun _ => ⟨?_, ?_⟩⟩
        · exact ⟨_, List.mem_append_right _ (List.mem_singleton_self _), rfl, rfl⟩
        · exact ⟨_, List.mem_append_right _ (List.mem_singleton_self _), rfl, rfl, names_of_format intField q hdetails⟩

/-- Move takes the project `a{b}`, and queueing it leaves a pending row. -/
theorem braced_project_left_pending :
    Migrate.composeProjectName (lit "a{b}") = .ok (lit "a{b}") ∧
      ¬ Atomic Ledger.empty (createQueuedJobWithAudit (fun _ _ => none) ⟨true, true⟩ 0 ⟨some 1, .serviceMigrate, { destServerId := some 2 }⟩
        (some (Queued.serviceMigrate (lit "a{b}") (lit "pi")).auditDetails) Ledger.empty) := by
  refine ⟨by decide, ?_⟩
  rw [createQueuedJobWithAudit_unformatted _ rfl (by decide +kernel)]
  exact not_atomic_pending

end
end PiHerder.Jobs
