import PiHerder.Lib.Constraints
import PiHerder.Lib.Datetime

/-!
# The tables of a config archive

The rows that a herder archive carries, with their foreign keys, unique columns and datetime columns (`models.py`). A row
is what it reads in every column, and a column its table does not have reads null; `Column.other` stands for the columns
that neither the restore nor a constraint asks about.

The tables are made by `metadata.create_all`, with every foreign key of the models. A database that is older than
migrations 036 and 037 has its port annotations and passkeys from them instead, without foreign keys (`Schema`).
-/
namespace PiHerder.Config
open Lib Lib.Str

/-! ## Columns and values -/

inductive DateColumn
  | createdAt | updatedAt | startedAt | finishedAt | dismissedAt | resolvedAt | readAt | usedAt | expiresAt | lastUsedAt
  | lastSuccessAt | disabledAt | totpConfirmedAt | lastSeen | lastBackupAt | lastOsCheckAt | lastContainerCheckAt
  | dockerInventoryAt | lastLoginAt | hostFactsAt | hostDepsCheckedAt | deployedAt | revokedAt | lastPolledAt
  | lastDeployedAt | lastValidatedAt | lockedAt | lastCheckedAt | notBefore | notAfter | lastPulledAt
  | lastRenewRequestedAt | lastEdgeDeployAt | lastVerifyAt | lastSyncedAt | lastRunAt | lastSeenAt | firstSeenAt
deriving DecidableEq, Repr

inductive Column
  | id | email | hashedPassword | userId | createdByUserId | lockedByUserId | serverId | apiTokenId | templateId
  | integrationId | sourceIntegrationId | certificateId | targetServerId | backendServerId | stackDeploymentId
  | fromServerId | toServerId | visualStackId | annotationId | nmapDeviceId | jobId | scheduleId | linkedServerId
  | lastRunId | deviceId | runId | lastJobId | credentialId | tokenHash | endpoint | slug | composeProject | fqdn | key
  | status | details | celeryTaskId | fingerprint | publicKey | privateKeyEncrypted | action
  | date (d : DateColumn)
  | other (name : Str)
deriving DecidableEq, Repr

inductive Value
  | null
  | bool (b : Bool)
  | int (n : Int)
  /-- A float, as its shortest text. -/
  | real (text : Str)
  | text (s : Str)
  | datetime (d : Datetime)
deriving DecidableEq, Repr

/-- `bool(v)`. -/
def Value.truthy : Value → Bool
  | null => false
  | bool b => b
  | int n => n != 0
  | real s => s != lit "0.0" && s != lit "-0.0"
  | text s => !s.isEmpty
  | datetime _ => true

abbrev Row : Type := Column → Value

/-! ## Tables -/

inductive TableName
  | user | totpBackupCode | trustedDevice | webAuthnCredential | apiToken | server | job | userFavourite | integration
  | integrationBinding | nmapScanSchedule | nmapScanRun | nmapDevice | nmapScriptResult | managedCertificate
  | certificateTarget | serviceTemplate | stackDeployment | composeProjectMeta | serviceDnsRecord | runtimeEdge
  | topologyCategory | topologyTag | visualServiceStack | containerAnnotations | containerAnnotationTag | portAnnotations
  | dockerVersion | pushVapidConfig | pushSubscription | pushPreference | notification | auditLog
deriving DecidableEq, Repr

/-- Which of the two late tables have their foreign keys. -/
structure Schema where
  webAuthnRefs : Bool
  portAnnotationRefs : Bool
deriving DecidableEq, Repr

namespace Schema

/-- The schema of the models. -/
def created : Schema := ⟨true, true⟩

/-- After an upgrade through migrations 036 and 037. -/
def upgraded : Schema := ⟨false, false⟩

end Schema

namespace TableName

/-- `foreign_key=`. -/
def refs (S : Schema) : TableName → List (Column × TableName)
  | user | server | integration | serviceTemplate | topologyCategory | topologyTag | pushVapidConfig => []
  | totpBackupCode | trustedDevice | pushSubscription | pushPreference => [(.userId, user)]
  | webAuthnCredential => if S.webAuthnRefs then [(.userId, user)] else []
  | apiToken => [(.createdByUserId, user)]
  | job | dockerVersion | visualServiceStack => [(.serverId, server)]
  | userFavourite | notification => [(.userId, user), (.serverId, server)]
  | integrationBinding => [(.integrationId, integration), (.serverId, server)]
  | nmapScanSchedule => [(.integrationId, integration)]
  | nmapScanRun => [(.integrationId, integration), (.jobId, job), (.scheduleId, nmapScanSchedule)]
  | nmapDevice => [(.integrationId, integration), (.linkedServerId, server), (.lastRunId, nmapScanRun)]
  | nmapScriptResult => [(.deviceId, nmapDevice), (.runId, nmapScanRun)]
  | managedCertificate => [(.sourceIntegrationId, integration)]
  | certificateTarget => [(.certificateId, managedCertificate), (.serverId, server)]
  | stackDeployment => [(.serverId, server), (.templateId, serviceTemplate)]
  | composeProjectMeta => [(.serverId, server), (.lockedByUserId, user)]
  | serviceDnsRecord => [(.targetServerId, server), (.backendServerId, server), (.stackDeploymentId, stackDeployment),
      (.certificateId, managedCertificate)]
  | runtimeEdge => [(.fromServerId, server), (.toServerId, server), (.createdByUserId, user)]
  | containerAnnotations => [(.serverId, server), (.visualStackId, visualServiceStack)]
  | containerAnnotationTag => [(.annotationId, containerAnnotations)]
  | portAnnotations =>
      if S.portAnnotationRefs then [(.serverId, server), (.nmapDeviceId, nmapDevice), (.createdByUserId, user)] else []
  | auditLog => [(.userId, user), (.serverId, server), (.apiTokenId, apiToken)]

/-- `unique=True`, and `UniqueConstraint`. -/
def uniques : TableName → List (List Column)
  | user => [[.email]]
  | webAuthnCredential => [[.credentialId]]
  | apiToken => [[.tokenHash]]
  | serviceTemplate => [[.slug]]
  | composeProjectMeta => [[.serverId, .composeProject]]
  | serviceDnsRecord => [[.fqdn]]
  | topologyCategory | topologyTag => [[.key]]
  | pushSubscription => [[.endpoint]]
  | pushPreference => [[.userId]]
  | _ => []

/-- The columns of type `datetime`. -/
def dates : TableName → List DateColumn
  | user => [.createdAt, .lastLoginAt, .updatedAt, .totpConfirmedAt]
  | totpBackupCode => [.usedAt, .createdAt]
  | trustedDevice => [.createdAt, .lastUsedAt, .expiresAt]
  | webAuthnCredential => [.createdAt, .lastUsedAt]
  | apiToken => [.createdAt, .lastUsedAt, .revokedAt, .expiresAt]
  | server => [.hostFactsAt, .lastSeen, .createdAt, .lastBackupAt, .lastOsCheckAt, .lastContainerCheckAt,
      .dockerInventoryAt, .hostDepsCheckedAt]
  | job | nmapScanRun => [.createdAt, .startedAt, .finishedAt]
  | userFavourite | nmapScriptResult | pushVapidConfig => [.createdAt]
  | integration => [.lastPolledAt, .createdAt, .updatedAt]
  | integrationBinding => [.lastCheckedAt, .createdAt, .updatedAt]
  | nmapScanSchedule => [.lastRunAt, .createdAt, .updatedAt]
  | nmapDevice => [.lastSeenAt, .firstSeenAt, .createdAt, .updatedAt]
  | managedCertificate => [.notBefore, .notAfter, .lastPulledAt, .lastRenewRequestedAt, .lastEdgeDeployAt, .createdAt,
      .updatedAt]
  | certificateTarget => [.lastDeployedAt, .lastVerifyAt, .createdAt, .updatedAt]
  | stackDeployment => [.lastDeployedAt, .lastValidatedAt, .createdAt, .updatedAt]
  | composeProjectMeta => [.lockedAt, .createdAt, .updatedAt]
  | serviceDnsRecord => [.lastSyncedAt, .createdAt, .updatedAt]
  | runtimeEdge => [.dismissedAt, .createdAt, .updatedAt]
  | serviceTemplate | topologyCategory | topologyTag | visualServiceStack | containerAnnotations | portAnnotations =>
      [.createdAt, .updatedAt]
  | containerAnnotationTag => []
  | dockerVersion => [.createdAt, .deployedAt]
  | pushSubscription => [.createdAt, .lastSuccessAt, .disabledAt]
  | pushPreference => [.updatedAt]
  | notification => [.createdAt, .updatedAt, .dismissedAt, .resolvedAt, .readAt]
  | auditLog => [.startedAt, .finishedAt]

/-- The columns that are never null, as far as the restore asks about them. -/
def required : TableName → List Column
  | user => [.email]
  | pushSubscription => [.userId, .endpoint]
  | pushPreference => [.userId]
  | _ => []

end TableName

def constraints (S : Schema) : Constraints TableName Column Value := ⟨.id, .null, TableName.refs S, TableName.uniques⟩

abbrev Db : Type := Store TableName Column Value

/-- The values of a row have the types of its columns. -/
structure Typed (t : TableName) (r : Row) : Prop where
  /-- Ids are from a sequence. -/
  id : ∃ n : Nat, r .id = .int (n + 1)
  date : ∀ d, r (.date d) = .null ∨ d ∈ t.dates ∧ ∃ v, r (.date d) = .datetime v
  plain : ∀ c v, (∀ d, c ≠ .date d) → r c ≠ .datetime v
  notNull : ∀ c ∈ t.required, r c ≠ .null

/-- A database as its constraints and column types leave it. -/
structure Consistent (S : Schema) (db : Db) : Prop where
  whole : db.Whole (constraints S)
  typed : ∀ t, ∀ r ∈ db.rows t, Typed t r

/-! ## What a statement stores -/

/-- The timestamp that Postgres reads. -/
def Value.asTimestamp : Value → Option Value
  | null => some null
  | datetime d => some (datetime d)
  | text s => (Datetime.fromisoformat s).map datetime
  | _ => none

/-- The row of a statement; a text that is no timestamp is refused in a timestamp column. -/
def stored (t : TableName) (data : Row) : Option Row :=
  if t.dates.all fun d => (data (.date d)).asTimestamp.isSome then
    some fun
      | .date d => (data (.date d)).asTimestamp.getD .null
      | c => data c
  else none

theorem stored_plain {t : TableName} {data row : Row} (h : stored t data = some row) {c : Column} (hc : ∀ d, c ≠ .date d) :
    row c = data c := by
  unfold stored at h
  split at h
  · obtain rfl := Option.some.inj h
    cases c with
    | date d => exact absurd rfl (hc d)
    | _ => rfl
  · exact nomatch h

/-- Write a row under its id. -/
def save (S : Schema) (t : TableName) (data : Row) (db : Db) : Option Db :=
  (stored t data).bind fun row => db.write (constraints S) t row

/-- Insert a row without an id. -/
def insertNew (S : Schema) (t : TableName) (data : Row) (db : Db) : Option Db :=
  (stored t data).bind fun row => db.insertSerial (constraints S) (fun n => .int n) t row

/-! ## Rows written out -/

/-- A row with these values, and nulls. -/
def rowOf (cells : List (Column × Value)) : Row := fun c => ((cells.find? fun cell => decide (cell.1 = c)).map Prod.snd).getD .null

/-- The value may stand in the column. -/
def fits (t : TableName) : Column × Value → Bool
  | (.date d, .datetime _) => decide (d ∈ t.dates)
  | (.date _, v) => decide (v = .null)
  | (_, .datetime _) => false
  | _ => true

theorem typed_rowOf {t : TableName} {cells : List (Column × Value)} (hfits : cells.all (fits t) = true)
    (hid : ∃ n : Nat, rowOf cells .id = .int (n + 1)) (hnotNull : ∀ c ∈ t.required, rowOf cells c ≠ .null) :
    Typed t (rowOf cells) := by
  have hcell : ∀ c, rowOf cells c = .null ∨ fits t (c, rowOf cells c) = true := by
    intro c
    unfold rowOf
    cases hfind : cells.find? fun cell => decide (cell.1 = c) with
    | none => exact Or.inl rfl
    | some cell =>
      have hc : cell.1 = c := by simpa using List.find?_some hfind
      refine Or.inr ?_
      subst hc
      exact List.all_eq_true.1 hfits cell (List.mem_of_find?_eq_some hfind)
  refine ⟨hid, fun d => ?_, fun c v hplain hv => ?_, hnotNull⟩
  · rcases hcell (.date d) with h | h
    · exact Or.inl h
    · cases hv : rowOf cells (.date d) with
      | null => exact Or.inl rfl
      | datetime v =>
        rw [hv] at h
        exact Or.inr ⟨of_decide_eq_true h, v, rfl⟩
      | _ =>
        rw [hv] at h
        exact absurd h (by simp [fits])
  · rcases hcell c with h | h
    · rw [h] at hv
      exact nomatch hv
    · rw [hv] at h
      cases c with
      | date d => exact hplain d rfl
      | _ => exact absurd h (by simp [fits])

end PiHerder.Config
