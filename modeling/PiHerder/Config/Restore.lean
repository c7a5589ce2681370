import Mathlib
import PiHerder.Config.Model
import PiHerder.Lib.JsonValue

/-!
# Writing and restoring a config archive

The JSON payload of a herder archive, and its restore (`services/herder_backup.py`).

| here | there |
| --- | --- |
| `buildBackupPayload`, `newest` | `_build_backup_payload` (593–692), the `_snapshot_…` functions (206–246, 480–556) |
| `jobForRestore` | `_jobs_for_restore` (511–542) |
| `parseDt`, `cleanRow` | `_parse_dt`, `_clean_row` (873–911) |
| `upsertRow`, `upsertUser` | `_upsert_rows`, `_upsert_users` (914–983) |
| `upsertPushVapid` … `appendAudit` | `_upsert_push_vapid` … `_append_audit` (986–1101) |
| `restoreHerderBackup` | `restore_herder_backup` on a JSON archive, not a dry run (1337–1511) |

A session flushes before each look-up, so a statement takes effect at once here; one that the database refuses raises, and
the transaction is rolled back (`none`). `json.dumps(default=str)` writes a datetime as its text and everything else as it
reads back. `loads` and `dumps` are the JSON functions on the details of a job. A tie in an `ORDER BY` goes by the order of
the table. The settings and the files of an archive are not modelled.
-/
namespace PiHerder.Config
open Lib Lib.Str

/-! ## The archive -/

/-- The rows of the archive, by table. -/
abbrev Payload : Type := TableName → List Row

def jsonValue : Value → Value
  | .datetime d => .text d.str
  | v => v

/-- `_model_to_dict`, as `json.loads` gives it back. -/
def jsonRow (r : Row) : Row := fun c => jsonValue (r c)

def idNumber (r : Row) : Int :=
  match r .id with
  | .int n => n
  | _ => 0

def stampOf (d : DateColumn) (r : Row) : Nat :=
  match r (.date d) with
  | .datetime v => v.stamp
  | _ => 0

/-- `ORDER BY key DESC LIMIT n`. -/
def newest {α : Type} [LE α] [DecidableLE α] (key : Row → α) (n : Nat) (rows : List Row) : List Row :=
  (rows.insertionSort fun a b => key b ≤ key a).take n

def jobSnapshotLimit : Nat := 50000

def nmapRunSnapshotLimit : Nat := 10000

def auditSnapshotLimit : Nat := 50000

def notificationSnapshotLimit : Nat := 50000

structure Options where
  includeAudit : Bool
  configOnly : Bool
  sinceDays : Nat

/-- Rows from the last days; 0 days is no bound. -/
def since (ago : Nat → Datetime) (days : Nat) (rows : List Row) : List Row :=
  if days = 0 then rows else rows.filter fun r => decide ((ago days).stamp ≤ stampOf .startedAt r)

/-- The rows that the archive keeps of a table. -/
def snapshot (ago : Nat → Datetime) (o : Options) (db : Db) : TableName → List Row
  | .job => (newest idNumber jobSnapshotLimit (db.rows .job)).reverse
  | .nmapScanRun => (newest idNumber nmapRunSnapshotLimit (db.rows .nmapScanRun)).reverse
  | .notification => newest (stampOf .createdAt) notificationSnapshotLimit (db.rows .notification)
  | .auditLog =>
      if o.includeAudit then
        newest (stampOf .startedAt) auditSnapshotLimit
          (since ago (if o.configOnly then 7 else o.sinceDays) (db.rows .auditLog))
      else []
  | t => db.rows t

def buildBackupPayload (ago : Nat → Datetime) (o : Options) (db : Db) : Payload := fun t => (snapshot ago o db t).map jsonRow

/-! ## Rows to restore -/

/-- `val.replace("Z", "+00:00")`. -/
def replaceZ (s : Str) : Str := s.flatMap fun c => if c = 'Z' then lit "+00:00" else [c]

def parseDt : Value → Value
  | .text s =>
      match Datetime.fromisoformat (replaceZ s) with
      | some d => .datetime d
      | none => .text s
  | v => v

/-- The datetime columns that `_clean_row` knows. -/
def parsedDates : List DateColumn :=
  [.createdAt, .updatedAt, .startedAt, .finishedAt, .dismissedAt, .resolvedAt, .readAt, .usedAt, .expiresAt, .lastUsedAt,
    .lastSuccessAt, .disabledAt, .totpConfirmedAt, .lastSeen, .lastBackupAt, .lastOsCheckAt, .lastContainerCheckAt,
    .dockerInventoryAt]

def cleanRow (raw : Row) : Row
  | .date d => if d ∈ parsedDates then parseDt (raw (.date d)) else raw (.date d)
  | c => raw c

structure JsonText where
  loads : Str → Option JsonValue
  dumps : JsonValue → Str

abbrev restoreNote : Str := lit "cancelled on herder restore (was in-flight)"

/-- The details of a job that was in flight. -/
def notedDetails (json : JsonText) : Value → Value
  | .text det =>
      if startsWith ['{'] (strip det) then
        match json.loads det with
        | some (.obj d) => .text (json.dumps (.obj (Dict.set (lit "restore_note") (.str restoreNote) d)))
        | _ => .text restoreNote
      else if det.isEmpty then .text restoreNote
      else .text (det ++ lit " · " ++ restoreNote)
  | _ => .text restoreNote

def inFlight (r : Row) : Bool :=
  match r .status with
  | .text s => lower s == lit "pending" || lower s == lit "running"
  | _ => false

def jobForRestore (json : JsonText) (raw : Row) : Row :=
  let row := Function.update raw .celeryTaskId .null
  if inFlight row then
    Function.update (Function.update row .status (.text (lit "cancelled"))) .details (notedDetails json (row .details))
  else row

/-- `row[c] = None`, where it is an id that is not among these. -/
def dropMissing (c : Column) (ids : List Value) (row : Row) : Row :=
  if row c = .null ∨ row c ∈ ids then row else Function.update row c .null

def jobRows (json : JsonText) (p : Payload) : List Row := (p .job).map (jobForRestore json)

/-- Without jobs in the archive, no schedule has a last job. -/
def scheduleRows (p : Payload) : List Row :=
  if (p .job).isEmpty then (p .nmapScanSchedule).map fun row => Function.update row .lastJobId .null
  else p .nmapScanSchedule

def runRows (p : Payload) : List Row := (p .nmapScanRun).map (dropMissing .jobId ((p .job).map (· .id)))

def deviceRows (p : Payload) : List Row := (p .nmapDevice).map (dropMissing .lastRunId ((p .nmapScanRun).map (· .id)))

def scriptRows (p : Payload) : List Row := (p .nmapScriptResult).map (dropMissing .runId ((p .nmapScanRun).map (· .id)))

/-! ## The restore -/

variable (S : Schema)

def upsertRow (t : TableName) (db : Db) (raw : Row) : Option Db :=
  let data := cleanRow raw
  if data .id = .null then insertNew S t data db
  else
    match db.get (constraints S) t (data .id) with
    | some existing => save S t (Function.update data .id (existing .id)) db
    | none => save S t data db

def upsertRows (t : TableName) (rows : List Row) (db : Db) : Option Db := rows.foldlM (upsertRow S t) db

def userMatch (data : Row) (db : Db) : Option Row :=
  (if data .id = .null then none else db.get (constraints S) .user (data .id)).or
    (if (data .email).truthy then (db.rows .user).find? fun r => decide (r .email = data .email) else none)

def upsertUser (db : Db) (raw : Row) : Option Db :=
  let data := cleanRow raw
  if !(data .email).truthy && !(data .id).truthy then some db
  else
    match userMatch S data db with
    | some existing => save S .user (Function.update data .id (existing .id)) db
    | none =>
      if !(data .hashedPassword).truthy then some db
      else if data .id = .null then insertNew S .user data db
      else save S .user data db

def upsertUsers (rows : List Row) (db : Db) : Option Db := rows.foldlM (upsertUser S) db

/-- By its id, or else another row that stands for it; without either it gets a new id. -/
def upsertOr (t : TableName) (other : Row → Db → Option Row) (data : Row) (db : Db) : Option Db :=
  match (if data .id = .null then none else db.get (constraints S) t (data .id)).or (other data db) with
  | some existing => save S t (Function.update data .id (existing .id)) db
  | none => insertNew S t data db

def upsertPushVapid (db : Db) (raw : Row) : Option Db :=
  let data := cleanRow raw
  if !(data .publicKey).truthy || !(data .privateKeyEncrypted).truthy then some db
  else upsertOr S .pushVapidConfig (fun _ db => (db.rows .pushVapidConfig).head?) data db

def upsertPushSubscription (db : Db) (raw : Row) : Option Db :=
  let data := cleanRow raw
  if !(data .endpoint).truthy || !(data .userId).truthy then some db
  else
    upsertOr S .pushSubscription
      (fun data db => (db.rows .pushSubscription).find? fun r => decide (r .endpoint = data .endpoint)) data db

def upsertPushPreference (db : Db) (raw : Row) : Option Db :=
  let data := cleanRow raw
  if data .userId = .null then some db
  else
    match (db.rows .pushPreference).find? fun r => decide (r .userId = data .userId) with
    | some existing => save S .pushPreference (Function.update data .id (existing .id)) db
    | none => insertNew S .pushPreference data db

/-- Append a row, unless a row of the table agrees with it in these columns. -/
def appendUnless (t : TableName) (same : List Column) (data : Row) (db : Db) : Option Db :=
  if (db.rows t).any fun r => same.all fun c => decide (r c = data c) then some db else insertNew S t data db

def appendNotification (db : Db) (raw : Row) : Option Db :=
  let data := cleanRow raw
  if !(data .fingerprint).truthy then some db else appendUnless S .notification [.fingerprint, .status] data db

def appendAudit (db : Db) (raw : Row) : Option Db :=
  appendUnless S .auditLog [.date .startedAt, .action, .serverId] (cleanRow raw) db

/-- The tables that are restored by id, in order, after the users. -/
def restoreOrder (json : JsonText) (p : Payload) : List (TableName × List Row) :=
  [(.totpBackupCode, p .totpBackupCode), (.trustedDevice, p .trustedDevice), (.webAuthnCredential, p .webAuthnCredential),
    (.apiToken, p .apiToken), (.server, p .server), (.job, jobRows json p), (.userFavourite, p .userFavourite),
    (.integration, p .integration), (.integrationBinding, p .integrationBinding), (.nmapScanSchedule, scheduleRows p),
    (.nmapScanRun, runRows p), (.nmapDevice, deviceRows p), (.nmapScriptResult, scriptRows p),
    (.managedCertificate, p .managedCertificate), (.certificateTarget, p .certificateTarget),
    (.serviceTemplate, p .serviceTemplate), (.stackDeployment, p .stackDeployment),
    (.composeProjectMeta, p .composeProjectMeta), (.serviceDnsRecord, p .serviceDnsRecord), (.runtimeEdge, p .runtimeEdge),
    (.topologyCategory, p .topologyCategory), (.topologyTag, p .topologyTag),
    (.visualServiceStack, p .visualServiceStack), (.containerAnnotations, p .containerAnnotations),
    (.containerAnnotationTag, p .containerAnnotationTag), (.portAnnotations, p .portAnnotations),
    (.dockerVersion, p .dockerVersion)]

def restoreHerderBackup (json : JsonText) (p : Payload) (restoreAudit : Bool) (db : Db) : Option Db := do
  let db ← upsertUsers S (p .user) db
  let db ← (restoreOrder json p).foldlM (fun db step => upsertRows S step.1 step.2 db) db
  let db ← (p .pushVapidConfig).foldlM (upsertPushVapid S) db
  let db ← (p .pushSubscription).foldlM (upsertPushSubscription S) db
  let db ← (p .pushPreference).foldlM (upsertPushPreference S) db
  let db ← (p .notification).foldlM (appendNotification S) db
  if restoreAudit then (p .auditLog).foldlM (appendAudit S) db else some db

/-! ## What the archive says -/

/-- A column that is no datetime. -/
abbrev Plain (c : Column) : Prop := ∀ d, c ≠ .date d

theorem jsonRow_plain {t : TableName} {r : Row} (h : Typed t r) (c : Column) (hc : Plain c) : jsonRow r c = r c := by
  unfold jsonRow jsonValue
  split
  · rename_i d hd
    exact absurd hd (h.plain c d hc)
  · rfl

theorem map_jsonRow_id {t : TableName} {rows : List Row} (h : ∀ r ∈ rows, Typed t r) :
    (rows.map jsonRow).map (· .id) = rows.map (· .id) := by
  rw [List.map_map]
  exact List.map_congr_left fun r hr => jsonRow_plain (h r hr) .id nofun

/-! ## What each call does -/

theorem cleanRow_plain (raw : Row) {c : Column} (hc : Plain c) : cleanRow raw c = raw c := by
  cases c with
  | date d => exact absurd rfl (hc d)
  | _ => rfl

/-- A row was written in a table; beside its id and its datetimes it reads as `raw`. -/
def Puts (t : TableName) (raw : Row) (db db' : Db) : Prop :=
  ∃ row, Store.Wrote (constraints S) t row db db' ∧ ∀ c, Plain c → c ≠ .id → row c = raw c

variable {S} {t : TableName} {data raw row : Row} {db db' fin : Db}

theorem save_wrote (h : save S t data db = some db') :
    ∃ row, Store.Wrote (constraints S) t row db db' ∧ ∀ c, Plain c → row c = data c := by
  obtain ⟨row, hrow, hwrite⟩ := Option.bind_eq_some_iff.1 h
  exact ⟨row, Store.write_wrote hwrite, fun c hc => stored_plain hrow hc⟩

theorem insertNew_puts (h : insertNew S t data db = some db') : Puts S t data db db' := by
  obtain ⟨row, hrow, hinsert⟩ := Option.bind_eq_some_iff.1 h
  refine ⟨_, (Store.insertSerial_wrote hinsert).1, fun c hc hid => ?_⟩
  rw [Function.update_of_ne (show c ≠ (constraints S).id from hid)]
  exact stored_plain hrow hc

theorem save_update_puts {i : Value} (h : save S t (Function.update data .id i) db = some db') : Puts S t data db db' := by
  obtain ⟨row, hwrote, hrow⟩ := save_wrote h
  refine ⟨row, hwrote, fun c hc hid => ?_⟩
  rw [hrow c hc, Function.update_of_ne hid]

theorem Puts.clean (h : Puts S t (cleanRow raw) db db') : Puts S t raw db db' := by
  obtain ⟨row, hwrote, hrow⟩ := h
  exact ⟨row, hwrote, fun c hc hid => (hrow c hc hid).trans (cleanRow_plain raw hc)⟩

/-- An archived row is written under its id. -/
theorem upsertRow_wrote (hid : raw .id ≠ .null) (h : upsertRow S t db raw = some db') :
    ∃ row, Store.Wrote (constraints S) t row db db' ∧ ∀ c, Plain c → row c = raw c := by
  unfold upsertRow at h
  dsimp only at h
  have hplain : cleanRow raw .id = raw .id := cleanRow_plain raw nofun
  rw [if_neg (hplain ▸ hid)] at h
  cases hget : db.get (constraints S) t (cleanRow raw .id) with
  | none =>
    rw [hget] at h
    obtain ⟨row, hwrote, hrow⟩ := save_wrote h
    exact ⟨row, hwrote, fun c hc => (hrow c hc).trans (cleanRow_plain raw hc)⟩
  | some existing =>
    rw [hget] at h
    obtain ⟨row, hwrote, hrow⟩ := save_wrote h
    have hexisting : existing .id = raw .id := (Store.get_mem hget).2.trans hplain
    refine ⟨row, hwrote, fun c hc => ?_⟩
    rw [hrow c hc]
    by_cases hcid : c = .id
    · subst hcid
      rw [Function.update_self, hexisting]
    · rw [Function.update_of_ne hcid, cleanRow_plain raw hc]

theorem upsertOr_puts {other : Row → Db → Option Row} (h : upsertOr S t other data db = some db') : Puts S t data db db' := by
  unfold upsertOr at h
  split at h
  · exact save_update_puts h
  · exact insertNew_puts h

theorem upsertRow_puts (h : upsertRow S t db raw = some db') : Puts S t raw db db' := by
  by_cases hid : raw .id = .null
  · unfold upsertRow at h
    dsimp only at h
    rw [if_pos ((cleanRow_plain raw (c := .id) nofun).trans hid)] at h
    exact (insertNew_puts h).clean
  · obtain ⟨row, hwrote, hrow⟩ := upsertRow_wrote hid h
    exact ⟨row, hwrote, fun c hc _ => hrow c hc⟩

theorem upsertUser_puts (h : upsertUser S db raw = some db') : db' = db ∨ Puts S .user raw db db' := by
  unfold upsertUser at h
  dsimp only at h
  split at h
  · exact Or.inl (Option.some.inj h).symm
  · split at h
    · exact Or.inr (save_update_puts h).clean
    · split_ifs at h
      · exact Or.inl (Option.some.inj h).symm
      · exact Or.inr (insertNew_puts h).clean
      · obtain ⟨row, hwrote, hrow⟩ := save_wrote h
        exact Or.inr ⟨row, hwrote, fun c hc _ => (hrow c hc).trans (cleanRow_plain raw hc)⟩

theorem upsertPushVapid_puts (h : upsertPushVapid S db raw = some db') : db' = db ∨ Puts S .pushVapidConfig raw db db' := by
  unfold upsertPushVapid at h
  dsimp only at h
  split at h
  · exact Or.inl (Option.some.inj h).symm
  · exact Or.inr (upsertOr_puts h).clean

theorem upsertPushSubscription_puts (h : upsertPushSubscription S db raw = some db') :
    db' = db ∧ ((raw .endpoint).truthy = false ∨ (raw .userId).truthy = false) ∨ Puts S .pushSubscription raw db db' := by
  unfold upsertPushSubscription at h
  dsimp only at h
  rw [cleanRow_plain raw (c := .endpoint) nofun, cleanRow_plain raw (c := .userId) nofun] at h
  split at h
  · rename_i hskip
    exact Or.inl ⟨(Option.some.inj h).symm, by simpa using hskip⟩
  · exact Or.inr (upsertOr_puts h).clean

theorem upsertPushPreference_puts (h : upsertPushPreference S db raw = some db') :
    db' = db ∨ Puts S .pushPreference raw db db' := by
  unfold upsertPushPreference at h
  dsimp only at h
  split at h
  · exact Or.inl (Option.some.inj h).symm
  · split at h
    · exact Or.inr (save_update_puts h).clean
    · exact Or.inr (insertNew_puts h).clean

theorem appendUnless_puts {same : List Column} (h : appendUnless S t same data db = some db') :
    db' = db ∨ Puts S t data db db' := by
  unfold appendUnless at h
  split at h
  · exact Or.inl (Option.some.inj h).symm
  · exact Or.inr (insertNew_puts h)

theorem appendNotification_puts (h : appendNotification S db raw = some db') :
    db' = db ∨ Puts S .notification raw db db' := by
  unfold appendNotification at h
  dsimp only at h
  split at h
  · exact Or.inl (Option.some.inj h).symm
  · exact (appendUnless_puts h).imp_right Puts.clean

/-! ## What a list of calls leaves alone -/

/-- `db'` is `db` but for one table, and whole when `db` is. -/
structure Within (S : Schema) (t : TableName) (db db' : Db) : Prop where
  other : ∀ t', t' ≠ t → db'.rows t' = db.rows t'
  whole : db.Whole (constraints S) → db'.Whole (constraints S)

theorem Within.refl (t : TableName) (db : Db) : Within S t db db := ⟨fun _ _ => rfl, id⟩

theorem Within.trans {mid : Db} (h : Within S t db mid) (h' : Within S t mid db') : Within S t db db' :=
  ⟨fun t' ht => (h'.other t' ht).trans (h.other t' ht), fun hdb => h'.whole (h.whole hdb)⟩

theorem Puts.within (h : Puts S t raw db db') : Within S t db db' := by
  obtain ⟨row, hwrote, -⟩ := h
  exact ⟨fun t' ht => hwrote.other ht, hwrote.whole⟩

theorem within_of_puts (h : db' = db ∨ Puts S t raw db db') : Within S t db db' := by
  rcases h with rfl | h
  · exact Within.refl t db'
  · exact h.within

/-- Calls that each stay within a table do so together. -/
theorem foldlM_within {α : Type} {f : Db → α → Option Db} (hf : ∀ m a m', f m a = some m' → Within S t m m') {xs : List α}
    (h : xs.foldlM f db = some db') : Within S t db db' :=
  foldlM_keeps_all (P := fun _ m => Within S t db m) (fun _ _ _ _ _ _ hm ha => hm.trans (hf _ _ _ ha))
    (Within.refl t db) h

theorem upsertRows_within {rows : List Row} (h : upsertRows S t rows db = some db') : Within S t db db' :=
  foldlM_within (fun _ _ _ h => (upsertRow_puts h).within) h

/-- Tables that are restored one after the other: each is found as it was, and left as its own rows leave it. -/
theorem tables_restored : ∀ {steps : List (TableName × List Row)} {db db' : Db}, (steps.map Prod.fst).Nodup →
    steps.foldlM (fun db step => upsertRows S step.1 step.2 db) db = some db' →
      (∀ t, t ∉ steps.map Prod.fst → db'.rows t = db.rows t) ∧ (db.Whole (constraints S) → db'.Whole (constraints S)) ∧
        ∀ step ∈ steps, ∃ m m', m.rows step.1 = db.rows step.1 ∧ upsertRows S step.1 step.2 m = some m' ∧
          m'.rows step.1 = db'.rows step.1
  | [], db, db', _, h => by
    obtain rfl : db = db' := by simpa using h
    exact ⟨fun _ _ => rfl, id, fun _ hstep => nomatch hstep⟩
  | (t, rows) :: steps, db, db', hnodup, h => by
    rw [List.foldlM_cons] at h
    obtain ⟨mid, hmid, hrest⟩ := Option.bind_eq_some_iff.1 h
    rw [List.map_cons, List.nodup_cons] at hnodup
    obtain ⟨hsame, hwhole, hsteps⟩ := tables_restored hnodup.2 hrest
    have hin := upsertRows_within hmid
    refine ⟨fun t' ht' => ?_, fun hdb => hwhole (hin.whole hdb), fun step hstep => ?_⟩
    · rw [List.map_cons, List.mem_cons, not_or] at ht'
      rw [hsame t' ht'.2, hin.other t' ht'.1]
    · rcases List.mem_cons.1 hstep with rfl | hstep
      · exact ⟨db, mid, rfl, hmid, (hsame t hnodup.1).symm⟩
      · obtain ⟨m, m', hm, hrun, hm'⟩ := hsteps step hstep
        have hne : step.1 ≠ t := fun heq => hnodup.1 (List.mem_map.2 ⟨step, hstep, heq⟩)
        exact ⟨m, m', hm.trans (hin.other step.1 hne), hrun, hm'⟩

/-- The states that a restore goes through. -/
theorem restore_phases {json : JsonText} {p : Payload} {restoreAudit : Bool}
    (h : restoreHerderBackup S json p restoreAudit db = some fin) :
    ∃ users tables vapid subs prefs notes, upsertUsers S (p .user) db = some users ∧
      (restoreOrder json p).foldlM (fun db step => upsertRows S step.1 step.2 db) users = some tables ∧
      Within S .pushVapidConfig tables vapid ∧
      (p .pushSubscription).foldlM (upsertPushSubscription S) vapid = some subs ∧
      Within S .pushPreference subs prefs ∧ Within S .notification prefs notes ∧ Within S .auditLog notes fin := by
  simp only [restoreHerderBackup, Option.bind_eq_bind, Option.bind_eq_some_iff] at h
  obtain ⟨users, husers, tables, htables, vapid, hvapid, subs, hsubs, prefs, hprefs, notes, hnotes, haudit⟩ := h
  refine ⟨users, tables, vapid, subs, prefs, notes, husers, htables,
    foldlM_within (fun _ _ _ h => within_of_puts (upsertPushVapid_puts h)) hvapid, hsubs,
    foldlM_within (fun _ _ _ h => within_of_puts (upsertPushPreference_puts h)) hprefs,
    foldlM_within (fun _ _ _ h => within_of_puts (appendNotification_puts h)) hnotes, ?_⟩
  split at haudit
  · exact foldlM_within (fun _ _ _ h => within_of_puts (appendUnless_puts h)) haudit
  · obtain rfl := Option.some.inj haudit
    exact Within.refl _ notes

theorem restoreOrder_nodup (json : JsonText) (p : Payload) : ((restoreOrder json p).map Prod.fst).Nodup := by
  unfold restoreOrder
  simp

end PiHerder.Config
