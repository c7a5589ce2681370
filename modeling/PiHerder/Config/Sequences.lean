import PiHerder.Config.Credentials
import PiHerder.Lib.Sequence

/-!
# The sequences after a restore

`_fix_postgres_sequences` (`services/herder_backup.py`, 1540–1592), which `restore_herder_backup` calls when its rows are committed.

All statements are of one transaction. A `setval` below one is out of bounds and fails; Postgres then refuses every further statement of the
transaction, and the code passes over the refusals. What `setval` did before stays, since sequences are not part of a transaction. A sequence
has no end here. The list of the code ends with `consoletranscript`, which no archive has. A row of an archive that has no column of its table,
which the restore passes over, is taken out of it beforehand.
-/
namespace PiHerder.Config
open Lib Lib.Str

/-! ## The code -/

def sequenceTables : List TableName :=
  [.user, .userFavourite, .apiToken, .server, .dockerVersion, .totpBackupCode, .trustedDevice, .pushVapidConfig, .pushSubscription, .pushPreference,
    .notification, .auditLog, .serviceTemplate, .stackDeployment, .serviceDnsRecord, .runtimeEdge, .topologyCategory, .topologyTag,
    .visualServiceStack, .containerAnnotations, .containerAnnotationTag, .portAnnotations, .managedCertificate, .certificateTarget, .integration,
    .integrationBinding, .nmapScanSchedule, .nmapDevice, .nmapScriptResult]

/-- The number a row has, or is to have. -/
def numberOf (r : Row) : Option Int :=
  match r .id with
  | .int n => some n
  | _ => none

def ids (rows : List Row) : List Int := rows.filterMap numberOf

/-- `setval(pg_get_serial_sequence(table, 'id'), COALESCE((SELECT MAX(id) FROM table), 1), true)`. -/
def setval (t : TableName) (db : Db) : Option Db :=
  let n := (ids (db.rows t)).max?.getD 1
  if n < 1 then none else some { db with serial := Function.update db.serial t n.toNat }

structure Connection where
  db : Db
  /-- A statement of the transaction failed. -/
  failed : Bool

def Connection.execute (conn : Connection) (t : TableName) : Connection :=
  if conn.failed then conn
  else
    match setval t conn.db with
    | some db => ⟨db, false⟩
    | none => ⟨conn.db, true⟩

def fixPostgresSequences (db : Db) : Db := (sequenceTables.foldl Connection.execute ⟨db, false⟩).db

/-- `restore_herder_backup`, as far as it is about rows and sequences. -/
def restoreWithSequences (S : Schema) (json : JsonText) (p : Payload) (restoreAudit : Bool) (db : Db) : Option Db :=
  (restoreHerderBackup S json p restoreAudit db).map fixPostgresSequences

/-! ## Tables as sequences -/

/-- The ids of a table, and its counter. -/
def sequenceOf (t : TableName) (db : Db) : Sequence := ⟨{i | i ∈ ids (db.rows t)}, db.serial t⟩

/-- An archive whose ids are numbers, where a row has one. -/
def Numbered (p : Payload) : Prop := ∀ t, ∀ r ∈ p t, r .id = .null ∨ ∃ n, r .id = .int n

section tables
variable {S : Schema} {t t' : TableName} {data raw row existing : Row} {db db' fin : Db} {i : Int}

theorem numberOf_eq_some : numberOf row = some i ↔ row .id = .int i := by
  unfold numberOf
  split
  · rename_i n hn
    simp [hn]
  · rename_i hno
    simp only [reduceCtorEq, false_iff]
    exact hno i

theorem mem_ids {rows : List Row} : i ∈ ids rows ↔ ∃ r ∈ rows, r .id = .int i := by
  simp [ids, List.mem_filterMap, numberOf_eq_some]

theorem sequenceOf_congr (hrows : db'.rows t = db.rows t) (hserial : db'.serial t = db.serial t) : sequenceOf t db' = sequenceOf t db := by
  unfold sequenceOf
  rw [hrows, hserial]

/-- A row that is written adds its id. -/
theorem wrote_ids (h : Store.Wrote (constraints S) t row db db') (hrow : row .id = .int i) :
    (sequenceOf t db').ids = insert i (sequenceOf t db).ids := by
  ext j
  simp only [sequenceOf, Set.mem_ofPred_eq, Set.mem_insert_iff, mem_ids, h.mem]
  constructor
  · rintro ⟨r, rfl | ⟨hr, -⟩, hj⟩
    · exact Or.inl (Value.int.inj (hj.symm.trans hrow))
    · exact Or.inr ⟨r, hr, hj⟩
  · intro hj
    by_cases hji : j = i
    · exact ⟨row, Or.inl rfl, hji ▸ hrow⟩
    · obtain ⟨r, hr, hrj⟩ := hj.resolve_left hji
      refine ⟨r, Or.inr ⟨hr, fun heq => hji ?_⟩, hrj⟩
      exact Value.int.inj (hrj.symm.trans (heq.trans hrow))

/-! ## What each call does to the sequences -/

/-- One table is written to, under an id or under the next number. -/
structure Moves (t : TableName) (w : Option Int) (db db' : Db) : Prop where
  write : Sequence.Write w (sequenceOf t db) (sequenceOf t db')
  other : ∀ t', t' ≠ t → sequenceOf t' db' = sequenceOf t' db

theorem save_moves (hid : data .id = .int i) (h : save S t data db = some db') : Moves t (some i) db db' := by
  obtain ⟨row, hrow, hwrite⟩ := Option.bind_eq_some_iff.1 h
  have hwrote := Store.write_wrote hwrite
  have hserial := Store.write_serial hwrite
  have hrowId : row .id = .int i := (stored_plain hrow (c := .id) nofun).trans hid
  constructor
  · have hseq : sequenceOf t db' = ⟨insert i (sequenceOf t db).ids, (sequenceOf t db).last⟩ := by
      rw [← wrote_ids hwrote hrowId]
      show sequenceOf t db' = ⟨_, db.serial t⟩
      rw [← hserial]
      rfl
    rw [hseq]
    exact .own i _
  · intro t' ht'
    exact sequenceOf_congr (hwrote.other ht') (congrFun hserial t')

theorem insertNew_moves (h : insertNew S t data db = some db') : Moves t none db db' := by
  obtain ⟨row, -, hinsert⟩ := Option.bind_eq_some_iff.1 h
  obtain ⟨hwrote, hfree⟩ := Store.insertSerial_wrote hinsert
  have hserial := Store.insertSerial_serial hinsert
  constructor
  · have hseq : sequenceOf t db' = ⟨insert ((sequenceOf t db).last + 1 : Int) (sequenceOf t db).ids, (sequenceOf t db).last + 1⟩ := by
      have hids := wrote_ids hwrote (i := (sequenceOf t db).last + 1) (Function.update_self ..)
      rw [← hids]
      show sequenceOf t db' = ⟨_, db.serial t + 1⟩
      unfold sequenceOf
      rw [hserial, Function.update_self]
    rw [hseq]
    refine .next _ fun hmem => ?_
    obtain ⟨r, hr, hid⟩ := mem_ids.1 hmem
    exact hfree r hr hid
  · intro t' ht'
    refine sequenceOf_congr (hwrote.other ht') ?_
    rw [hserial, Function.update_of_ne ht']

/-- A row that is written over one of the table leaves every sequence as it is. -/
theorem save_existing (hmem : existing ∈ db.rows t) (h : save S t (Function.update data .id (existing .id)) db = some db') (t' : TableName) :
    sequenceOf t' db' = sequenceOf t' db := by
  obtain ⟨row, hrow, hwrite⟩ := Option.bind_eq_some_iff.1 h
  have hwrote := Store.write_wrote hwrite
  have hserial := congrFun (Store.write_serial hwrite) t'
  have hrowId : row .id = existing .id := (stored_plain hrow (c := .id) nofun).trans (Function.update_self ..)
  by_cases ht : t' = t
  · subst ht
    have hids : {i | i ∈ ids (db'.rows t')} = {i | i ∈ ids (db.rows t')} := by
      ext j
      simp only [Set.mem_ofPred_eq, mem_ids, hwrote.mem]
      constructor
      · rintro ⟨r, rfl | ⟨hr, -⟩, hj⟩
        · exact ⟨existing, hmem, hrowId.symm.trans hj⟩
        · exact ⟨r, hr, hj⟩
      · rintro ⟨r, hr, hj⟩
        by_cases heq : r .id = row .id
        · exact ⟨row, Or.inl rfl, heq.symm.trans hj⟩
        · exact ⟨r, Or.inr ⟨hr, heq⟩, hj⟩
    unfold sequenceOf
    rw [hids, hserial]
  · exact sequenceOf_congr (hwrote.other ht) hserial

theorem upsertRow_moves (hid : raw .id = .null ∨ ∃ n, raw .id = .int n) (h : upsertRow S t db raw = some db') : Moves t (numberOf raw) db db' := by
  have hclean : cleanRow raw .id = raw .id := cleanRow_plain raw nofun
  unfold upsertRow at h
  dsimp only at h
  rw [hclean] at h
  rcases hid with hnull | ⟨n, hn⟩
  · rw [if_pos hnull] at h
    rw [show numberOf raw = none by simp [numberOf, hnull]]
    exact insertNew_moves h
  · rw [if_neg (by simp [hn])] at h
    rw [numberOf_eq_some.2 hn]
    split at h
    · rename_i existing hget
      refine save_moves ?_ h
      rw [Function.update_self]
      exact (Store.get_mem hget).2.trans hn
    · exact save_moves (hclean.trans hn) h

/-! ## Tables that only the sequence numbers -/

/-- A table gets no ids but from its sequence. -/
structure Renews (t : TableName) (db db' : Db) : Prop where
  other : ∀ t', t' ≠ t → sequenceOf t' db' = sequenceOf t' db
  ahead : (sequenceOf t db').Ahead ↔ (sequenceOf t db).Ahead
  counted : (sequenceOf t db).Counted → (sequenceOf t db').Counted

theorem Renews.of_same (h : ∀ t', sequenceOf t' db' = sequenceOf t' db) : Renews t db db' :=
  ⟨fun t' _ => h t', by rw [h t], by rw [h t]; exact id⟩

theorem Renews.trans (h : Renews t db db') (h' : Renews t db' fin) : Renews t db fin :=
  ⟨fun t' ht => (h'.other t' ht).trans (h.other t' ht), h'.ahead.trans h.ahead, fun hs => h'.counted (h.counted hs)⟩

theorem Renews.ahead_all (h : Renews t db db') (t' : TableName) : (sequenceOf t' db').Ahead ↔ (sequenceOf t' db).Ahead := by
  by_cases ht : t' = t
  · exact ht ▸ h.ahead
  · rw [h.other t' ht]

theorem Renews.counted_all (h : Renews t db db') (t' : TableName) (hs : (sequenceOf t' db).Counted) : (sequenceOf t' db').Counted := by
  by_cases ht : t' = t
  · subst ht
    exact h.counted hs
  · rw [h.other t' ht]
    exact hs

theorem Moves.renews (h : Moves t none db db') : Renews t db db' :=
  ⟨h.other, h.write.ahead_iff nofun, h.write.counted nofun⟩

theorem upsertOr_renews {other : Row → Db → Option Row} (hother : ∀ data db r, other data db = some r → r ∈ db.rows t)
    (h : upsertOr S t other data db = some db') : Renews t db db' := by
  unfold upsertOr at h
  split at h
  · rename_i existing hfound
    refine .of_same (save_existing ?_ h)
    rcases Option.or_eq_some_iff.1 hfound with hget | ⟨-, hget⟩
    · split at hget
      · cases hget
      · exact (Store.get_mem hget).1
    · exact hother _ _ _ hget
  · exact (insertNew_moves h).renews

theorem upsertPushVapid_renews (h : upsertPushVapid S db raw = some db') : Renews .pushVapidConfig db db' := by
  unfold upsertPushVapid at h
  dsimp only at h
  split at h
  · obtain rfl := Option.some.inj h
    exact .of_same fun _ => rfl
  · exact upsertOr_renews (fun _ _ _ hr => List.mem_of_head? hr) h

theorem upsertPushSubscription_renews (h : upsertPushSubscription S db raw = some db') : Renews .pushSubscription db db' := by
  unfold upsertPushSubscription at h
  dsimp only at h
  split at h
  · obtain rfl := Option.some.inj h
    exact .of_same fun _ => rfl
  · exact upsertOr_renews (fun _ _ _ hr => List.mem_of_find?_eq_some hr) h

theorem upsertPushPreference_renews (h : upsertPushPreference S db raw = some db') : Renews .pushPreference db db' := by
  unfold upsertPushPreference at h
  dsimp only at h
  split at h
  · obtain rfl := Option.some.inj h
    exact .of_same fun _ => rfl
  · split at h
    · rename_i existing hfound
      exact .of_same (save_existing (List.mem_of_find?_eq_some hfound) h)
    · exact (insertNew_moves h).renews

theorem appendUnless_renews {same : List Column} (h : appendUnless S t same data db = some db') : Renews t db db' := by
  unfold appendUnless at h
  split at h
  · obtain rfl := Option.some.inj h
    exact .of_same fun _ => rfl
  · exact (insertNew_moves h).renews

theorem appendNotification_renews (h : appendNotification S db raw = some db') : Renews .notification db db' := by
  unfold appendNotification at h
  dsimp only at h
  split at h
  · obtain rfl := Option.some.inj h
    exact .of_same fun _ => rfl
  · exact appendUnless_renews h

theorem foldlM_renews {f : Db → Row → Option Db} (hf : ∀ m r m', f m r = some m' → Renews t m m') {rows : List Row}
    (h : rows.foldlM f db = some db') : Renews t db db' :=
  foldlM_keeps_all (P := fun _ m => Renews t db m) (fun _ _ _ _ _ _ hm hr => hm.trans (hf _ _ _ hr)) (.of_same fun _ => rfl) h

/-! ## The users -/

/-- A table loses no id, and no other table changes. -/
structure Grows (t : TableName) (db db' : Db) : Prop where
  other : ∀ t', t' ≠ t → sequenceOf t' db' = sequenceOf t' db
  subset : (sequenceOf t db).ids ⊆ (sequenceOf t db').ids

theorem Grows.of_same (h : ∀ t', sequenceOf t' db' = sequenceOf t' db) : Grows t db db' := ⟨fun t' _ => h t', by rw [h t]⟩

theorem Grows.trans (h : Grows t db db') (h' : Grows t db' fin) : Grows t db fin :=
  ⟨fun t' ht => (h'.other t' ht).trans (h.other t' ht), h.subset.trans h'.subset⟩

theorem Moves.grows {w : Option Int} (h : Moves t w db db') : Grows t db db' := ⟨h.other, h.write.subset⟩

theorem userMatch_mem (h : userMatch S data db = some existing) : existing ∈ db.rows .user := by
  rcases Option.or_eq_some_iff.1 h with hget | ⟨-, hget⟩
  · split at hget
    · cases hget
    · exact (Store.get_mem hget).1
  · split at hget
    · exact List.mem_of_find?_eq_some hget
    · cases hget

theorem upsertUser_grows (hid : raw .id = .null ∨ ∃ n, raw .id = .int n) (h : upsertUser S db raw = some db') : Grows .user db db' := by
  have hclean : cleanRow raw .id = raw .id := cleanRow_plain raw nofun
  unfold upsertUser at h
  dsimp only at h
  split at h
  · obtain rfl := Option.some.inj h
    exact .of_same fun _ => rfl
  · split at h
    · rename_i existing hfound
      exact .of_same (save_existing (userMatch_mem hfound) h)
    · split_ifs at h with hpassword hnull
      · obtain rfl := Option.some.inj h
        exact .of_same fun _ => rfl
      · exact (insertNew_moves h).grows
      · obtain ⟨n, hn⟩ := hid.resolve_left (hclean ▸ hnull)
        exact (save_moves (hclean.trans hn) h).grows

theorem upsertUsers_grows {rows : List Row} (hids : ∀ r ∈ rows, r .id = .null ∨ ∃ n, r .id = .int n) (h : upsertUsers S rows db = some db') :
    Grows .user db db' := by
  refine foldlM_keeps_all (P := fun _ m => Grows .user db m) ?_ (.of_same fun _ => rfl) h
  intro pre raw post hsplit m m' hm hstep
  exact hm.trans (upsertUser_grows (hids raw (by simp [hsplit])) hstep)

/-! ## Tables that are restored by id -/

theorem upsertRows_writes : ∀ {rows : List Row} {db db' : Db}, (∀ r ∈ rows, r .id = .null ∨ ∃ n, r .id = .int n) →
    upsertRows S t rows db = some db' →
      Sequence.Writes (rows.map numberOf) (sequenceOf t db) (sequenceOf t db') ∧ ∀ t', t' ≠ t → sequenceOf t' db' = sequenceOf t' db
  | [], db, db', _, h => by
    obtain rfl : db = db' := by simpa [upsertRows] using h
    exact ⟨.nil _, fun _ _ => rfl⟩
  | raw :: rows, db, db', hids, h => by
    unfold upsertRows at h
    rw [List.foldlM_cons] at h
    obtain ⟨mid, hmid, hrest⟩ := Option.bind_eq_some_iff.1 h
    have hmoves := upsertRow_moves (hids raw List.mem_cons_self) hmid
    obtain ⟨hwrites, hother⟩ := upsertRows_writes (fun r hr => hids r (List.mem_cons_of_mem _ hr)) hrest
    exact ⟨.cons hmoves.write hwrites, fun t' ht' => (hother t' ht').trans (hmoves.other t' ht')⟩

/-- Tables one after the other: the sequence of each is written by its own rows only. -/
theorem tables_write : ∀ {steps : List (TableName × List Row)} {db db' : Db}, (steps.map Prod.fst).Nodup →
    (∀ step ∈ steps, ∀ r ∈ step.2, r .id = .null ∨ ∃ n, r .id = .int n) →
    steps.foldlM (fun db step => upsertRows S step.1 step.2 db) db = some db' →
      (∀ t, t ∉ steps.map Prod.fst → sequenceOf t db' = sequenceOf t db) ∧
        ∀ step ∈ steps, Sequence.Writes (step.2.map numberOf) (sequenceOf step.1 db) (sequenceOf step.1 db')
  | [], db, db', _, _, h => by
    obtain rfl : db = db' := by simpa using h
    exact ⟨fun _ _ => rfl, fun _ hstep => nomatch hstep⟩
  | (t, rows) :: steps, db, db', hnodup, hids, h => by
    rw [List.foldlM_cons] at h
    obtain ⟨mid, hmid, hrest⟩ := Option.bind_eq_some_iff.1 h
    rw [List.map_cons, List.nodup_cons] at hnodup
    obtain ⟨hwrites, hother⟩ := upsertRows_writes (hids _ List.mem_cons_self) hmid
    obtain ⟨hsame, hsteps⟩ := tables_write hnodup.2 (fun step hstep => hids step (List.mem_cons_of_mem _ hstep)) hrest
    refine ⟨fun t' ht' => ?_, fun step hstep => ?_⟩
    · rw [List.map_cons, List.mem_cons, not_or] at ht'
      exact (hsame t' ht'.2).trans (hother t' ht'.1)
    · rcases List.mem_cons.1 hstep with rfl | hstep
      · rw [hsame t hnodup.1]
        exact hwrites
      · have hne : step.1 ≠ t := fun heq => hnodup.1 (List.mem_map.2 ⟨step, hstep, heq⟩)
        rw [← hother step.1 hne]
        exact hsteps step hstep

/-- The tables of `restoreOrder`. -/
def byId : TableName → Bool
  | .user | .pushVapidConfig | .pushSubscription | .pushPreference | .notification | .auditLog => false
  | _ => true

theorem mem_restoreOrder (json : JsonText) (p : Payload) (t : TableName) : t ∈ (restoreOrder json p).map Prod.fst ↔ byId t = true := by
  cases t <;> simp [restoreOrder, byId]

theorem jobForRestore_id (json : JsonText) (raw : Row) : jobForRestore json raw .id = raw .id := by
  unfold jobForRestore
  split <;> rfl

theorem dropMissing_id {c : Column} (hc : c ≠ .id) (known : List Value) (r : Row) : dropMissing c known r .id = r .id := by
  unfold dropMissing
  split
  · rfl
  · rw [Function.update_of_ne (Ne.symm hc)]

/-- What is done to rows before they are restored leaves their ids alone. -/
theorem restoreOrder_ids (json : JsonText) (p : Payload) :
    ∀ step ∈ restoreOrder json p, step.2.map (· .id) = (p step.1).map (· .id) := by
  have hjobs : (jobRows json p).map (· .id) = (p .job).map (· .id) := by
    unfold jobRows
    rw [List.map_map]
    exact List.map_congr_left fun r _ => jobForRestore_id json r
  have hschedules : (scheduleRows p).map (· .id) = (p .nmapScanSchedule).map (· .id) := by
    unfold scheduleRows
    split
    · rw [List.map_map]
      exact List.map_congr_left fun r _ => rfl
    · rfl
  have hdropped : ∀ (c : Column), c ≠ .id → ∀ (known : List Value) (rows : List Row),
      (rows.map (dropMissing c known)).map (· .id) = rows.map (· .id) := by
    intro c hc known rows
    rw [List.map_map]
    exact List.map_congr_left fun r _ => dropMissing_id hc known r
  intro step hstep
  simp only [restoreOrder, List.mem_cons, List.not_mem_nil, or_false] at hstep
  rcases hstep with rfl | rfl | rfl | rfl | rfl | rfl | rfl | rfl | rfl | rfl | rfl | rfl | rfl | rfl | rfl | rfl | rfl | rfl | rfl | rfl | rfl | rfl |
    rfl | rfl | rfl | rfl | rfl
  all_goals first
    | rfl
    | exact hjobs
    | exact hschedules
    | exact hdropped .jobId (by decide) _ _
    | exact hdropped .lastRunId (by decide) _ _
    | exact hdropped .runId (by decide) _ _

theorem numbers_of_ids {rows rows' : List Row} (h : rows.map (· .id) = rows'.map (· .id)) : rows.map numberOf = rows'.map numberOf := by
  have hnumber : ∀ xs : List Row, xs.map numberOf = (xs.map (· .id)).map fun v => match v with | .int n => some n | _ => none := by
    intro xs
    rw [List.map_map]
    rfl
  rw [hnumber, hnumber, h]

/-! ## The restore -/

/-- **What a restore does to the sequences.** -/
structure Restored (p : Payload) (db fin : Db) : Prop where
  user : (sequenceOf .user db).ids ⊆ (sequenceOf .user fin).ids
  writes : ∀ t, byId t = true → Sequence.Writes ((p t).map numberOf) (sequenceOf t db) (sequenceOf t fin)
  ahead : ∀ t, t ≠ .user → byId t = false → ((sequenceOf t fin).Ahead ↔ (sequenceOf t db).Ahead)
  counted : ∀ t, t ≠ .user → byId t = false → (sequenceOf t db).Counted → (sequenceOf t fin).Counted

theorem restore_sequences {json : JsonText} {p : Payload} {restoreAudit : Bool} (hp : Numbered p)
    (h : restoreHerderBackup S json p restoreAudit db = some fin) : Restored p db fin := by
  simp only [restoreHerderBackup, Option.bind_eq_bind, Option.bind_eq_some_iff] at h
  obtain ⟨users, husers, tables, htables, vapid, hvapid, subs, hsubs, prefs, hprefs, notes, hnotes, haudit⟩ := h
  have hgrows := upsertUsers_grows (hp .user) husers
  have hstepIds : ∀ step ∈ restoreOrder json p, ∀ r ∈ step.2, r .id = .null ∨ ∃ n, r .id = .int n := by
    intro step hstep r hr
    have hmem : r .id ∈ (p step.1).map (· .id) := restoreOrder_ids json p step hstep ▸ List.mem_map_of_mem hr
    obtain ⟨r', hr', hid⟩ := List.mem_map.1 hmem
    rw [← hid]
    exact hp step.1 r' hr'
  obtain ⟨hsame, hwrites⟩ := tables_write (restoreOrder_nodup json p) hstepIds htables
  have hv := foldlM_renews (fun _ _ _ => upsertPushVapid_renews) hvapid
  have hs := foldlM_renews (fun _ _ _ => upsertPushSubscription_renews) hsubs
  have hf := foldlM_renews (fun _ _ _ => upsertPushPreference_renews) hprefs
  have hn := foldlM_renews (fun _ _ _ => appendNotification_renews) hnotes
  have ha : Renews .auditLog notes fin := by
    split at haudit
    · exact foldlM_renews (fun _ _ _ => appendUnless_renews) haudit
    · obtain rfl := Option.some.inj haudit
      exact .of_same fun _ => rfl
  have hlate : ∀ t, t ≠ .pushVapidConfig → t ≠ .pushSubscription → t ≠ .pushPreference → t ≠ .notification → t ≠ .auditLog →
      sequenceOf t fin = sequenceOf t tables := by
    intro t h1 h2 h3 h4 h5
    rw [ha.other t h5, hn.other t h4, hf.other t h3, hs.other t h2, hv.other t h1]
  have hearly : ∀ t, byId t = false → sequenceOf t tables = sequenceOf t users := by
    intro t hno
    refine hsame t fun hmem => ?_
    rw [mem_restoreOrder, hno] at hmem
    cases hmem
  refine ⟨?_, fun t ht => ?_, fun t ht hno => ?_, fun t ht hno hcounted => ?_⟩
  · rw [hlate .user (by decide) (by decide) (by decide) (by decide) (by decide), hearly .user rfl]
    exact hgrows.subset
  · have hspecial : ∀ t', byId t' = false → t ≠ t' := by
      rintro t' hno rfl
      rw [ht] at hno
      cases hno
    obtain ⟨step, hstep, rfl⟩ := List.mem_map.1 ((mem_restoreOrder json p t).2 ht)
    rw [hlate step.1 (hspecial _ rfl) (hspecial _ rfl) (hspecial _ rfl) (hspecial _ rfl) (hspecial _ rfl), ← hgrows.other step.1 (hspecial _ rfl),
      ← numbers_of_ids (restoreOrder_ids json p step hstep)]
    exact hwrites step hstep
  · rw [ha.ahead_all, hn.ahead_all, hf.ahead_all, hs.ahead_all, hv.ahead_all, hearly t hno, hgrows.other t ht]
  · refine ha.counted_all t (hn.counted_all t (hf.counted_all t (hs.counted_all t (hv.counted_all t ?_))))
    rw [hearly t hno, hgrows.other t ht]
    exact hcounted

/-! ## The statements -/

theorem max_ids_low {rows : List Row} : (ids rows).max?.getD 1 < 1 ↔ (∃ i, i ∈ ids rows) ∧ ∀ i ∈ ids rows, i < 1 := by
  cases hmax : (ids rows).max? with
  | none =>
    have hnil := List.max?_eq_none_iff.1 hmax
    simp [hnil]
  | some m =>
    obtain ⟨hmem, hle⟩ := List.max?_eq_some_iff.1 hmax
    rw [Option.getD_some]
    constructor
    · intro hm
      refine ⟨⟨m, hmem⟩, fun i hi => ?_⟩
      have := hle i hi
      omega
    · exact fun hall => hall.2 m hmem

/-- A statement fails for a table with low ids only. -/
theorem setval_eq_none : setval t db = none ↔ (sequenceOf t db).Low := by
  unfold setval
  simp only [ite_eq_left_iff, reduceCtorEq, imp_false, not_not]
  exact max_ids_low

theorem setval_spec (h : setval t db = some db') :
    db'.rows = db.rows ∧ (∀ t', t' ≠ t → sequenceOf t' db' = sequenceOf t' db) ∧ (sequenceOf t db').Ahead := by
  unfold setval at h
  dsimp only at h
  split at h
  · cases h
  · rename_i hge
    obtain rfl := Option.some.inj h
    refine ⟨rfl, fun t' ht' => sequenceOf_congr rfl (Function.update_of_ne ht' ..), fun i hi => ?_⟩
    show i < ((Function.update db.serial t _ t : Nat) : Int) + 1
    rw [Function.update_self]
    have hle : i ≤ (ids (db.rows t)).max?.getD 1 := by
      cases hmax : (ids (db.rows t)).max? with
      | none =>
        have hnil := List.max?_eq_none_iff.1 hmax
        have hmem : i ∈ ids (db.rows t) := hi
        rw [hnil] at hmem
        cases hmem
      | some m => exact (List.max?_eq_some_iff.1 hmax).2 i hi
    omega

theorem foldl_failed (db : Db) (ts : List TableName) : ts.foldl Connection.execute ⟨db, true⟩ = ⟨db, true⟩ := by
  induction ts with
  | nil => rfl
  | cons t ts ih => exact ih

/-- **The transaction** takes the sequences ahead, up to the first table with low ids only, and leaves the others. -/
theorem foldl_execute {low : TableName → Bool} : ∀ {ts : List TableName} {db : Db}, ts.Nodup → (∀ t ∈ ts, low t = true ↔ (sequenceOf t db).Low) →
    (∀ t ∈ ts.takeWhile fun t => !low t, (sequenceOf t (ts.foldl Connection.execute ⟨db, false⟩).db).Ahead) ∧
      ∀ t, t ∉ ts.takeWhile (fun t => !low t) → sequenceOf t (ts.foldl Connection.execute ⟨db, false⟩).db = sequenceOf t db
  | [], db, _, _ => ⟨fun _ ht => absurd ht List.not_mem_nil, fun _ _ => rfl⟩
  | t :: ts, db, hnodup, hlow => by
    obtain ⟨hnew, hnodup⟩ := List.nodup_cons.1 hnodup
    have hhead := hlow t List.mem_cons_self
    cases hset : setval t db with
    | none =>
      have hconn : (t :: ts).foldl Connection.execute ⟨db, false⟩ = ⟨db, true⟩ := by
        show ts.foldl Connection.execute (Connection.execute ⟨db, false⟩ t) = _
        unfold Connection.execute
        simp only [Bool.false_eq_true, if_false, hset]
        exact foldl_failed db ts
      have htrue := hhead.2 (setval_eq_none.1 hset)
      rw [hconn, List.takeWhile_cons_of_neg (by simp [htrue])]
      exact ⟨fun _ ht => absurd ht List.not_mem_nil, fun _ _ => rfl⟩
    | some db' =>
      obtain ⟨hrows, hother, hahead⟩ := setval_spec hset
      have hconn : (t :: ts).foldl Connection.execute ⟨db, false⟩ = ts.foldl Connection.execute ⟨db', false⟩ := by
        show ts.foldl Connection.execute (Connection.execute ⟨db, false⟩ t) = _
        unfold Connection.execute
        simp only [Bool.false_eq_true, if_false, hset]
      have hfalse : low t = false := by
        rw [Bool.eq_false_iff]
        intro htrue
        rw [setval_eq_none.2 (hhead.1 htrue)] at hset
        cases hset
      have hlow' : ∀ t' ∈ ts, low t' = true ↔ (sequenceOf t' db').Low := by
        intro t' ht'
        rw [hother t' (fun heq => hnew (heq ▸ ht'))]
        exact hlow t' (List.mem_cons_of_mem _ ht')
      obtain ⟨hbumped, hleft⟩ := foldl_execute hnodup hlow'
      have hnotLater : t ∉ ts.takeWhile fun t => !low t := fun hmem => hnew ((List.takeWhile_sublist _).mem hmem)
      rw [hconn, List.takeWhile_cons_of_pos (by simp [hfalse])]
      refine ⟨fun t' ht' => ?_, fun t' ht' => ?_⟩
      · rcases List.mem_cons.1 ht' with rfl | ht'
        · rw [hleft _ hnotLater]
          exact hahead
        · exact hbumped t' ht'
      · rw [List.mem_cons, not_or] at ht'
        rw [hleft t' ht'.2, hother t' ht'.1]

theorem sequenceTables_nodup : sequenceTables.Nodup := by decide

/-! ## The condition -/

/-- What the archive's rows ask of a table's sequence: an id, or the next number. -/
def written (p : Payload) (t : TableName) : List (Option Int) := if byId t then (p t).map numberOf else []

/-- The archive's rows are the first of a table, and have ids below one. -/
def lowOnly (db : Db) (p : Payload) (t : TableName) : Bool :=
  (db.rows t).isEmpty && !(written p t).isEmpty && (written p t).all fun w => w.any fun i => decide (i < 1)

/-- The tables whose sequences are set. -/
def bumped (db : Db) (p : Payload) : List TableName := sequenceTables.takeWhile fun t => !lowOnly db p t

/-- The sequence is set, or it is far enough as it is, with the numbers it gives to the archive's rows. -/
def Covered (db : Db) (p : Payload) (t : TableName) : Prop :=
  t ∈ bumped db p ∨ ∀ i, some i ∈ (db.rows t).map numberOf ++ written p t → i ≤ db.serial t + (written p t).count none

theorem mem_sequenceOf {i : Int} : i ∈ (sequenceOf t db).ids ↔ some i ∈ (db.rows t).map numberOf := by
  simp [sequenceOf, ids, List.mem_filterMap, List.mem_map]

theorem Consistent.counted (h : Consistent S db) (t : TableName) : (sequenceOf t db).Counted := by
  intro i hi
  obtain ⟨r, hr, hri⟩ := mem_ids.1 hi
  obtain ⟨n, hn⟩ := (h.typed t r hr).id
  have := Value.int.inj (hri.symm.trans hn)
  omega

theorem Consistent.ids_eq_empty (h : Consistent S db) (t : TableName) : (sequenceOf t db).ids = ∅ ↔ db.rows t = [] := by
  constructor
  · intro hempty
    cases hrows : db.rows t with
    | nil => rfl
    | cons r rest =>
      have hr : r ∈ db.rows t := hrows ▸ List.mem_cons_self
      obtain ⟨n, hn⟩ := (h.typed t r hr).id
      have hmem : ((n + 1 : Nat) : Int) ∈ (sequenceOf t db).ids := mem_ids.2 ⟨r, hr, by simpa using hn⟩
      rw [hempty] at hmem
      cases hmem
  · intro hnil
    unfold sequenceOf
    simp [hnil, ids]

/-- Which tables are left with low ids only. -/
theorem lowOnly_iff {p : Payload} (hdb : Consistent S db) (huser : db.rows .user ≠ []) (h : Restored p db fin) (t : TableName) :
    lowOnly db p t = true ↔ (sequenceOf t fin).Low := by
  cases hbyId : byId t with
  | true =>
    rw [(h.writes t hbyId).low_iff (hdb.counted t), hdb.ids_eq_empty]
    unfold lowOnly written
    simp only [hbyId, if_true, Bool.and_eq_true, List.isEmpty_iff, Bool.not_eq_true', List.isEmpty_eq_false_iff, List.all_eq_true, Option.any_eq_true,
      decide_eq_true_eq, and_assoc]
  | false =>
    have hno : lowOnly db p t = false := by
      unfold lowOnly written
      simp [hbyId]
    rw [hno]
    refine iff_of_false Bool.false_ne_true ?_
    by_cases ht : t = .user
    · subst ht
      rintro ⟨-, hlow⟩
      have hne : (sequenceOf .user db).ids ≠ ∅ := fun hempty => huser ((hdb.ids_eq_empty .user).1 hempty)
      obtain ⟨i, hi⟩ := Set.nonempty_iff_ne_empty.2 hne
      have := hdb.counted .user i hi
      have := hlow i (h.user hi)
      omega
    · exact (h.counted t ht hbyId (hdb.counted t)).not_low

/-- **After a restore every table can take new rows**, if and only if its sequence is set or far enough as it is. Whoever restores is a user of
the database. -/
theorem restore_ahead_iff {json : JsonText} {p : Payload} {restoreAudit : Bool} (hdb : Consistent S db) (huser : db.rows .user ≠ []) (hp : Numbered p)
    (h : restoreWithSequences S json p restoreAudit db = some fin) : (∀ t, (sequenceOf t fin).Ahead) ↔ ∀ t, Covered db p t := by
  obtain ⟨mid, hmid, rfl⟩ := Option.map_eq_some_iff.1 h
  have hrestored := restore_sequences hp hmid
  have hlow := lowOnly_iff hdb huser hrestored
  obtain ⟨hbumped, hleft⟩ := foldl_execute sequenceTables_nodup fun t _ => hlow t
  refine forall_congr' fun t => ?_
  unfold Covered bumped
  by_cases ht : t ∈ sequenceTables.takeWhile fun t => !lowOnly db p t
  · exact iff_of_true (hbumped t ht) (Or.inl ht)
  · rw [or_iff_right ht]
    unfold fixPostgresSequences
    rw [hleft t ht]
    cases hbyId : byId t with
    | true =>
      rw [(hrestored.writes t hbyId).ahead_iff]
      unfold written
      simp only [hbyId, if_true, List.mem_append, mem_sequenceOf]
      rfl
    | false =>
      have hne : t ≠ .user := by
        rintro rfl
        refine ht ?_
        unfold sequenceTables
        rw [List.takeWhile_cons_of_pos (by simp [lowOnly, written, byId])]
        exact List.mem_cons_self
      rw [hrestored.ahead t hne hbyId]
      unfold written Sequence.Ahead
      simp only [hbyId, Bool.false_eq_true, if_false, List.append_nil, List.count_nil, mem_sequenceOf]
      refine forall_congr' fun i => imp_congr_right fun _ => ?_
      show i < (db.serial t : Int) + 1 ↔ i ≤ db.serial t + ((0 : Nat) : Int)
      omega

end tables

/-! ## A job of the archive -/

/-- A server, and one of its jobs. -/
def archivedJob (n : Int) : Payload
  | .server => [rowOf [(.id, .int 1)]]
  | .job => [rowOf [(.id, .int n), (.serverId, .int 1)]]
  | _ => []

theorem archivedJob_numbered (n : Int) : Numbered (archivedJob n) := by
  intro t r hr
  cases t <;> simp [archivedJob] at hr <;> subst hr <;> exact Or.inr ⟨_, rfl⟩

/-- The job has a number that the sequence gave before. -/
theorem old_job_restored : ∃ fin, restoreWithSequences .created noJson (archivedJob 3) false currentHost = some fin ∧ ∀ t, (sequenceOf t fin).Ahead := by
  have hrun : (restoreWithSequences .created noJson (archivedJob 3) false currentHost).isSome = true := by decide +kernel
  obtain ⟨fin, hfin⟩ := Option.isSome_iff_exists.1 hrun
  refine ⟨fin, hfin, (restore_ahead_iff (currentHost_consistent _) (List.cons_ne_nil _ _) (archivedJob_numbered 3) hfin).2 fun t => ?_⟩
  by_cases ht : t ∈ bumped currentHost (archivedJob 3)
  · exact Or.inl ht
  · refine Or.inr fun i hi => ?_
    cases t with
    | job =>
      obtain rfl : i = 3 := by simpa [currentHost, written, byId, archivedJob, numberOf, rowOf] using hi
      decide
    | webAuthnCredential => simp [currentHost, written, byId, archivedJob] at hi
    | nmapScanRun => simp [currentHost, written, byId, archivedJob] at hi
    | composeProjectMeta => simp [currentHost, written, byId, archivedJob] at hi
    | _ => exact absurd (by decide) ht

/-- The next job after a restore gets the number of a job that is there. -/
theorem job_collides : Consistent .created currentHost ∧ Numbered (archivedJob 6) ∧
    ∃ fin, restoreWithSequences .created noJson (archivedJob 6) false currentHost = some fin ∧ ¬ (sequenceOf .job fin).Ahead ∧
      insertNew .created .job (rowOf [(.serverId, .int 1)]) fin = none := by
  refine ⟨currentHost_consistent _, archivedJob_numbered 6, ?_⟩
  have hrun : (restoreWithSequences .created noJson (archivedJob 6) false currentHost).any (fun fin =>
      decide (fin.serial .job = 5) && decide (6 ∈ ids (fin.rows .job)) &&
        (insertNew .created .job (rowOf [(.serverId, .int 1)]) fin).isNone) = true := by decide +kernel
  obtain ⟨fin, hfin, hcheck⟩ := (Option.any_eq_true _ _).1 hrun
  simp only [Bool.and_eq_true, decide_eq_true_eq, Option.isNone_iff_eq_none] at hcheck
  obtain ⟨⟨hserial, hjob⟩, hinsert⟩ := hcheck
  refine ⟨fin, hfin, fun hahead => ?_, hinsert⟩
  have hlt : (6 : Int) < (fin.serial .job : Int) + 1 := hahead 6 hjob
  omega

end PiHerder.Config
