import PiHerder.Lib.Relational

/-!
# Deletes against the schema

The tables of `models.py` with their foreign keys, which PostgreSQL enforces without a cascade, and the deletes that
see to them by hand.

| here | there |
| --- | --- |
| `schema`                         | every `foreign_key=` of `models.py` |
| `userColumns`                    | `detach_and_delete_user` (`services/user_admin.py:93-160`) |
| `deleteCertificate`, `resolveCertTargetAlerts` | `services/certificates.py:1146`, `services/notifications.py:634` |
| `jobStale`, `auditStale`, `readAuditStale`, `nmapStale` | `services/stale_data_cleanup.py:58`, `:239`, `:256`, `:65` |
| `Delete.run`                     | each of them, and `delete_api_token` (`services/api_tokens.py:632`) |

What a browser is told when an alert resolves is the push service's to answer: `Pushes` stands for it.
-/
namespace PiHerder.Store
open Lib Lib.Database

inductive Tbl
  | user | totpBackupCode | trustedDevice | webAuthnCredential | oidcIdentity | passwordResetToken | userFavourite
  | server | serverSshIdentity | auditLog | job | dockerVersion | notification | pushSubscription | pushPreference
  | apiToken | mcpOAuthCode | mcpOAuthRefresh | integration | serviceTemplate | stackDeployment | composeProjectMeta
  | integrationBinding | managedCertificate | certificateTarget | serviceDnsRecord | runtimeEdge | visualServiceStack
  | containerAnnotations | containerAnnotationTag | portAnnotations | nmapScanSchedule | nmapScanRun | nmapDevice
  | nmapScriptResult
deriving DecidableEq, Repr

inductive Col
  | userId | serverId | apiTokenId | createdByUserId | templateId | lockedByUserId | integrationId | sourceIntegrationId
  | certificateId | targetServerId | backendServerId | stackDeploymentId | fromServerId | toServerId | visualStackId
  | annotationId | nmapDeviceId | jobId | scheduleId | linkedServerId | lastRunId | deviceId | runId
deriving DecidableEq, Repr

/-- The other columns that the deletes read or write; a table has those that `models.py` gives it. -/
structure Cols where
  status : String := ""
  action : String := ""
  fingerprint : String := ""
  createdAt : Nat := 0
  startedAt : Nat := 0
  finishedAt : Option Nat := none
  updatedAt : Nat := 0
  resolvedAt : Option Nat := none
  lastSuccessAt : Option Nat := none

abbrev Rec := Row Col Cols
abbrev Db := Database Tbl Col Cols

/-- A reference that may not be null (`int`). -/
def must (table : Tbl) (column : Col) (target : Tbl) : ForeignKey Tbl Col := ⟨table, column, target, false⟩
/-- One that may (`Optional[int]`). -/
def may (table : Tbl) (column : Col) (target : Tbl) : ForeignKey Tbl Col := ⟨table, column, target, true⟩

/-- The foreign keys of `models.py`, in its order. -/
def schema : List (ForeignKey Tbl Col) :=
  [ must .totpBackupCode .userId .user, must .trustedDevice .userId .user, must .webAuthnCredential .userId .user,
    must .oidcIdentity .userId .user, must .passwordResetToken .userId .user, must .userFavourite .userId .user,
    may .userFavourite .serverId .server, must .serverSshIdentity .serverId .server, may .auditLog .userId .user,
    may .auditLog .serverId .server, may .auditLog .apiTokenId .apiToken, may .job .serverId .server,
    must .dockerVersion .serverId .server, may .notification .userId .user, may .notification .serverId .server,
    must .pushSubscription .userId .user, must .pushPreference .userId .user, may .apiToken .createdByUserId .user,
    must .mcpOAuthCode .userId .user, must .mcpOAuthRefresh .apiTokenId .apiToken, must .stackDeployment .serverId .server,
    may .stackDeployment .templateId .serviceTemplate, must .composeProjectMeta .serverId .server,
    may .composeProjectMeta .lockedByUserId .user, must .integrationBinding .integrationId .integration,
    must .integrationBinding .serverId .server, may .managedCertificate .sourceIntegrationId .integration,
    must .certificateTarget .certificateId .managedCertificate, must .certificateTarget .serverId .server,
    must .serviceDnsRecord .targetServerId .server, must .serviceDnsRecord .backendServerId .server,
    may .serviceDnsRecord .stackDeploymentId .stackDeployment, may .serviceDnsRecord .certificateId .managedCertificate,
    must .runtimeEdge .fromServerId .server, must .runtimeEdge .toServerId .server, may .runtimeEdge .createdByUserId .user,
    must .visualServiceStack .serverId .server, must .containerAnnotations .serverId .server,
    may .containerAnnotations .visualStackId .visualServiceStack, must .containerAnnotationTag .annotationId .containerAnnotations,
    may .portAnnotations .serverId .server, may .portAnnotations .nmapDeviceId .nmapDevice,
    may .portAnnotations .createdByUserId .user, must .nmapScanSchedule .integrationId .integration,
    must .nmapScanRun .integrationId .integration, may .nmapScanRun .jobId .job,
    may .nmapScanRun .scheduleId .nmapScanSchedule, must .nmapDevice .integrationId .integration,
    may .nmapDevice .linkedServerId .server, may .nmapDevice .lastRunId .nmapScanRun,
    must .nmapScriptResult .deviceId .nmapDevice, may .nmapScriptResult .runId .nmapScanRun ]

/-- `for row in session.exec(select(t).where(t.c == id)): session.delete(row)`. -/
def drop (table : Tbl) (column : Col) : Handled Tbl Col := ⟨table, column, true⟩
/-- `for row in …: row.c = None`. -/
def null (table : Tbl) (column : Col) : Handled Tbl Col := ⟨table, column, false⟩

def userColumns : List (Handled Tbl Col) :=
  [ drop .totpBackupCode .userId, drop .webAuthnCredential .userId, drop .trustedDevice .userId, drop .pushSubscription .userId,
    drop .pushPreference .userId, drop .userFavourite .userId, drop .oidcIdentity .userId, drop .passwordResetToken .userId,
    null .auditLog .userId, null .notification .userId, null .apiToken .createdByUserId, null .runtimeEdge .createdByUserId,
    null .portAnnotations .createdByUserId ]

section Stale

def terminalJobStatuses : List String := ["success", "failed", "cancelled"]

/-- `(finished_at or created_at) < cut`, in a terminal status. -/
def jobStale (cut : Nat) (r : Rec) : Bool :=
  terminalJobStatuses.contains r.data.status && decide (r.data.finishedAt.getD r.data.createdAt < cut)

def nmapStale (cut : Nat) (r : Rec) : Bool :=
  ["success", "failed", "cancelled"].contains r.data.status && decide (r.data.finishedAt.getD r.data.createdAt < cut)

def auditStale (cut : Nat) (r : Rec) : Bool := decide (r.data.startedAt < cut) && r.data.action != "api_read"

def readAuditStale (cut : Nat) (r : Rec) : Bool := r.data.action == "api_read" && decide (r.data.startedAt < cut)

/-- `if keep_job_id and j.id == keep_job_id: continue`. -/
def oldJob (cut : Nat) (keep : Option Nat) (r : Rec) : Bool :=
  !(keep.any fun k => k != 0 && r.id == k) && jobStale cut r

end Stale

section Alerts

/-- What came of telling one subscription that an alert is over. -/
inductive Push
  /-- Not sent, or refused. -/
  | skipped
  | delivered
  /-- The service answers 404 or 410. -/
  | dead
deriving DecidableEq, Repr

/-- By the alert and the subscription. -/
abbrev Pushes := Nat → Nat → Push

def certDeployFailedFingerprint (target : Nat) : String := "cert_deploy_failed:target:" ++ toString target
def certVerifyFailedFingerprint (target : Nat) : String := "cert_verify_failed:target:" ++ toString target

def isOpen (fingerprint : String) (n : Rec) : Bool := n.data.fingerprint == fingerprint && n.data.status == "open"

def resolved (now : Nat) (n : Rec) : Rec :=
  { n with data := { n.data with status := "resolved", resolvedAt := some now, updatedAt := now } }

/-- `_maybe_push_resolved` (notifications.py:420): a subscription is stamped, or dropped as dead. -/
def pushResolved (push : Pushes) (now : Nat) (subs : List Rec) (alert : Nat) : List Rec :=
  subs.filterMap fun s => match push alert s.id with
    | .skipped => some s
    | .delivered => some { s with data := { s.data with lastSuccessAt := some now } }
    | .dead => none

/-- `resolve_by_fingerprint` (notifications.py:210). -/
def resolveByFingerprint (push : Pushes) (now : Nat) (fingerprint : String) (db : Db) : Db := fun t =>
  if t = .notification then (db .notification).map fun n => if isOpen fingerprint n then resolved now n else n
  else if t = .pushSubscription then
    (((db .notification).filter (isOpen fingerprint)).map Row.id).foldl (pushResolved push now) (db .pushSubscription)
  else db t

def resolveCertTargetAlerts (push : Pushes) (now : Nat) (db : Db) (target : Nat) : Db :=
  resolveByFingerprint push now (certVerifyFailedFingerprint target)
    (resolveByFingerprint push now (certDeployFailedFingerprint target) db)

end Alerts

/-- `delete_certificate`; the deletes of its targets are flushed before its own. -/
def deleteCertificate (push : Pushes) (now cert : Nat) (db : Db) : Option Db :=
  if !(db .managedCertificate).any (·.id == cert) then some db
  else
    let targets := (db .certificateTarget).filter (·.refersTo .certificateId [cert])
    detachAndDelete schema [drop .certificateTarget .certificateId] .managedCertificate (·.id == cert)
      ((targets.map Row.id).foldl (resolveCertTargetAlerts push now) db)

inductive Delete
  | user (uid : Nat)
  | apiToken (token : Nat)
  | certificate (cert : Nat)
  | oldJobs (cut : Nat) (keep : Option Nat)
  | oldAudit (cut : Nat)
  | oldReadAudit (cut : Nat)
  | oldNmapRuns (cut : Nat)
deriving DecidableEq, Repr

namespace Delete

/-- The columns that each sees to first. -/
def columns : Delete → List (Handled Tbl Col)
  | user _ => userColumns
  | apiToken _ => []
  | certificate _ => [drop .certificateTarget .certificateId]
  | oldJobs _ _ => [null .nmapScanRun .jobId]
  | oldAudit _ => []
  | oldReadAudit _ => []
  | oldNmapRuns _ => [null .nmapDevice .lastRunId, drop .nmapScriptResult .runId]

def table : Delete → Tbl
  | user _ => .user
  | apiToken _ => .apiToken
  | certificate _ => .managedCertificate
  | oldJobs _ _ => .job
  | oldAudit _ => .auditLog
  | oldReadAudit _ => .auditLog
  | oldNmapRuns _ => .nmapScanRun

/-- The rows that it is to delete. -/
def rows : Delete → Rec → Bool
  | user uid => (·.id == uid)
  | apiToken token => (·.id == token)
  | certificate cert => (·.id == cert)
  | oldJobs cut keep => oldJob cut keep
  | oldAudit cut => auditStale cut
  | oldReadAudit cut => readAuditStale cut
  | oldNmapRuns cut => nmapStale cut

def run (push : Pushes) (now : Nat) : Delete → Db → Option Db
  | certificate cert => deleteCertificate push now cert
  | d => detachAndDelete schema d.columns d.table d.rows

/-- The foreign keys to its table that it leaves out. -/
def leftOut : Delete → List (ForeignKey Tbl Col)
  | user _ => [must .mcpOAuthCode .userId .user, may .composeProjectMeta .lockedByUserId .user]
  | apiToken _ => [may .auditLog .apiTokenId .apiToken, must .mcpOAuthRefresh .apiTokenId .apiToken]
  | certificate _ => [may .serviceDnsRecord .certificateId .managedCertificate]
  | _ => []

theorem leftOut_eq (d : Delete) : unhandled schema d.columns d.table = d.leftOut := by
  cases d <;> dsimp only [columns, table, leftOut] <;> decide

theorem fits (d : Delete) : Fits schema d.columns d.table := by
  constructor <;> cases d <;> dsimp only [columns, table] <;> decide

/-- No foreign key that it leaves out holds a row that it is to delete. -/
def Unused (d : Delete) (db : Db) : Prop :=
  ∀ k ∈ d.leftOut, ∀ r ∈ db k.table, r.refersTo k.column (((db d.table).filter d.rows).map Row.id) = false

instance (d : Delete) (db : Db) : Decidable (d.Unused db) := inferInstanceAs (Decidable (∀ k ∈ d.leftOut, _))

end Delete

section Alerted

/-- An open alert about the certificate target `i`. -/
def AlertOf (db : Db) (i : Nat) (n : Rec) : Prop :=
  n ∈ db .notification ∧ n.data.status = "open" ∧
    (n.data.fingerprint = certDeployFailedFingerprint i ∨ n.data.fingerprint = certVerifyFailedFingerprint i)

/-- A row that hears of the end of target `i`: an open alert about it, or a subscription that such an alert is pushed to. -/
def Hears (push : Pushes) (db : Db) (i : Nat) (t : Tbl) (r : Rec) : Prop :=
  (t = .notification ∧ AlertOf db i r) ∨
    (t = .pushSubscription ∧ ∃ n, AlertOf db i n ∧ push n.id r.id ≠ .skipped)

/-- `db'` is `db` after the alerts about these targets are resolved. -/
structure Told (push : Pushes) (targets : List Nat) (db db' : Db) : Prop where
  others : ∀ t, t ≠ .notification → t ≠ .pushSubscription → db' t = db t
  old : ∀ t, ∀ r' ∈ db' t, ∃ r ∈ db t, r.id = r'.id ∧ r.ref = r'.ref ∧ r.data.fingerprint = r'.data.fingerprint ∧
    (r'.data.status = "open" → r.data.status = "open")
  kept : ∀ t, ∀ r ∈ db t, r ∉ db' t → ∃ i ∈ targets, Hears push db i t r
  ids : ∀ t, ((db' t).map Row.id).Sublist ((db t).map Row.id)

variable {push : Pushes} {now : Nat} {db mid db' : Db} {ts ts' : List Nat}

theorem Told.refl (db : Db) : Told push [] db db :=
  ⟨fun _ _ _ => rfl, fun _ r hr => ⟨r, hr, rfl, rfl, rfl, id⟩, fun _ _ hr hno => absurd hr hno, fun _ => .refl _⟩

theorem Told.trans (h : Told push ts db mid) (h' : Told push ts' mid db') : Told push (ts ++ ts') db db' where
  others t hn hp := (h'.others t hn hp).trans (h.others t hn hp)
  old t r'' hr'' := by
    obtain ⟨r', hr', hid', href', hfp', hst'⟩ := h'.old t r'' hr''
    obtain ⟨r, hr, hid, href, hfp, hst⟩ := h.old t r' hr'
    exact ⟨r, hr, hid.trans hid', href.trans href', hfp.trans hfp', hst ∘ hst'⟩
  kept t r hr hno := by
    by_cases hmem : r ∈ mid t
    · obtain ⟨i, hi, hhears⟩ := h'.kept t r hmem hno
      refine ⟨i, List.mem_append_right _ hi, ?_⟩
      rcases hhears with ⟨rfl, -, hopen, hfp⟩ | ⟨rfl, n', ⟨hn', hopen, hfp⟩, hpush⟩
      · exact Or.inl ⟨rfl, hr, hopen, hfp⟩
      · obtain ⟨n, hn, hid, -, hfp', hst⟩ := h.old _ n' hn'
        exact Or.inr ⟨rfl, n, ⟨hn, hst hopen, by rwa [hfp']⟩, by rwa [hid]⟩
    · obtain ⟨i, hi, hhears⟩ := h.kept t r hr hmem
      exact ⟨i, List.mem_append_left _ hi, hhears⟩
  ids t := (h'.ids t).trans (h.ids t)

/-- A push stamps a subscription or drops it. -/
theorem mem_pushResolved {subs : List Rec} {alert : Nat} {s : Rec} (hs : s ∈ pushResolved push now subs alert) :
    ∃ s₀ ∈ subs, s₀.id = s.id ∧ s₀.ref = s.ref ∧ s₀.data.fingerprint = s.data.fingerprint ∧ s₀.data.status = s.data.status := by
  obtain ⟨s₀, hs₀, heq⟩ := List.mem_filterMap.1 hs
  refine ⟨s₀, hs₀, ?_⟩
  split at heq
  · obtain rfl := Option.some.inj heq
    exact ⟨rfl, rfl, rfl, rfl⟩
  · obtain rfl := Option.some.inj heq
    exact ⟨rfl, rfl, rfl, rfl⟩
  · cases heq

theorem pushResolved_ids (subs : List Rec) (alert : Nat) :
    ((pushResolved push now subs alert).map Row.id).Sublist (subs.map Row.id) := by
  unfold pushResolved
  induction subs with
  | nil => exact .refl _
  | cons s subs ih =>
    rw [List.filterMap_cons]
    cases push alert s.id with
    | skipped => exact ih.cons_cons _
    | delivered => exact ih.cons_cons _
    | dead => exact ih.cons _

theorem pushes_old {s : Rec} : ∀ (alerts : List Nat) (subs : List Rec), s ∈ alerts.foldl (pushResolved push now) subs →
    ∃ s₀ ∈ subs, s₀.id = s.id ∧ s₀.ref = s.ref ∧ s₀.data.fingerprint = s.data.fingerprint ∧ s₀.data.status = s.data.status
  | [], _, hs => ⟨s, hs, rfl, rfl, rfl, rfl⟩
  | a :: alerts, subs, hs => by
    obtain ⟨s₁, hs₁, hid, href, hfp, hst⟩ := pushes_old alerts (pushResolved push now subs a) hs
    obtain ⟨s₀, hs₀, hid', href', hfp', hst'⟩ := mem_pushResolved hs₁
    exact ⟨s₀, hs₀, hid'.trans hid, href'.trans href, hfp'.trans hfp, hst'.trans hst⟩

theorem pushes_ids : ∀ (alerts : List Nat) (subs : List Rec),
    ((alerts.foldl (pushResolved push now) subs).map Row.id).Sublist (subs.map Row.id)
  | [], _ => .refl _
  | a :: alerts, subs => (pushes_ids alerts (pushResolved push now subs a)).trans (pushResolved_ids subs a)

/-- A subscription that nothing was sent to stays as it is. -/
theorem pushes_kept {s : Rec} : ∀ (alerts : List Nat) (subs : List Rec), s ∈ subs → (∀ a ∈ alerts, push a s.id = .skipped) →
    s ∈ alerts.foldl (pushResolved push now) subs
  | [], _, hs, _ => hs
  | a :: alerts, subs, hs, hno => by
    refine pushes_kept alerts (pushResolved push now subs a) ?_ fun b hb => hno b (List.mem_cons_of_mem _ hb)
    exact List.mem_filterMap.2 ⟨s, hs, by rw [hno a List.mem_cons_self]⟩

theorem told_resolveByFingerprint {fingerprint : String} {i : Nat}
    (hfp : fingerprint = certDeployFailedFingerprint i ∨ fingerprint = certVerifyFailedFingerprint i) (db : Db) :
    Told push [i] db (resolveByFingerprint push now fingerprint db) := by
  have halert : ∀ n ∈ db .notification, isOpen fingerprint n = true → AlertOf db i n := by
    intro n hn hopen
    simp only [isOpen, Bool.and_eq_true, beq_iff_eq] at hopen
    exact ⟨hn, hopen.2, hopen.1 ▸ hfp⟩
  refine ⟨fun t hn hp => ?_, fun t r' hr' => ?_, fun t r hr hno => ⟨i, List.mem_singleton_self i, ?_⟩, fun t => ?_⟩
  · simp only [resolveByFingerprint, if_neg hn, if_neg hp]
  · unfold resolveByFingerprint at hr'
    split at hr'
    · rename_i ht
      subst ht
      obtain ⟨n, hn, rfl⟩ := List.mem_map.1 hr'
      refine ⟨n, hn, ?_⟩
      split
      · exact ⟨rfl, rfl, rfl, fun hopen => absurd hopen (by simp [resolved])⟩
      · exact ⟨rfl, rfl, rfl, id⟩
    · split at hr'
      · rename_i ht
        subst ht
        obtain ⟨s₀, hs₀, hid, href, hf, hst⟩ := pushes_old _ _ hr'
        exact ⟨s₀, hs₀, hid, href, hf, fun hopen => hst.trans hopen⟩
      · exact ⟨r', hr', rfl, rfl, rfl, id⟩
  · unfold resolveByFingerprint at hno
    split at hno
    · rename_i ht
      subst ht
      refine Or.inl ⟨rfl, halert r hr ?_⟩
      by_contra hclosed
      exact hno (List.mem_map.2 ⟨r, hr, if_neg hclosed⟩)
    · split at hno
      · rename_i ht
        subst ht
        by_contra hdeaf
        refine hno (pushes_kept _ _ hr fun a ha => ?_)
        obtain ⟨n, hn, rfl⟩ := List.mem_map.1 ha
        obtain ⟨hn, hopen⟩ := List.mem_filter.1 hn
        by_contra hsent
        exact hdeaf (Or.inr ⟨rfl, n, halert n hn hopen, hsent⟩)
      · exact absurd hr hno
  · unfold resolveByFingerprint
    split
    · rename_i ht
      subst ht
      rw [List.map_map, List.map_congr_left fun n _ => ?_]
      simp only [Function.comp_apply]
      split <;> rfl
    · split
      · rename_i ht
        subst ht
        exact pushes_ids _ _
      · exact .refl _

/-- The deploy alert first, then the verify alert. -/
theorem told_resolveCertTargetAlerts (db : Db) (i : Nat) : Told push [i, i] db (resolveCertTargetAlerts push now db i) :=
  (told_resolveByFingerprint (Or.inl rfl) db).trans (told_resolveByFingerprint (Or.inr rfl) _)

theorem told_all : ∀ (targets : List Nat) (db : Db),
    Told push (targets.flatMap fun i => [i, i]) db (targets.foldl (resolveCertTargetAlerts push now) db)
  | [], db => .refl db
  | i :: targets, db => (told_resolveCertTargetAlerts db i).trans (told_all targets (resolveCertTargetAlerts push now db i))

/-- Nothing refers to an alert or to a subscription, so the references stay whole. -/
theorem Told.whole (h : Told push ts db db') (hwhole : Whole schema db) : Whole schema db' where
  ids t := (hwhole.ids t).sublist (h.ids t)
  refs k hk r' hr' i hi := by
    obtain ⟨r, hr, -, href, -⟩ := h.old _ r' hr'
    obtain ⟨target, htarget, hid⟩ := hwhole.refs k hk r hr i (href ▸ hi)
    have hleaf : ∀ k ∈ schema, k.target ≠ .notification ∧ k.target ≠ .pushSubscription := by decide
    exact ⟨target, by rwa [h.others _ (hleaf k hk).1 (hleaf k hk).2], hid⟩
  notNull k hk hnull r' hr' := by
    obtain ⟨r, hr, -, href, -⟩ := h.old _ r' hr'
    rw [← href]
    exact hwhole.notNull k hk hnull r hr

end Alerted

section Keeps
variable (push : Pushes) (now : Nat)

/-- A row refers to row `i` of `t'`: by a foreign key, or by hearing of a certificate target. -/
def Concerns (db : Db) (t : Tbl) (r : Rec) (t' : Tbl) (i : Nat) : Prop :=
  Refers schema t r t' i ∨ (t' = .certificateTarget ∧ Hears push db i t r)

/-- The delete goes through, every foreign key still points to a row, the rows it is to delete are gone, and no
other row is touched than those that referred to a deleted one. -/
def KeepsWhole (d : Delete) (db : Db) : Prop :=
  ∃ db', d.run push now db = some db' ∧ Whole schema db' ∧
    OnlyReferring (Concerns push db) (fun t r => t = d.table ∧ d.rows r = true) db db'

theorem keepsWhole_of_detach {d : Delete} {db : Db} (hwhole : Whole schema db)
    (hrun : d.run push now db = detachAndDelete schema d.columns d.table d.rows db) : KeepsWhole push now d db ↔ d.Unused db := by
  unfold KeepsWhole Delete.Unused
  rw [hrun, ← d.leftOut_eq, ← detachAndDelete_iff d.fits]
  constructor
  · rintro ⟨db', hdb', -⟩
    exact ⟨db', hdb'⟩
  · rintro ⟨db', hdb'⟩
    obtain ⟨hwhole', honly, -⟩ := detachAndDelete_keeps d.fits hwhole hdb'
    refine ⟨db', hdb', hwhole', honly.gone, fun t r hr hno => (honly.kept t r hr hno).imp_right ?_, honly.old⟩
    rintro ⟨t', i, href, hgone⟩
    exact ⟨t', i, Or.inl href, hgone⟩

/-- A target of the certificate goes with it: its column may not be null, and points to a row that is gone. -/
theorem target_deleted {cert : Nat} {db db' : Db} {r : Rec} (hwhole : Whole schema db) (hwhole' : Whole schema db')
    (hgone : ∀ r' ∈ db' .managedCertificate, r'.id ≠ cert) (hcleared : ∀ t, ∀ r' ∈ db' t, ∃ r ∈ db t, r.Cleared r')
    (hr : r ∈ db .certificateTarget) (href : r.ref .certificateId = some cert) : Deleted db db' .certificateTarget r.id := by
  have hk : must .certificateTarget .certificateId .managedCertificate ∈ schema := by decide
  refine ⟨⟨r, hr, rfl⟩, fun r' hr' hid => ?_⟩
  obtain ⟨r₀, hr₀, hclear⟩ := hcleared _ r' hr'
  obtain rfl := List.inj_on_of_nodup_map (hwhole.ids .certificateTarget) hr₀ hr (hclear.id.symm.trans hid)
  rcases hclear.ref .certificateId with hcol | hcol
  · obtain ⟨cert', hcert', hid'⟩ := hwhole'.refs _ hk r' hr' cert (hcol.trans href)
    exact hgone cert' hcert' hid'
  · exact hwhole'.notNull _ hk rfl r' hr' hcol

theorem keepsWhole_certificate {cert : Nat} {db : Db} (hwhole : Whole schema db) :
    KeepsWhole push now (.certificate cert) db ↔ (Delete.certificate cert).Unused db := by
  by_cases hrow : ∃ r ∈ db .managedCertificate, r.id = cert
  · have hany : (db .managedCertificate).any (·.id == cert) = true := by simpa using hrow
    obtain ⟨row, hrow, hid⟩ := hrow
    have htold := @told_all push now (((db .certificateTarget).filter (·.refersTo .certificateId [cert])).map Row.id) db
    have hwhole' := htold.whole hwhole
    have hrun : (Delete.certificate cert).run push now db = detachAndDelete schema (Delete.certificate cert).columns
        (Delete.certificate cert).table (Delete.certificate cert).rows
        ((((db .certificateTarget).filter (·.refersTo .certificateId [cert])).map Row.id).foldl (resolveCertTargetAlerts push now) db) := by
      simp only [Delete.run, deleteCertificate, hany, Bool.not_true, Bool.false_eq_true, if_false]
      rfl
    have htarget : ∀ i ∈ (((db .certificateTarget).filter (·.refersTo .certificateId [cert])).map Row.id).flatMap (fun i => [i, i]),
        ∃ r ∈ db .certificateTarget, r.id = i ∧ r.ref .certificateId = some cert := by
      intro i hi
      obtain ⟨j, hj, hij⟩ := List.mem_flatMap.1 hi
      obtain rfl : i = j := by simpa using hij
      obtain ⟨r, hr, rfl⟩ := List.mem_map.1 hj
      obtain ⟨hr, href⟩ := List.mem_filter.1 hr
      obtain ⟨c, hc, href⟩ := Row.refersTo_iff.1 href
      exact ⟨r, hr, rfl, List.mem_singleton.1 hc ▸ href⟩
    generalize (((db .certificateTarget).filter (·.refersTo .certificateId [cert])).map Row.id).foldl (resolveCertTargetAlerts push now) db
      = mid at htold hwhole' hrun
    have hcerts : mid .managedCertificate = db .managedCertificate := htold.others _ (by decide) (by decide)
    have htargets : mid .certificateTarget = db .certificateTarget := htold.others _ (by decide) (by decide)
    have hunused : (Delete.certificate cert).Unused mid ↔ (Delete.certificate cert).Unused db := by
      simp only [Delete.Unused, Delete.leftOut, Delete.table, List.mem_singleton, forall_eq, may, hcerts,
        htold.others .serviceDnsRecord (by decide) (by decide)]
    have hdeleted : ∀ {db' t i}, Deleted mid db' t i → Deleted db db' t i := by
      rintro db' t i ⟨⟨r, hr, hid⟩, hgone⟩
      obtain ⟨r₀, hr₀, hid₀, -⟩ := htold.old t r hr
      exact ⟨⟨r₀, hr₀, hid₀.trans hid⟩, hgone⟩
    unfold KeepsWhole
    rw [← hunused, hrun]
    unfold Delete.Unused
    rw [← Delete.leftOut_eq, ← detachAndDelete_iff (Delete.fits _)]
    constructor
    · rintro ⟨db', hdb', -⟩
      exact ⟨db', hdb'⟩
    · rintro ⟨db', hdb'⟩
      obtain ⟨hwhole₂, honly, hcleared⟩ := detachAndDelete_keeps (Delete.fits _) hwhole' hdb'
      refine ⟨db', hdb', hwhole₂, ?_, fun t r hr hno => ?_, fun t r' hr' => ?_⟩
      · rintro t r hr ⟨rfl, hr'⟩
        exact hdeleted (honly.gone _ r (hcerts.symm ▸ hr) ⟨rfl, hr'⟩)
      · by_cases hmid : r ∈ mid t
        · refine (honly.kept t r hmid hno).imp_right ?_
          rintro ⟨t', i, href, hgone⟩
          exact ⟨t', i, Or.inl href, hdeleted hgone⟩
        · -- the row has heard of a target, and the target goes with the certificate
          obtain ⟨i, hi, hhears⟩ := htold.kept t r hr hmid
          obtain ⟨target, htarget, rfl, href⟩ := htarget i hi
          refine Or.inr ⟨.certificateTarget, target.id, Or.inr ⟨rfl, hhears⟩, hdeleted ?_⟩
          refine target_deleted hwhole' hwhole₂ ?_ hcleared (htargets.symm ▸ htarget) href
          intro r' hr'
          have hcert := (honly.gone _ row (hcerts.symm ▸ hrow) ⟨rfl, by simp [Delete.rows, hid]⟩).2 r' hr'
          rwa [hid] at hcert
      · obtain ⟨r, hr, hid⟩ := honly.old t r' hr'
        obtain ⟨r₀, hr₀, hid₀, -⟩ := htold.old t r hr
        exact ⟨r₀, hr₀, hid₀.trans hid⟩
  · have hnone : (db .managedCertificate).filter (·.id == cert) = [] := by
      rw [List.filter_eq_nil_iff]
      intro r hr hid
      exact hrow ⟨r, hr, beq_iff_eq.1 hid⟩
    have hany : (db .managedCertificate).any (·.id == cert) = false := by simpa using hrow
    refine iff_of_true ⟨db, ?_, hwhole, ?_, fun t r hr hno => absurd hr hno, fun t r hr => ⟨r, hr, rfl⟩⟩ ?_
    · simp [Delete.run, deleteCertificate, hany]
    · rintro t r hr ⟨rfl, hid⟩
      exact absurd ⟨r, hr, beq_iff_eq.1 hid⟩ hrow
    · intro k _ r _
      simp only [Delete.table, Delete.rows, hnone, List.map_nil]
      unfold Row.refersTo
      cases r.ref k.column <;> rfl

/-- **A delete keeps every reference whole exactly when no foreign key that it leaves out is in use** for a row that
it is to delete. -/
theorem keepsWhole_iff (d : Delete) (db : Db) (hwhole : Whole schema db) : KeepsWhole push now d db ↔ d.Unused db := by
  cases d with
  | certificate cert => exact keepsWhole_certificate push now hwhole
  | user uid => exact keepsWhole_of_detach push now hwhole rfl
  | apiToken token => exact keepsWhole_of_detach push now hwhole rfl
  | oldJobs cut keep => exact keepsWhole_of_detach push now hwhole rfl
  | oldAudit cut => exact keepsWhole_of_detach push now hwhole rfl
  | oldReadAudit cut => exact keepsWhole_of_detach push now hwhole rfl
  | oldNmapRuns cut => exact keepsWhole_of_detach push now hwhole rfl

def refTo (c : Col) (i : Nat) : Col → Option Nat := fun c' => if c' = c then some i else none

/-- User 3 has a backup code and an audit row; user 5 has an authorization code of an MCP client. -/
def twoUsers : Db
  | .user => [⟨3, fun _ => none, {}⟩, ⟨5, fun _ => none, {}⟩]
  | .totpBackupCode => [⟨1, refTo .userId 3, {}⟩]
  | .auditLog => [⟨1, refTo .userId 3, { action := "login" }⟩]
  | .mcpOAuthCode => [⟨1, refTo .userId 5, {}⟩]
  | _ => []

theorem twoUsers_whole : Whole schema twoUsers where
  ids t := by cases t <;> decide
  refs := by decide
  notNull := by decide

theorem keepsWhole_twoUsers : KeepsWhole (fun _ _ => .skipped) 0 (.user 3) twoUsers :=
  (keepsWhole_iff _ 0 (.user 3) twoUsers twoUsers_whole).2 (by decide)

/-- **User 5 cannot be deleted**: the code still refers to them. -/
theorem code_holder_stays : Whole schema twoUsers ∧ ¬ KeepsWhole (fun _ _ => .skipped) 0 (.user 5) twoUsers := by
  refine ⟨twoUsers_whole, ?_⟩
  rintro ⟨db', hdb', -⟩
  have hfails : (Delete.run (fun _ _ => .skipped) 0 (.user 5) twoUsers).isSome = false := by decide
  rw [hdb'] at hfails
  cases hfails

end Keeps
end PiHerder.Store
