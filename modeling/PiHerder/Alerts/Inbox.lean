import PiHerder.Alerts.Policy
import PiHerder.Lib.Runs
import PiHerder.Lib.Table

/-!
# The notification center

| here | there (`services/notifications.py`) |
| --- | --- |
| `Notification` | `models.py:428` |
| `policyFor`, `refresh`, `upsertNotification` | `upsert_notification` (43–176) |
| `Sent` | what `_fire_channels` (179–207) is called with |
| `resolveByFingerprint`, `dismiss`, `dismissAll` | 210–265 |
| `listNotifications`, `dismissMatching`, `markRead` | 268–355 |

Each call is one transaction, and the clock does not go back between two of them. The mark `_last_notified_at` of a payload is kept
as the moment it denotes: no emitter's payload has such a key.

A fingerprint's rows are episodes, one after the other and a debounce apart; the channels hear of one fingerprint at most once in the
shorter of debounce and re-alert (`episodes`, `alerts_spaced`).
-/
namespace PiHerder.Alerts
open Lib Lib.Str Backup

/-- In microseconds, as all times here. -/
def minutes (n : Nat) : Int := n * 60000000

def hours (n : Nat) : Int := n * 3600000000

inductive Status
  | opened | dismissed | resolved
deriving DecidableEq, Repr

structure Payload where
  data : Obj := []
  lastNotifiedAt : Option Int := none

/-- `bool(merged)` -/
def Payload.isEmpty (p : Payload) : Bool := p.data.isEmpty && p.lastNotifiedAt.isNone

structure Notification where
  id : Nat
  userId : Option Nat
  serverId : Option Nat
  type : Str
  severity : Severity
  title : Str
  body : Option Str
  linkUrl : Option Str
  fingerprint : Str
  status : Status := .opened
  payload : Option Payload
  createdAt : Int
  updatedAt : Int
  dismissedAt : Option Int := none
  resolvedAt : Option Int := none
  readAt : Option Int := none

/-- The arguments of `upsert_notification`. -/
structure Alert where
  fingerprint : Str
  type : Str
  title : Str
  body : Option Str := none
  linkUrl : Option Str := none
  severity : Str := lit "warning"
  serverId : Option Nat := none
  userId : Option Nat := none
  payload : Option Obj := none
  notifyChannels : Bool := true

/-- A call of `_fire_channels`. -/
structure Sent where
  moment : Int
  fingerprint : Str
  severity : Severity
  title : Str
  body : Option Str
  linkUrl : Option Str
  type : Str
  category : Str

abbrev Rows := Keyed Notification Nat Notification.id

/-- The rows, `alert_type_policy` of the settings, and what the channels were given. -/
structure Inbox where
  rows : Rows
  policy : Obj
  sent : List Sent

def Inbox.empty (policy : Obj) : Inbox := ⟨⟨[], List.nodup_nil⟩, policy, []⟩

namespace Notification

def isOpen (f : Str) (n : Notification) : Bool := n.fingerprint == f && n.status == .opened

/-- An open row is closed. -/
def close (status : Status) (now : Int) (n : Notification) : Notification :=
  match status with
  | .dismissed => { n with status := .dismissed, dismissedAt := some now, updatedAt := now }
  | .resolved => { n with status := .resolved, resolvedAt := some now, updatedAt := now }
  | .opened => n

@[simp] theorem close_id (status : Status) (now : Int) (n : Notification) : (n.close status now).id = n.id := by cases status <;> rfl

/-- `_parse_iso(merged.get(_LAST_NOTIFIED_KEY)) or existing.created_at` -/
def stamp (n : Notification) : Int := ((n.payload.bind Payload.lastNotifiedAt).getD n.createdAt)

end Notification

/-! ## The operations -/

section Operations
variable (py : Python)

def policyFor (policy : Obj) (type : Str) : EffectivePolicy :=
  match effective py policy type with
  | .ok p => p
  | .error _ => unlisted type type

/-- Open rows that `p` chooses are closed. -/
def closeRows (status : Status) (now : Int) (p : Notification → Bool) (rows : Rows) : Rows :=
  rows.map (fun n => if n.status = .opened ∧ p n then n.close status now else n) fun n => by split <;> simp

def resolveByFingerprint (now : Int) (f : Str) (s : Inbox) : Inbox :=
  { s with rows := closeRows .resolved now (fun n => n.fingerprint == f) s.rows }

def dismiss (now : Int) (id : Nat) (s : Inbox) : Inbox :=
  { s with rows := closeRows .dismissed now (fun n => n.id == id) s.rows }

def dismissAll (now : Int) (s : Inbox) : Inbox := { s with rows := closeRows .dismissed now (fun _ => true) s.rows }

/-- The filters of the alerts page; a category that no type has finds nothing. -/
structure Filters where
  type : Str := []
  serverId : Option Nat := none
  severity : Str := []
  category : Str := []

def Filters.accepts (q : Filters) (n : Notification) : Bool :=
  (q.type == [] || n.type == q.type) && (q.serverId.isNone || n.serverId == q.serverId) &&
    (match Severity.ofStr q.severity with | some v => n.severity == v | none => true) &&
    (if strip q.category = [] then true
      else if strip q.category = lit "other" then !(catalog.map TypeSpec.id).contains n.type
      else (typesInCategory (strip q.category)).contains n.type)

/-- `order_by(Notification.updated_at.desc())` -/
def lastFirst (rows : List Notification) : List Notification := rows.mergeSort fun a b => decide (b.updatedAt ≤ a.updatedAt)

/-- The open rows. -/
def listNotifications (q : Filters) (limit : Nat) (rows : List Notification) : List Notification :=
  (lastFirst (rows.filter fun n => n.status == .opened && q.accepts n)).take limit

def dismissMatching (now : Int) (q : Filters) (s : Inbox) : Inbox :=
  let found := (listNotifications q 5000 s.rows.rows).map Notification.id
  { s with rows := closeRows .dismissed now (fun n => found.contains n.id) s.rows }

def markRead (now : Int) (id : Nat) (s : Inbox) : Inbox :=
  { s with rows := s.rows.map (fun n => if n.id = id ∧ n.readAt = none then { n with readAt := some now } else n) fun n => by split <;> rfl }

/-- `_parse_payload(existing.payload)`, and the emitter's entries over it. -/
def merged (a : Alert) (n : Notification) : Payload :=
  let old := n.payload.getD {}
  match a.payload with
  | some data => { old with data := Dict.update old.data data }
  | none => old

/-- Is the row to be told again? -/
def due (now : Int) (p : EffectivePolicy) (a : Alert) (n : Notification) : Bool :=
  a.notifyChannels && decide (0 < p.realertHours.val) &&
    decide (hours p.realertHours.val ≤ now - (merged a n).lastNotifiedAt.getD n.createdAt)

/-- An open row hears of its condition again. -/
def refresh (now : Int) (p : EffectivePolicy) (a : Alert) (n : Notification) : Notification :=
  let told := if due now p a n then { merged a n with lastNotifiedAt := some now } else merged a n
  { n with
    title := a.title, body := a.body, linkUrl := a.linkUrl, severity := resolveSeverity p a.severity, type := a.type,
    serverId := a.serverId.or n.serverId, userId := a.userId.or n.userId, updatedAt := now,
    payload := if (a.payload.isSome || due now p a n) && !told.isEmpty then some told else n.payload }

/-- What `_fire_channels` is given. -/
def sending (now : Int) (p : EffectivePolicy) (a : Alert) : Sent :=
  ⟨now, a.fingerprint, resolveSeverity p a.severity, a.title, a.body, a.linkUrl, a.type, categoryOf a.type⟩

/-- The closed row of the fingerprint that changed last. -/
def lastClosed (f : Str) (rows : List Notification) : Option Notification :=
  (lastFirst (rows.filter fun n => n.fingerprint == f && n.status != .opened)).head?

/-- When a closed row was closed. -/
def closedAt (n : Notification) : Int := (n.dismissedAt.or n.resolvedAt).getD n.updatedAt

/-- `now - closed_at < timedelta(minutes=policy.debounce_minutes)` -/
def debounced (now : Int) (p : EffectivePolicy) (f : Str) (rows : List Notification) : Bool :=
  decide (0 < p.debounceMinutes.val) && (lastClosed f rows).any fun n => decide (now - closedAt n < minutes p.debounceMinutes.val)

/-- A new row. -/
def opening (now : Int) (p : EffectivePolicy) (a : Alert) (id : Nat) : Notification :=
  let merged : Payload := { data := a.payload.getD [], lastNotifiedAt := if a.notifyChannels then some now else none }
  { id := id, userId := a.userId, serverId := a.serverId, type := a.type, severity := resolveSeverity p a.severity, title := a.title,
    body := a.body, linkUrl := a.linkUrl, fingerprint := a.fingerprint, payload := if merged.isEmpty then none else some merged,
    createdAt := now, updatedAt := now }

def upsertNotification (now : Int) (a : Alert) (s : Inbox) : Inbox :=
  let p := policyFor py s.policy a.type
  if !p.enabled then resolveByFingerprint now a.fingerprint s
  else match s.rows.rows.find? (Notification.isOpen a.fingerprint) with
    | some n =>
      { s with
        rows := s.rows.map (fun m => if m.id = n.id then refresh now p a m else m) fun m => by split <;> rfl
        sent := if due now p a n then s.sent ++ [sending now p a] else s.sent }
    | none =>
      if debounced now p a.fingerprint s.rows.rows then s
      else
        { s with
          rows := s.rows.insert (opening now p a (freshId (s.rows.rows.map Notification.id))) (freshId_not_mem _)
          sent := if a.notifyChannels then s.sent ++ [sending now p a] else s.sent }

/-! ## Runs -/

inductive Act
  | upsert (a : Alert)
  | resolve (f : Str)
  | dismiss (id : Nat)
  | dismissAll
  | dismissMatching (q : Filters)
  | markRead (id : Nat)
  | savePolicy (policy : Obj)

/-- One call at a moment. -/
def Inbox.step (s : Inbox) (e : Int × Act) : Inbox :=
  match e.2 with
  | .upsert a => upsertNotification py e.1 a s
  | .resolve f => resolveByFingerprint e.1 f s
  | .dismiss id => dismiss e.1 id s
  | .dismissAll => dismissAll e.1 s
  | .dismissMatching q => dismissMatching e.1 q s
  | .markRead id => markRead e.1 id s
  | .savePolicy policy => { s with policy := policy }

end Operations

/-! ## What a call does to a row -/

/-- What was last said of a row: to the channels, while it is open. -/
def Notification.lastWord (n : Notification) : Int := if n.status = .opened then n.stamp else n.updatedAt

/-- The times of a row, no later than `now`, and what goes with its status. -/
structure Notification.Ok (now : Int) (n : Notification) : Prop where
  born : n.createdAt ≤ n.stamp
  told : n.stamp ≤ n.updatedAt
  past : n.updatedAt ≤ now
  opened : n.status = .opened → n.dismissedAt = none ∧ n.resolvedAt = none
  dismissed : n.status = .dismissed → n.dismissedAt = some n.updatedAt ∧ n.resolvedAt = none
  resolved : n.status = .resolved → n.resolvedAt = some n.updatedAt ∧ n.dismissedAt = none

/-- A row after a call: one that was closed can only be read. -/
structure Evolves (n n' : Notification) : Prop where
  id : n'.id = n.id
  fingerprint : n'.fingerprint = n.fingerprint
  createdAt : n'.createdAt = n.createdAt
  frozen : n.status ≠ .opened → ∃ t, n' = { n with readAt := t }
  lastWord : n.lastWord ≤ n'.lastWord

namespace Evolves

theorem refl (n : Notification) : Evolves n n := ⟨rfl, rfl, rfl, fun _ => ⟨n.readAt, rfl⟩, le_rfl⟩

theorem trans {n n' n'' : Notification} (h : Evolves n n') (h' : Evolves n' n'') : Evolves n n'' where
  id := h'.id.trans h.id
  fingerprint := h'.fingerprint.trans h.fingerprint
  createdAt := h'.createdAt.trans h.createdAt
  lastWord := h.lastWord.trans h'.lastWord
  frozen := by
    intro hclosed
    obtain ⟨t, rfl⟩ := h.frozen hclosed
    obtain ⟨t', rfl⟩ := h'.frozen hclosed
    exact ⟨t', rfl⟩

end Evolves

/-- A row after a call at `now`. -/
def Follows (now : Int) (n n' : Notification) : Prop := Evolves n n' ∧ n'.Ok now

section Rows
variable {past now : Int} {n : Notification}

theorem Notification.Ok.later (h : n.Ok past) (hnow : past ≤ now) : n.Ok now := { h with past := h.past.trans hnow }

theorem follows_self (h : n.Ok past) (hnow : past ≤ now) : Follows now n n := ⟨.refl n, h.later hnow⟩

theorem follows_close (h : n.Ok past) (hnow : past ≤ now) (hopen : n.status = .opened) {status : Status} (hs : status ≠ .opened) :
    Follows now n (n.close status now) := by
  have hstamp : n.stamp ≤ now := h.told.trans (h.past.trans hnow)
  obtain ⟨hdis, hres⟩ := h.opened hopen
  cases status with
  | opened => exact absurd rfl hs
  | dismissed =>
    refine ⟨⟨rfl, rfl, rfl, fun hne => absurd hopen hne, ?_⟩, ⟨h.born, hstamp, le_rfl, by simp [Notification.close], ?_, by simp [Notification.close]⟩⟩
    · simpa [Notification.lastWord, Notification.close, hopen] using hstamp
    · simp [Notification.close, hres]
  | resolved =>
    refine ⟨⟨rfl, rfl, rfl, fun hne => absurd hopen hne, ?_⟩, ⟨h.born, hstamp, le_rfl, by simp [Notification.close], by simp [Notification.close], ?_⟩⟩
    · simpa [Notification.lastWord, Notification.close, hopen] using hstamp
    · simp [Notification.close, hdis]

theorem follows_read (h : n.Ok past) (hnow : past ≤ now) (t : Option Int) : Follows now n { n with readAt := t } := by
  refine ⟨⟨rfl, rfl, rfl, fun _ => ⟨t, rfl⟩, le_rfl⟩, ?_⟩
  exact ⟨h.born, h.told, h.past.trans hnow, h.opened, h.dismissed, h.resolved⟩

theorem merged_stamp (a : Alert) (n : Notification) : (merged a n).lastNotifiedAt.getD n.createdAt = n.stamp := by
  unfold merged Notification.stamp
  cases n.payload <;> cases a.payload <;> rfl

/-- The mark is where it was, or at `now` where the channels heard. -/
theorem stamp_refresh (p : EffectivePolicy) (a : Alert) (n : Notification) :
    (refresh now p a n).stamp = if due now p a n then now else n.stamp := by
  rw [← merged_stamp a n]
  unfold refresh
  cases due now p a n with
  | true => simp [Notification.stamp, Payload.isEmpty]
  | false =>
    simp only [Bool.false_eq_true, if_false, Bool.or_false]
    cases ha : a.payload with
    | none =>
      rw [merged_stamp]
      rfl
    | some data =>
      by_cases hempty : (merged a n).isEmpty = true
      · -- nothing is written, and nothing was there
        have hnone : (merged a n).lastNotifiedAt = none := by simpa [Payload.isEmpty] using (Bool.and_eq_true_iff.1 hempty).2
        rw [merged_stamp]
        simp [hempty, Notification.stamp]
      · simp [hempty, Notification.stamp]

theorem gap_of_due {p : EffectivePolicy} {a : Alert} (h : due now p a n = true) :
    p.realertHours.val ≠ 0 ∧ hours p.realertHours.val ≤ now - n.stamp := by
  unfold due at h
  rw [merged_stamp] at h
  simp only [Bool.and_eq_true, decide_eq_true_eq] at h
  exact ⟨Nat.pos_iff_ne_zero.1 h.1.2, h.2⟩

theorem follows_refresh (h : n.Ok past) (hnow : past ≤ now) (hopen : n.status = .opened) (p : EffectivePolicy) (a : Alert) :
    Follows now n (refresh now p a n) := by
  have hstamp : (refresh now p a n).stamp = if due now p a n then now else n.stamp := stamp_refresh p a n
  have hborn : n.stamp ≤ now := h.told.trans (h.past.trans hnow)
  have hlater : n.stamp ≤ (refresh now p a n).stamp ∧ (refresh now p a n).stamp ≤ now := by
    rw [hstamp]
    split <;> simp [hborn]
  obtain ⟨hdis, hres⟩ := h.opened hopen
  have hstill : (refresh now p a n).status = .opened := hopen
  refine ⟨⟨rfl, rfl, rfl, fun hne => absurd hopen hne, ?_⟩, ⟨h.born.trans hlater.1, hlater.2, le_rfl, fun _ => ⟨hdis, hres⟩, ?_, ?_⟩⟩
  · rw [Notification.lastWord, Notification.lastWord, if_pos hopen, if_pos hstill]
    exact hlater.1
  · intro hd
    rw [hstill] at hd
    cases hd
  · intro hr
    rw [hstill] at hr
    cases hr

theorem Notification.Ok.closedAt_eq (h : n.Ok now) (hclosed : n.status ≠ .opened) : closedAt n = n.updatedAt := by
  unfold closedAt
  cases hs : n.status with
  | opened => exact absurd hs hclosed
  | dismissed => simp [(h.dismissed hs).1]
  | resolved => simp [(h.resolved hs).1, (h.resolved hs).2]

theorem ok_opening (p : EffectivePolicy) (a : Alert) (id : Nat) : (opening now p a id).Ok now ∧ (opening now p a id).stamp = now := by
  have hstamp : (opening now p a id).stamp = now := by
    unfold opening Notification.stamp Payload.isEmpty
    cases a.notifyChannels <;> cases ha : a.payload <;> simp only <;> split_ifs <;> simp_all
  exact ⟨⟨hstamp.ge, hstamp.le, le_rfl, fun _ => ⟨rfl, rfl⟩, nofun, nofun⟩, hstamp⟩

/-- The row that counts for a debounce is the last one that was closed. -/
theorem lastClosed_spec {f : Str} {rows : List Notification} (hn : n ∈ rows) (hf : n.fingerprint = f) (hclosed : n.status ≠ .opened) :
    ∃ m, lastClosed f rows = some m ∧ m ∈ rows ∧ m.status ≠ .opened ∧ n.updatedAt ≤ m.updatedAt := by
  unfold lastClosed lastFirst
  have hsorted := @List.pairwise_mergeSort _ (fun a b : Notification => decide (b.updatedAt ≤ a.updatedAt))
    (fun a b c hab hbc => by simp only [decide_eq_true_eq] at *; omega) (fun a b => by simp only [Bool.or_eq_true, decide_eq_true_eq]; omega)
    (rows.filter fun n => n.fingerprint == f && n.status != .opened)
  have hmem : ∀ x, x ∈ (rows.filter fun n => n.fingerprint == f && n.status != .opened).mergeSort (fun a b => decide (b.updatedAt ≤ a.updatedAt)) ↔
      x ∈ rows ∧ x.fingerprint = f ∧ x.status ≠ .opened := by simp
  have hin := (hmem n).2 ⟨hn, hf, hclosed⟩
  cases hlist : (rows.filter fun n => n.fingerprint == f && n.status != .opened).mergeSort fun a b => decide (b.updatedAt ≤ a.updatedAt) with
  | nil =>
    rw [hlist] at hin
    cases hin
  | cons m ms =>
    rw [hlist] at hin hsorted hmem
    obtain ⟨hm, -, hmclosed⟩ := (hmem m).1 (by simp)
    refine ⟨m, rfl, hm, hmclosed, ?_⟩
    rcases List.mem_cons.1 hin with rfl | hin
    · exact le_rfl
    · simpa using (List.pairwise_cons.1 hsorted).1 n hin

end Rows

/-- Two members of a list, whichever comes first. -/
theorem pairwise_either {α : Type} {R : α → α → Prop} {l : List α} (h : l.Pairwise R) {a b : α} (ha : a ∈ l) (hb : b ∈ l) (hne : a ≠ b) :
    R a b ∨ R b a := by
  have : Std.Symm fun x y => R x y ∨ R y x := ⟨fun _ _ h => h.symm⟩
  exact (h.imp fun h => Or.inl h : l.Pairwise fun x y => R x y ∨ R y x).forall ha hb hne

/-! ## One fingerprint -/

/-- The first row was closed, `debounce` before the second was opened. -/
def Before (f : Str) (debounce : Int) (n n' : Notification) : Prop :=
  n.fingerprint = f → n'.fingerprint = f → n.status ≠ .opened ∧ n.updatedAt + debounce ≤ n'.createdAt

/-- Of one fingerprint: the rows are episodes, `debounce` apart, and the channels heard at most once in the shorter of the two. -/
structure Sound (f : Str) (debounce realert now : Int) (s : Inbox) : Prop where
  rows : ∀ n ∈ s.rows.rows, n.Ok now
  episodes : s.rows.rows.Pairwise (Before f debounce)
  heard : ∀ x ∈ s.sent, x.fingerprint = f → ∃ n ∈ s.rows.rows, n.fingerprint = f ∧ x.moment ≤ n.lastWord
  spaced : (s.sent.filter fun x => x.fingerprint == f).Pairwise fun x y => x.moment + min debounce realert ≤ y.moment

namespace Sound
variable {f : Str} {debounce realert past now : Int} {s : Inbox}

/-- A call that changes rows one by one. -/
theorem follow (h : Sound f debounce realert past s) {rows : Rows} {g : Notification → Notification} (hrows : rows.rows = s.rows.rows.map g)
    (hg : ∀ n ∈ s.rows.rows, Follows now n (g n)) : Sound f debounce realert now { s with rows := rows } where
  spaced := h.spaced
  rows := by
    intro n hn
    simp only [hrows, List.mem_map] at hn
    obtain ⟨m, hm, rfl⟩ := hn
    exact (hg m hm).2
  episodes := by
    simp only [hrows, List.pairwise_map]
    refine h.episodes.imp_of_mem fun {n n'} hn hn' hbefore hf hf' => ?_
    obtain ⟨hclosed, hgap⟩ := hbefore ((hg n hn).1.fingerprint ▸ hf) ((hg n' hn').1.fingerprint ▸ hf')
    obtain ⟨t, heq⟩ := (hg n hn).1.frozen hclosed
    rw [heq, (hg n' hn').1.createdAt]
    exact ⟨hclosed, hgap⟩
  heard := by
    intro x hx hf
    obtain ⟨n, hn, hnf, hword⟩ := h.heard x hx hf
    refine ⟨g n, ?_, (hg n hn).1.fingerprint.trans hnf, hword.trans (hg n hn).1.lastWord⟩
    rw [hrows]
    exact List.mem_map_of_mem hn

/-- The channels hear. -/
theorem send (h : Sound f debounce realert now s) {x : Sent} (hword : x.fingerprint = f → ∃ n ∈ s.rows.rows, n.fingerprint = f ∧ x.moment ≤ n.lastWord)
    (hgap : x.fingerprint = f → ∀ y ∈ s.sent, y.fingerprint = f → y.moment + min debounce realert ≤ x.moment) :
    Sound f debounce realert now { s with sent := s.sent ++ [x] } where
  rows := h.rows
  episodes := h.episodes
  heard := by
    intro y hy hf
    rcases List.mem_append.1 hy with hy | hy
    · exact h.heard y hy hf
    · obtain rfl := List.mem_singleton.1 hy
      exact hword hf
  spaced := by
    rw [List.filter_append, List.pairwise_append]
    refine ⟨h.spaced, ?_, fun y hy z hz => ?_⟩
    · by_cases hx : x.fingerprint = f <;> simp [hx]
    · simp only [List.mem_filter, beq_iff_eq, List.mem_singleton] at hy hz
      obtain ⟨rfl, hf⟩ := hz
      exact hgap hf y hy.1 hy.2

/-- What was said of the fingerprint was said before its open row was last told. -/
theorem heard_open (h : Sound f debounce realert now s) (hdeb : 0 ≤ debounce) {n : Notification} (hn : n ∈ s.rows.rows) (hf : n.fingerprint = f)
    (hopen : n.status = .opened) {x : Sent} (hx : x ∈ s.sent) (hxf : x.fingerprint = f) : x.moment ≤ n.stamp := by
  obtain ⟨m, hm, hmf, hword⟩ := h.heard x hx hxf
  by_cases hmn : m = n
  · subst hmn
    rwa [Notification.lastWord, if_pos hopen] at hword
  · rcases pairwise_either h.episodes hm hn hmn with hpair | hpair
    · obtain ⟨hclosed, hgap⟩ := hpair hmf hf
      rw [Notification.lastWord, if_neg hclosed] at hword
      have hborn := (h.rows n hn).born
      omega
    · exact absurd hopen (hpair hf hmf).1

/-- Rows are closed. -/
theorem closed (h : Sound f debounce realert past s) (hnow : past ≤ now) {status : Status} (hs : status ≠ .opened) (p : Notification → Bool) :
    Sound f debounce realert now { s with rows := closeRows status now p s.rows } := by
  refine h.follow rfl fun n hn => ?_
  split
  · rename_i hopen
    exact follows_close (h.rows n hn) hnow hopen.1 hs
  · exact follows_self (h.rows n hn) hnow

theorem later (h : Sound f debounce realert past s) (hnow : past ≤ now) (policy : Obj) :
    Sound f debounce realert now { s with policy := policy } :=
  ⟨fun n hn => (h.rows n hn).later hnow, h.episodes, h.heard, h.spaced⟩

end Sound

/-! ## A call of `upsert_notification` -/

/-- The policy of the alert keeps the fingerprint quiet for so long. -/
def Quiet (py : Python) (f : Str) (debounce realert : Int) (s : Inbox) (e : Int × Act) : Prop :=
  ∀ a, e.2 = .upsert a → a.fingerprint = f →
    debounce ≤ minutes (policyFor py s.policy a.type).debounceMinutes.val ∧
      ((policyFor py s.policy a.type).realertHours.val = 0 ∨ realert ≤ hours (policyFor py s.policy a.type).realertHours.val)

section Upsert
variable {py : Python} {f : Str} {debounce realert past now : Int} {s : Inbox} {a : Alert}

theorem isOpen_iff {n : Notification} : n.isOpen f = true ↔ n.fingerprint = f ∧ n.status = .opened := by simp [Notification.isOpen]

/-- The open row hears. -/
theorem Sound.refreshed (h : Sound f debounce realert past s) (hnow : past ≤ now) (hdeb : 0 ≤ debounce) {p : EffectivePolicy}
    (hre : a.fingerprint = f → p.realertHours.val = 0 ∨ realert ≤ hours p.realertHours.val) {n : Notification}
    (hfind : s.rows.rows.find? (Notification.isOpen a.fingerprint) = some n) {rows : Rows}
    (hrows : rows.rows = s.rows.rows.map fun m => if m.id = n.id then refresh now p a m else m) :
    Sound f debounce realert now { s with rows := rows, sent := if due now p a n then s.sent ++ [sending now p a] else s.sent } := by
  have hn := List.mem_of_find?_eq_some hfind
  obtain ⟨hnf, hopen⟩ := isOpen_iff.1 (List.find?_some hfind)
  have hone : ∀ m ∈ s.rows.rows, m.id = n.id → m = n := fun m hm hid => s.rows.eq_of_key hm hn hid
  have hnext : Sound f debounce realert now { s with rows := rows } := by
    refine h.follow hrows fun m hm => ?_
    split
    · rename_i hid
      obtain rfl := hone m hm hid
      exact follows_refresh (h.rows m hm) hnow hopen p a
    · exact follows_self (h.rows m hm) hnow
  cases hdue : due now p a n with
  | false => exact hnext
  | true =>
    simp only [if_true]
    obtain ⟨hnever, hgap⟩ := gap_of_due hdue
    refine hnext.send (fun hf => ⟨refresh now p a n, ?_, hnf.trans hf, ?_⟩) fun hf y hy hyf => ?_
    · rw [hrows]
      exact List.mem_map.2 ⟨n, hn, if_pos rfl⟩
    · rw [Notification.lastWord, if_pos (show (refresh now p a n).status = .opened from hopen), stamp_refresh, hdue, if_pos rfl]
      exact le_rfl
    · have hword := h.heard_open hdeb hn (hnf.trans hf) hopen hy hyf
      have hlong := (hre hf).resolve_left hnever
      show y.moment + min debounce realert ≤ now
      omega

/-- A new row, where the last one was closed long enough ago. -/
theorem Sound.added (h : Sound f debounce realert past s) (hnow : past ≤ now) {p : EffectivePolicy}
    (hde : a.fingerprint = f → debounce ≤ minutes p.debounceMinutes.val)
    (hfind : s.rows.rows.find? (Notification.isOpen a.fingerprint) = none) (hlong : debounced now p a.fingerprint s.rows.rows = false)
    {rows : Rows} {id : Nat} (hrows : rows.rows = s.rows.rows ++ [opening now p a id]) :
    Sound f debounce realert now { s with rows := rows, sent := if a.notifyChannels then s.sent ++ [sending now p a] else s.sent } := by
  have hclosed : ∀ n ∈ s.rows.rows, n.fingerprint = a.fingerprint → n.status ≠ .opened := by
    intro n hn hnf hopen
    exact absurd (isOpen_iff.2 ⟨hnf, hopen⟩) (by simpa using List.find?_eq_none.1 hfind n hn)
  obtain ⟨hok, hstamp⟩ := @ok_opening now p a id
  -- the last row of the fingerprint was closed a debounce ago
  have hgap : a.fingerprint = f → ∀ n ∈ s.rows.rows, n.fingerprint = f → n.updatedAt + debounce ≤ now := by
    intro hf n hn hnf
    have hpast := ((h.rows n hn).past).trans hnow
    have hde := hde hf
    by_cases hzero : 0 < p.debounceMinutes.val
    · obtain ⟨m, hlast, hm, hmclosed, hle⟩ := lastClosed_spec hn (hnf.trans hf.symm) (hclosed n hn (hnf.trans hf.symm))
      rw [debounced, hlast] at hlong
      simp only [hzero, decide_true, Bool.true_and, Option.any_some, decide_eq_false_iff_not, not_lt,
        (h.rows m hm).closedAt_eq hmclosed] at hlong
      omega
    · have : p.debounceMinutes.val = 0 := by omega
      simp only [this, minutes] at hde
      omega
  have hnext : Sound f debounce realert now { s with rows := rows } := by
    refine ⟨fun n hn => ?_, ?_, fun x hx hf => ?_, h.spaced⟩
    · simp only [hrows, List.mem_append, List.mem_singleton] at hn
      rcases hn with hn | rfl
      · exact (h.rows n hn).later hnow
      · exact hok
    · simp only [hrows]
      rw [List.pairwise_append]
      refine ⟨h.episodes, List.pairwise_singleton _ _, fun n hn m hm => ?_⟩
      obtain rfl := List.mem_singleton.1 hm
      exact fun hnf hf => ⟨hclosed n hn (hnf.trans (show a.fingerprint = f from hf).symm), hgap hf n hn hnf⟩
    · obtain ⟨n, hn, hnf, hword⟩ := h.heard x hx hf
      exact ⟨n, by simp [hrows, hn], hnf, hword⟩
  cases hchannels : a.notifyChannels with
  | false => exact hnext
  | true =>
    simp only [if_true]
    refine hnext.send (fun hf => ⟨opening now p a id, by simp [hrows], hf, ?_⟩) fun hf y hy hyf => ?_
    · rw [Notification.lastWord, if_pos (show (opening now p a id).status = .opened from rfl), hstamp]
      exact le_rfl
    · obtain ⟨n, hn, hnf, hword⟩ := h.heard y hy hyf
      rw [Notification.lastWord, if_neg (hclosed n hn (hnf.trans (show a.fingerprint = f from hf).symm))] at hword
      have := hgap hf n hn hnf
      show y.moment + min debounce realert ≤ now
      omega

theorem Sound.upsert (h : Sound f debounce realert past s) (hnow : past ≤ now) (hdeb : 0 ≤ debounce)
    (hquiet : Quiet py f debounce realert s (now, .upsert a)) : Sound f debounce realert now (upsertNotification py now a s) := by
  have hpolicy := hquiet a rfl
  unfold upsertNotification
  simp only
  split
  · exact h.closed hnow (by decide) _
  · split
    · rename_i n hfind
      exact h.refreshed hnow hdeb (fun hf => (hpolicy hf).2) hfind rfl
    · rename_i hfind
      split
      · exact h.later hnow s.policy
      · rename_i hlong
        exact h.added hnow (fun hf => (hpolicy hf).1) hfind (by simpa using hlong) rfl

/-- **Every call keeps it.** -/
theorem Sound.step (h : Sound f debounce realert past s) (hdeb : 0 ≤ debounce) {e : Int × Act} (hnow : past ≤ e.1)
    (hquiet : Quiet py f debounce realert s e) : Sound f debounce realert e.1 (s.step py e) := by
  obtain ⟨now, act⟩ := e
  cases act with
  | upsert a => exact h.upsert hnow hdeb hquiet
  | resolve g => exact h.closed hnow (by decide) _
  | dismiss id => exact h.closed hnow (by decide) _
  | dismissAll => exact h.closed hnow (by decide) _
  | dismissMatching q => exact h.closed hnow (by decide) _
  | savePolicy policy => exact h.later hnow policy
  | markRead id =>
    refine h.follow rfl fun n hn => ?_
    split
    · exact follows_read (h.rows n hn) hnow _
    · exact follows_self (h.rows n hn) hnow

theorem evolves_closeRows {rows : Rows} (hrows : ∀ n ∈ rows.rows, n.Ok past) (hnow : past ≤ now) {status : Status} (hs : status ≠ .opened)
    (p : Notification → Bool) : ∀ n ∈ rows.rows, ∃ n' ∈ (closeRows status now p rows).rows, Evolves n n' := by
  intro n hn
  refine ⟨_, List.mem_map_of_mem hn, ?_⟩
  split
  · rename_i hopen
    exact (follows_close (hrows n hn) hnow hopen.1 hs).1
  · exact .refl n

/-- No row is lost, and a closed one stays as it is. -/
theorem Sound.step_evolves (h : Sound f debounce realert past s) {e : Int × Act} (hnow : past ≤ e.1) :
    ∀ n ∈ s.rows.rows, ∃ n' ∈ (s.step py e).rows.rows, Evolves n n' := by
  obtain ⟨now, act⟩ := e
  have hclosed {status : Status} (hs : status ≠ .opened) (p : Notification → Bool) := evolves_closeRows h.rows hnow hs p
  cases act with
  | resolve g => exact hclosed (by decide) _
  | dismiss id => exact hclosed (by decide) _
  | dismissAll => exact hclosed (by decide) _
  | dismissMatching q => exact hclosed (by decide) _
  | savePolicy policy => exact fun n hn => ⟨n, hn, .refl n⟩
  | markRead id =>
    intro n hn
    refine ⟨_, List.mem_map_of_mem hn, ?_⟩
    split
    · exact (follows_read (h.rows n hn) hnow _).1
    · exact .refl n
  | upsert a =>
    simp only [Inbox.step]
    unfold upsertNotification
    simp only
    split
    · exact hclosed (by decide) _
    · split
      · rename_i m hfind
        intro n hn
        refine ⟨_, List.mem_map_of_mem hn, ?_⟩
        split
        · rename_i hid
          obtain rfl := s.rows.eq_of_key hn (List.mem_of_find?_eq_some hfind) hid
          exact (follows_refresh (h.rows n hn) hnow (isOpen_iff.1 (List.find?_some hfind)).2 _ a).1
        · exact .refl n
      · split
        · exact fun n hn => ⟨n, hn, .refl n⟩
        · exact fun n hn => ⟨n, List.mem_append_left _ hn, .refl n⟩

end Upsert

/-! ## Whole runs -/

section Whole
variable {py : Python} {f : Str} {debounce realert : Int}

theorem Sound.run (hdeb : 0 ≤ debounce) {es : List (Int × Act)} {t : Int} (ht : ∀ e ∈ es, e.1 ≤ t) (hclock : (es.map Prod.fst).Pairwise (· ≤ ·)) :
    ∀ {past : Int} {s : Inbox}, Sound f debounce realert past s → past ≤ t → (∀ e ∈ es, past ≤ e.1) →
      Guarded (Inbox.step py) (Quiet py f debounce realert) s es →
      Sound f debounce realert t (runs (Inbox.step py) s es) ∧
        ∀ n ∈ s.rows.rows, ∃ n' ∈ (runs (Inbox.step py) s es).rows.rows, Evolves n n' := by
  induction es with
  | nil => exact fun {past s} h hpt _ _ => ⟨h.later hpt s.policy, fun n hn => ⟨n, hn, .refl n⟩⟩
  | cons e es ih =>
    intro past s h _ hpast hquiet
    rw [List.map_cons, List.pairwise_cons] at hclock
    have hnow := hpast e (by simp)
    obtain ⟨hlast, hrows⟩ := ih (fun x hx => ht x (by simp [hx])) hclock.2 (h.step hdeb hnow hquiet.1) (ht e (by simp))
      (fun x hx => hclock.1 x.1 (List.mem_map_of_mem hx)) hquiet.2
    refine ⟨hlast, fun n hn => ?_⟩
    obtain ⟨n', hn', hev⟩ : ∃ n' ∈ (s.step py e).rows.rows, Evolves n n' := h.step_evolves hnow n hn
    obtain ⟨n'', hn'', hev'⟩ := hrows n' hn'
    exact ⟨n'', hn'', hev.trans hev'⟩

theorem sound_empty (f : Str) (debounce realert now : Int) (policy : Obj) : Sound f debounce realert now (Inbox.empty policy) :=
  ⟨by simp [Inbox.empty], List.Pairwise.nil, by simp [Inbox.empty], List.Pairwise.nil⟩

theorem sound_run (policy : Obj) (hdeb : 0 ≤ debounce) {es : List (Int × Act)} (hclock : (es.map Prod.fst).Pairwise (· ≤ ·))
    (hquiet : Guarded (Inbox.step py) (Quiet py f debounce realert) (Inbox.empty policy) es) {t : Int} (ht : ∀ e ∈ es, e.1 ≤ t) :
    Sound f debounce realert t (runs (Inbox.step py) (Inbox.empty policy) es) := by
  cases es with
  | nil => exact sound_empty _ _ _ _ _
  | cons e es =>
    refine (Sound.run hdeb ht hclock (sound_empty f debounce realert e.1 policy) (ht e (by simp)) (fun x hx => ?_) hquiet).1
    rw [List.map_cons, List.pairwise_cons] at hclock
    rcases List.mem_cons.1 hx with rfl | hx
    · exact le_rfl
    · exact hclock.1 x.1 (List.mem_map_of_mem hx)

/-- Every policy is as quiet as that. -/
theorem quiet_zero (s : Inbox) (e : Int × Act) : Quiet py f 0 0 s e :=
  fun _ _ _ => ⟨by simp only [minutes]; omega, .inr (by simp only [hours]; omega)⟩

theorem guarded_zero (s : Inbox) (es : List (Int × Act)) : Guarded (Inbox.step py) (Quiet py f 0 0) s es :=
  guarded_iff.2 fun _ _ _ _ => quiet_zero _ _

theorem one_open {f : Str} {rows : List Notification} (h : rows.Pairwise (Before f debounce)) : (rows.filter (Notification.isOpen f)).length ≤ 1 := by
  have hpairs := h.filter (Notification.isOpen f)
  have hopen : ∀ n ∈ rows.filter (Notification.isOpen f), n.fingerprint = f ∧ n.status = .opened :=
    fun n hn => isOpen_iff.1 (List.mem_filter.1 hn).2
  cases hrows : rows.filter (Notification.isOpen f) with
  | nil => simp
  | cons n rest =>
    rw [hrows] at hpairs hopen
    obtain ⟨hnf, hn⟩ := hopen n (by simp)
    cases rest with
    | nil => simp
    | cons m rest => exact absurd hn ((List.pairwise_cons.1 hpairs).1 m (by simp) hnf (hopen m (by simp)).1).1

/-- **A fingerprint is told in episodes.** After every run at most one row of a fingerprint is open, and each row was closed before the
next was opened. The times of a row go with its status. Rows are never lost, and one that was closed stays as it was but for having
been read. -/
theorem episodes (py : Python) (policy : Obj) {es : List (Int × Act)} (hclock : (es.map Prod.fst).Pairwise (· ≤ ·)) {t : Int}
    (ht : ∀ e ∈ es, e.1 ≤ t) :
    (∀ f, ((runs (Inbox.step py) (Inbox.empty policy) es).rows.rows.filter (Notification.isOpen f)).length ≤ 1 ∧
      (runs (Inbox.step py) (Inbox.empty policy) es).rows.rows.Pairwise (Before f 0)) ∧
    (∀ n ∈ (runs (Inbox.step py) (Inbox.empty policy) es).rows.rows, n.Ok t) ∧
    ∀ pre post, es = pre ++ post → ∀ n ∈ (runs (Inbox.step py) (Inbox.empty policy) pre).rows.rows,
      ∃ n' ∈ (runs (Inbox.step py) (Inbox.empty policy) es).rows.rows, Evolves n n' := by
  have hsound (f : Str) : Sound f 0 0 t (runs (Inbox.step py) (Inbox.empty policy) es) :=
    sound_run policy le_rfl hclock (guarded_zero _ _) ht
  refine ⟨fun f => ⟨one_open (hsound f).episodes, (hsound f).episodes⟩, (hsound []).rows, ?_⟩
  rintro pre post rfl
  rw [List.map_append, List.pairwise_append] at hclock
  rw [runs_append]
  cases post with
  | nil => exact fun n hn => ⟨n, hn, .refl n⟩
  | cons e post =>
    have hbefore : ∀ x ∈ pre, x.1 ≤ e.1 := fun x hx => hclock.2.2 x.1 (List.mem_map_of_mem hx) e.1 (by simp)
    have hafter := hclock.2.1
    have hpre : Sound [] 0 0 e.1 (runs (Inbox.step py) (Inbox.empty policy) pre) :=
      sound_run policy le_rfl hclock.1 (guarded_zero _ _) hbefore
    refine (Sound.run le_rfl (fun x hx => ht x (by simp [hx])) hafter hpre (ht e (by simp)) (fun x hx => ?_) (guarded_zero _ _)).2
    rw [List.map_cons, List.pairwise_cons] at hafter
    rcases List.mem_cons.1 hx with rfl | hx
    · exact le_rfl
    · exact hafter.1 x.1 (List.mem_map_of_mem hx)

theorem step_policy {s : Inbox} {e : Int × Act} (h : ∀ policy, e.2 ≠ .savePolicy policy) : (s.step py e).policy = s.policy := by
  obtain ⟨now, act⟩ := e
  cases act with
  | savePolicy policy => exact absurd rfl (h policy)
  | upsert a =>
    simp only [Inbox.step, upsertNotification]
    split
    · rfl
    · split
      · rfl
      · split <;> rfl
  | resolve g => rfl
  | dismiss id => rfl
  | dismissAll => rfl
  | dismissMatching q => rfl
  | markRead id => rfl

/-- While nobody saves another policy. -/
theorem guarded_quiet {es : List (Int × Act)} (hkept : ∀ e ∈ es, ∀ policy, e.2 ≠ .savePolicy policy) : ∀ {s : Inbox},
    (∀ e ∈ es, Quiet py f debounce realert s e) → Guarded (Inbox.step py) (Quiet py f debounce realert) s es := by
  induction es with
  | nil => exact fun _ => trivial
  | cons e es ih =>
    intro s h
    refine ⟨h e (by simp), ih (fun x hx => hkept x (by simp [hx])) fun x hx => ?_⟩
    unfold Quiet
    rw [step_policy (hkept e (by simp))]
    exact h x (by simp [hx])

end Whole

/-! ## A host that goes down and comes back -/

def hostDown : Alert := { fingerprint := lit "host_down:server:1", type := lit "host_down", title := lit "pi down", severity := lit "critical" }

def flapping : List (Int × Act) :=
  [(0, .upsert hostDown), (minutes 5, .resolve (lit "host_down:server:1")), (minutes 10, .upsert hostDown), (minutes 30, .upsert hostDown)]

theorem quiet_flapping : ∀ e ∈ flapping, Quiet noFloats (lit "host_down:server:1") (minutes 15) (hours 24) (Inbox.empty []) e := by
  intro e he a ha _
  have hdown : a = hostDown := by
    simp only [flapping, List.mem_cons, List.not_mem_nil, or_false] at he
    rcases he with rfl | rfl | rfl | rfl <;> cases ha <;> rfl
  subst hdown
  decide +kernel

theorem episodes_flapping :
    ((runs (Inbox.step noFloats) (Inbox.empty []) flapping).rows.rows.filter (Notification.isOpen (lit "host_down:server:1"))).length ≤ 1 :=
  ((@episodes noFloats [] flapping (by decide) (minutes 30) (by decide)).1 _).1

/-- The row that was closed hears nothing for a quarter of an hour, and a new one is opened then. -/
example : ((runs (Inbox.step noFloats) (Inbox.empty []) flapping).sent.map Sent.moment) = [0, minutes 30] := by decide +kernel

end PiHerder.Alerts
