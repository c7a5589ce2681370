import Mathlib
import PiHerder.Lib.Runs

/-!
# The stored Docker inventory of one server (`services/docker_inventory.py`)

The row keeps the last snapshot and a status. A refresh takes its process's slot, marks the row, reads the host
and saves; a stack mutation ends in `invalidate_after_mutation`. Requests and refreshes interleave step by step.

| here | there |
| --- | --- |
| `Row`                     | `container_patch_enabled`, `docker_inventory_json`, `docker_inventory_status` of a `Server` row |
| `isStale`, `isRefreshStuck`, `refreshExpired` | `is_stale` (`:153`), `is_refresh_stuck` (`:219`), `inventory_refresh_expired` (`:184`) |
| `markStale`               | `mark_stale` (`:236`) |
| `RefreshPhase`            | how far a `refresh_server_inventory` (`:411`) has come |
| `Event.take` … `release`  | its steps: the slot, `set_status`, `build_inventory_l1`, `save_inventory`, the `finally` |
| `requestRefresh`          | `request_refresh` (`:490`) |
| `Event.markStale`, `Event.enqueue` | `invalidate_after_mutation` (`:532`) |
| `Event.expire`            | `release_expired_inventory_refresh` (`:206`) |

A snapshot is told apart by how many mutations had finished when it was read. A request works on the row as it
loaded it; what it sets is sent to the database if it differs from what was loaded.
-/
namespace PiHerder.Docker
open Lib

/-! ## The code -/

inductive Status | never | off | error | stale | refreshing | ok
deriving DecidableEq, Repr

structure Row where
  enabled : Bool
  /-- The mutations that had finished when it was read. -/
  snapshot : Option Nat
  status : Status
deriving DecidableEq, Repr

def defaultStaleSec : Nat := 120
def refreshExpiredSec : Nat := 30 * 60

/-- `age`: the seconds since the last save. -/
def refreshExpired (row : Row) (age : Nat) : Bool :=
  decide (row.status = .refreshing) && row.snapshot.isSome && decide (refreshExpiredSec < age)

def isStale (row : Row) (maxAgeSec age : Nat) : Bool :=
  row.enabled &&
    match row.status with
    | .never | .off | .error | .stale => true
    | .refreshing => refreshExpired row age
    | .ok => row.snapshot.isNone || decide (maxAgeSec < age)

/-- `held`: the process has a refresh of this server under way. -/
def isRefreshStuck (row : Row) (held : Bool) : Bool := decide (row.status = .refreshing) && !held

/-- Whether a task is scheduled. -/
def requestRefresh (row : Row) (force held : Bool) (age : Nat) : Bool :=
  force || ((isStale row defaultStaleSec age || isRefreshStuck row held) &&
    !(decide (row.status = .refreshing) && !isRefreshStuck row held))

def invalidStatus (row : Row) : Status := if row.snapshot.isSome then .stale else .never

/-- The mutation leaves the status as it is: it saw a refresh running, or nothing to change. -/
def skipsMark (view : Row) : Bool := decide (view.status = .refreshing ∨ view.status = invalidStatus view)

/-- `view` is the row as the request has it, `row` as it is stored. -/
def markStale (view row : Row) : Row := if skipsMark view then row else { row with status := invalidStatus view }

/-- Feature off: `park_when_feature_off`; else the refresh goes on. -/
def beginRefresh (row : Row) : Bool × Row :=
  if row.enabled then (true, { row with status := .refreshing }) else (false, { row with status := .off })

/-! ## Refreshes, requests and their runs -/

variable {P R H : Type}

/-- A refresh in process `p`; `read` has a payload that is not saved yet, `leaving` has still to give back its
slot. -/
inductive RefreshPhase (P : Type)
  | idle
  | queued (p : P)
  | slot (p : P)
  | marked (p : P)
  | read (p : P) (finished : Nat)
  | leaving (p : P)
deriving DecidableEq

inductive RequestPhase
  | idle
  | loaded (view : Row)
  | invalidated
deriving DecidableEq

structure Inventory (P R H : Type) where
  row : Row
  /-- The mutations whose `invalidate_after_mutation` has returned. -/
  finished : Nat
  /-- Whether the server is in the process's `_refreshing`. -/
  refreshing : P → Bool
  refresh : R → RefreshPhase P
  request : H → RequestPhase

def Inventory.start (enabled : Bool) : Inventory P R H :=
  ⟨⟨enabled, none, .never⟩, 0, fun _ => false, fun _ => .idle, fun _ => .idle⟩

inductive Event (P R H : Type)
  /-- The request loads the row, for the first time or anew. -/
  | load (h : H)
  /-- A page asks for a refresh, with the session at hand. -/
  | kick (h : H) (r : R) (p : P) (force : Bool) (age : Nat)
  /-- The mutation is done on the host; without background tasks its request ends here. -/
  | markStale (h : H) (background : Bool)
  | enqueue (h : H) (r : R) (p : P)
  /-- A queued refresh starts, or one is called directly in process `p`. -/
  | take (r : R) (p : P)
  | mark (r : R)
  | readHost (r : R) (answers : Bool)
  | save (r : R) (commits : Bool)
  | release (r : R)
  | expire (p : P) (age : Nat)
  | setEnabled (enabled : Bool)

section Step
variable [DecidableEq P] [DecidableEq R] [DecidableEq H]

def Inventory.setRefresh (s : Inventory P R H) (r : R) (phase : RefreshPhase P) : Inventory P R H :=
  { s with refresh := fun r' => if r' = r then phase else s.refresh r' }

def Inventory.setRequest (s : Inventory P R H) (h : H) (phase : RequestPhase) : Inventory P R H :=
  { s with request := fun h' => if h' = h then phase else s.request h' }

def Inventory.setRefreshing (s : Inventory P R H) (p : P) (held : Bool) : Inventory P R H :=
  { s with refreshing := fun p' => if p' = p then held else s.refreshing p' }

def Inventory.setStatus (s : Inventory P R H) (status : Status) : Inventory P R H :=
  { s with row := { s.row with status } }

/-- Single-flight: the slot is taken, or the refresh is refused and gone. -/
def Inventory.tryTake (s : Inventory P R H) (r : R) (p : P) : Inventory P R H :=
  if s.refreshing p then s.setRefresh r .idle else (s.setRefreshing p true).setRefresh r (.slot p)

def inventoryStep (s : Inventory P R H) : Event P R H → Inventory P R H
  | .load h =>
    match s.request h with
    | .idle | .loaded _ => s.setRequest h (.loaded s.row)
    | .invalidated => s
  | .kick h r p force age =>
    match s.request h, s.refresh r with
    | .loaded view, .idle =>
      if requestRefresh view force (s.refreshing p) age then
        (if view.status ≠ .refreshing then s.setStatus .refreshing else s).setRefresh r (.queued p)
      else s
    | _, _ => s
  | .markStale h background =>
    match s.request h with
    | .loaded view =>
      let s := { s with row := markStale view s.row }
      if background then s.setRequest h .invalidated
      else { s.setRequest h .idle with finished := s.finished + 1 }
    | _ => s
  | .enqueue h r p =>
    match s.request h, s.refresh r with
    | .invalidated, .idle => { (s.setRequest h .idle).setRefresh r (.queued p) with finished := s.finished + 1 }
    | _, _ => s
  | .take r p =>
    match s.refresh r with
    | .idle => s.tryTake r p
    | .queued p => s.tryTake r p
    | _ => s
  | .mark r =>
    match s.refresh r with
    | .slot p =>
      { s with row := (beginRefresh s.row).2 }.setRefresh r (if (beginRefresh s.row).1 then .marked p else .leaving p)
    | _ => s
  | .readHost r answers =>
    match s.refresh r with
    | .marked p => if answers then s.setRefresh r (.read p s.finished) else (s.setStatus .error).setRefresh r (.leaving p)
    | _ => s
  | .save r commits =>
    match s.refresh r with
    | .read p n =>
      if commits then { s with row := { s.row with snapshot := some n, status := .ok } }.setRefresh r (.leaving p)
      else (s.setStatus .error).setRefresh r (.leaving p)
    | _ => s
  | .release r =>
    match s.refresh r with
    | .leaving p => (s.setRefreshing p false).setRefresh r .idle
    | _ => s
  | .expire p age =>
    if refreshExpired s.row age then (s.setStatus (invalidStatus s.row)).setRefreshing p false else s
  | .setEnabled enabled => { s with row := { s.row with enabled } }

end Step

/-! ## What is shown, and what is to come -/

/-- A refresh that has still to read the host. -/
def RefreshPhase.ToRead : RefreshPhase P → Prop
  | .queued _ | .slot _ | .marked _ => True
  | _ => False

def Coming (s : Inventory P R H) : Prop := ∃ r, (s.refresh r).ToRead

/-- A refresh other than `r` has still to read the host. -/
def ComingBut (s : Inventory P R H) (r : R) : Prop := ∃ r', r' ≠ r ∧ (s.refresh r').ToRead

/-- The stored snapshot was read after the last finished mutation. -/
def UpToDate (s : Inventory P R H) : Prop := s.row.snapshot = some s.finished

/-- **No mutation is hidden**: what is shown as `ok` is up to date, or will be read again. -/
def NothingHidden (s : Inventory P R H) : Prop := s.row.status = .ok → UpToDate s ∨ Coming s

/-- * A refresh that read the host before a mutation which has finished since is not saved, unless another has
  still to read it.
* A refresh is refused, or has read the host, under a status `ok` with an older snapshot only while another has
  still to read it.
* A mutation without background tasks does not skip its mark under the status `ok`, unless a refresh has still
  to read the host. -/
def Timely (s : Inventory P R H) : Event P R H → Prop
  | .save r true => ∀ p n, s.refresh r = .read p n → n = s.finished ∨ Coming s
  | .take r _ => ∀ p, s.refresh r = .queued p → s.refreshing p = true → s.row.status = .ok →
      UpToDate s ∨ ComingBut s r
  | .readHost r true => ∀ p, s.refresh r = .marked p → s.row.status = .ok → UpToDate s ∨ ComingBut s r
  | .markStale h false => ∀ view, s.request h = .loaded view → skipsMark view = true → s.row.status = .ok → Coming s
  | _ => True

/-- Nothing was read later than now. -/
structure Ordered (s : Inventory P R H) : Prop where
  snapshot : ∀ n, s.row.snapshot = some n → n ≤ s.finished
  read : ∀ r p n, s.refresh r = .read p n → n ≤ s.finished

section Status
variable {s : Inventory P R H} {r : R}

theorem markStale_status (view row : Row) :
    (markStale view row).status = .ok ↔ skipsMark view = true ∧ row.status = .ok := by
  unfold markStale
  split
  · rename_i h
    simp [h]
  · rename_i h
    have hne : invalidStatus view ≠ .ok := by
      unfold invalidStatus
      split <;> simp
    simp [h, hne]

@[simp] theorem markStale_snapshot (view row : Row) : (markStale view row).snapshot = row.snapshot := by
  unfold markStale
  split <;> rfl

theorem beginRefresh_status (row : Row) : (beginRefresh row).2.status ≠ .ok := by
  unfold beginRefresh
  split <;> simp

/-- The row, the count and the refreshes decide. -/
theorem NothingHidden.congr {s' : Inventory P R H} (hrow : s'.row = s.row) (hfinished : s'.finished = s.finished)
    (hrefresh : s'.refresh = s.refresh) (h : NothingHidden s) : NothingHidden s' := by
  unfold NothingHidden UpToDate Coming
  rw [hrow, hfinished, hrefresh]
  exact h

theorem nothingHidden_of_status (h : s.row.status ≠ .ok) : NothingHidden s := fun hok => absurd hok h

theorem coming_iff_comingBut (h : ¬ (s.refresh r).ToRead) : Coming s ↔ ComingBut s r := by
  constructor
  · rintro ⟨r', hr'⟩
    refine ⟨r', ?_, hr'⟩
    rintro rfl
    exact h hr'
  · rintro ⟨r', -, hr'⟩
    exact ⟨r', hr'⟩

end Status

section Step
variable [DecidableEq P] [DecidableEq R] [DecidableEq H] {s : Inventory P R H} {r : R} {phase : RefreshPhase P}

omit [DecidableEq P] [DecidableEq H] in
/-- Who has still to read once `r` has come to `phase`. -/
theorem coming_setRefresh : Coming (s.setRefresh r phase) ↔ phase.ToRead ∨ ComingBut s r := by
  constructor
  · rintro ⟨r', hr'⟩
    by_cases h : r' = r
    · subst h
      exact Or.inl (by simpa [Inventory.setRefresh] using hr')
    · exact Or.inr ⟨r', h, by simpa [Inventory.setRefresh, h] using hr'⟩
  · rintro (hphase | ⟨r', h, hr'⟩)
    · exact ⟨r, by simpa [Inventory.setRefresh] using hphase⟩
    · exact ⟨r', by simpa [Inventory.setRefresh, h] using hr'⟩

omit [DecidableEq H] in
/-- The slot is taken, or the refresh is refused. -/
theorem tryTake_hides_iff (s : Inventory P R H) (r : R) (p : P) :
    NothingHidden (s.tryTake r p) ↔
      (s.refreshing p = true → s.row.status = .ok → UpToDate s ∨ ComingBut s r) := by
  unfold Inventory.tryTake
  split
  · rename_i hheld
    simp only [hheld, true_implies]
    unfold NothingHidden
    rw [coming_setRefresh]
    simp only [RefreshPhase.ToRead, false_or]
    exact Iff.rfl
  · rename_i hfree
    simp only [hfree, Bool.false_eq_true, false_implies, iff_true]
    intro _
    refine Or.inr (coming_setRefresh.2 (Or.inl ?_))
    trivial

/-- **An event keeps the mutations in sight iff it is timely.** -/
theorem inventoryStep_hides_iff (s : Inventory P R H) (e : Event P R H) (ho : Ordered s) (hs : NothingHidden s) :
    NothingHidden (inventoryStep s e) ↔ Timely s e := by
  cases e with
  | load h =>
    refine iff_of_true ?_ trivial
    simp only [inventoryStep]
    split
    · exact hs.congr rfl rfl rfl
    · exact hs.congr rfl rfl rfl
    · exact hs
  | kick h r p force age =>
    refine iff_of_true ?_ trivial
    simp only [inventoryStep]
    split
    · split
      · intro _
        refine Or.inr (coming_setRefresh.2 (Or.inl ?_))
        trivial
      · exact hs
    · exact hs
  | markStale h background =>
    cases background with
    | true =>
      refine iff_of_true ?_ trivial
      simp only [inventoryStep]
      split
      · intro hok
        have hrow : s.row.status = .ok := ((markStale_status _ _).1 hok).2
        exact (hs hrow).imp (fun h => (markStale_snapshot _ _).trans h) id
      · exact hs
    | false =>
      simp only [inventoryStep, Timely]
      split
      · rename_i view hview
        have hold : ¬ (markStale view s.row).snapshot = some (s.finished + 1) := by
          rw [markStale_snapshot]
          intro hsnap
          exact absurd (ho.snapshot _ hsnap) (Nat.not_succ_le_self _)
        have hcoming : Coming { ({ s with row := markStale view s.row } : Inventory P R H).setRequest h .idle with
            finished := s.finished + 1 } ↔ Coming s := Iff.rfl
        constructor
        · intro hh view' hview' hskip hok
          obtain rfl := RequestPhase.loaded.inj (hview.symm.trans hview')
          exact hcoming.1 ((hh ((markStale_status _ _).2 ⟨hskip, hok⟩)).resolve_left hold)
        · intro hh hok
          obtain ⟨hskip, hrow⟩ := (markStale_status _ _).1 hok
          exact Or.inr (hcoming.2 (hh view hview hskip hrow))
      · rename_i hnone
        refine iff_of_true hs ?_
        intro view hview
        exact absurd hview (hnone view)
  | enqueue h r p =>
    refine iff_of_true ?_ trivial
    simp only [inventoryStep]
    split
    · intro _
      refine Or.inr ⟨r, ?_⟩
      simp [Inventory.setRefresh, RefreshPhase.ToRead]
    · exact hs
  | take r p =>
    simp only [inventoryStep, Timely]
    split
    · rename_i hidle
      rw [tryTake_hides_iff]
      have hbut : Coming s ↔ ComingBut s r := coming_iff_comingBut (by rw [hidle]; exact id)
      refine iff_of_true (fun _ hok => (hs hok).imp id hbut.1) ?_
      intro q hq
      rw [hidle] at hq
      cases hq
    · rename_i q hqueued
      rw [tryTake_hides_iff]
      constructor
      · intro h q' hq' hheld hok
        obtain rfl := RefreshPhase.queued.inj (hqueued.symm.trans hq')
        exact h hheld hok
      · intro h hheld hok
        exact h q hqueued hheld hok
    · rename_i hnidle hnqueued
      refine iff_of_true hs ?_
      intro q hq
      exact absurd hq (hnqueued q)
  | mark r =>
    refine iff_of_true ?_ trivial
    simp only [inventoryStep]
    split
    · exact nothingHidden_of_status (beginRefresh_status s.row)
    · exact hs
  | readHost r answers =>
    cases answers with
    | false =>
      refine iff_of_true ?_ trivial
      simp only [inventoryStep]
      split
      · refine nothingHidden_of_status ?_
        simp [Inventory.setRefresh, Inventory.setStatus]
      · exact hs
    | true =>
      simp only [inventoryStep, Timely]
      split
      · rename_i p hmarked
        unfold NothingHidden
        simp only [if_true]
        rw [coming_setRefresh]
        simp only [RefreshPhase.ToRead, false_or]
        constructor
        · intro h p' _ hok
          exact h hok
        · intro h hok
          exact h p hmarked hok
      · rename_i hnone
        refine iff_of_true hs ?_
        intro p hp
        exact absurd hp (hnone p)
  | save r commits =>
    cases commits with
    | false =>
      refine iff_of_true ?_ trivial
      simp only [inventoryStep]
      split
      · refine nothingHidden_of_status ?_
        simp [Inventory.setRefresh, Inventory.setStatus]
      · exact hs
    | true =>
      simp only [inventoryStep, Timely]
      split
      · rename_i p n hread
        have hbut : Coming s ↔ ComingBut s r := coming_iff_comingBut (by rw [hread]; exact id)
        unfold NothingHidden
        simp only [if_true]
        rw [coming_setRefresh]
        simp only [RefreshPhase.ToRead, false_or]
        constructor
        · intro h p' n' hread'
          obtain ⟨-, rfl⟩ := RefreshPhase.read.inj (hread.symm.trans hread')
          exact (h rfl).imp Option.some.inj hbut.2
        · intro h _
          exact (h p n hread).imp (congrArg some) hbut.1
      · rename_i hnone
        refine iff_of_true hs ?_
        intro p n hp
        exact absurd hp (hnone p n)
  | release r =>
    refine iff_of_true ?_ trivial
    simp only [inventoryStep]
    split
    · rename_i p hleaving
      have hbut : Coming s ↔ ComingBut s r := coming_iff_comingBut (by rw [hleaving]; exact id)
      intro hok
      exact (hs hok).imp id fun h => coming_setRefresh.2 (Or.inr (hbut.1 h))
    · exact hs
  | expire p age =>
    refine iff_of_true ?_ trivial
    simp only [inventoryStep]
    split
    · refine nothingHidden_of_status ?_
      show invalidStatus s.row ≠ .ok
      unfold invalidStatus
      split <;> simp
    · exact hs
  | setEnabled enabled => exact iff_of_true (fun hok => hs hok) trivial

omit [DecidableEq P] [DecidableEq H] in
theorem Ordered.setRefresh (ho : Ordered s) (hphase : ∀ p n, phase = .read p n → n ≤ s.finished) :
    Ordered (s.setRefresh r phase) := by
  refine ⟨ho.snapshot, fun r' p n hr' => ?_⟩
  simp only [Inventory.setRefresh] at hr'
  split at hr'
  · exact hphase p n hr'
  · exact ho.read r' p n hr'

theorem inventoryStep_ordered (s : Inventory P R H) (e : Event P R H) (ho : Ordered s) : Ordered (inventoryStep s e) := by
  cases e with
  | load h =>
    simp only [inventoryStep]
    split <;> exact ⟨ho.snapshot, ho.read⟩
  | kick h r p force age =>
    simp only [inventoryStep]
    split
    · split
      · refine Ordered.setRefresh ?_ (by simp)
        split
        · exact ⟨ho.snapshot, ho.read⟩
        · exact ho
      · exact ho
    · exact ho
  | markStale h background =>
    have hmarked : ∀ view n, (markStale view s.row).snapshot = some n → n ≤ s.finished := by
      intro view n hn
      rw [markStale_snapshot] at hn
      exact ho.snapshot n hn
    simp only [inventoryStep]
    split
    · split
      · exact ⟨hmarked _, ho.read⟩
      · exact ⟨fun n hn => Nat.le_succ_of_le (hmarked _ n hn), fun r p n hr => Nat.le_succ_of_le (ho.read r p n hr)⟩
    · exact ho
  | enqueue h r p =>
    simp only [inventoryStep]
    split
    · have hqueued : Ordered ((s.setRequest h .idle).setRefresh r (.queued p)) :=
        Ordered.setRefresh ⟨ho.snapshot, ho.read⟩ (by simp)
      exact ⟨fun n hn => Nat.le_succ_of_le (hqueued.snapshot n hn), fun r p n hr => Nat.le_succ_of_le (hqueued.read r p n hr)⟩
    · exact ho
  | take r p =>
    have htake : ∀ q, Ordered (s.tryTake r q) := by
      intro q
      unfold Inventory.tryTake
      split
      · exact ho.setRefresh (by simp)
      · exact Ordered.setRefresh ⟨ho.snapshot, ho.read⟩ (by simp)
    simp only [inventoryStep]
    split
    · exact htake p
    · exact htake _
    · exact ho
  | mark r =>
    have hrow : (beginRefresh s.row).2.snapshot = s.row.snapshot := by
      unfold beginRefresh
      split <;> rfl
    simp only [inventoryStep]
    split
    · refine Ordered.setRefresh ⟨fun n hn => ho.snapshot n (hrow ▸ hn), ho.read⟩ ?_
      intro p n hphase
      split at hphase <;> cases hphase
    · exact ho
  | readHost r answers =>
    simp only [inventoryStep]
    split
    · split
      · refine ho.setRefresh ?_
        rintro p n ⟨⟩
        exact Nat.le_refl _
      · exact Ordered.setRefresh ⟨ho.snapshot, ho.read⟩ (by simp)
    · exact ho
  | save r commits =>
    simp only [inventoryStep]
    split
    · rename_i p n hread
      split
      · refine Ordered.setRefresh ⟨fun m hm => ?_, ho.read⟩ (by simp)
        obtain rfl := Option.some.inj hm
        exact ho.read r p n hread
      · exact Ordered.setRefresh ⟨ho.snapshot, ho.read⟩ (by simp)
    · exact ho
  | release r =>
    simp only [inventoryStep]
    split
    · exact Ordered.setRefresh ⟨ho.snapshot, ho.read⟩ (by simp)
    · exact ho
  | expire p age =>
    simp only [inventoryStep]
    split
    · exact ⟨ho.snapshot, ho.read⟩
    · exact ho
  | setEnabled enabled => exact ⟨ho.snapshot, ho.read⟩

/-! ## Runs -/

/-- **No mutation is ever hidden by an older refresh exactly in the runs whose every event is timely.** -/
theorem nothing_hidden_iff (enabled : Bool) (es : List (Event P R H)) :
    (∀ pre post, es = pre ++ post → NothingHidden (runs inventoryStep (Inventory.start enabled) pre)) ↔
      Guarded inventoryStep Timely (Inventory.start enabled) es := by
  have hstart : Ordered (Inventory.start enabled : Inventory P R H) :=
    ⟨by simp [Inventory.start], by simp [Inventory.start]⟩
  have hshown : NothingHidden (Inventory.start enabled : Inventory P R H) := nothingHidden_of_status (by simp [Inventory.start])
  rw [← runs_hold_iff (Q := fun _ _ => True) inventoryStep_ordered
    (fun s e ho hs => by rw [and_true]; exact inventoryStep_hides_iff s e ho hs) hstart hshown es]
  simp

end Step

/-- A mutation ends while a refresh that has read the host is still to save; its own refresh is refused. -/
def mutationInBetween : List (Event Unit Nat Unit) :=
  [.take 0 (), .mark 0, .readHost 0 true, .load (), .markStale () true, .enqueue () 1 (), .take 1 (), .save 0 true]

theorem mutationInBetween_hidden :
    ¬ ∀ es : List (Event Unit Nat Unit), NothingHidden (runs inventoryStep (Inventory.start true) es) := by
  intro h
  rcases h mutationInBetween rfl with hread | ⟨r, hr⟩
  · cases hread
  · have hidle : ∀ r, (runs inventoryStep (Inventory.start true) mutationInBetween).refresh r = .idle ∨
        (runs inventoryStep (Inventory.start true) mutationInBetween).refresh r = .leaving () := by
      intro r
      by_cases h0 : r = 0
      · subst h0
        exact Or.inr rfl
      · by_cases h1 : r = 1
        · subst h1
          exact Or.inl rfl
        · refine Or.inl ?_
          simp [mutationInBetween, inventoryStep, Inventory.start, Inventory.setRefresh, Inventory.tryTake,
            Inventory.setRequest, Inventory.setRefreshing, beginRefresh, h0, h1]
    rcases hidle r with hphase | hphase
    · rw [hphase] at hr
      exact hr
    · rw [hphase] at hr
      exact hr

end PiHerder.Docker
