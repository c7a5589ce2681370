import PiHerder.Docker.Inventory

/-!
# One refresh at a time

A refresh of one server's inventory is under way twice over: in the row's status and in the process's `_refreshing`. The scheduler gives
up a refresh by the age of the last snapshot (`services/docker_inventory.py` 184–217, 410–487; `scheduler.py` 563–594).

| here | there |
| --- | --- |
| `SlotEvent.begin` … `leave` | `refresh_server_inventory`: the slot, `set_status` and `build_inventory_l1`, `save_inventory` or the error, the `finally` |
| `tryBegin`, `endSlot`, `release` | `try_begin_refresh`, `end_refresh_slot`, `release_expired_inventory_refresh` |
| `fleetPass` | what `schedule_docker_inventory_fleet` does for the server |

`one_refresh` says of which runs no two refreshes build at once, no young one is given up and none is stuck.
-/
namespace PiHerder.Docker
open Lib

/-! ## The code -/

inductive BuildPhase
  | entered
  | building (since : Int)
  | closing
deriving DecidableEq, Repr

/-- The server in its process. -/
structure SlotState where
  enabled : Bool
  status : Status
  /-- The snapshot is saved with its time. -/
  savedAt : Option Int
  refreshing : Bool
  refreshes : List BuildPhase
  now : Int
  /-- When the last refresh was over. -/
  quietSince : Int
deriving DecidableEq, Repr

def schedulerStaleSec : Nat := 600

/-- The row, whose snapshot is not told apart from others. -/
def SlotState.row (s : SlotState) : Row := ⟨s.enabled, s.savedAt.map fun _ => 0, s.status⟩

/-- `(datetime.utcnow() - at).total_seconds()`. -/
def SlotState.age (s : SlotState) : Nat := (s.now - s.savedAt.getD s.now).toNat

inductive SlotEvent
  | tick (now : Int)
  | setEnabled (enabled : Bool)
  /-- A refresh is called; without the slot it returns at once. -/
  | begin
  | mark (i : Nat)
  | finish (i : Nat) (answers : Bool)
  | leave (i : Nat)
  | tryBegin
  | endSlot
  | release
  | restart
deriving DecidableEq, Repr

def SlotState.begin (s : SlotState) : SlotState :=
  if s.refreshing then s else { s with refreshing := true, refreshes := s.refreshes ++ [.entered] }

def SlotState.release (s : SlotState) : SlotState :=
  if refreshExpired s.row s.age then { s with status := invalidStatus s.row, refreshing := false } else s

def SlotState.act (s : SlotState) : SlotEvent → SlotState
  | .tick now => { s with now }
  | .setEnabled enabled => { s with enabled }
  | .begin => s.begin
  | .mark i =>
    if s.refreshes[i]? = some .entered then
      if s.enabled then { s with status := .refreshing, refreshes := s.refreshes.set i (.building s.now) }
      else { s with status := .off, refreshes := s.refreshes.set i .closing }
    else s
  | .finish i answers =>
    match s.refreshes[i]? with
    | some (.building _) =>
      if answers then { s with status := .ok, savedAt := some s.now, refreshes := s.refreshes.set i .closing }
      else { s with status := .error, refreshes := s.refreshes.set i .closing }
    | _ => s
  | .leave i =>
    if s.refreshes[i]? = some .closing then { s with refreshing := false, refreshes := s.refreshes.eraseIdx i } else s
  | .tryBegin => { s with refreshing := true }
  | .endSlot => { s with refreshing := false }
  | .release => s.release
  | .restart => { s with refreshing := false, refreshes := [] }

/-- The clock is read when the last refresh is over. -/
def slotStep (s : SlotState) (e : SlotEvent) : SlotState :=
  if s.refreshes ≠ [] ∧ (s.act e).refreshes = [] then { s.act e with quietSince := (s.act e).now } else s.act e

def fleetPass (s : SlotState) : SlotState :=
  if s.enabled then
    if isStale s.release.row schedulerStaleSec s.release.age then s.release.begin else s.release
  else s

/-! ## The property -/

def BuildPhase.Builds : BuildPhase → Prop
  | .building _ => True
  | _ => False

instance (p : BuildPhase) : Decidable p.Builds := by cases p <;> unfold BuildPhase.Builds <;> infer_instance

/-- The refresh is building for less than half an hour. -/
def BuildPhase.Young (now : Int) : BuildPhase → Prop
  | .building since => now - since < refreshExpiredSec
  | _ => False

/-- One refresh builds at most. -/
def AtMostOne (s : SlotState) : Prop := (s.refreshes.countP fun p => decide p.Builds) ≤ 1

instance (s : SlotState) : Decidable (AtMostOne s) := Nat.decLe _ _

/-- Half an hour after the last refresh a row that is still refreshing is refreshed by the next pass. -/
def NoneStuck (s : SlotState) : Prop :=
  s.enabled = true → s.status = .refreshing → s.refreshes = [] → (refreshExpiredSec : Int) < s.now - s.quietSince →
    (fleetPass s).refreshes = [.entered]

/-- No young refresh is given up. -/
def KeepsYoung (s : SlotState) : SlotEvent → Prop
  | .release => refreshExpired s.row s.age = true → ∀ p ∈ s.refreshes, ¬ p.Young s.now
  | _ => True

def OneRefresh (s : SlotState) (es : List SlotEvent) : Prop :=
  (∀ pre post, es = pre ++ post → AtMostOne (runs slotStep s pre) ∧ NoneStuck (runs slotStep s pre)) ∧
    ∀ pre e post, es = pre ++ e :: post → KeepsYoung (runs slotStep s pre) e

/-! ## The condition -/

/-- No slot is given up under a refresh, no process ends before the first snapshot is there while the row is refreshing, and the clock does
not go back. -/
def Orderly (s : SlotState) : SlotEvent → Prop
  | .tick now => s.now ≤ now
  | .endSlot => s.refreshes = []
  | .release => s.refreshes ≠ [] → s.savedAt = none ∨ s.age ≤ refreshExpiredSec
  | .restart => s.status = .refreshing → s.savedAt ≠ none
  | _ => True

/-- A process at its start. -/
structure SlotState.Fresh (s : SlotState) : Prop where
  idle : s.refreshes = []
  saved : s.status = .refreshing → s.savedAt ≠ none
  past : ∀ a ∈ s.savedAt, a ≤ s.quietSince
  quiet : s.quietSince ≤ s.now

/-- What holds all along. -/
structure Held (s : SlotState) : Prop where
  single : s.refreshes = [] ∨ ∃ p, s.refreshes = [p] ∧ s.refreshing = true
  first : s.status = .refreshing → s.savedAt = none → ∃ since, s.refreshes = [.building since]
  saved : ∀ a ∈ s.savedAt, a ≤ s.now ∧ (s.refreshes = [] → a ≤ s.quietSince)
  quiet : s.quietSince ≤ s.now

/-! ## One event -/

section
variable {s : SlotState} {e : SlotEvent}

@[simp] theorem slotStep_status : (slotStep s e).status = (s.act e).status := by unfold slotStep; split <;> rfl
@[simp] theorem slotStep_savedAt : (slotStep s e).savedAt = (s.act e).savedAt := by unfold slotStep; split <;> rfl
@[simp] theorem slotStep_refreshing : (slotStep s e).refreshing = (s.act e).refreshing := by unfold slotStep; split <;> rfl
@[simp] theorem slotStep_refreshes : (slotStep s e).refreshes = (s.act e).refreshes := by unfold slotStep; split <;> rfl
@[simp] theorem slotStep_now : (slotStep s e).now = (s.act e).now := by unfold slotStep; split <;> rfl

theorem act_quietSince : (s.act e).quietSince = s.quietSince := by
  cases e <;> simp only [SlotState.act, SlotState.begin, SlotState.release] <;> repeat' split
  all_goals rfl

theorem slotStep_quietSince : (slotStep s e).quietSince =
    if s.refreshes ≠ [] ∧ (s.act e).refreshes = [] then (s.act e).now else s.quietSince := by
  unfold slotStep
  split
  · rfl
  · exact act_quietSince

/-- Only the clock's own event moves it. -/
theorem act_now : (s.act e).now = match e with | .tick now => now | _ => s.now := by
  cases e <;> simp only [SlotState.act, SlotState.begin, SlotState.release] <;> repeat' split
  all_goals rfl

theorem le_act_now (hok : Orderly s e) : s.now ≤ (s.act e).now := by
  rw [act_now]
  cases e with
  | tick now => exact hok
  | _ => exact Int.le_refl _

/-- A snapshot is saved by a refresh, with the time. -/
theorem act_savedAt : (s.act e).savedAt = s.savedAt ∨ ((s.act e).savedAt = some s.now ∧ s.refreshes ≠ []) := by
  cases e with
  | finish i answers =>
    simp only [SlotState.act]
    split
    · rename_i since hphase
      have hne : s.refreshes ≠ [] := by
        intro hnil
        rw [hnil] at hphase
        cases hphase
      cases answers
      · exact Or.inl rfl
      · exact Or.inr ⟨rfl, hne⟩
    · exact Or.inl rfl
  | begin => exact Or.inl (by simp only [SlotState.act, SlotState.begin]; split <;> rfl)
  | mark i =>
    left
    simp only [SlotState.act]
    split
    · split <;> rfl
    · rfl
  | leave i => exact Or.inl (by simp only [SlotState.act]; split <;> rfl)
  | release => exact Or.inl (by simp only [SlotState.act, SlotState.release]; split <;> rfl)
  | _ => exact Or.inl rfl

/-- Where one refresh runs at most, the first is it. -/
theorem Held.eq_of_getElem? (h : Held s) {i : Nat} {p : BuildPhase} (hp : s.refreshes[i]? = some p) :
    i = 0 ∧ s.refreshes = [p] ∧ s.refreshing = true := by
  obtain hnil | ⟨q, hq, hslot⟩ := h.single
  · rw [hnil] at hp
    cases hp
  · rw [hq] at hp ⊢
    cases i with
    | zero => exact ⟨rfl, by rw [Option.some.inj hp], hslot⟩
    | succ i => cases hp

theorem Held.single_act (h : Held s) (hok : Orderly s e) : (s.act e).refreshes = [] ∨
    ∃ p, (s.act e).refreshes = [p] ∧ (s.act e).refreshing = true := by
  cases e with
  | tick now => exact h.single
  | setEnabled enabled => exact h.single
  | restart => exact Or.inl rfl
  | endSlot => exact Or.inl hok
  | tryBegin =>
    obtain hnil | ⟨p, hp, -⟩ := h.single
    · exact Or.inl hnil
    · exact Or.inr ⟨p, hp, rfl⟩
  | begin =>
    simp only [SlotState.act, SlotState.begin]
    split
    · exact h.single
    · rename_i hslot
      obtain hnil | ⟨p, -, hheld⟩ := h.single
      · exact Or.inr ⟨.entered, by rw [hnil]; rfl, rfl⟩
      · exact absurd hheld hslot
  | mark i =>
    simp only [SlotState.act]
    split
    · rename_i hp
      obtain ⟨rfl, hone, hslot⟩ := h.eq_of_getElem? hp
      split
      · exact Or.inr ⟨.building s.now, by rw [hone]; rfl, hslot⟩
      · exact Or.inr ⟨.closing, by rw [hone]; rfl, hslot⟩
    · exact h.single
  | finish i answers =>
    simp only [SlotState.act]
    split
    · rename_i since hp
      obtain ⟨rfl, hone, hslot⟩ := h.eq_of_getElem? hp
      cases answers <;> exact Or.inr ⟨.closing, by rw [hone]; rfl, hslot⟩
    · exact h.single
  | leave i =>
    simp only [SlotState.act]
    split
    · rename_i hp
      obtain ⟨rfl, hone, -⟩ := h.eq_of_getElem? hp
      exact Or.inl (by rw [hone]; rfl)
    · exact h.single
  | release =>
    simp only [SlotState.act, SlotState.release]
    split
    · rename_i hexpired
      left
      by_contra hne
      simp only [refreshExpired, SlotState.row, Bool.and_eq_true, decide_eq_true_eq] at hexpired
      obtain hnone | hage := hok hne
      · rw [hnone] at hexpired
        exact absurd hexpired.1.2 (by simp)
      · omega
    · exact h.single

/-- A row that is refreshing without a snapshot is being refreshed. -/
theorem Held.first_act (h : Held s) (hok : Orderly s e) (hstatus : (s.act e).status = .refreshing) (hnone : (s.act e).savedAt = none) :
    ∃ since, (s.act e).refreshes = [.building since] := by
  cases e with
  | tick now => exact h.first hstatus hnone
  | setEnabled enabled => exact h.first hstatus hnone
  | tryBegin => exact h.first hstatus hnone
  | endSlot => exact h.first hstatus hnone
  | restart => exact absurd hnone (hok hstatus)
  | begin =>
    simp only [SlotState.act, SlotState.begin] at hstatus hnone ⊢
    split at hstatus
    · rename_i hslot
      rw [if_pos hslot] at hnone ⊢
      exact h.first hstatus hnone
    · rename_i hslot
      rw [if_neg hslot] at hnone ⊢
      obtain ⟨since, hone⟩ := h.first hstatus hnone
      obtain hnil | ⟨p, -, hheld⟩ := h.single
      · rw [hnil] at hone
        cases hone
      · exact absurd hheld hslot
  | mark i =>
    simp only [SlotState.act] at hstatus hnone ⊢
    split at hstatus
    · rename_i hp
      obtain ⟨rfl, hone, -⟩ := h.eq_of_getElem? hp
      rw [if_pos hp] at hnone ⊢
      split at hstatus
      · rename_i henabled
        rw [if_pos henabled, hone]
        exact ⟨s.now, rfl⟩
      · cases hstatus
    · rename_i hp
      rw [if_neg hp] at hnone ⊢
      exact h.first hstatus hnone
  | finish i answers =>
    simp only [SlotState.act] at hstatus hnone ⊢
    split at hstatus
    · cases answers <;> cases hstatus
    · split at hnone
      · rename_i hnot _ since hp
        exact absurd hp (hnot since)
      · exact h.first hstatus hnone
  | leave i =>
    simp only [SlotState.act] at hstatus hnone ⊢
    split at hstatus
    · rename_i hp
      obtain ⟨-, hone, -⟩ := h.eq_of_getElem? hp
      rw [if_pos hp] at hnone
      obtain ⟨since, hfirst⟩ := h.first hstatus hnone
      rw [hfirst] at hone
      cases hone
    · rename_i hp
      rw [if_neg hp] at hnone ⊢
      exact h.first hstatus hnone
  | release =>
    simp only [SlotState.act, SlotState.release] at hstatus hnone ⊢
    split at hstatus
    · exact absurd hstatus (by simp only [invalidStatus]; split <;> decide)
    · rename_i hexpired
      rw [if_neg hexpired] at hnone ⊢
      exact h.first hstatus hnone

theorem Held.step (h : Held s) (hok : Orderly s e) : Held (slotStep s e) := by
  have hnow := le_act_now hok
  constructor
  · simpa using h.single_act hok
  · intro hstatus hnone
    simp only [slotStep_status, slotStep_savedAt, slotStep_refreshes] at hstatus hnone ⊢
    exact h.first_act hok hstatus hnone
  · intro a ha
    rw [slotStep_savedAt] at ha
    rw [slotStep_now, slotStep_refreshes, slotStep_quietSince]
    have hle : a ≤ s.now := by
      obtain heq | ⟨heq, -⟩ := act_savedAt (s := s) (e := e)
      · exact (h.saved a (heq ▸ ha)).1
      · rw [heq] at ha
        exact Int.le_of_eq (Option.some.inj ha).symm
    refine ⟨Int.le_trans hle hnow, fun hnil => ?_⟩
    split
    · exact Int.le_trans hle hnow
    · rename_i hnot
      have hidle : s.refreshes = [] := by
        by_contra hne
        exact hnot ⟨hne, hnil⟩
      obtain heq | ⟨-, hne⟩ := act_savedAt (s := s) (e := e)
      · exact (h.saved a (heq ▸ ha)).2 hidle
      · exact absurd hidle hne
  · rw [slotStep_quietSince, slotStep_now]
    split
    · exact Int.le_refl _
    · exact Int.le_trans h.quiet hnow

theorem SlotState.Fresh.held (h : s.Fresh) : Held s where
  single := Or.inl h.idle
  first hstatus hnone := absurd hnone (h.saved hstatus)
  saved a ha := ⟨Int.le_trans (h.past a ha) h.quiet, fun _ => h.past a ha⟩
  quiet := h.quiet

theorem Held.atMostOne (h : Held s) : AtMostOne s := by
  unfold AtMostOne
  obtain hnil | ⟨p, hp, -⟩ := h.single
  · rw [hnil]
    exact Nat.zero_le 1
  · rw [hp]
    exact List.countP_le_length

/-- What is left refreshing is given up and begun again. -/
theorem Held.noneStuck (h : Held s) : NoneStuck s := by
  intro henabled hstatus hidle hlate
  obtain ⟨a, ha⟩ : ∃ a, s.savedAt = some a := by
    cases hsaved : s.savedAt with
    | some a => exact ⟨a, rfl⟩
    | none =>
      obtain ⟨since, hone⟩ := h.first hstatus hsaved
      rw [hidle] at hone
      cases hone
  have hpast := (h.saved a ha).2 hidle
  have hage : refreshExpiredSec < s.age := by
    unfold SlotState.age
    rw [ha, Option.getD_some]
    omega
  have hexpired : refreshExpired s.row s.age = true := by
    simp [refreshExpired, SlotState.row, hstatus, ha, hage]
  have hrelease : s.release = { s with status := .stale, refreshing := false } := by
    unfold SlotState.release
    rw [if_pos hexpired]
    simp [invalidStatus, SlotState.row, ha]
  unfold fleetPass
  rw [if_pos henabled, hrelease]
  simp [isStale, SlotState.row, henabled, SlotState.begin, hidle]

theorem Orderly.keepsYoung (hok : Orderly s e) : KeepsYoung s e := by
  cases e with
  | release =>
    intro hexpired p hp
    have hne : s.refreshes ≠ [] := List.ne_nil_of_mem hp
    simp only [refreshExpired, SlotState.row, Bool.and_eq_true, decide_eq_true_eq] at hexpired
    obtain hnone | hage := hok hne
    · rw [hnone] at hexpired
      exact absurd hexpired.1.2 (by simp)
    · omega
  | _ => trivial

/-- **One refresh at a time, and none stuck**, in every run of orderly events. -/
theorem one_refresh (hfresh : s.Fresh) {es : List SlotEvent} (hrun : Guarded slotStep Orderly s es) : OneRefresh s es := by
  constructor
  · rintro pre post rfl
    have hheld := runs_invariant (fun _ _ h hok => Held.step h hok) pre s hfresh.held hrun.of_append
    exact ⟨hheld.atMostOne, hheld.noneStuck⟩
  · intro pre e post hsplit
    exact (guarded_iff.1 hrun pre e post hsplit).keepsYoung

end

/-- A host whose last snapshot is `age` seconds old. -/
def agedHost (age : Int) : SlotState := ⟨true, .ok, some 0, false, [], age, 0⟩

theorem agedHost_fresh {age : Int} (h : 0 ≤ age) : (agedHost age).Fresh :=
  ⟨rfl, fun h => Status.noConfusion h, fun _ ha => Int.le_of_eq (Option.some.inj ha).symm, h⟩

/-- A refresh that is done before the snapshot is half an hour old. -/
theorem quick_refresh : OneRefresh (agedHost 700) [.release, .begin, .mark 0, .tick 720, .release, .finish 0 true, .leave 0, .restart] := by
  refine one_refresh (agedHost_fresh (by decide)) ⟨fun h => absurd rfl h, trivial, trivial, ?_, ?_, trivial, trivial, ?_, trivial⟩
  · exact (by decide : (700 : Int) ≤ 720)
  · exact fun _ => Or.inr (by decide)
  · exact fun h => Status.noConfusion h

/-- A host that has had no snapshot. -/
def newHost : SlotState := ⟨true, .never, none, false, [], 0, 0⟩

/-- A refresh on an old snapshot is given up at once and a second one builds beside it, and a first refresh that its process did not live to
end is never begun again. -/
theorem aged_refresh_given_up :
    ((agedHost 2000).Fresh ∧ ¬ OneRefresh (agedHost 2000) [.begin, .mark 0, .release, .begin, .mark 1]) ∧
      newHost.Fresh ∧ ¬ OneRefresh newHost [.begin, .mark 0, .restart, .tick 5000] := by
  refine ⟨⟨agedHost_fresh (by decide), fun h => ?_⟩, ⟨rfl, fun h => Status.noConfusion h, by simp [newHost], by decide⟩, fun h => ?_⟩
  · have hone := (h.1 [.begin, .mark 0, .release, .begin, .mark 1] [] rfl).1
    exact absurd hone (by decide)
  · have hstuck := (h.1 [.begin, .mark 0, .restart, .tick 5000] [] rfl).2 rfl rfl rfl (by decide)
    exact absurd hstuck (by decide)

end PiHerder.Docker
