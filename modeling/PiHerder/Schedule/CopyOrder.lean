import Mathlib
import PiHerder.Lib.PyStr
import PiHerder.Lib.Zoned

/-!
# Copies that are scheduled before the backups they ship

| here | there (`services/copy_schedule_order.py`) |
| --- | --- |
| `lookaheadDays`, `fireLimit` | `COPY_ORDER_LOOKAHEAD_DAYS`, `_FIRE_LIMIT` (24–25) |
| `firesBetween`, `copyRunsBeforeHost` | the functions of these names (43, 81) |
| `cronTrigger` | **APScheduler boundary**: `_cron_trigger`, `none` where it raises |

A trigger ticks at some instants and returns them in the zone of the schedule. Between two such values Python compares the clocks
and not the instants, and the cursor of the walk goes on from what the clock shows.
-/
namespace PiHerder.Schedule
open Lib Lib.Str

/-! ## Definitions -/

def lookaheadDays : Int := 35
def fireLimit : Nat := 400

/-- `trigger.get_next_fire_time(None, cursor)` over and over, `limit` times at most. -/
def walk (z : Zone) (trigger : Ticks) (start stop : Int) : Nat → Int → List Zoned
  | 0, _ => []
  | limit + 1, cursor =>
    match (trigger.next cursor).map z.now with
    | none => []
    | some nxt =>
      if stop < z.instant nxt then []
      else if z.instant nxt < start then walk z trigger start stop limit (start + second)
      else nxt :: walk z trigger start stop limit (z.instant (nxt.plus 1))

/-- The trigger of a text, where it is usable. -/
def usable (cronTrigger : Str → Option Ticks) (cron : Str) : Option Ticks :=
  if strip cron = [] then none else cronTrigger (strip cron)

def firesBetween (z : Zone) (cronTrigger : Str → Option Ticks) (cron : Str) (start stop : Int) (limit : Nat) : List Zoned :=
  match usable cronTrigger cron with
  | none => []
  | some trigger => if stop < start then [] else walk z trigger start stop limit start

/-- The backups of a copy's day are those of `by_day`. -/
def copyRunsBeforeHost (z : Zone) (cronTrigger : Str → Option Ticks) (copyCron hostCron : Str) (now : Int) : Bool :=
  let stop := now + lookaheadDays * day
  let copies := firesBetween z cronTrigger copyCron now stop fireLimit
  let hosts := firesBetween z cronTrigger hostCron now stop fireLimit
  copies.any fun fire => (hosts.filter fun backup => backup.date = fire.date).any fun backup => decide (fire.wall < backup.wall)

/-! ## How far a walk gets -/

section
variable (z : Zone) (trigger : Ticks) (start stop : Int)

/-- A fire of the second pass takes the walk back to the first. It gets past it only where that is before the window, from where it
goes on one second after the start. -/
def Passed (g : Int) : Prop :=
  z.fold g = false ∨ (g < start + second ∧ ∃ early, trigger.At early ∧ z.instant ((z.now g).plus 1) ≤ early ∧ early < start)

/-- The steps from `a` to `b`, where every fire between them is passed. -/
def steps (a b : Int) : Nat := (trigger.within a b).card + ((trigger.within a b).filter fun g => z.fold g = true).card

/-- A fire of the window that a walk of `limit` steps gets to. -/
structure Reached (limit : Nat) (f : Int) : Prop where
  fire : trigger.At f
  window : start ≤ f ∧ f ≤ stop
  passed : ∀ g, trigger.At g → start ≤ g → g < f → Passed z trigger start g
  near : steps z trigger start f < limit

variable {z trigger start stop}

theorem steps_of_next {a b c f : Int} (h : trigger.next a = some f) (hf : f < b) (hc : f < c) (hrest : ∀ g, trigger.At g → f < g → c ≤ g) :
    steps z trigger a b = steps z trigger c b + if z.fold f = true then 2 else 1 := by
  have hnot : f ∉ trigger.within c b := fun hmem => by
    have := (trigger.mem_within.1 hmem).1.1
    omega
  unfold steps
  rw [trigger.within_of_next h hf hc hrest, Finset.card_insert_of_notMem hnot, Finset.filter_insert]
  split
  · rw [Finset.card_insert_of_notMem fun hmem => hnot (Finset.mem_filter.1 hmem).1]
    omega
  · omega

theorem steps_of_next_last {a c f : Int} (h : trigger.next a = some f) (ha : start ≤ a) (hc : f < c)
    (hrest : ∀ g, trigger.At g → f < g → c ≤ g) :
    steps z trigger start c = steps z trigger start a + if z.fold f = true then 2 else 1 := by
  have hnot : f ∉ trigger.within start a := fun hmem => by
    have := (trigger.mem_within.1 hmem).1.2
    have := trigger.le h
    omega
  unfold steps
  rw [trigger.within_of_next_last h ha hc hrest, Finset.card_insert_of_notMem hnot, Finset.filter_insert]
  split
  · rw [Finset.card_insert_of_notMem fun hmem => hnot (Finset.mem_filter.1 hmem).1]
    omega
  · omega

theorem steps_mono {a b c : Int} (h : ∀ g, trigger.At g → a ≤ g → g < b → g < c) : steps z trigger a b ≤ steps z trigger a c := by
  have hsub : trigger.within a b ⊆ trigger.within a c := by
    intro g hg
    obtain ⟨⟨hag, hgb⟩, hat⟩ := trigger.mem_within.1 hg
    exact trigger.mem_within.2 ⟨⟨hag, h g hat hag hgb⟩, hat⟩
  exact Nat.add_le_add (Finset.card_le_card hsub) (Finset.card_le_card (Finset.filter_subset_filter _ hsub))

/-- After a fire of the first pass the walk goes on behind it. -/
theorem walk_of_first_pass {limit : Nat} {cursor f : Int} (h : trigger.next cursor = some f) (hstart : start ≤ f) (hstop : f ≤ stop)
    (hfold : z.fold f = false) :
    walk z trigger start stop (limit + 1) cursor = z.now f :: walk z trigger start stop limit (f + 1) := by
  rw [walk, h]
  simp only [Option.map_some, Zone.instant_of_now]
  rw [if_neg (not_lt.2 hstop), if_neg (not_lt.2 hstart), z.instant_plus_one (trigger.whole (trigger.again h)) hfold]

/-- After one of the second pass it goes on from the first. -/
theorem walk_of_fire {limit : Nat} {cursor f : Int} (h : trigger.next cursor = some f) (hstart : start ≤ f) (hstop : f ≤ stop) :
    walk z trigger start stop (limit + 1) cursor =
      z.now f :: walk z trigger start stop limit (z.instant ((z.now f).plus 1)) := by
  rw [walk, h]
  simp only [Option.map_some, Zone.instant_of_now]
  rw [if_neg (not_lt.2 hstop), if_neg (not_lt.2 hstart)]

/-- From a fire before the window it goes on one second after the start. -/
theorem walk_of_early {limit : Nat} {cursor early : Int} (hearly : trigger.At early) (hcursor : cursor ≤ early) (hstart : early < start)
    (hstop : start ≤ stop) : walk z trigger start stop (limit + 1) cursor = walk z trigger start stop limit (start + second) := by
  obtain ⟨f, hf, hle⟩ := trigger.least hcursor hearly
  rw [walk, hf]
  simp only [Option.map_some, Zone.instant_of_now]
  rw [if_neg (by omega), if_pos (by omega)]

/-- What it gets to is found. -/
theorem mem_walk_of_steps {f : Int} (hf : trigger.At f) (hstop : f ≤ stop) :
    ∀ (limit : Nat) (cursor : Int), start ≤ cursor → cursor ≤ f → (∀ g, trigger.At g → cursor ≤ g → g < f → Passed z trigger start g) →
      steps z trigger cursor f < limit → z.now f ∈ walk z trigger start stop limit cursor := by
  intro limit
  induction limit using Nat.strong_induction_on with
  | _ limit ih =>
    intro cursor hstart hle hpassed hnear
    obtain ⟨limit, rfl⟩ := Nat.exists_eq_add_one_of_ne_zero (Nat.ne_of_gt (Nat.zero_lt_of_lt hnear))
    obtain ⟨g, hg, hgf⟩ := trigger.least hle hf
    obtain ⟨hat, hcg, -⟩ := trigger.next_eq_some.1 hg
    rcases eq_or_lt_of_le hgf with rfl | hlt
    · rw [walk_of_fire hg (by omega) hstop]
      exact List.mem_cons_self
    have hnext : ∀ h, trigger.At h → g < h → g + 1 ≤ h := fun h _ hgh => hgh
    cases hfold : z.fold g with
    | false =>
      rw [walk_of_first_pass hg (by omega) (by omega) hfold]
      have hsteps := steps_of_next (z := z) hg hlt (Int.lt_succ g) hnext
      rw [hfold] at hsteps
      simp only [Bool.false_eq_true, if_false] at hsteps
      exact List.mem_cons_of_mem _ (ih limit (by omega) (g + 1) (by omega) (by omega) (fun h hh hle => hpassed h hh (by omega)) (by omega))
    | true =>
      rcases hpassed g hat hcg hlt with hfirst | ⟨hsecond, early, hearly, hback, hbefore⟩
      · rw [hfold] at hfirst
        cases hfirst
      -- The only fire of the first second: two steps further the walk is behind it.
      have hrest : ∀ h, trigger.At h → g < h → start + second ≤ h := by
        intro h hh hgh
        by_contra hnot
        have := trigger.eq_of_lt hat hh hgh.le (by omega)
        omega
      have hsteps := steps_of_next (z := z) hg hlt hsecond hrest
      rw [hfold, if_pos rfl] at hsteps
      obtain ⟨limit, rfl⟩ : ∃ l, limit = l + 1 := ⟨limit - 1, by omega⟩
      rw [walk_of_fire hg (by omega) (by omega), walk_of_early hearly hback hbefore (by omega)]
      refine List.mem_cons_of_mem _ (ih limit (by omega) (start + second) (by unfold second; omega) (hrest f hf hlt) ?_ (by omega))
      intro h hh hle
      exact hpassed h hh (by omega)

/-- From behind a fire of the second pass that it does not get past, the walk finds no later one. -/
theorem walk_trapped {f : Int} (hf : trigger.At f) (hstart : start ≤ f) (hstop : f ≤ stop) (hnot : ¬ Passed z trigger start f) :
    ∀ (limit : Nat) (cursor : Int), cursor ≤ f → (f < start + second → ∀ g, trigger.At g → cursor ≤ g → start ≤ g) →
      ∀ d ∈ walk z trigger start stop limit cursor, ∃ g, trigger.At g ∧ start ≤ g ∧ g ≤ f ∧ z.now g = d := by
  have hsecond : z.fold f = true := by
    rw [← Bool.not_eq_false]
    exact fun h => hnot (Or.inl h)
  intro limit
  induction limit with
  | zero =>
    intro cursor _ _ d hd
    cases hd
  | succ limit ih =>
    intro cursor hle hearly d hd
    obtain ⟨g, hg, hgf⟩ := trigger.least hle hf
    obtain ⟨hat, hcg, -⟩ := trigger.next_eq_some.1 hg
    by_cases hbefore : g < start
    · have hlate : start + second ≤ f := by
        by_contra hlt
        have := hearly (by omega) g hat hcg
        omega
      rw [walk_of_early hat hcg hbefore (by omega)] at hd
      exact ih (start + second) hlate (fun h => absurd h (by omega)) d hd
    rw [walk_of_fire hg (by omega) (by omega)] at hd
    rcases List.mem_cons.1 hd with rfl | hd
    · exact ⟨g, hat, by omega, hgf, rfl⟩
    cases hfold : z.fold g with
    | false =>
      rw [z.instant_plus_one (trigger.whole hat) hfold] at hd
      have hne : g ≠ f := by
        rintro rfl
        rw [hsecond] at hfold
        cases hfold
      exact ih (g + 1) (by omega) (fun _ h hh hle => by omega) d hd
    | true =>
      have hback := z.instant_plus_one_of_fold (trigger.whole hat) hfold
      refine ih _ (by omega) (fun hlt e he hafter => ?_) d hd
      by_contra hstart'
      have hgeq := trigger.eq_of_lt hat hf hgf (by omega)
      subst hgeq
      exact hnot (Or.inr ⟨hlt, e, he, hafter, by omega⟩)

/-- What is found, it gets to. -/
theorem reached_of_mem_walk (limit : Nat) : ∀ (n : Nat) (cursor : Int), start ≤ cursor → steps z trigger start cursor + n ≤ limit →
    (∀ g, trigger.At g → start ≤ g → g < cursor → Passed z trigger start g) →
      ∀ d ∈ walk z trigger start stop n cursor, ∃ f, Reached z trigger start stop limit f ∧ z.now f = d := by
  intro n
  induction n using Nat.strong_induction_on with
  | _ n ih =>
    intro cursor hstart hnear hpassed d hd
    cases n with
    | zero => cases hd
    | succ n =>
    cases hg : trigger.next cursor with
    | none =>
      rw [walk, hg] at hd
      cases hd
    | some g =>
    obtain ⟨hat, hcg, hleast⟩ := trigger.next_eq_some.1 hg
    by_cases hstop : stop < g
    · rw [walk, hg] at hd
      simp only [Option.map_some, Zone.instant_of_now, if_pos hstop] at hd
      cases hd
    have hbefore : ∀ h, trigger.At h → start ≤ h → h < g → h < cursor := by
      intro h hh _ hlt
      by_contra hle
      have := hleast h hh (not_lt.1 hle)
      omega
    have hreached : ∀ f, trigger.At f → start ≤ f → f ≤ g → Reached z trigger start stop limit f := by
      intro f hf hsf hfg
      refine ⟨hf, ⟨hsf, by omega⟩, fun h hh hle hlt => hpassed h hh hle (hbefore h hh hle (by omega)), ?_⟩
      have hsteps : steps z trigger start f ≤ steps z trigger start cursor := steps_mono fun h hh hle hlt => hbefore h hh hle (by omega)
      omega
    rw [walk_of_fire hg (by omega) (by omega)] at hd
    rcases List.mem_cons.1 hd with rfl | hd
    · exact ⟨g, hreached g hat (by omega) le_rfl, rfl⟩
    cases hfold : z.fold g with
    | false =>
      rw [z.instant_plus_one (trigger.whole hat) hfold] at hd
      have hsteps := steps_of_next_last (z := z) hg hstart (Int.lt_succ g) fun h _ hgh => hgh
      rw [hfold] at hsteps
      simp only [Bool.false_eq_true, if_false] at hsteps
      refine ih n (by omega) (g + 1) (by omega) (by omega) (fun h hh hle hlt => ?_) d hd
      rcases eq_or_lt_of_le (Int.lt_add_one_iff.1 hlt) with rfl | hlt
      · exact Or.inl hfold
      · exact hpassed h hh hle (hbefore h hh hle hlt)
    | true =>
      by_cases hpass : Passed z trigger start g
      swap
      · -- The walk stays before `g`.
        have hback := z.instant_plus_one_of_fold (trigger.whole hat) hfold
        have hearly : g < start + second → ∀ h, trigger.At h → z.instant ((z.now g).plus 1) ≤ h → start ≤ h := by
          intro hlt h hh hle
          by_contra hlt'
          exact hpass (Or.inr ⟨hlt, h, hh, hle, by omega⟩)
        obtain ⟨f, hf, hsf, hfg, rfl⟩ := walk_trapped hat (by omega) (by omega) hpass n _ hback hearly d hd
        exact ⟨f, hreached f hf hsf hfg, rfl⟩
      obtain hfirst | ⟨hsecond, early, hearly, hback, hbeforeStart⟩ := id hpass
      · rw [hfold] at hfirst
        cases hfirst
      cases n with
      | zero => cases hd
      | succ n =>
      rw [walk_of_early hearly hback hbeforeStart (by omega)] at hd
      have hrest : ∀ h, trigger.At h → g < h → start + second ≤ h := by
        intro h hh hgh
        by_contra hnot
        have := trigger.eq_of_lt hat hh hgh.le (by omega)
        omega
      have hsteps := steps_of_next_last (z := z) hg hstart hsecond hrest
      rw [hfold, if_pos rfl] at hsteps
      refine ih n (by omega) (start + second) (by unfold second; omega) (by omega) (fun h hh hle hlt => ?_) d hd
      by_cases hhg : h < g
      · exact hpassed h hh hle (hbefore h hh hle hhg)
      · obtain rfl := trigger.eq_of_lt hat hh (not_lt.1 hhg) (by omega)
        exact hpass

theorem mem_walk {limit : Nat} {d : Zoned} :
    d ∈ walk z trigger start stop limit start ↔ ∃ f, Reached z trigger start stop limit f ∧ z.now f = d := by
  constructor
  · refine reached_of_mem_walk limit limit start le_rfl ?_ (fun g _ hle hlt => absurd hle (by omega)) d
    simp [steps, Ticks.within]
  · rintro ⟨f, hf, rfl⟩
    exact mem_walk_of_steps hf.fire hf.window.2 limit start le_rfl hf.window.1 hf.passed hf.near

end

/-! ## The warning -/

section
variable (z : Zone) (cronTrigger : Str → Option Ticks) (copyCron hostCron : Str) (now : Int)

/-- The schedule of a text fires at `f`. -/
def Fires (cron : Str) (f : Int) : Prop := ∃ trigger, usable cronTrigger cron = some trigger ∧ trigger.At f

/-- Within the window, a copy and strictly later a backup of the host, on one local day. -/
def ShipsPrevious : Prop :=
  ∃ copy backup, Fires cronTrigger copyCron copy ∧ Fires cronTrigger hostCron backup ∧ now ≤ copy ∧ copy < backup ∧
    backup ≤ now + lookaheadDays * day ∧ (z.now copy).date = (z.now backup).date

/-- A copy and a backup that the walks get to are on one local day, the backup later on its clock. -/
def SeesLater (copy backup : Int) : Prop :=
  (∃ trigger, usable cronTrigger copyCron = some trigger ∧ Reached z trigger now (now + lookaheadDays * day) fireLimit copy) ∧
    (∃ trigger, usable cronTrigger hostCron = some trigger ∧ Reached z trigger now (now + lookaheadDays * day) fireLimit backup) ∧
      (z.now copy).date = (z.now backup).date ∧ (z.now copy).wall < (z.now backup).wall

variable {z cronTrigger copyCron hostCron now}

theorem mem_firesBetween {cron : Str} {stop : Int} {limit : Nat} {d : Zoned} :
    d ∈ firesBetween z cronTrigger cron now stop limit ↔
      ∃ f, (∃ trigger, usable cronTrigger cron = some trigger ∧ Reached z trigger now stop limit f) ∧ z.now f = d := by
  unfold firesBetween
  cases h : usable cronTrigger cron with
  | none => simp
  | some trigger =>
    simp only [Option.some.injEq, exists_eq_left']
    split
    · rename_i hempty
      refine iff_of_false List.not_mem_nil ?_
      rintro ⟨f, hf, -⟩
      have := hf.window
      omega
    · exact mem_walk

theorem copyRunsBeforeHost_eq_true :
    copyRunsBeforeHost z cronTrigger copyCron hostCron now = true ↔ ∃ copy backup, SeesLater z cronTrigger copyCron hostCron now copy backup := by
  simp only [copyRunsBeforeHost, List.any_eq_true, List.mem_filter, decide_eq_true_eq, mem_firesBetween]
  constructor
  · rintro ⟨d, ⟨copy, hcopy, rfl⟩, e, ⟨⟨backup, hbackup, rfl⟩, hdate⟩, hlt⟩
    exact ⟨copy, backup, hcopy, hbackup, hdate.symm, hlt⟩
  · rintro ⟨copy, backup, hcopy, hbackup, hdate, hlt⟩
    exact ⟨_, ⟨copy, hcopy, rfl⟩, _, ⟨⟨backup, hbackup, rfl⟩, hdate.symm⟩, hlt⟩

/-- Where the walks and the clocks are right, so is the warning. -/
theorem shipsPrevious_of_seesLater {copy backup : Int} (h : SeesLater z cronTrigger copyCron hostCron now copy backup)
    (hlt : copy < backup) : ShipsPrevious z cronTrigger copyCron hostCron now := by
  obtain ⟨⟨c, hc, hcopy⟩, ⟨b, hb, hbackup⟩, hdate, -⟩ := h
  exact ⟨copy, backup, ⟨c, hc, hcopy.fire⟩, ⟨b, hb, hbackup.fire⟩, hcopy.window.1, hlt, hbackup.window.2, hdate⟩

/-- **When the warning is exact.** Where a copy runs before a backup of its day, exactly if the walks get to such a day's copy and
backup, in this order of the clock; where none does, exactly if they get to no backup that is later on the clock only. -/
theorem warning_exact_iff :
    (copyRunsBeforeHost z cronTrigger copyCron hostCron now = true ↔ ShipsPrevious z cronTrigger copyCron hostCron now) ↔
      (ShipsPrevious z cronTrigger copyCron hostCron now → ∃ copy backup, SeesLater z cronTrigger copyCron hostCron now copy backup) ∧
        ∀ copy backup, SeesLater z cronTrigger copyCron hostCron now copy backup → backup ≤ copy →
          ShipsPrevious z cronTrigger copyCron hostCron now := by
  rw [copyRunsBeforeHost_eq_true]
  constructor
  · exact fun h => ⟨h.2, fun copy backup hsees _ => h.1 ⟨copy, backup, hsees⟩⟩
  · rintro ⟨hmiss, hfalse⟩
    refine ⟨?_, hmiss⟩
    rintro ⟨copy, backup, hsees⟩
    rcases lt_or_ge copy backup with hlt | hle
    · exact shipsPrevious_of_seesLater hsees hlt
    · exact hfalse copy backup hsees hle

end

/-- Backups every five minutes and one copy, 40 hours from now. -/
def fiveMinutes : Ticks := Ticks.every (5 * minute) (by decide) (by decide)
def inFortyHours : Ticks := Ticks.once (40 * 60 * minute) (by decide)

def denseBackups (cron : Str) : Option Ticks :=
  if cron = lit "*/5 * * * *" then some fiveMinutes else if cron = lit "0 16 2 1 *" then some inFortyHours else none

/-- The 400 backups that are looked at end after 33 hours, and no copy is warned of. -/
theorem dense_backups_unseen :
    ¬ (copyRunsBeforeHost Zone.utc denseBackups (lit "0 16 2 1 *") (lit "*/5 * * * *") 0 = true ↔
      ShipsPrevious Zone.utc denseBackups (lit "0 16 2 1 *") (lit "*/5 * * * *") 0) := by
  have hspec : ShipsPrevious Zone.utc denseBackups (lit "0 16 2 1 *") (lit "*/5 * * * *") 0 :=
    ⟨40 * 60 * minute, 40 * 60 * minute + 5 * minute, ⟨inFortyHours, rfl, by decide +kernel⟩,
      ⟨fiveMinutes, rfl, by decide +kernel⟩, by decide, by decide, by decide, by decide⟩
  have hcode : copyRunsBeforeHost Zone.utc denseBackups (lit "0 16 2 1 *") (lit "*/5 * * * *") 0 = false := by decide +kernel
  rw [hcode]
  simp [hspec]

end PiHerder.Schedule
