import PiHerder.Schedule.Labels

/-!
# The minute of each host's backup

| here | there (`services/update_check_config.py`) |
| --- | --- |
| `defaultBackupCron`, `backupStaggerOffset` | `DEFAULT_BACKUP_CRON`, `BACKUP_STAGGER_OFFSET` (14–18) |
| `dailySingleHour` | `_daily_single_hour` (32) |
| `fleetBackupCron` | `fleet_backup_cron` (50) |

From a base of one hour every day, the hosts get a minute each: 60 in the base hour, those after it hour by hour to the end of the
day, and the rest from midnight to the base hour. `placed` is that minute, counted from midnight.
-/
namespace PiHerder.Schedule
open Lib Lib.Str

/-! ## Definitions -/

def defaultBackupCron : Str := lit "0 2 * * *"

/-- OS checks use offset 0 and container checks use 15. Backups sit 30 minutes away. -/
def backupStaggerOffset : Nat := 30

/-- The fields of the base, or of the default where it has not five of them. -/
def backupParts (baseCron : Str) : List Str :=
  let parts := words (strip (if baseCron = [] then defaultBackupCron else baseCron))
  if parts.length = 5 then parts else words defaultBackupCron

/-- Hour 0-23 when the base is one hour every day. -/
def dailySingleHour (parts : List Str) : Option Nat :=
  match parts with
  | [_, hour, dom, month, dow] =>
    if dom = lit "*" ∧ month = lit "*" ∧ dow = lit "*" ∧ isdigit hour ∧ int hour ≤ 23 then some (int hour) else none
  | _ => none

/-- `depth` calls deep at most; `none` where it is still calling itself. -/
def fleetBackupCron : Nat → Str → Int → Option Str
  | 0, _, _ => none
  | depth + 1, baseCron, serverId =>
    let parts := backupParts baseCron
    let sid := serverId.toNat
    match dailySingleHour parts with
    | none => some (spaced (parts.set 0 (ofNat ((sid + backupStaggerOffset) % 60))))
    | some hour =>
      if sid < 60 then some (spaced (parts.set 0 (ofNat ((sid + backupStaggerOffset) % 60))))
      else
        let extra := sid - 60
        let minutesAfter := (23 - hour) * 60
        if extra < minutesAfter then
          some (spaced ((parts.set 0 (ofNat (extra % 60))).set 1 (ofNat (hour + 1 + extra / 60))))
        else
          let wrapped := extra - minutesAfter
          if wrapped < hour * 60 then
            some (spaced ((parts.set 0 (ofNat (wrapped % 60))).set 1 (ofNat (wrapped / 60))))
          else fleetBackupCron depth baseCron (sid % 1440 : Nat)

example : fleetBackupCron 1 (lit "0 2 * * *") 61 = some (lit "1 3 * * *") := by decide +kernel

/-- The hour and the minute that a daily schedule names, as a minute of the day. -/
def minuteOfDay (cron : Str) : Option Nat :=
  match words (strip cron) with
  | [minute, hour, _, _, _] =>
    if (dailySingleHour (words (strip cron))).isSome ∧ isdigit minute ∧ int minute ≤ 59 then some (int hour * 60 + int minute) else none
  | _ => none

/-! ## Where a host is placed -/

/-- The minute of the day of one of the first 1440 hosts. -/
def placed (hour id : Nat) : Nat :=
  if id < 60 then hour * 60 + (id + backupStaggerOffset) % 60
  else if id - 60 < (23 - hour) * 60 then (hour + 1) * 60 + (id - 60)
  else id - 60 - (23 - hour) * 60

theorem placed_inj {hour i j : Nat} (hhour : hour ≤ 23) (hi : i < 1440) (hj : j < 1440) : placed hour i = placed hour j ↔ i = j := by
  unfold placed backupStaggerOffset
  constructor
  · intro h
    split_ifs at h <;> omega
  · rintro rfl
    rfl

/-! ## What is written -/

section
variable {read : FieldReader} {base minute hourText : Str} {hour : Nat}

theorem dailySingleHour_eq_some {parts : List Str} (h : dailySingleHour parts = some hour) :
    ∃ minute hourText, parts = [minute, hourText, lit "*", lit "*", lit "*"] ∧ isdigit hourText = true ∧ int hourText = hour ∧ hour ≤ 23 := by
  unfold dailySingleHour at h
  split at h
  · rename_i minute hourText dom month dow
    split at h
    · rename_i hdaily
      obtain ⟨rfl, rfl, rfl, hdigits, hle⟩ := hdaily
      obtain rfl := Option.some.inj h
      exact ⟨minute, hourText, rfl, hdigits, rfl, hle⟩
    · cases h
  · cases h

theorem daily_fields (hm : minute ≠ [] ∧ ∀ c ∈ minute, isSpace c = false) (hh : hourText ≠ [] ∧ ∀ c ∈ hourText, isSpace c = false) :
    words (strip (spaced [minute, hourText, lit "*", lit "*", lit "*"])) = [minute, hourText, lit "*", lit "*", lit "*"] := by
  refine words_spaced (by simp) fun w hw => ?_
  simp only [List.mem_cons, List.not_mem_nil, or_false] at hw
  rcases hw with rfl | rfl | rfl | rfl | rfl
  · exact hm
  · exact hh
  · exact star_word
  · exact star_word
  · exact star_word

theorem isdigit_word {s : Str} (h : isdigit s = true) : s ≠ [] ∧ ∀ c ∈ s, isSpace c = false := by
  unfold isdigit at h
  simp only [Bool.and_eq_true, Bool.not_eq_true', List.isEmpty_eq_false_iff, List.all_eq_true] at h
  exact ⟨h.1, fun c hc => not_isSpace_of_isDigit (h.2 c hc)⟩

/-- A schedule of five fields that fires once a day, `k` minutes after midnight. -/
structure DailyAt (read : FieldReader) (cron : Str) (k : Nat) : Prop where
  fields : (words (strip cron)).length = 5
  named : minuteOfDay cron = some k
  fires : ∃ fires, cronTrigger read cron = some fires ∧ ∀ m, fires m = true ↔ m.hour.val * 60 + m.minute.val = k

theorem dailyAt_spaced (hdoc : AsDocumented read) (hm : isdigit minute = true) (hmle : int minute ≤ 59) (hh : isdigit hourText = true)
    (hhle : int hourText ≤ 23) :
    DailyAt read (spaced [minute, hourText, lit "*", lit "*", lit "*"]) (int hourText * 60 + int minute) := by
  have hwords := daily_fields (isdigit_word hm) (isdigit_word hh)
  constructor
  · rw [hwords]
    rfl
  · unfold minuteOfDay
    rw [hwords]
    simp [dailySingleHour, hh, hhle, hm, hmle]
  · have hminute := hdoc.number .minute minute hm
    have hhour := hdoc.number .hour hourText hh
    rw [if_pos ⟨Nat.zero_le _, hmle⟩] at hminute
    rw [if_pos ⟨Nat.zero_le _, hhle⟩] at hhour
    unfold cronTrigger
    rw [hwords]
    simp only [hminute, hhour, hdoc.star]
    refine ⟨fun m => decide (m.minute.val = int minute) && decide (m.hour.val = int hourText), ?_, fun m => ?_⟩
    · simp only [Bool.and_true]
      rfl
    have := m.minute.isLt
    simp only [Bool.and_eq_true, decide_eq_true_eq]
    omega

/-- One of the first 1440 hosts is placed at once. -/
theorem fleetBackupCron_of_lt (hdoc : AsDocumented read) (hbase : dailySingleHour (backupParts base) = some hour) {id : Nat} (hid : id < 1440) :
    ∃ cron, (∀ depth, fleetBackupCron (depth + 1) base id = some cron) ∧ DailyAt read cron (placed hour id) := by
  obtain ⟨minute, hourText, hparts, hdigits, hhour, hle⟩ := dailySingleHour_eq_some hbase
  have hdaily : ∀ m h, m ≤ 59 → h ≤ 23 → DailyAt read (spaced [ofNat m, ofNat h, lit "*", lit "*", lit "*"]) (h * 60 + m) := by
    intro m h hm hh
    have := dailyAt_spaced hdoc (isdigit_ofNat m) (by rw [int_ofNat]; exact hm) (isdigit_ofNat h) (by rw [int_ofNat]; exact hh)
    rwa [int_ofNat, int_ofNat] at this
  simp only [fleetBackupCron, hbase, Int.toNat_natCast]
  rw [hparts, placed]
  split_ifs with hfirst hafter hbefore
  · -- In the base hour, as the base writes it.
    refine ⟨_, fun _ => rfl, ?_⟩
    have := dailyAt_spaced hdoc (isdigit_ofNat ((id + backupStaggerOffset) % 60)) (by rw [int_ofNat]; omega) hdigits (by omega)
    rwa [int_ofNat, hhour] at this
  · refine ⟨_, fun _ => rfl, ?_⟩
    have := hdaily ((id - 60) % 60) (hour + 1 + (id - 60) / 60) (by omega) (by omega)
    rwa [show (hour + 1 + (id - 60) / 60) * 60 + (id - 60) % 60 = (hour + 1) * 60 + (id - 60) by omega] at this
  · refine ⟨_, fun _ => rfl, ?_⟩
    have := hdaily ((id - 60 - (23 - hour) * 60) % 60) ((id - 60 - (23 - hour) * 60) / 60) (by omega) (by omega)
    rwa [show (id - 60 - (23 - hour) * 60) / 60 * 60 + (id - 60 - (23 - hour) * 60) % 60 = id - 60 - (23 - hour) * 60 by omega] at this
  · omega

/-- A later host gets the minute of an earlier one, after one more call. -/
theorem fleetBackupCron_mod (hbase : dailySingleHour (backupParts base) = some hour) {id : Nat} (hid : 1440 ≤ id) (depth : Nat) :
    fleetBackupCron (depth + 1) base id = fleetBackupCron depth base (id % 1440 : Nat) := by
  obtain ⟨-, -, -, -, -, hle⟩ := dailySingleHour_eq_some hbase
  rw [fleetBackupCron]
  simp only [hbase, Int.toNat_natCast]
  rw [if_neg (by omega), if_neg (by omega), if_neg (by omega)]

theorem fleetBackupCron_placed (hdoc : AsDocumented read) (hbase : dailySingleHour (backupParts base) = some hour) (id : Nat) :
    ∃ cron, (∀ depth, 2 ≤ depth → fleetBackupCron depth base id = some cron) ∧ DailyAt read cron (placed hour (id % 1440)) := by
  obtain ⟨cron, hcron, hdaily⟩ := fleetBackupCron_of_lt hdoc hbase (Nat.mod_lt id (by decide))
  refine ⟨cron, fun depth hdepth => ?_, hdaily⟩
  obtain ⟨d, rfl⟩ := Nat.exists_eq_add_of_le' hdepth
  by_cases hid : id < 1440
  · have := hcron (d + 1)
    rwa [Nat.mod_eq_of_lt hid] at this
  · rw [fleetBackupCron_mod hbase (Nat.le_of_not_lt hid)]
    exact hcron d

end

/-! ## Spread -/

/-- **Fleet backups are spread.** From a base of one hour every day each host gets, after two calls at most, a schedule that fires
once a day; two hosts share the minute exactly where their ids are equal modulo 1440, and the first 60 stay in the base hour. -/
theorem fleet_spread {read : FieldReader} (hdoc : AsDocumented read) {base : Str} {hour : Nat}
    (hbase : dailySingleHour (backupParts base) = some hour) :
    ∃ cron : Nat → Str, (∀ (id depth : Nat), 2 ≤ depth → fleetBackupCron depth base id = some (cron id)) ∧
      (∀ id, ∃ k, DailyAt read (cron id) k ∧ (id < 60 → k / 60 = hour)) ∧
      ∀ i j, minuteOfDay (cron i) = minuteOfDay (cron j) ↔ i % 1440 = j % 1440 := by
  obtain ⟨-, -, -, -, -, hle⟩ := dailySingleHour_eq_some hbase
  choose cron hcron hdaily using fleetBackupCron_placed hdoc hbase
  refine ⟨cron, hcron, fun id => ⟨_, hdaily id, fun hid => ?_⟩, fun i j => ?_⟩
  · rw [Nat.mod_eq_of_lt (by omega), placed, if_pos hid]
    omega
  · rw [(hdaily i).named, (hdaily j).named, Option.some.injEq]
    exact placed_inj hle (Nat.mod_lt i (by decide)) (Nat.mod_lt j (by decide))

/-- From the default base. -/
theorem default_spread :
    ∃ cron : Nat → Str, (∀ (id depth : Nat), 2 ≤ depth → fleetBackupCron depth defaultBackupCron id = some (cron id)) ∧
      (∀ id, ∃ k, DailyAt readField (cron id) k ∧ (id < 60 → k / 60 = 2)) ∧
      ∀ i j, minuteOfDay (cron i) = minuteOfDay (cron j) ↔ i % 1440 = j % 1440 :=
  fleet_spread readField_documented (by decide +kernel)

end PiHerder.Schedule
