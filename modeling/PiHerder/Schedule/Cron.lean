import PiHerder.Lib.Dict
import PiHerder.Lib.PyStr

/-!
# Cron expressions: when they fire and what they are called

| here | there |
| --- | --- |
| `cronTrigger`       | `_cron_trigger` (`services/scheduler.py:28`) |
| `AsDocumented`      | **APScheduler boundary**: how a `CronTrigger` field reads its text |
| `isStar`, `parseStep`, `clock`, `dowLabel` | `_is_star`, `_parse_step`, `_clock`, `_dow_label` (`services/cron_human.py:48-99`) |
| `cronLabel`, `describeCron` | `describe_cron` (`cron_human.py:102`) |
| `singleNumber`, `builderSubmitted` | `_single_number`, `builder_submitted` (`services/backup_cron_form.py:10-38`) |

The label of an expression is first what it says (`CronLabel`), then its text. A moment is a minute on the wall
clock of the schedule's time zone, which is both the trigger's and the label's.
-/
namespace PiHerder.Schedule
open Lib Lib.Str

/-! ## Moments -/

/-- `day` counts the days since Monday the 5th of January 1970. -/
structure Moment where
  day : Int
  hour : Fin 24
  minute : Fin 60

/-- Monday is 0. -/
def Moment.weekday (m : Moment) : Nat := (m.day % 7).toNat

/-- The hours, and the minutes, since day 0. -/
def Moment.hours (m : Moment) : Int := m.day * 24 + m.hour.val
def Moment.minutes (m : Moment) : Int := m.hours * 60 + m.minute.val

/-- Month and day of the month. -/
def monthAndDay (day : Int) : Nat × Nat :=
  -- days since the 1st of March of year 0, of 400 years, of one year, and since a 1st of March
  let z := day + 4 + 719468
  let doe := (z % 146097).toNat
  let yoe := (doe - doe / 1460 + doe / 36524 - doe / 146096) / 365
  let doy := doe - (365 * yoe + yoe / 4 - yoe / 100)
  let mp := (5 * doy + 2) / 153
  (if mp < 10 then mp + 3 else mp - 9, doy - (153 * mp + 2) / 5 + 1)

example : monthAndDay 0 = (1, 5) ∧ monthAndDay 54 = (2, 28) ∧ monthAndDay 785 = (2, 29) := by decide

inductive CronField | minute | hour | day | month | dayOfWeek
deriving DecidableEq, Repr

def CronField.first : CronField → Nat
  | .minute | .hour | .dayOfWeek => 0
  | .day | .month => 1

def CronField.last : CronField → Nat
  | .minute => 59
  | .hour => 23
  | .day => 31
  | .month => 12
  | .dayOfWeek => 6

def Moment.value (m : Moment) : CronField → Nat
  | .minute => m.minute
  | .hour => m.hour
  | .day => (monthAndDay m.day).2
  | .month => (monthAndDay m.day).1
  | .dayOfWeek => m.weekday

/-! ## The trigger -/

/-- The days as APScheduler abbreviates them. -/
def dayNames : List Str := [lit "mon", lit "tue", lit "wed", lit "thu", lit "fri", lit "sat", lit "sun"]

/-- What one field makes of its text: `none` if the trigger refuses it, else when the field matches. -/
abbrev FieldReader := CronField → Str → Option (Moment → Bool)

/-- What the documentation of `CronTrigger` says of the fields that it accepts. -/
structure AsDocumented (read : FieldReader) : Prop where
  star : ∀ f, read f (lit "*") = some fun _ => true
  every : ∀ f n p, isdigit n = true → read f (lit "*/" ++ n) = some p →
    ∀ m, p m = decide ((m.value f - f.first) % int n = 0)
  number : ∀ f s, isdigit s = true → read f s =
    if f.first ≤ int s ∧ int s ≤ f.last then some fun m => decide (m.value f = int s) else none
  range : ∀ f a b p, isdigit a = true → isdigit b = true → read f (a ++ '-' :: b) = some p →
    ∀ m, p m = decide (int a ≤ m.value f ∧ m.value f ≤ int b)
  name : ∀ s i p, dayNames[i]? = some (lower s) → read .dayOfWeek s = some p → ∀ m, p m = decide (m.weekday = i)
  list : ∀ f s p, ',' ∈ s → read f s = some p → (∀ item ∈ split ',' s, ∃ q, read f item = some q) ∧
    ∀ m, p m = true ↔ ∃ item ∈ split ',' s, ∃ q, read f item = some q ∧ q m = true
  blank : ∀ f, read f [] = none
  question : ∀ f, read f (lit "?") = none

/-- A trigger fires when all its fields match. -/
def cronTrigger (read : FieldReader) (cron : Str) : Option (Moment → Bool) :=
  match words (strip cron) with
  | [minute, hour, day, month, dow] =>
    match read .minute minute, read .hour hour, read .day day, read .month month, read .dayOfWeek dow with
    | some p, some q, some r, some s, some t => some fun m => p m && q m && r m && s m && t m
    | _, _, _, _, _ => none
  | _ => none

/-! ## The label -/

inductive DayName | monday | tuesday | wednesday | thursday | friday | saturday | sunday
deriving DecidableEq, Repr

def DayName.text : DayName → Str
  | .monday => lit "Monday"
  | .tuesday => lit "Tuesday"
  | .wednesday => lit "Wednesday"
  | .thursday => lit "Thursday"
  | .friday => lit "Friday"
  | .saturday => lit "Saturday"
  | .sunday => lit "Sunday"

/-- Monday is 0. -/
def DayName.index : DayName → Nat
  | .monday => 0
  | .tuesday => 1
  | .wednesday => 2
  | .thursday => 3
  | .friday => 4
  | .saturday => 5
  | .sunday => 6

/-- `_DOW`. -/
def dowTable : Dict Str DayName :=
  [(lit "0", .sunday), (lit "1", .monday), (lit "2", .tuesday), (lit "3", .wednesday), (lit "4", .thursday),
   (lit "5", .friday), (lit "6", .saturday), (lit "7", .sunday), (lit "sun", .sunday), (lit "mon", .monday),
   (lit "tue", .tuesday), (lit "wed", .wednesday), (lit "thu", .thursday), (lit "fri", .friday), (lit "sat", .saturday)]

def dow (s : Str) : Option DayName := dowTable.get? s

def isStar (p : Str) : Bool := decide (strip p = lit "*" ∨ strip p = lit "?")

/-- `N` for `*/N`. -/
def parseStep (field : Str) : Option Nat :=
  match strip field with
  | '*' :: '/' :: rest => if isdigit rest ∧ 0 < int rest then some (int rest) else none
  | _ => none

def clock (hour minute : Str) : Option (Nat × Nat) :=
  if isdigit (strip hour) ∧ isdigit (strip minute) then some (int (strip hour), int (strip minute)) else none

inductive DowLabel
  | days (names : List DayName)
  | weekdays
  | weekends
deriving DecidableEq, Repr

def dowLabel (field : Str) : Option DowLabel :=
  let f := lower (strip field)
  if f = [] ∨ isStar f then none
  else match dow f with
    | some d => some (.days [d])
    | none =>
      if f = lit "1-5" then some .weekdays
      else if f = lit "0,6" ∨ f = lit "6,0" then some .weekends
      else
        let parts := ((split ',' f).map strip).filter fun p => !p.isEmpty
        if parts ≠ [] ∧ parts.all fun p => (dow p).isSome || isdigit p then (parts.mapM dow).map .days
        else none

inductive CronLabel
  | everyMinutes (n : Nat)
  | hourly (minute : Nat)
  | everyHours (n minute : Nat)
  | daily (hour minute : Nat)
  | weekly (days : DowLabel) (hour minute : Nat)
  | monthly (day hour minute : Nat)
  | yearly (month day hour minute : Nat)
deriving DecidableEq, Repr

/-- The branches of `describe_cron` that are plain English. -/
def labelOf (minute hour day month dow : Str) : Option CronLabel :=
  let stars := isStar day && isStar month && isStar dow
  match parseStep minute with
  | some n => if isStar hour && stars then some (.everyMinutes n) else none
  | none =>
    if isdigit minute && (isStar hour || decide (strip hour = lit "*/1")) && stars then some (.hourly (int minute))
    else match parseStep hour with
      | some n => if isdigit minute && decide (1 < n) && stars then some (.everyHours n (int minute)) else none
      | none =>
        match clock hour minute with
        | none => none
        | some (h, m) =>
          if stars then some (.daily h m)
          else match isStar day && isStar month, dowLabel dow with
            | true, some l => some (.weekly l h m)
            | _, _ =>
              if isdigit day && isStar month && isStar dow then some (.monthly (int day) h m)
              else if isdigit day && isdigit month && isStar dow then some (.yearly (int month) (int day) h m)
              else none

def cronLabel (expr : Str) : Option CronLabel :=
  match words (strip expr) with
  | [minute, hour, day, month, dow] => labelOf minute hour day month dow
  | _ => none

/-- `f"{n:02d}"`. -/
def pad2 (n : Nat) : Str := if n < 10 then '0' :: ofNat n else ofNat n

def clockText (hour minute : Nat) : Str := pad2 hour ++ ':' :: pad2 minute

def CronLabel.text : CronLabel → Str
  | .everyMinutes n => if n = 1 then lit "Every minute" else lit "Every " ++ ofNat n ++ lit " minutes"
  | .hourly mm => if mm = 0 then lit "Hourly (top of hour)" else lit "Hourly at :" ++ pad2 mm
  | .everyHours n mm => lit "Every " ++ ofNat n ++ lit " hours" ++ if mm = 0 then [] else lit " at :" ++ pad2 mm
  | .daily h m => lit "Daily at " ++ clockText h m
  | .weekly .weekdays h m => lit "Weekdays at " ++ clockText h m
  | .weekly .weekends h m => lit "Weekends at " ++ clockText h m
  | .weekly (.days names) h m =>
    lit "Weekly on " ++ (lit ", ").intercalate (names.map DayName.text) ++ lit " at " ++ clockText h m
  | .monthly d h m => lit "Monthly on day " ++ ofNat d ++ lit " at " ++ clockText h m
  | .yearly mo d h m => lit "Yearly on " ++ pad2 mo ++ '-' :: pad2 d ++ lit " at " ++ clockText h m

def withTz (label : Str) (tzHint : Option Str) : Str :=
  let tz := strip (tzHint.getD [])
  if tz ≠ [] ∧ hasInfix tz label = false then label ++ lit " (" ++ tz ++ lit ")" else label

def describeCron (expr : Option Str) (tzHint : Option Str) : Str :=
  let raw := strip (expr.getD [])
  if raw = [] then lit "Not scheduled"
  else match cronLabel raw with
    | some label => withTz label.text tzHint
    | none => lit "Cron: " ++ raw

example : describeCron (some (lit "30 3 * * 0")) (some (lit "Europe/Amsterdam")) =
    lit "Weekly on Sunday at 03:30 (Europe/Amsterdam)" := by decide +kernel

/-! ## The form -/

def singleNumber (value : Str) (lo hi : Nat) : Bool :=
  isdigit value && decide (value.length ≤ 2) && decide (lo ≤ int value ∧ int value ≤ hi)

def spaced (parts : List Str) : Str := join ' ' parts

def builderSubmitted (cron : Str) : Str :=
  let text := strip cron
  match words text with
  | minute :: hour :: dom :: month :: wd :: _ =>
    if month ≠ lit "*" ∨ singleNumber minute 0 59 = false ∨ singleNumber hour 0 23 = false then text
    else if dom = lit "*" ∧ wd = lit "*" then
      spaced [ofNat (int minute), ofNat (int hour), lit "*", lit "*", lit "*"]
    else if dom = lit "*" ∧ wd.length = 1 ∧ isdigit wd ∧ int wd ≤ 6 then
      spaced [ofNat (int minute), ofNat (int hour), lit "*", lit "*", ofNat (int wd)]
    else if wd = lit "*" ∧ singleNumber dom 1 31 then
      spaced [ofNat (int minute), ofNat (int hour), ofNat (int dom), lit "*", lit "*"]
    else text
  | _ => text

end PiHerder.Schedule
