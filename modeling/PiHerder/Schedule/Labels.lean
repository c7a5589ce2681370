import Mathlib
import PiHerder.Lib.Path
import PiHerder.Schedule.Cron

/-!
# Whether a schedule's label tells the truth

What a label says is a property of the moments at which the schedule fires (`CronLabel.Describes`). The trigger's
fields are known as far as they are documented; from that, label by label, the fields say the same, but for
two readings: a step counts anew in every hour and on every day, and a number is another day of the week.
-/
namespace PiHerder.Schedule
open Lib Lib.Str

/-! ## What a label says -/

def DowLabel.Includes : DowLabel → Nat → Prop
  | .days names, w => ∃ d ∈ names, d.index = w
  | .weekdays, w => w < 5
  | .weekends, w => w = 5 ∨ w = 6

/-- "Every N" is said of moments that lie N apart. -/
def CronLabel.Describes (fires : Moment → Bool) : CronLabel → Prop
  | .everyMinutes n => ∃ start : Int, ∀ m, fires m = true ↔ (n : Int) ∣ m.minutes - start
  | .hourly mm => ∀ m, fires m = true ↔ m.minute.val = mm
  | .everyHours n mm => ∃ start : Int, ∀ m, fires m = true ↔ m.minute.val = mm ∧ (n : Int) ∣ m.hours - start
  | .daily h mi => ∀ m, fires m = true ↔ m.hour.val = h ∧ m.minute.val = mi
  | .weekly days h mi => ∀ m, fires m = true ↔ days.Includes m.weekday ∧ m.hour.val = h ∧ m.minute.val = mi
  | .monthly d h mi => ∀ m, fires m = true ↔ (monthAndDay m.day).2 = d ∧ m.hour.val = h ∧ m.minute.val = mi
  | .yearly mo d h mi => ∀ m, fires m = true ↔
      monthAndDay m.day = (mo, d) ∧ m.hour.val = h ∧ m.minute.val = mi

/-! ## The two numberings -/

/-- A day by its crontab number, or by its name. -/
def crontabDay (s : Str) : Option Nat := (dow (lower s)).map DayName.index

/-- A day by the number a trigger has for it, or by its name. -/
def triggerDay (s : Str) : Option Nat := if isdigit s then some (int s) else dayNames.idxOf? (lower s)

def crontabDays (field : Str) : List Nat :=
  if field = lit "1-5" then [0, 1, 2, 3, 4] else (split ',' field).filterMap crontabDay

def triggerDays (field : Str) : List Nat :=
  if field = lit "1-5" then [1, 2, 3, 4, 5] else (split ',' field).filterMap triggerDay

/-- The weekday field is the same set of days in both numberings. -/
def numberingsAgree (field : Str) : Bool :=
  (List.range 7).all fun w => (crontabDays field).contains w == (triggerDays field).contains w

/-- The weekday field of an expression. -/
def dowField (expr : Str) : Str := (words (strip expr)).getD 4 []

/-- Steps that divide the hour or the day, and weekdays that have one meaning. -/
def LabelHolds (expr : Str) : CronLabel → Prop
  | .everyMinutes n => n ∣ 60
  | .everyHours n _ => n ∣ 24
  | .weekly _ _ _ => numberingsAgree (dowField expr) = true
  | _ => True

instance (expr : Str) (l : CronLabel) : Decidable (LabelHolds expr l) := by
  cases l <;> unfold LabelHolds <;> infer_instance

/-! ## Words -/

theorem mem_words {w s : Str} (h : w ∈ words s) : w ≠ [] ∧ ∀ c ∈ w, isSpace c = false := by
  unfold words at h
  obtain ⟨hw, hne⟩ := List.mem_filter.1 h
  refine ⟨by simpa using hne, fun c hc => ?_⟩
  have hin := mem_of_mem_split hw hc
  obtain ⟨d, -, hd⟩ := List.mem_map.1 hin
  by_contra hspace
  have hblank : c = ' ' := by
    by_cases hds : isSpace d = true
    · rw [if_pos hds] at hd
      exact hd.symm
    · rw [if_neg hds] at hd
      rw [hd] at hds
      simp [hds] at hspace
  rw [hblank] at hc
  exact notMem_of_mem_split hw hc

theorem strip_word {w : Str} (h : ∀ c ∈ w, isSpace c = false) : strip w = w :=
  strip_eq_self (fun c hc => h c (List.mem_of_mem_head? hc)) (fun c hc => h c (List.mem_of_mem_getLast? hc))

theorem toLower_of_not_letter {c : Char} (h : ¬ (97 ≤ c.toLower.toNat ∧ c.toLower.toNat ≤ 122)) : c.toLower = c := by
  have hn := toNat_toLower c
  by_cases hup : 65 ≤ c.toNat ∧ c.toNat ≤ 90
  · rw [if_pos hup] at hn
    omega
  · rw [if_neg hup] at hn
    exact Char.toNat_inj.1 hn

/-- A text without letters is the lower case of itself only. -/
theorem eq_of_lower {s t : Str} (h : lower s = t) (ht : t.all fun c => !decide (97 ≤ c.toNat ∧ c.toNat ≤ 122)) : s = t := by
  rw [← h]
  refine (List.map_id s).symm.trans (List.map_congr_left fun c hc => ?_)
  have hother := List.all_eq_true.1 ht c.toLower (h ▸ List.mem_map_of_mem hc)
  rw [Bool.not_eq_true', decide_eq_false_iff_not] at hother
  exact (toLower_of_not_letter hother).symm

theorem isDigit_toLower (c : Char) : isDigit c.toLower = isDigit c := by
  have hn := toNat_toLower c
  unfold isDigit
  simp only [Char.le_def, UInt32.le_iff_toNat_le, decide_eq_decide]
  change 48 ≤ c.toLower.toNat ∧ c.toLower.toNat ≤ 57 ↔ 48 ≤ c.toNat ∧ c.toNat ≤ 57
  rw [hn]
  split <;> omega

theorem isdigit_lower (s : Str) : isdigit (lower s) = isdigit s := by
  unfold isdigit lower
  rw [List.all_map, List.isEmpty_map]
  congr 1
  exact List.all_congr rfl isDigit_toLower

theorem split_lower (s : Str) : split ',' (lower s) = (split ',' s).map lower := by
  have hcomma : ∀ c : Char, c.toLower = ',' ↔ c = ',' := by
    intro c
    constructor
    · intro h
      have hc : c.toLower = c := toLower_of_not_letter (by rw [h]; decide)
      rw [← hc, h]
    · rintro rfl
      rfl
  induction s with
  | nil => rfl
  | cons c s ih =>
    show split ',' (c.toLower :: lower s) = _
    unfold split
    by_cases hc : c = ','
    · rw [if_pos ((hcomma c).2 hc), if_pos hc, ih]
      rfl
    · rw [if_neg fun h => hc ((hcomma c).1 h), if_neg hc, ih]
      cases split ',' s <;> rfl

/-! ## One field -/

section Fields
variable {read : FieldReader} {f : CronField} {s : Str} {p : Moment → Bool}

theorem star_field (hdoc : AsDocumented read) (hs : isStar s = true) (hword : ∀ c ∈ s, isSpace c = false)
    (hp : read f s = some p) (m : Moment) : p m = true := by
  unfold isStar at hs
  rw [strip_word hword] at hs
  rcases of_decide_eq_true hs with rfl | rfl
  · rw [hdoc.star] at hp
    obtain rfl := Option.some.inj hp
    rfl
  · rw [hdoc.question] at hp
    cases hp

theorem step_field (hdoc : AsDocumented read) {n : Nat} (hs : parseStep s = some n) (hword : ∀ c ∈ s, isSpace c = false)
    (hp : read f s = some p) : 0 < n ∧ ∀ m, p m = decide ((m.value f - f.first) % n = 0) := by
  unfold parseStep at hs
  rw [strip_word hword] at hs
  split at hs
  · rename_i rest
    split at hs
    · rename_i hrest
      obtain rfl := Option.some.inj hs
      exact ⟨hrest.2, hdoc.every f rest p hrest.1 hp⟩
    · cases hs
  · cases hs

theorem number_field (hdoc : AsDocumented read) (hs : isdigit s = true) (hp : read f s = some p) :
    (f.first ≤ int s ∧ int s ≤ f.last) ∧ ∀ m, p m = decide (m.value f = int s) := by
  rw [hdoc.number f s hs] at hp
  split at hp
  · rename_i hrange
    obtain rfl := Option.some.inj hp
    exact ⟨hrange, fun _ => rfl⟩
  · cases hp

/-- Days are looked up by a number, or by one of the trigger's names. -/
theorem dowTable_keys : ∀ e ∈ dowTable, isdigit e.1 = true ∨ ∃ i, dayNames[i]? = some e.1 ∧ dayNames.idxOf? e.1 = some i := by
  have hkeys : ∀ e ∈ dowTable, isdigit e.1 = true ∨ ∃ i < 7, dayNames[i]? = some e.1 ∧ dayNames.idxOf? e.1 = some i := by
    decide
  exact fun e he => (hkeys e he).imp_right fun ⟨i, _, hi⟩ => ⟨i, hi⟩

/-- One day of a weekday field, by number or by name. -/
theorem day_field (hdoc : AsDocumented read) (hs : (dow (lower s)).isSome = true) (hp : read .dayOfWeek s = some p) :
    ∃ i, triggerDay s = some i ∧ ∀ m, p m = decide (m.weekday = i) := by
  unfold triggerDay
  by_cases hd : isdigit s = true
  · rw [if_pos hd]
    exact ⟨int s, rfl, (number_field hdoc hd hp).2⟩
  · rw [if_neg hd]
    obtain ⟨d, hget⟩ := Option.isSome_iff_exists.1 hs
    rcases dowTable_keys _ (Dict.mem_of_get? hget) with hnum | ⟨i, hi, hidx⟩
    · rw [isdigit_lower] at hnum
      exact absurd hnum hd
    · exact ⟨i, hidx, hdoc.name s i p hi hp⟩

end Fields

/-! ## The weekday field -/

section Weekdays
variable {read : FieldReader} {field : Str} {p : Moment → Bool}

theorem mem_of_mapM_eq_some {α β : Type} {f : α → Option β} : ∀ {xs : List α} {ys : List β}, xs.mapM f = some ys →
    (∀ x ∈ xs, (f x).isSome = true) ∧ ∀ y, y ∈ ys ↔ ∃ x ∈ xs, f x = some y
  | [], ys, h => by
    obtain rfl : [] = ys := by simpa using h
    simp
  | x :: xs, ys, h => by
    rw [List.mapM_cons] at h
    cases hx : f x with
    | none => simp [hx] at h
    | some y =>
      cases hxs : xs.mapM f with
      | none => simp [hx, hxs] at h
      | some zs =>
        obtain rfl : y :: zs = ys := by simpa [hx, hxs] using h
        obtain ⟨hall, hmem⟩ := mem_of_mapM_eq_some hxs
        refine ⟨fun w hw => ?_, fun w => ?_⟩
        · rcases List.mem_cons.1 hw with rfl | hw
          · rw [hx]
            rfl
          · exact hall w hw
        · simp [hx, hmem, eq_comm]

/-- A trigger matches a list of days on the days it has for its items. -/
theorem items_match (hdoc : AsDocumented read) (hitems : ∀ x ∈ split ',' field, (dow (lower x)).isSome = true)
    (hp : read .dayOfWeek field = some p) (m : Moment) :
    p m = true ↔ m.weekday ∈ (split ',' field).filterMap triggerDay := by
  have hone : ∀ x q, x ∈ split ',' field → read .dayOfWeek x = some q → (q m = true ↔ triggerDay x = some m.weekday) := by
    intro x q hx hq
    obtain ⟨i, hi, hmatch⟩ := day_field hdoc (hitems x hx) hq
    rw [hmatch, hi]
    simp [eq_comm]
  rw [List.mem_filterMap]
  by_cases hcomma : ',' ∈ field
  · obtain ⟨hread, hany⟩ := hdoc.list .dayOfWeek field p hcomma hp
    rw [hany]
    constructor
    · rintro ⟨x, hx, q, hq, hqm⟩
      exact ⟨x, hx, (hone x q hx hq).1 hqm⟩
    · rintro ⟨x, hx, hday⟩
      obtain ⟨q, hq⟩ := hread x hx
      exact ⟨x, hx, q, hq, (hone x q hx hq).2 hday⟩
  · have hself : split ',' field = [field] := split_of_notMem hcomma
    rw [hself] at hone ⊢
    simp only [List.mem_singleton, exists_eq_left]
    exact hone field p (List.mem_singleton_self _) hp

/-- No item of an accepted field is empty. -/
theorem items_ne_nil (hdoc : AsDocumented read) (hp : read .dayOfWeek field = some p) {x : Str}
    (hx : x ∈ split ',' field) : x ≠ [] := by
  rintro rfl
  by_cases hcomma : ',' ∈ field
  · obtain ⟨q, hq⟩ := (hdoc.list .dayOfWeek field p hcomma hp).1 [] hx
    rw [hdoc.blank] at hq
    cases hq
  · rw [split_of_notMem hcomma, List.mem_singleton] at hx
    subst hx
    rw [hdoc.blank] at hp
    cases hp

/-- What a weekday label says of a field that the trigger accepts: the crontab days; or it is a range. -/
theorem dowLabel_items (hdoc : AsDocumented read) (hword : ∀ c ∈ field, isSpace c = false) {l : DowLabel}
    (hl : dowLabel field = some l) (hp : read .dayOfWeek field = some p) :
    (field = lit "1-5" ∧ l = .weekdays) ∨
    (field ≠ lit "1-5" ∧ (∀ x ∈ split ',' field, (dow (lower x)).isSome = true) ∧
      ∀ w, l.Includes w ↔ w ∈ (split ',' field).filterMap crontabDay) := by
  have hitem : ∀ x ∈ split ',' field, strip (lower x) = lower x := by
    intro x hx
    rw [strip_lower, strip_word fun c hc => hword c (mem_of_mem_split hx hc)]
  unfold dowLabel at hl
  rw [strip_word hword] at hl
  simp only at hl
  split at hl
  · cases hl
  split at hl
  · -- one day
    rename_i d hd
    obtain rfl := Option.some.inj hl
    have hcomma : ',' ∉ field := by
      intro hin
      have hkey : (lower field, d) ∈ dowTable := Dict.mem_of_get? hd
      have hlow : ',' ∈ lower field := List.mem_map.2 ⟨',', hin, rfl⟩
      have hnone : ∀ e ∈ dowTable, ',' ∉ e.1 := by decide
      exact hnone _ hkey hlow
    refine Or.inr ⟨?_, ?_, fun w => ?_⟩
    · rintro rfl
      have hnone : dow (lower (lit "1-5")) = none := by decide
      rw [hnone] at hd
      cases hd
    · rw [split_of_notMem hcomma]
      intro x hx
      obtain rfl := List.mem_singleton.1 hx
      rw [hd]
      rfl
    · rw [split_of_notMem hcomma]
      simp [DowLabel.Includes, crontabDay, hd, eq_comm]
  split at hl
  · rename_i hrange
    obtain rfl := Option.some.inj hl
    exact Or.inl ⟨eq_of_lower hrange (by decide), rfl⟩
  split at hl
  · rename_i hne hends
    obtain rfl := Option.some.inj hl
    have hfield : field = lit "0,6" ∨ field = lit "6,0" :=
      hends.imp (fun h => eq_of_lower h (by decide)) fun h => eq_of_lower h (by decide)
    refine Or.inr ⟨?_, ?_, fun w => ?_⟩
    · rintro rfl
      exact hne rfl
    · rcases hfield with rfl | rfl <;> decide
    · have hdays : ∀ x, x = lit "0,6" ∨ x = lit "6,0" → ((split ',' x).filterMap crontabDay).Perm [5, 6] := by
        rintro x (rfl | rfl) <;> decide
      rw [(hdays field hfield).mem_iff]
      simp [DowLabel.Includes]
  split at hl
  · -- a list
    rename_i hne _ _
    have hparts : (((split ',' (lower field)).map strip).filter fun p => !p.isEmpty) = (split ',' field).map lower := by
      rw [split_lower, List.map_map]
      have hstrip : (split ',' field).map (strip ∘ lower) = (split ',' field).map lower :=
        List.map_congr_left hitem
      rw [hstrip, List.filter_eq_self]
      intro x hx
      obtain ⟨y, hy, rfl⟩ := List.mem_map.1 hx
      have hne := items_ne_nil hdoc hp hy
      simpa [lower] using hne
    rw [hparts] at hl
    cases hmap : ((split ',' field).map lower).mapM dow with
    | none =>
      rw [hmap] at hl
      cases hl
    | some names =>
      rw [hmap] at hl
      obtain rfl := Option.some.inj hl
      obtain ⟨hall, hmem⟩ := mem_of_mapM_eq_some hmap
      refine Or.inr ⟨?_, fun x hx => hall _ (List.mem_map_of_mem hx), fun w => ?_⟩
      · rintro rfl
        exact hne rfl
      · rw [List.mem_filterMap]
        constructor
        · rintro ⟨d, hd, rfl⟩
          obtain ⟨y, hy, hyd⟩ := (hmem d).1 hd
          obtain ⟨x, hx, rfl⟩ := List.mem_map.1 hy
          exact ⟨x, hx, by rw [crontabDay, hyd]; rfl⟩
        · rintro ⟨x, hx, hxw⟩
          obtain ⟨d, hd, rfl⟩ := Option.map_eq_some_iff.1 hxw
          exact ⟨d, (hmem d).2 ⟨_, List.mem_map_of_mem hx, hd⟩, rfl⟩
  · cases hl

/-- **Where the label and the trigger look.** -/
theorem dow_days (hdoc : AsDocumented read) (hword : ∀ c ∈ field, isSpace c = false) {l : DowLabel}
    (hl : dowLabel field = some l) (hp : read .dayOfWeek field = some p) :
    (∀ m : Moment, p m = true ↔ m.weekday ∈ triggerDays field) ∧ ∀ w, l.Includes w ↔ w ∈ crontabDays field := by
  rcases dowLabel_items hdoc hword hl hp with ⟨rfl, rfl⟩ | ⟨hne, hitems, hdays⟩
  · refine ⟨fun m => ?_, fun w => ?_⟩
    · rw [hdoc.range .dayOfWeek (lit "1") (lit "5") p (by decide) (by decide) hp, decide_eq_true_iff]
      show 1 ≤ m.weekday ∧ m.weekday ≤ 5 ↔ m.weekday ∈ [1, 2, 3, 4, 5]
      simp
      omega
    · show w < 5 ↔ w ∈ [0, 1, 2, 3, 4]
      simp
      omega
  · unfold triggerDays crontabDays
    rw [if_neg hne, if_neg hne]
    exact ⟨items_match hdoc hitems hp, hdays⟩

end Weekdays

/-! ## The five fields -/

section Label
variable {read : FieldReader} {expr minute hour day month dw : Str} {fires : Moment → Bool}

/-- The fields of an expression that has this label. -/
def Fields (minute hour day month dw : Str) : CronLabel → Prop
  | .everyMinutes n =>
    parseStep minute = some n ∧ isStar hour = true ∧ isStar day = true ∧ isStar month = true ∧ isStar dw = true
  | .hourly mm => (isdigit minute = true ∧ int minute = mm) ∧ (isStar hour = true ∨ parseStep hour = some 1) ∧
      isStar day = true ∧ isStar month = true ∧ isStar dw = true
  | .everyHours n mm => (isdigit minute = true ∧ int minute = mm) ∧ parseStep hour = some n ∧
      isStar day = true ∧ isStar month = true ∧ isStar dw = true
  | .daily h m => clock hour minute = some (h, m) ∧ isStar day = true ∧ isStar month = true ∧ isStar dw = true
  | .weekly l h m => clock hour minute = some (h, m) ∧ isStar day = true ∧ isStar month = true ∧ dowLabel dw = some l
  | .monthly d h m => clock hour minute = some (h, m) ∧ (isdigit day = true ∧ int day = d) ∧ isStar month = true ∧
      isStar dw = true
  | .yearly mo d h m => clock hour minute = some (h, m) ∧ (isdigit day = true ∧ int day = d) ∧
      (isdigit month = true ∧ int month = mo) ∧ isStar dw = true

theorem labelOf_fields {l : CronLabel} (h : labelOf minute hour day month dw = some l) : Fields minute hour day month dw l := by
  unfold labelOf at h
  simp only at h
  split at h
  · rename_i n hn
    split at h
    · rename_i hs
      obtain rfl := Option.some.inj h
      simp only [Bool.and_eq_true] at hs
      exact ⟨hn, hs.1, hs.2.1.1, hs.2.1.2, hs.2.2⟩
    · cases h
  split at h
  · rename_i hs
    obtain rfl := Option.some.inj h
    simp only [Bool.and_eq_true, Bool.or_eq_true, decide_eq_true_eq] at hs
    refine ⟨⟨hs.1.1, rfl⟩, hs.1.2.imp_right fun heq => ?_, hs.2.1.1, hs.2.1.2, hs.2.2⟩
    unfold parseStep
    rw [heq]
    rfl
  split at h
  · rename_i n hn
    split at h
    · rename_i hs
      obtain rfl := Option.some.inj h
      simp only [Bool.and_eq_true] at hs
      exact ⟨⟨hs.1.1, rfl⟩, hn, hs.2.1.1, hs.2.1.2, hs.2.2⟩
    · cases h
  split at h
  · cases h
  rename_i hh mm hclock
  split at h
  · rename_i hs
    obtain rfl := Option.some.inj h
    simp only [Bool.and_eq_true] at hs
    exact ⟨hclock, hs.1.1, hs.1.2, hs.2⟩
  split at h
  · rename_i l' hs hl
    obtain rfl := Option.some.inj h
    simp only [Bool.and_eq_true] at hs
    exact ⟨hclock, hs.1, hs.2, hl⟩
  split at h
  · rename_i hs
    obtain rfl := Option.some.inj h
    simp only [Bool.and_eq_true] at hs
    exact ⟨hclock, ⟨hs.1.1, rfl⟩, hs.1.2, hs.2⟩
  split at h
  · rename_i hs
    obtain rfl := Option.some.inj h
    simp only [Bool.and_eq_true] at hs
    exact ⟨hclock, ⟨hs.1.1, rfl⟩, ⟨hs.1.2, rfl⟩, hs.2⟩
  · cases h

/-- What the trigger made of each field. -/
structure Accepted (read : FieldReader) (minute hour day month dw : Str) (fires : Moment → Bool) : Prop where
  words : ∀ w ∈ [minute, hour, day, month, dw], w ≠ [] ∧ ∀ c ∈ w, isSpace c = false
  fields : ∃ p q r s t, read .minute minute = some p ∧ read .hour hour = some q ∧ read .day day = some r ∧
    read .month month = some s ∧ read .dayOfWeek dw = some t ∧
    ∀ m, fires m = true ↔ p m = true ∧ q m = true ∧ r m = true ∧ s m = true ∧ t m = true

theorem cronTrigger_accepted (h : cronTrigger read expr = some fires) :
    ∃ minute hour day month dw, words (strip expr) = [minute, hour, day, month, dw] ∧
      Accepted read minute hour day month dw fires := by
  unfold cronTrigger at h
  split at h
  · rename_i minute hour day month dw hwords
    refine ⟨minute, hour, day, month, dw, hwords, fun w hw => mem_words (hwords ▸ hw), ?_⟩
    split at h
    · rename_i p q r s t hp hq hr hs ht
      obtain rfl := Option.some.inj h
      exact ⟨p, q, r, s, t, hp, hq, hr, hs, ht, fun m => by simp [Bool.and_eq_true, and_assoc]⟩
    · cases h
  · cases h

/-- Hour and minute of a label are the trigger's. -/
theorem clock_fields (hdoc : AsDocumented read) {p q : Moment → Bool}
    (hwords : (∀ c ∈ minute, isSpace c = false) ∧ ∀ c ∈ hour, isSpace c = false)
    (hp : read .minute minute = some p) (hq : read .hour hour = some q) {h mi : Nat} (hclock : clock hour minute = some (h, mi)) :
    (h < 24 ∧ mi < 60) ∧ ∀ m, (p m = true ↔ m.minute.val = mi) ∧ (q m = true ↔ m.hour.val = h) := by
  unfold clock at hclock
  rw [strip_word hwords.1, strip_word hwords.2] at hclock
  split at hclock
  · rename_i hdig
    obtain ⟨rfl, rfl⟩ := Prod.mk.inj (Option.some.inj hclock)
    obtain ⟨⟨-, hle⟩, hmin⟩ := number_field hdoc hdig.2 hp
    obtain ⟨⟨-, hle'⟩, hhour⟩ := number_field hdoc hdig.1 hq
    refine ⟨⟨Nat.lt_succ_of_le hle', Nat.lt_succ_of_le hle⟩, fun m => ?_⟩
    rw [hmin, hhour]
    exact ⟨decide_eq_true_iff, decide_eq_true_iff⟩
  · cases hclock

/-- A minute on any day of the week. -/
theorem exists_moment {w h mi : Nat} (hw : w < 7) (hh : h < 24) (hm : mi < 60) :
    ∃ m : Moment, m.weekday = w ∧ m.hour.val = h ∧ m.minute.val = mi := by
  refine ⟨⟨w, ⟨h, hh⟩, ⟨mi, hm⟩⟩, ?_, rfl, rfl⟩
  show ((w : Int) % 7).toNat = w
  omega

theorem weekday_lt (m : Moment) : m.weekday < 7 := by
  unfold Moment.weekday
  omega

/-- A step in the minutes is one step through time iff it divides the hour. -/
theorem everyMinutes_iff (n : Nat) :
    (∃ start : Int, ∀ m : Moment, m.minute.val % n = 0 ↔ (n : Int) ∣ m.minutes - start) ↔ n ∣ 60 := by
  constructor
  · rintro ⟨start, h⟩
    have h0 : (n : Int) ∣ 0 - start := (h ⟨0, 0, 0⟩).1 (Nat.zero_mod n)
    have h1 : (n : Int) ∣ 60 - start := (h ⟨0, 1, 0⟩).1 (Nat.zero_mod n)
    have h60 : (n : Int) ∣ (60 : Nat) := by simpa using Int.dvd_sub h1 h0
    exact Int.natCast_dvd_natCast.1 h60
  · intro hn
    refine ⟨0, fun m => ?_⟩
    have hhours : (n : Int) ∣ m.hours * 60 := Dvd.dvd.mul_left (Int.natCast_dvd_natCast.2 hn) _
    rw [← Nat.dvd_iff_mod_eq_zero, ← Int.natCast_dvd_natCast, Int.sub_zero]
    unfold Moment.minutes
    exact (Int.dvd_add_right hhours).symm

theorem everyHours_iff {n mm : Nat} (hmm : mm < 60) :
    (∃ start : Int, ∀ m : Moment, (m.minute.val = mm ∧ m.hour.val % n = 0) ↔
      m.minute.val = mm ∧ (n : Int) ∣ m.hours - start) ↔ n ∣ 24 := by
  constructor
  · rintro ⟨start, h⟩
    have h0 : (n : Int) ∣ 0 - start := ((h ⟨0, 0, ⟨mm, hmm⟩⟩).1 ⟨rfl, Nat.zero_mod n⟩).2
    have h1 : (n : Int) ∣ 24 - start := ((h ⟨1, 0, ⟨mm, hmm⟩⟩).1 ⟨rfl, Nat.zero_mod n⟩).2
    have h24 : (n : Int) ∣ (24 : Nat) := by simpa using Int.dvd_sub h1 h0
    exact Int.natCast_dvd_natCast.1 h24
  · intro hn
    refine ⟨0, fun m => and_congr_right fun _ => ?_⟩
    have hdays : (n : Int) ∣ m.day * 24 := Dvd.dvd.mul_left (Int.natCast_dvd_natCast.2 hn) _
    rw [← Nat.dvd_iff_mod_eq_zero, ← Int.natCast_dvd_natCast, Int.sub_zero]
    unfold Moment.hours
    exact (Int.dvd_add_right hdays).symm

theorem numberingsAgree_iff (field : Str) :
    numberingsAgree field = true ↔ ∀ w < 7, w ∈ crontabDays field ↔ w ∈ triggerDays field := by
  unfold numberingsAgree
  rw [List.all_eq_true]
  constructor
  · intro h w hw
    have hboth := h w (List.mem_range.2 hw)
    rw [beq_iff_eq, Bool.eq_iff_iff, List.contains_iff_mem, List.contains_iff_mem] at hboth
    exact hboth
  · intro h w hw
    rw [beq_iff_eq, Bool.eq_iff_iff, List.contains_iff_mem, List.contains_iff_mem]
    exact h w (List.mem_range.1 hw)

/-- **A label tells the truth iff its steps divide the hour or the day and its weekdays have one meaning.** -/
theorem describes_iff (hdoc : AsDocumented read) (hacc : cronTrigger read expr = some fires) {l : CronLabel}
    (hlabel : cronLabel expr = some l) : l.Describes fires ↔ LabelHolds expr l := by
  obtain ⟨minute, hour, day, month, dw, hsplit, hwords, p, q, r, s, t, hp, hq, hr, hs, ht, hfires⟩ :=
    cronTrigger_accepted hacc
  have hlab : labelOf minute hour day month dw = some l := by
    unfold cronLabel at hlabel
    rwa [hsplit] at hlabel
  have hdow : dowField expr = dw := by
    unfold dowField
    rw [hsplit]
    rfl
  have hwmi := (hwords minute (by simp)).2
  have hwho := (hwords hour (by simp)).2
  have hwda := (hwords day (by simp)).2
  have hwmo := (hwords month (by simp)).2
  have hwdw := (hwords dw (by simp)).2
  have hfields := labelOf_fields hlab
  cases l with
  | everyMinutes n =>
    obtain ⟨hmi, hho, hda, hmo, hdw⟩ := hfields
    have hthese : ∀ m, fires m = true ↔ m.minute.val % n = 0 := by
      intro m
      rw [hfires, star_field hdoc hho hwho hq, star_field hdoc hda hwda hr, star_field hdoc hmo hwmo hs,
        star_field hdoc hdw hwdw ht, (step_field hdoc hmi hwmi hp).2]
      simp [Moment.value, CronField.first]
    unfold CronLabel.Describes LabelHolds
    simp only [hthese]
    exact everyMinutes_iff n
  | hourly mm =>
    obtain ⟨⟨hmi, rfl⟩, hho, hda, hmo, hdw⟩ := hfields
    have hq' : ∀ m, q m = true := by
      intro m
      rcases hho with hho | hho
      · exact star_field hdoc hho hwho hq m
      · rw [(step_field hdoc hho hwho hq).2]
        simp [Nat.mod_one]
    refine iff_of_true (fun m => ?_) trivial
    rw [hfires, hq', star_field hdoc hda hwda hr, star_field hdoc hmo hwmo hs,
      star_field hdoc hdw hwdw ht, (number_field hdoc hmi hp).2, decide_eq_true_iff]
    simp only [and_true, Moment.value]
  | everyHours n mm =>
    obtain ⟨⟨hmi, rfl⟩, hho, hda, hmo, hdw⟩ := hfields
    obtain ⟨⟨-, hle⟩, hmin⟩ := number_field hdoc hmi hp
    have hthese : ∀ m, fires m = true ↔ m.minute.val = int minute ∧ m.hour.val % n = 0 := by
      intro m
      rw [hfires, hmin, star_field hdoc hda hwda hr, star_field hdoc hmo hwmo hs,
        star_field hdoc hdw hwdw ht, (step_field hdoc hho hwho hq).2, decide_eq_true_iff, decide_eq_true_iff]
      simp only [and_true, Moment.value, CronField.first, Nat.sub_zero]
    unfold CronLabel.Describes LabelHolds
    simp only [hthese]
    exact everyHours_iff (Nat.lt_succ_of_le hle)
  | daily h m' =>
    obtain ⟨hclock, hda, hmo, hdw⟩ := hfields
    obtain ⟨-, hboth⟩ := clock_fields hdoc ⟨hwmi, hwho⟩ hp hq hclock
    refine iff_of_true (fun m => ?_) trivial
    rw [hfires, (hboth m).1, (hboth m).2, star_field hdoc hda hwda hr, star_field hdoc hmo hwmo hs,
      star_field hdoc hdw hwdw ht]
    simp [and_comm]
  | weekly days h mi =>
    obtain ⟨hclock, hda, hmo, hdl⟩ := hfields
    obtain ⟨⟨hh, hm⟩, hboth⟩ := clock_fields hdoc ⟨hwmi, hwho⟩ hp hq hclock
    obtain ⟨htrigger, hlabel⟩ := dow_days hdoc hwdw hdl ht
    have hthese : ∀ m, fires m = true ↔ m.weekday ∈ triggerDays dw ∧ m.hour.val = h ∧ m.minute.val = mi := by
      intro m
      rw [hfires, (hboth m).1, (hboth m).2, star_field hdoc hda hwda hr, star_field hdoc hmo hwmo hs, htrigger]
      simp only [true_and]
      constructor
      · rintro ⟨h1, h2, h3⟩
        exact ⟨h3, h2, h1⟩
      · rintro ⟨h1, h2, h3⟩
        exact ⟨h3, h2, h1⟩
    unfold CronLabel.Describes LabelHolds
    rw [hdow, numberingsAgree_iff]
    simp only [hthese, hlabel]
    constructor
    · intro hsame w hw
      obtain ⟨m, rfl, hmh, hmm⟩ := exists_moment hw hh hm
      have heq := hsame m
      simp only [hmh, hmm, and_true] at heq
      exact heq.symm
    · intro hsame m
      rw [hsame m.weekday (weekday_lt m)]
  | monthly d h mi =>
    obtain ⟨hclock, ⟨hda, rfl⟩, hmo, hdw⟩ := hfields
    obtain ⟨-, hboth⟩ := clock_fields hdoc ⟨hwmi, hwho⟩ hp hq hclock
    refine iff_of_true (fun m => ?_) trivial
    rw [hfires, (hboth m).1, (hboth m).2, (number_field hdoc hda hr).2, star_field hdoc hmo hwmo hs,
      star_field hdoc hdw hwdw ht, decide_eq_true_iff]
    simp only [and_true, Moment.value]
    constructor
    · rintro ⟨h1, h2, h3⟩
      exact ⟨h3, h2, h1⟩
    · rintro ⟨h1, h2, h3⟩
      exact ⟨h3, h2, h1⟩
  | yearly mo d h mi =>
    obtain ⟨hclock, ⟨hda, rfl⟩, ⟨hmo, rfl⟩, hdw⟩ := hfields
    obtain ⟨-, hboth⟩ := clock_fields hdoc ⟨hwmi, hwho⟩ hp hq hclock
    refine iff_of_true (fun m => ?_) trivial
    rw [hfires, (hboth m).1, (hboth m).2, (number_field hdoc hda hr).2, (number_field hdoc hmo hs).2,
      star_field hdoc hdw hwdw ht, decide_eq_true_iff, decide_eq_true_iff]
    simp only [and_true, Moment.value, Prod.ext_iff]
    constructor
    · rintro ⟨h1, h2, h3, h4⟩
      exact ⟨⟨h4, h3⟩, h2, h1⟩
    · rintro ⟨⟨h1, h2⟩, h3, h4⟩
      exact ⟨h4, h3, h2, h1⟩

/-! ## The form -/

theorem not_isSpace_of_isDigit {c : Char} (h : isDigit c = true) : isSpace c = false := by
  unfold isDigit at h
  unfold isSpace
  simp only [Char.le_def, UInt32.le_iff_toNat_le, decide_eq_true_eq] at h
  have h' : 48 ≤ c.toNat ∧ c.toNat ≤ 57 := h
  simp
  omega

/-- The fields that the form writes. -/
theorem words_spaced {ps : List Str} (hne : ps ≠ []) (h : ∀ w ∈ ps, w ≠ [] ∧ ∀ c ∈ w, isSpace c = false) :
    words (strip (spaced ps)) = ps := by
  have hspace : ∀ w ∈ ps, ' ' ∉ w := by
    intro w hw hin
    exact absurd ((h w hw).2 ' ' hin) (by decide)
  have hchar : ∀ c ∈ spaced ps, c ≠ ' ' → isSpace c = false := by
    intro c hc hblank
    rcases mem_join hc with rfl | ⟨w, hw, hcw⟩
    · exact absurd rfl hblank
    · exact (h w hw).2 c hcw
  have hstrip : strip (spaced ps) = spaced ps := by
    refine strip_eq_self (fun c hc => hchar c (List.mem_of_mem_head? hc) ?_) (fun c hc => hchar c (List.mem_of_mem_getLast? hc) ?_)
    · rintro rfl
      match ps, hne with
      | [w], _ => exact hspace w (by simp) (List.mem_of_mem_head? hc)
      | w :: v :: ws, _ =>
        obtain ⟨x, xs, rfl⟩ := List.exists_cons_of_ne_nil (h w (by simp)).1
        simp only [spaced, join, List.cons_append, List.head?_cons, Option.mem_def, Option.some.injEq] at hc
        subst hc
        exact hspace (' ' :: xs) List.mem_cons_self List.mem_cons_self
    · rintro rfl
      obtain ⟨a, t, heq, ht, hin⟩ := join_ends hne fun w hw => ⟨(h w hw).1, hspace w hw⟩
      unfold spaced at hc
      rw [heq, List.getLast?_append_of_ne_nil _ ht] at hc
      exact hin (List.mem_of_mem_getLast? hc)
  rw [hstrip]
  exact words_join h

theorem ofNat_word (n : Nat) : ofNat n ≠ [] ∧ ∀ c ∈ ofNat n, isSpace c = false := by
  have hd := isdigit_ofNat n
  unfold isdigit at hd
  simp only [Bool.and_eq_true, Bool.not_eq_true', List.isEmpty_eq_false_iff, List.all_eq_true] at hd
  exact ⟨hd.1, fun c hc => not_isSpace_of_isDigit (hd.2 c hc)⟩

theorem star_word : lit "*" ≠ [] ∧ ∀ c ∈ lit "*", isSpace c = false := by
  refine ⟨by decide, fun c hc => ?_⟩
  obtain rfl := List.mem_singleton.1 hc
  rfl

/-- A number is read as it is written anew. -/
theorem read_ofNat (hdoc : AsDocumented read) (f : CronField) {s : Str} (hs : isdigit s = true) :
    read f (ofNat (int s)) = read f s := by
  rw [hdoc.number f s hs, hdoc.number f _ (isdigit_ofNat _), int_ofNat]

theorem singleNumber_isdigit {value : Str} {lo hi : Nat} (h : singleNumber value lo hi = true) : isdigit value = true := by
  unfold singleNumber at h
  simp only [Bool.and_eq_true] at h
  exact h.1.1

theorem cronTrigger_of_words {expr' : Str} {minute' hour' day' month' dw' : Str}
    (hsplit : words (strip expr) = [minute, hour, day, month, dw])
    (hsplit' : words (strip expr') = [minute', hour', day', month', dw'])
    (hmi : read .minute minute' = read .minute minute) (hho : read .hour hour' = read .hour hour)
    (hda : read .day day' = read .day day) (hmo : read .month month' = read .month month)
    (hdw : read .dayOfWeek dw' = read .dayOfWeek dw) : cronTrigger read expr' = cronTrigger read expr := by
  unfold cronTrigger
  rw [hsplit, hsplit']
  simp only [hmi, hho, hda, hmo, hdw]

/-- **What the form submits fires as what it was given.** -/
theorem builderSubmitted_fires (hdoc : AsDocumented read) (hacc : cronTrigger read expr = some fires) :
    cronTrigger read (builderSubmitted expr) = some fires := by
  rw [← hacc]
  obtain ⟨minute, hour, day, month, dw, hsplit, -⟩ := cronTrigger_accepted hacc
  have hsame : cronTrigger read (strip expr) = cronTrigger read expr := by
    unfold cronTrigger
    rw [strip_strip]
  unfold builderSubmitted
  simp only
  rw [hsplit]
  simp only
  split
  · exact hsame
  rename_i hsimple
  simp only [not_or, Bool.not_eq_false, ne_eq, not_not] at hsimple
  obtain ⟨rfl, hmi, hho⟩ := hsimple
  have hmi' := singleNumber_isdigit hmi
  have hho' := singleNumber_isdigit hho
  have hwritten : ∀ x y, (x ≠ [] ∧ ∀ c ∈ x, isSpace c = false) → (y ≠ [] ∧ ∀ c ∈ y, isSpace c = false) →
      words (strip (spaced [ofNat (int minute), ofNat (int hour), x, lit "*", y])) =
        [ofNat (int minute), ofNat (int hour), x, lit "*", y] := by
    intro x y hx hy
    refine words_spaced (by simp) fun w hw => ?_
    simp only [List.mem_cons, List.not_mem_nil, or_false] at hw
    rcases hw with rfl | rfl | rfl | rfl | rfl
    · exact ofNat_word _
    · exact ofNat_word _
    · exact hx
    · exact star_word
    · exact hy
  split
  · rename_i hstars
    obtain ⟨rfl, rfl⟩ := hstars
    exact cronTrigger_of_words hsplit (hwritten _ _ star_word star_word) (read_ofNat hdoc .minute hmi')
      (read_ofNat hdoc .hour hho') rfl rfl rfl
  split
  · rename_i hweekly
    obtain ⟨rfl, -, hdig, -⟩ := hweekly
    exact cronTrigger_of_words hsplit (hwritten _ _ star_word (ofNat_word _)) (read_ofNat hdoc .minute hmi')
      (read_ofNat hdoc .hour hho') rfl rfl (read_ofNat hdoc .dayOfWeek hdig)
  split
  · rename_i hmonthly
    obtain ⟨rfl, hday⟩ := hmonthly
    exact cronTrigger_of_words hsplit (hwritten _ _ (ofNat_word _) star_word) (read_ofNat hdoc .minute hmi')
      (read_ofNat hdoc .hour hho') (read_ofNat hdoc .day (singleNumber_isdigit hday)) rfl rfl
  · exact hsame

variable (expr) in
/-- **A schedule fires when its label says**, and the form keeps it, iff the label's steps divide the hour or the
day and its weekdays are the same in both numberings. -/
theorem fires_as_labelled_iff (hdoc : AsDocumented read) (hacc : cronTrigger read expr = some fires) {l : CronLabel}
    (hlabel : cronLabel expr = some l) :
    (l.Describes fires ∧ ∃ fires', cronTrigger read (builderSubmitted expr) = some fires' ∧ ∀ m, fires' m = fires m) ↔
      LabelHolds expr l := by
  rw [describes_iff hdoc hacc hlabel]
  exact and_iff_left ⟨fires, builderSubmitted_fires hdoc hacc, fun _ => rfl⟩

end Label

/-! ## A reader as documented -/

/-- One expression of a field. -/
def readItem (f : CronField) (s : Str) : Option (Moment → Bool) :=
  if s = lit "*" then some fun _ => true
  else if isdigit s then
    if f.first ≤ int s ∧ int s ≤ f.last then some fun m => decide (m.value f = int s) else none
  else match s with
    | '*' :: '/' :: n =>
      if isdigit n ∧ 0 < int n then some fun m => decide ((m.value f - f.first) % int n = 0) else none
    | s =>
      match splitOnce '-' s with
      | some (a, b) =>
        if isdigit a ∧ isdigit b ∧ int a ≤ int b ∧ f.first ≤ int a ∧ int b ≤ f.last then
          some fun m => decide (int a ≤ m.value f ∧ m.value f ≤ int b)
        else none
      | none =>
        match f, dayNames.idxOf? (lower s) with
        | .dayOfWeek, some i => some fun m => decide (m.weekday = i)
        | _, _ => none

def readField : FieldReader := fun f s =>
  if ',' ∈ s then
    ((split ',' s).mapM (readItem f)).map fun ps m => ps.any fun p => p m
  else readItem f s

theorem notMem_of_isdigit {c : Char} (hc : isDigit c = false) {s : Str} (hs : isdigit s = true) : c ∉ s := by
  intro hin
  unfold isdigit at hs
  simp only [Bool.and_eq_true, List.all_eq_true] at hs
  rw [hs.2 c hin] at hc
  cases hc

theorem isdigit_eq_false {c : Char} (hc : isDigit c = false) {s : Str} (hin : c ∈ s) : isdigit s = false := by
  by_contra h
  exact notMem_of_isdigit hc (by simpa using h) hin

theorem readField_documented : AsDocumented readField where
  star f := rfl
  every f n p hn hp := by
    have hcomma : ',' ∉ lit "*/" ++ n := by
      rw [List.mem_append, not_or]
      exact ⟨by decide, notMem_of_isdigit (by decide) hn⟩
    have hstar : isdigit (lit "*/" ++ n) = false := isdigit_eq_false (c := '*') (by decide) List.mem_cons_self
    have hne : lit "*/" ++ n ≠ lit "*" := by
      intro heq
      cases (List.cons.inj heq).2
    unfold readField readItem at hp
    rw [if_neg hcomma, if_neg hne, if_neg (by rw [hstar]; exact Bool.false_ne_true)] at hp
    change (if isdigit n ∧ 0 < int n then _ else none) = some p at hp
    split at hp
    · obtain rfl := Option.some.inj hp
      exact fun _ => rfl
    · cases hp
  number f s hs := by
    have hne : s ≠ lit "*" := by
      rintro rfl
      revert hs
      decide
    unfold readField readItem
    rw [if_neg (notMem_of_isdigit (by decide) hs), if_neg hne, if_pos hs]
  range f a b p ha hb hp := by
    obtain ⟨x, xs, rfl⟩ := List.exists_cons_of_ne_nil (l := a) (by rintro rfl; revert ha; decide)
    have hx : x ≠ '*' := by
      rintro rfl
      exact notMem_of_isdigit (by decide) ha List.mem_cons_self
    have hcomma : ',' ∉ (x :: xs) ++ '-' :: b := by
      intro hin
      rcases List.mem_append.1 hin with hin | hin
      · exact notMem_of_isdigit (by decide) ha hin
      · rcases List.mem_cons.1 hin with hin | hin
        · exact absurd hin (by decide)
        · exact notMem_of_isdigit (by decide) hb hin
    have hdash : isdigit ((x :: xs) ++ '-' :: b) = false := isdigit_eq_false (c := '-') (by decide) (by simp)
    have hne : (x :: xs) ++ '-' :: b ≠ lit "*" := fun heq => hx (List.cons.inj heq).1
    unfold readField readItem at hp
    rw [if_neg hcomma, if_neg hne, if_neg (by rw [hdash]; exact Bool.false_ne_true)] at hp
    split at hp
    · rename_i heq
      exact absurd (List.cons.inj heq).1 hx
    · rw [splitOnce_append_cons (notMem_of_isdigit (by decide) ha)] at hp
      simp only at hp
      split at hp
      · obtain rfl := Option.some.inj hp
        exact fun _ => rfl
      · cases hp
  name s i p hi hp := by
    have hmem : lower s ∈ dayNames := List.mem_of_getElem? hi
    have hchars : ∀ t ∈ dayNames, ',' ∉ t ∧ '-' ∉ t ∧ '*' ∉ t ∧ t ≠ [] ∧ isdigit t = false := by decide
    have hout : ∀ c, c.toLower ∉ lower s → c ∉ s := fun c h hin => h (List.mem_map_of_mem hin)
    obtain ⟨hcomma, hdash, hstar, hne, hdig⟩ := hchars _ hmem
    have hcomma := hout ',' hcomma
    have hdash := hout '-' hdash
    have hstar := hout '*' hstar
    have hidx : dayNames.idxOf? (lower s) = some i := by
      have hall : ∀ j < 7, ∀ t ∈ dayNames, dayNames[j]? = some t → dayNames.idxOf? t = some j := by decide
      exact hall i (List.getElem?_eq_some_iff.1 hi).1 _ hmem hi
    rw [isdigit_lower] at hdig
    unfold readField readItem at hp
    rw [if_neg hcomma, if_neg (by rintro rfl; exact hstar List.mem_cons_self), if_neg (by simp [hdig])] at hp
    split at hp
    · exact absurd List.mem_cons_self hstar
    · unfold splitOnce at hp
      rw [if_neg hdash] at hp
      simp only [hidx] at hp
      obtain rfl := Option.some.inj hp
      exact fun _ => rfl
  list f s p hcomma hp := by
    unfold readField at hp
    rw [if_pos hcomma] at hp
    obtain ⟨ps, hps, rfl⟩ := Option.map_eq_some_iff.1 hp
    obtain ⟨hall, hmem⟩ := mem_of_mapM_eq_some hps
    have hitem : ∀ x ∈ split ',' s, readField f x = readItem f x := by
      intro x hx
      unfold readField
      rw [if_neg (notMem_of_mem_split hx)]
    refine ⟨fun x hx => ?_, fun m => ?_⟩
    · rw [hitem x hx]
      exact Option.isSome_iff_exists.1 (hall x hx)
    · rw [List.any_eq_true]
      constructor
      · rintro ⟨q, hq, hqm⟩
        obtain ⟨x, hx, hxq⟩ := (hmem q).1 hq
        exact ⟨x, hx, q, (hitem x hx).trans hxq, hqm⟩
      · rintro ⟨x, hx, q, hxq, hqm⟩
        exact ⟨q, (hmem q).2 ⟨x, hx, (hitem x hx).symm.trans hxq⟩, hqm⟩
  blank f := by cases f <;> rfl
  question f := by cases f <;> rfl

/-- Every quarter of an hour, and on named days. -/
theorem quarters_and_named_days :
    (∃ fires, cronTrigger readField (lit "*/15 * * * *") = some fires ∧ (CronLabel.everyMinutes 15).Describes fires) ∧
    ∃ fires, cronTrigger readField (lit "30 3 * * sat,sun") = some fires ∧
      (CronLabel.weekly (.days [.saturday, .sunday]) 3 30).Describes fires :=
  ⟨⟨_, rfl, ((fires_as_labelled_iff (lit "*/15 * * * *") readField_documented rfl (by decide +kernel)).2 (by decide)).1⟩,
   ⟨_, rfl, ((fires_as_labelled_iff (lit "30 3 * * sat,sun") readField_documented rfl (by decide +kernel)).2 (by decide +kernel)).1⟩⟩

/-- `0 3 * * 0` is "Weekly on Sunday at 03:00", and fires on Mondays. -/
theorem sunday_fires_on_monday :
    ¬ ∀ (expr : Str) (fires : Moment → Bool) (l : CronLabel), cronTrigger readField expr = some fires →
      cronLabel expr = some l → l.Describes fires := by
  intro h
  have hlabel := h (lit "0 3 * * 0") _ (.weekly (.days [.sunday]) 3 0) rfl (by decide +kernel)
  obtain ⟨⟨d, hd, hmonday⟩, -⟩ := (hlabel ⟨0, 3, 0⟩).1 (by decide)
  obtain rfl := List.mem_singleton.1 hd
  revert hmonday
  decide

end PiHerder.Schedule
