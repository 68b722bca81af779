import Alarma.Cron.NextRun

/-!
# Runs in the Gregorian calendar

In the Gregorian calendar in UTC the expression of an alarm always has a next run: from any
date the search jumps to the minute, then to the hour, then to the day, and has to go back
to the minute after the hour and after the day — seven jumps at most, of the thousand it is
given.  An expression of a year alone has one only until January is over: the check before
the search takes the last day of January for the last day of the year.

* `nextMinute_of_minute`, `nextMinute_of_hour`, `nextMinute_of_day` — where the jumps lead.
* `found_today` — the search from an earlier minute of a day that matches.
* `toCron_always_runs` — the next run of an alarm, from any date.
* `ofYear_runs_iff` — the next run of a year, from 1583 on, where Foundation's calendar is this
  one.
-/

namespace Alarma

namespace Gregorian

/-! ## The calendar comes back after 400 years -/

theorem isLeap_add (year k : ℤ) : isLeap (year + 400 * k) = isLeap year := by
  have h4 : (year + 400 * k) % 4 = year % 4 := by omega
  have h100 : (year + 400 * k) % 100 = year % 100 := by omega
  have h400 : (year + 400 * k) % 400 = year % 400 := by omega
  simp only [isLeap, h4, h100, h400]

theorem monthStart_add (year k : ℤ) (month : ℕ) :
    monthStart (year + 400 * k) month = monthStart year month := by
  simp only [monthStart, isLeap_add]

/-- The day of the month of a day, and of the day 400 years later. -/
theorem day_ofMinute_add (minute k : ℤ) :
    (ofMinute (minute + 1440 * (146097 * k))).day = (ofMinute minute).day := by
  have hday : (minute + 1440 * (146097 * k)) / 1440 = minute / 1440 + 146097 * k := by omega
  have hyear : yearOf (minute / 1440 + 146097 * k) = yearOf (minute / 1440) + 400 * k := by
    have hcycle : (minute / 1440 + 146097 * k) % 146097 = minute / 1440 % 146097 := by omega
    have hcycles : (minute / 1440 + 146097 * k) / 146097 = minute / 1440 / 146097 + k := by omega
    simp only [yearOf, hcycle, hcycles]
    ring
  have hstart : yearStart (yearOf (minute / 1440) + 400 * k) =
      yearStart (yearOf (minute / 1440)) + 146097 * k := by
    unfold yearStart
    omega
  have hmonth : ∀ dayOfYear, monthOf (yearOf (minute / 1440) + 400 * k) dayOfYear =
      monthOf (yearOf (minute / 1440)) dayOfYear := fun dayOfYear => by
    simp only [monthOf, monthStart_add]
  have hsame : minute / 1440 + 146097 * k - (yearStart (yearOf (minute / 1440)) + 146097 * k) =
      minute / 1440 - yearStart (yearOf (minute / 1440)) := by ring
  simp only [ofMinute, hday, hyear, hstart, hsame, hmonth, monthStart_add]

/-! ## The next minute with a component -/

theorem component_minute (minute : ℤ) : component .minute minute = minute % 60 := by
  simp only [component, ofMinute, capped]
  omega

theorem component_hour (minute : ℤ) : component .hour minute = minute % 1440 / 60 := by
  simp only [component, ofMinute, capped]
  omega

/-- There is a next one when there is a later one. -/
theorem nextMinute_of_component {unit : CalendarUnit} {value minute later : ℤ}
    (hne : component unit minute ≠ value) (hle : minute ≤ later)
    (hlater : component unit later = value) :
    ∃ next, nextMinute minute unit value = some next ∧ minute < next ∧ next ≤ later ∧
      Begins unit value next := by
  cases hnext : nextMinute minute unit value with
  | none => exact absurd hlater (nextMinute_none hnext hne hle)
  | some next =>
    refine ⟨next, rfl, lt_nextMinute hnext, ?_, ?_⟩
    · exact not_lt.1 fun hlt => nextMinute_first hnext hne hle hlt hlater
    · unfold nextMinute at hnext
      split_ifs at hnext with hex
      cases hnext
      exact Nat.find_spec hex

/-- A minute of the hour is reached within the hour. -/
theorem nextMinute_of_minute {value minute : ℤ} (hvalue : 0 ≤ value ∧ value < 60)
    (hne : minute % 60 ≠ value) :
    ∃ next, nextMinute minute .minute value = some next ∧ next % 60 = value ∧ minute < next ∧
      next < minute + 60 := by
  have hlater : component .minute (minute + (value - minute) % 60) = value := by
    rw [component_minute]
    omega
  rw [← component_minute] at hne
  obtain ⟨next, hnext, hlt, hle, hbegins⟩ := nextMinute_of_component hne (by omega) hlater
  have hvalue' := hbegins.1
  rw [component_minute] at hvalue'
  exact ⟨next, hnext, hvalue', hlt, by omega⟩

/-- The start of an hour of the day is reached within the day. -/
theorem nextMinute_of_hour {value minute : ℤ} (hvalue : 0 ≤ value ∧ value < 24)
    (hne : minute % 1440 / 60 ≠ value) :
    ∃ next, nextMinute minute .hour value = some next ∧ next % 1440 = 60 * value ∧
      minute < next ∧ next < minute + 1440 := by
  have hlater : component .hour (minute + (60 * value - minute) % 1440) = value := by
    rw [component_hour]
    omega
  rw [← component_hour] at hne
  obtain ⟨next, hnext, hlt, hle, hvalue', hprev⟩ :=
    nextMinute_of_component hne (by omega) hlater
  rw [component_hour] at hvalue' hprev
  exact ⟨next, hnext, by omega, hlt, by omega⟩

/-- The start of a day of the month is reached, if the day is one of some month. -/
theorem nextMinute_of_day {minute alarm : ℤ} (hminute : minute / 1440 ≤ 699000000)
    (hne : component .day minute ≠ component .day alarm) :
    ∃ next, nextMinute minute .day (component .day alarm) = some next ∧ next % 1440 = 0 ∧
      component .day next = component .day alarm := by
  -- 400 years at a time, the day of the alarm comes after the minute
  have hcapped := capped_ediv alarm
  generalize hk : (max (minute / 1440) (-700000000) - capped alarm / 1440) / 146097 + 1 = k
  have hlater : component .day (capped alarm + 1440 * (146097 * k)) = component .day alarm := by
    have hday : (capped alarm + 1440 * (146097 * k)) / 1440 =
        capped alarm / 1440 + 146097 * k := by omega
    have hsame : capped (capped alarm + 1440 * (146097 * k)) =
        capped alarm + 1440 * (146097 * k) := by
      rw [capped, hday]
      omega
    simp only [component, hsame, day_ofMinute_add]
  obtain ⟨next, hnext, -, -, hvalue, hprev⟩ := nextMinute_of_component hne (by omega) hlater
  refine ⟨next, hnext, ?_, hvalue⟩
  by_contra hmidnight
  have hday : next / 1440 = (next - 1) / 1440 := by omega
  rw [(component_of_ediv_eq hday).1] at hvalue
  exact hprev hvalue

end Gregorian

/-! ## Checks and jumps -/

namespace CronExpression

section Calendar

variable {calendar : CronCalendar} {e : CronExpression}

theorem passes_default (hcalendar : calendar.Lawful) {field : CronField}
    (hpart : e.cronRepresentation.part field = "*") (date : Date) :
    (e.test calendar field).passes date = true := by
  rw [passes_iff hcalendar, hpart]
  exact ⟨"*", by decide, .default field⟩

/-- The check of a field with the number of a date. -/
theorem passes_number_iff (hcalendar : calendar.Lawful) {field : CronField} {given : Date}
    (hpart : e.cronRepresentation.part field = toString (field.number calendar given))
    (date : Date) : (e.test calendar field).passes date = true ↔
      field.number calendar date = field.number calendar given := by
  rw [passes_iff hcalendar, hpart, EventKitHelper.matchesList_number_iff hcalendar]

/-- A checker that is given the number of a date jumps to the next date with it. -/
theorem incrementUnit_number (hcalendar : calendar.Lawful) (field : CronField)
    {unit : CalendarUnit} {date given next : Date}
    (hyear : ¬ (unit = .year ∧
      calendar.component .year date ≥ calendar.component unit given))
    (hnext : calendar.nextDate date unit (calendar.component unit given) = some next) :
    CronField.incrementUnit calendar field unit date (toString (calendar.component unit given)) =
      next := by
  obtain ⟨hlo, hhi⟩ := hcalendar.component_mem unit given
  simp only [CronField.incrementUnit, CronCalendar.nextDateMatching,
    if_neg (CronField.comma_notMem_toString _), intOfString_toString hlo hhi, if_neg hyear, hnext,
    Option.getD_some]

end Calendar

section Gregorian

open Gregorian

variable {e : CronExpression}

theorem component_mul (unit : CalendarUnit) (minute : ℤ) :
    gregorianCron.component unit (60 * minute) = component unit minute := by
  simp only [gregorianCron, minuteOf_mul]

theorem nextDate_mul {unit : CalendarUnit} {value minute next : ℤ}
    (h : nextMinute minute unit value = some next) :
    gregorianCron.nextDate (60 * minute) unit value = some (60 * (next : Date)) := by
  simp only [gregorianCron, minuteOf_mul, h, Option.map_some]

/-- The search from a minute has an end, with so many tries. -/
def Found (e : CronExpression) (tries : ℕ) (minute : ℤ) : Prop :=
  ∃ next, Seek.seek (e.tests gregorianCron) tries (60 * (minute : Date)) = some next

theorem Found.mono {tries tries' : ℕ} {minute : ℤ} (h : e.Found tries minute)
    (hle : tries ≤ tries') : e.Found tries' minute :=
  h.imp fun _ hnext => Seek.seek_mono hle hnext

/-- It ends where all the checks pass. -/
theorem found_here {minute : ℤ}
    (h : ∀ field, (e.test gregorianCron field).passes (60 * (minute : Date)) = true)
    (tries : ℕ) : e.Found (tries + 1) minute := by
  refine ⟨_, Seek.seek_of_passes (fun test htest => ?_) tries⟩
  obtain ⟨field, -, rfl⟩ := List.mem_map.1 htest
  exact h field

/-- From a minute that a checker is the first to refuse, the search goes on where it
jumps. -/
theorem found_jump {field : CronField} {before after : List CronField}
    (hall : CronField.all = before ++ field :: after) {minute next : ℤ}
    (hbefore : ∀ field' ∈ before,
      (e.test gregorianCron field').passes (60 * (minute : Date)) = true)
    (hfail : ¬ (e.test gregorianCron field).passes (60 * (minute : Date)) = true)
    (hjump : (e.test gregorianCron field).jump (60 * (minute : Date)) = 60 * (next : Date))
    {tries : ℕ} (h : e.Found tries next) : e.Found (tries + 1) minute := by
  obtain ⟨y, hy⟩ := h
  refine ⟨y, ?_⟩
  rw [CronExpression.tests, hall, List.map_append, List.map_cons] at hy ⊢
  have hpass : ∀ test ∈ before.map (e.test gregorianCron),
      test.passes (60 * (minute : Date)) = true := by
    intro test htest
    obtain ⟨field', hfield', rfl⟩ := List.mem_map.1 htest
    exact hbefore field' hfield'
  rw [Seek.seek_jump hpass (Bool.not_eq_true _ ▸ hfail), hjump]
  exact hy

end Gregorian

end CronExpression

/-! ## The expression of an alarm -/

namespace EventKitHelper

open CronExpression

section Calendar

variable {calendar : CronCalendar} {e : CronExpression} {alarm : Date}

/-- The checks of the expression of an alarm. -/
theorem passes_toCron (hcalendar : calendar.Lawful)
    (he : toCron calendar.dateComponents alarm = some e) (date : Date) :
    ((e.test calendar .minute).passes date = true ↔
      calendar.component .minute date = calendar.component .minute alarm) ∧
    ((e.test calendar .hour).passes date = true ↔
      calendar.component .hour date = calendar.component .hour alarm) ∧
    ((e.test calendar .day).passes date = true ↔
      calendar.component .day date = calendar.component .day alarm) ∧
    (e.test calendar .month).passes date = true ∧
    (e.test calendar .weekday).passes date = true ∧
    (e.test calendar .year).passes date = true := by
  obtain ⟨e', he', hparts⟩ := toCron_eq calendar.dateComponents alarm
  rw [he] at he'
  cases he'
  refine ⟨passes_number_iff hcalendar ?_ date, passes_number_iff hcalendar ?_ date,
    passes_number_iff hcalendar ?_ date, passes_default hcalendar ?_ date,
    passes_default hcalendar ?_ date, passes_default hcalendar ?_ date⟩ <;> rw [hparts] <;> rfl

/-- And their jumps, to where the calendar says. -/
theorem jump_toCron (hcalendar : calendar.Lawful)
    (he : toCron calendar.dateComponents alarm = some e) {date next : Date} :
    (calendar.nextDate date .minute (calendar.component .minute alarm) = some next →
      (e.test calendar .minute).jump date = next) ∧
    (calendar.nextDate date .hour (calendar.component .hour alarm) = some next →
      (e.test calendar .hour).jump date = next) ∧
    (calendar.nextDate date .day (calendar.component .day alarm) = some next →
      (e.test calendar .day).jump date = next) := by
  obtain ⟨e', he', hparts⟩ := toCron_eq calendar.dateComponents alarm
  rw [he] at he'
  cases he'
  refine ⟨fun hnext => ?_, fun hnext => ?_, fun hnext => ?_⟩
  · simp only [CronExpression.test, hparts]
    exact incrementUnit_number hcalendar .minute (by simp) hnext
  · simp only [CronExpression.test, hparts]
    exact incrementUnit_number hcalendar .hour (by simp) hnext
  · simp only [CronExpression.test, hparts]
    exact incrementUnit_number hcalendar .day (by simp) hnext

end Calendar

/-! ### The search -/

section Gregorian

open Gregorian

variable {e : CronExpression} {alarm : Date}

/-- A minute with all the components of the alarm is where the search ends. -/
theorem found_alarm (he : toCron gregorianCron.dateComponents alarm = some e) {minute : ℤ}
    (hminute : minute % 60 = minuteOf alarm % 60)
    (hhour : minute % 1440 / 60 = minuteOf alarm % 1440 / 60)
    (hday : component .day minute = component .day (minuteOf alarm)) (tries : ℕ) :
    e.Found (tries + 1) minute := by
  obtain ⟨hm, hh, hd, hmonth, hweekday, hyear⟩ :=
    passes_toCron gregorianCron_lawful he (60 * (minute : Date))
  rw [component_mul] at hm hh hd
  refine found_here (fun field => ?_) tries
  cases field with
  | minute =>
    rw [hm, component_minute, hminute]
    exact (component_minute _).symm
  | hour =>
    rw [hh, component_hour, hhour]
    exact (component_hour _).symm
  | day => exact hd.2 hday
  | month => exact hmonth
  | weekday => exact hweekday
  | year => exact hyear

/-- From another minute of the hour, it goes on with the minute of the alarm. -/
theorem found_minute (he : toCron gregorianCron.dateComponents alarm = some e) {minute : ℤ}
    (hminute : minute % 60 ≠ minuteOf alarm % 60) :
    ∃ next, next % 60 = minuteOf alarm % 60 ∧ minute < next ∧ next < minute + 60 ∧
      ∀ tries, e.Found tries next → e.Found (tries + 1) minute := by
  have hvalue : 0 ≤ minuteOf alarm % 60 ∧ minuteOf alarm % 60 < 60 := by omega
  obtain ⟨next, hnext, hnext', hlt, hle⟩ := nextMinute_of_minute hvalue hminute
  have hall : CronField.all = [] ++ .minute :: [.hour, .day, .month, .weekday, .year] := rfl
  refine ⟨next, hnext', hlt, hle, fun tries => found_jump hall (by simp) ?_ ?_⟩
  · rw [(passes_toCron gregorianCron_lawful he _).1, component_mul, component_minute]
    exact fun h => hminute (h.trans (component_minute _))
  · refine (jump_toCron gregorianCron_lawful he).1 (nextDate_mul ?_)
    show nextMinute minute .minute (component .minute (minuteOf alarm)) = some next
    rw [component_minute]
    exact hnext

/-- From another hour of the day, with the hour of the alarm. -/
theorem found_hour (he : toCron gregorianCron.dateComponents alarm = some e) {minute : ℤ}
    (hminute : minute % 60 = minuteOf alarm % 60)
    (hhour : minute % 1440 / 60 ≠ minuteOf alarm % 1440 / 60) :
    ∃ next, next % 1440 = 60 * (minuteOf alarm % 1440 / 60) ∧ minute < next ∧
      next < minute + 1440 ∧ ∀ tries, e.Found tries next → e.Found (tries + 1) minute := by
  have hvalue : 0 ≤ minuteOf alarm % 1440 / 60 ∧ minuteOf alarm % 1440 / 60 < 24 := by omega
  obtain ⟨next, hnext, hnext', hlt, hle⟩ := nextMinute_of_hour hvalue hhour
  have hall : CronField.all = [.minute] ++ .hour :: [.day, .month, .weekday, .year] := rfl
  obtain ⟨hm, hh, -⟩ := passes_toCron gregorianCron_lawful he (60 * (minute : Date))
  refine ⟨next, hnext', hlt, hle, fun tries => found_jump hall ?_ ?_ ?_⟩
  · intro field hfield
    rw [List.mem_singleton.1 hfield, hm, component_mul, component_minute]
    exact hminute.trans (component_minute _).symm
  · rw [hh, component_mul, component_hour]
    exact fun h => hhour (h.trans (component_hour _))
  · refine (jump_toCron gregorianCron_lawful he).2.1 (nextDate_mul ?_)
    show nextMinute minute .hour (component .hour (minuteOf alarm)) = some next
    rw [component_hour]
    exact hnext

/-- From another day, with the day of the alarm. -/
theorem found_day (he : toCron gregorianCron.dateComponents alarm = some e) {minute : ℤ}
    (hminute : minute % 60 = minuteOf alarm % 60)
    (hhour : minute % 1440 / 60 = minuteOf alarm % 1440 / 60)
    (hday : component .day minute ≠ component .day (minuteOf alarm))
    (hcap : minute / 1440 ≤ 699000000) :
    ∃ next, next % 1440 = 0 ∧ component .day next = component .day (minuteOf alarm) ∧
      ∀ tries, e.Found tries next → e.Found (tries + 1) minute := by
  obtain ⟨next, hnext, hmidnight, hvalue⟩ := nextMinute_of_day hcap hday
  have hall : CronField.all = [.minute, .hour] ++ .day :: [.month, .weekday, .year] := rfl
  obtain ⟨hm, hh, hd, -⟩ := passes_toCron gregorianCron_lawful he (60 * (minute : Date))
  refine ⟨next, hmidnight, hvalue, fun tries => found_jump hall ?_ ?_ ?_⟩
  · intro field hfield
    rcases List.mem_pair.1 hfield with rfl | rfl
    · rw [hm, component_mul, component_minute]
      exact hminute.trans (component_minute _).symm
    · rw [hh, component_mul, component_hour]
      exact hhour.trans (component_hour _).symm
  · rw [hd, component_mul]
    exact hday
  · exact (jump_toCron gregorianCron_lawful he).2.2 (nextDate_mul hnext)

/-! ### A day that matches -/

theorem component_day_of_ediv_eq {minute minute' : ℤ} (h : minute / 1440 = minute' / 1440) :
    component .day minute = component .day minute' := (component_of_ediv_eq h).1

/-- From the hour of the alarm, up to its minute. -/
theorem found_this_hour (he : toCron gregorianCron.dateComponents alarm = some e) {minute : ℤ}
    (hminute : minute % 60 ≤ minuteOf alarm % 60)
    (hhour : minute % 1440 / 60 = minuteOf alarm % 1440 / 60)
    (hday : component .day minute = component .day (minuteOf alarm)) : e.Found 2 minute := by
  have hhere : ∀ next : ℤ, next % 60 = minuteOf alarm % 60 →
      next % 1440 / 60 = minuteOf alarm % 1440 / 60 → next / 1440 = minute / 1440 →
      e.Found 1 next := by
    intro next hnext hnext' hsame
    exact found_alarm he hnext hnext' ((component_day_of_ediv_eq hsame).trans hday) 0
  by_cases heq : minute % 60 = minuteOf alarm % 60
  · exact (hhere minute heq hhour rfl).mono (Nat.le_succ 1)
  · obtain ⟨next, hnext, hlt, hle, hgo⟩ := found_minute he heq
    exact hgo 1 (hhere next hnext (by omega) (by omega))

/-- And from its minute of an earlier hour. -/
theorem found_earlier_hour (he : toCron gregorianCron.dateComponents alarm = some e) {minute : ℤ}
    (hminute : minute % 60 = minuteOf alarm % 60) (hle : minute % 1440 ≤ minuteOf alarm % 1440)
    (hday : component .day minute = component .day (minuteOf alarm)) : e.Found 3 minute := by
  by_cases heq : minute % 1440 / 60 = minuteOf alarm % 1440 / 60
  · exact (found_this_hour he hminute.le heq hday).mono (Nat.le_succ 2)
  · obtain ⟨next, hnext, hlt, hlt', hgo⟩ := found_hour he hminute heq
    have hsame : next / 1440 = minute / 1440 := by omega
    exact hgo 2 (found_this_hour he (by omega) (by omega)
      ((component_day_of_ediv_eq hsame).trans hday))

/-- **From an earlier minute of a day that matches**, four tries are enough. -/
theorem found_today (he : toCron gregorianCron.dateComponents alarm = some e) {minute : ℤ}
    (hle : minute % 1440 ≤ minuteOf alarm % 1440)
    (hday : component .day minute = component .day (minuteOf alarm)) : e.Found 4 minute := by
  by_cases heq : minute % 60 = minuteOf alarm % 60
  · exact (found_earlier_hour he heq hle hday).mono (Nat.le_succ 3)
  · obtain ⟨next, hnext, hlt, hlt', hgo⟩ := found_minute he heq
    have hsame : next / 1440 = minute / 1440 := by omega
    exact hgo 3 (found_earlier_hour he hnext (by omega)
      ((component_day_of_ediv_eq hsame).trans hday))

/-! ### Any day -/

/-- From the minute and the hour of the alarm. -/
theorem found_this_time (he : toCron gregorianCron.dateComponents alarm = some e) {minute : ℤ}
    (hminute : minute % 60 = minuteOf alarm % 60)
    (hhour : minute % 1440 / 60 = minuteOf alarm % 1440 / 60)
    (hcap : minute / 1440 ≤ 699000000) : e.Found 5 minute := by
  by_cases heq : component .day minute = component .day (minuteOf alarm)
  · exact found_alarm he hminute hhour heq 4
  · obtain ⟨next, hmidnight, hday, hgo⟩ := found_day he hminute hhour heq hcap
    exact hgo 4 (found_today he (by omega) hday)

/-- From the minute of the alarm. -/
theorem found_this_minute (he : toCron gregorianCron.dateComponents alarm = some e) {minute : ℤ}
    (hminute : minute % 60 = minuteOf alarm % 60) (hcap : minute / 1440 ≤ 698000000) :
    e.Found 7 minute := by
  by_cases heq : minute % 1440 / 60 = minuteOf alarm % 1440 / 60
  · exact (found_this_time he hminute heq (by omega)).mono (by decide)
  · obtain ⟨hour, hhour, hlt, hlt', hgo⟩ := found_hour he hminute heq
    refine hgo 6 ?_
    -- the hour begins with its first minute
    by_cases hfirst : hour % 60 = minuteOf alarm % 60
    · exact (found_this_time he hfirst (by omega) (by omega)).mono (Nat.le_succ 5)
    · obtain ⟨next, hnext, hle, hle', hgo'⟩ := found_minute he hfirst
      exact hgo' 5 (found_this_time he hnext (by omega) (by omega))

/-- From any minute eight tries are enough. -/
theorem found (he : toCron gregorianCron.dateComponents alarm = some e) {minute : ℤ}
    (hcap : minute / 1440 ≤ 600000000) : e.Found 8 minute := by
  by_cases heq : minute % 60 = minuteOf alarm % 60
  · exact (found_this_minute he heq (by omega)).mono (Nat.le_succ 7)
  · obtain ⟨next, hnext, hlt, hlt', hgo⟩ := found_minute he heq
    exact hgo 7 (found_this_minute he hnext (by omega))

/-- **The expression of an alarm always has a next run**, in the Gregorian calendar in UTC:
from any date of the next million years the search ends within eight tries, at the first
date from the minute of the start that has the minute, the hour and the day of the month
of the alarm. -/
theorem toCron_always_runs (alarm : Date) {start : Date}
    (hstart : start < 60 * (1440 * 600000000)) :
    ∃ e next, toCron gregorianCron.dateComponents alarm = some e ∧
      e.getNextRunDate gregorianCron start 0 = some next ∧
      Seek.seek (e.tests gregorianCron) 8 (startOfMinute start) = some next ∧
      (gregorianCron.component .minute next = gregorianCron.component .minute alarm ∧
        gregorianCron.component .hour next = gregorianCron.component .hour alarm ∧
        gregorianCron.component .day next = gregorianCron.component .day alarm) ∧
      ∀ d, startOfMinute start ≤ d →
        gregorianCron.component .minute d = gregorianCron.component .minute alarm →
        gregorianCron.component .hour d = gregorianCron.component .hour alarm →
        gregorianCron.component .day d = gregorianCron.component .day alarm → next ≤ d := by
  obtain ⟨e, he, -⟩ := toCron_eq gregorianCron.dateComponents alarm
  have hminute : minuteOf start < 1440 * 600000000 :=
    minuteOf_lt_of_lt (by push_cast; linarith)
  have hcap : minuteOf start / 1440 ≤ 600000000 := by omega
  obtain ⟨next, hnext⟩ := found he hcap
  have hpossible : e.matchIsTheoreticallyPossible gregorianCron start = true := by
    rw [CronExpression.matchIsTheoreticallyPossible, (listsKept_toCron he).2]
  have hrun : e.getNextRunDate gregorianCron start 0 = some next := by
    rw [CronExpression.getNextRunDate_eq_seek, if_pos hpossible]
    exact Seek.seek_mono (by decide) hnext
  exact ⟨e, next, he, hrun, hnext, first_of_next_run gregorianCron_lawful he hrun⟩

/-- From the first minute of 2001, for an alarm at noon on 29 February 2004. -/
theorem toCron_always_runs_sample :
    ∃ e next, toCron gregorianCron.dateComponents 99748800 = some e ∧
      e.getNextRunDate gregorianCron 0 0 = some next ∧
      gregorianCron.component .day next = gregorianCron.component .day 99748800 := by
  obtain ⟨e, next, he, hnext, -, ⟨-, -, hday⟩, -⟩ :=
    toCron_always_runs 99748800 (show (0 : Date) < 60 * (1440 * 600000000) by norm_num)
  exact ⟨e, next, he, hnext, hday⟩

end Gregorian

end EventKitHelper

/-! ## The expression of a year -/

namespace Gregorian

/-- A year has its first day. -/
theorem yearOf_yearStart (year : ℤ) : yearOf (yearStart year) = year := by
  obtain ⟨hstart, -, hend⟩ := yearStart_yearOf (yearStart year)
  have hle := yearStart_strictMono.le_iff_le.1 hstart
  have hlt := yearStart_strictMono.lt_iff_lt.1 hend
  omega

theorem component_year_yearStart {year : ℤ} (hyear : 1583 ≤ year ∧ year ≤ 1900000) :
    component .year (1440 * yearStart year) = year := by
  have hcapped : capped (1440 * yearStart year) / 1440 = yearStart year := by
    rw [capped_ediv]
    unfold yearStart
    omega
  simp only [component, ofMinute, hcapped, yearOf_yearStart]

/-- The first month of a year is January. -/
theorem component_month_yearStart {year : ℤ} (hyear : 1583 ≤ year ∧ year ≤ 1900000) :
    component .month (1440 * yearStart year) = 1 := by
  have hcapped : capped (1440 * yearStart year) / 1440 = yearStart year := by
    rw [capped_ediv]
    unfold yearStart
    omega
  simp only [component, ofMinute, hcapped, yearOf_yearStart, sub_self]
  unfold monthOf monthStart
  generalize isLeap year = leap
  revert leap
  decide

end Gregorian

namespace CronExpression

open Gregorian

/-- `init?(year:)`, of an integer. -/
def ofYear (year : ℤ) : CronExpression where
  cronRepresentation := { year := toString year }
  valid field := by
    cases field with
    | year => exact CronField.validate_toString .year year
    | _ => exact CronField.validate_default _

variable {year : ℤ}

/-- Its checks. -/
theorem passes_ofYear (hyear : 1583 ≤ year ∧ year ≤ 1900000) (date : Date) :
    (∀ field ≠ .year, ((ofYear year).test gregorianCron field).passes date = true) ∧
      (((ofYear year).test gregorianCron .year).passes date = true ↔
        gregorianCron.component .year date = year) := by
  constructor
  · intro field hfield
    refine passes_default gregorianCron_lawful ?_ date
    cases field with
    | year => exact absurd rfl hfield
    | _ => rfl
  · have hgiven := component_mul .year (1440 * yearStart year)
    rw [component_year_yearStart hyear] at hgiven
    have hpart : (ofYear year).cronRepresentation.part .year =
        toString (CronField.year.number gregorianCron (60 * (1440 * yearStart year : ℤ))) := by
      show toString year = toString (gregorianCron.component .year _)
      rw [hgiven]
    rw [passes_number_iff gregorianCron_lawful hpart]
    show gregorianCron.component .year date = gregorianCron.component .year _ ↔ _
    rw [hgiven]

/-- From a date of that year or of an earlier one the search has an end. -/
theorem found_ofYear (hyear : 1583 ≤ year ∧ year ≤ 1900000) {minute : ℤ}
    (hle : component .year minute ≤ year) : (ofYear year).Found 2 minute := by
  have hhere : ∀ next : ℤ, component .year next = year → (ofYear year).Found 1 next := by
    intro next hnext
    obtain ⟨hothers, hpasses⟩ := passes_ofYear hyear (60 * (next : Date))
    refine found_here (fun field => ?_) 0
    by_cases hfield : field = .year
    · rw [hfield, hpasses, component_mul, hnext]
    · exact hothers field hfield
  by_cases heq : component .year minute = year
  · exact (hhere minute heq).mono (Nat.le_succ 1)
  · -- the first day of the year is ahead
    have hahead : minute ≤ 1440 * yearStart year := by
      by_contra hlt
      have hmono := year_mono (not_le.1 hlt).le
      rw [component_year_yearStart hyear] at hmono
      exact heq (le_antisymm hle hmono)
    obtain ⟨next, hnext, -, -, hbegins⟩ :=
      nextMinute_of_component heq hahead (component_year_yearStart hyear)
    obtain ⟨hothers, hpasses⟩ := passes_ofYear hyear (60 * (minute : Date))
    have hall : CronField.all = [.minute, .hour, .day, .month, .weekday] ++ .year :: [] := rfl
    refine found_jump hall (fun field hfield => hothers field ?_) ?_ ?_ (hhere next hbegins.1)
    · rintro rfl
      simp at hfield
    · rw [hpasses, component_mul]
      exact heq
    · have hgiven := component_mul .year (1440 * yearStart year)
      rw [component_year_yearStart hyear] at hgiven
      show CronField.incrementUnit gregorianCron .year .year _ (toString year) = _
      rw [← hgiven]
      refine incrementUnit_number gregorianCron_lawful .year ?_ ?_
      · rw [hgiven, component_mul]
        omega
      · rw [hgiven]
        exact nextDate_mul hnext

/-- What the check before the search compares with: the midnight of 31 January. -/
theorem matchIsTheoreticallyPossible_ofYear (hyear : 1583 ≤ year ∧ year ≤ 1900000)
    (date : Date) : (ofYear year).matchIsTheoreticallyPossible gregorianCron date = true ↔
      date ≤ gregorianCron.date year none (some 31) := by
  have hread : intOfString (toString year) = some year :=
    intOfString_toString (by omega) (by omega)
  have hmonth : gregorianCron.component .month (gregorianCron.date year none none) = 1 := by
    have hfirst : toMinute ⟨year, 1, 1, 0, 0⟩ = 1440 * yearStart year := by
      simp [toMinute, monthStart]
      ring
    show gregorianCron.component .month (60 * (toMinute ⟨year, 1, 1, 0, 0⟩ : Date)) = 1
    rw [hfirst, component_mul, component_month_yearStart hyear]
  have hstar : intOfString "*" = none := by decide
  have hlast : gregorianCron.getLastDayOfMonth (gregorianCron.date year none none) = 31 := by
    simp [CronCalendar.getLastDayOfMonth, hmonth]
  simp only [matchIsTheoreticallyPossible, ofYear, hread, hstar, Option.any_none,
    Option.getD_none, hlast]
  simp

/-- **A year is over after January.**  Of the dates from 1583 to the end of a year, exactly
those up to the midnight of 31 January of that year have a next run of its expression,
although every date of the year matches it. -/
theorem ofYear_runs_iff {date : Date} (hdate : 1583 ≤ gregorianCron.component .year date)
    (hle : gregorianCron.component .year date ≤ year) (hyear : year ≤ 1900000) (skip : ℤ) :
    ((∀ field, CronField.MatchesList gregorianCron date field
        ((ofYear year).cronRepresentation.part field)) ↔
      gregorianCron.component .year date = year) ∧
    (((ofYear year).getNextRunDate gregorianCron date skip).isSome ↔
      date ≤ gregorianCron.date year none (some 31)) := by
  have hrange : 1583 ≤ year ∧ year ≤ 1900000 := ⟨hdate.trans hle, hyear⟩
  constructor
  · obtain ⟨hothers, hpasses⟩ := passes_ofYear hrange date
    constructor
    · intro hmatches
      exact hpasses.1 ((passes_iff gregorianCron_lawful).2 (hmatches .year))
    · intro hsame field
      refine (passes_iff gregorianCron_lawful).1 ?_
      by_cases hfield : field = .year
      · rw [hfield]
        exact hpasses.2 hsame
      · exact hothers field hfield
  · rw [← matchIsTheoreticallyPossible_ofYear hrange, getNextRunDate_eq_seek]
    obtain ⟨next, hnext⟩ := (found_ofYear hrange hle).mono (show 2 ≤ 1000 by decide)
    have hsearch : Seek.seek ((ofYear year).tests gregorianCron) 1000
        (gregorianCron.startOfMinute date) = some next := hnext
    rw [hsearch]
    split
    case isTrue hpossible => simp [hpossible]
    case isFalse himpossible => simp [himpossible]

/-- A first of February: it is in the year, and has no next run. -/
theorem ofYear_runs_iff_february :
    (∀ field, CronField.MatchesList gregorianCron 2678400 field
      ((ofYear 2001).cronRepresentation.part field)) ∧
    (ofYear 2001).getNextRunDate gregorianCron 2678400 0 = none := by
  have hdate : gregorianCron.component .year 2678400 = 2001 := by decide +kernel
  obtain ⟨hmatches, hruns⟩ := ofYear_runs_iff (by omega) hdate.le (by decide) 0
  refine ⟨hmatches.2 hdate, ?_⟩
  rw [← Option.not_isSome_iff_eq_none, hruns]
  decide +kernel

end CronExpression

end Alarma
