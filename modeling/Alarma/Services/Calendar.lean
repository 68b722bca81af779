import Alarma.Services.EventKitHelper

/-!
# The calendar of the device

`EventKitHelper` splits dates with `Calendar.current`, and a recurring reminder
goes from day to day by it.  The calendar is a parameter; what is relied on is
asked of the days of one year, those from the date of an alarm on.

* `Calendar.Lawful` — the due components count the same days as the date, different days
  have different components, and a week has every day of the week.
* `Gregorian`, `gregorian` — the Gregorian calendar in UTC, years counted through.
* `gregorian_lawful` — it is lawful at every date.
-/

namespace Alarma

/-- The day after. -/
def Weekdays.next : Weekdays → Weekdays
  | never => never
  | monday => tuesday
  | tuesday => wednesday
  | wednesday => thursday
  | thursday => friday
  | friday => saturday
  | saturday => sunday
  | sunday => monday

/-- From any day of the week, every other one is less than a week ahead. -/
theorem Weekdays.exists_next_iterate {v w : Weekdays} (hv : v ≠ never) (hw : w ≠ never) :
    ∃ k < 7, next^[k] v = w := by
  revert hv hw
  cases v <;> cases w <;> decide

/-- The last whole minute before a date. -/
def startOfMinute (date : Date) : Date := 60 * ⌊date / 60⌋

theorem startOfMinute_le (date : Date) : startOfMinute date ≤ date := by
  have h := Int.floor_le (date / 60)
  unfold startOfMinute
  linarith

theorem lt_startOfMinute_add (date : Date) : date < startOfMinute date + 60 := by
  have h := Int.lt_floor_add_one (date / 60)
  unfold startOfMinute
  linarith

@[simp] theorem startOfMinute_add (date : Date) (m : ℤ) :
    startOfMinute (date + 60 * m) = startOfMinute date + 60 * m := by
  have h : (date + 60 * m) / 60 = date / 60 + m := by ring
  unfold startOfMinute
  rw [h, Int.floor_add_intCast, Int.cast_add]
  ring

/-! ## Calendars -/

/-- What is asked of `Calendar.current`. -/
structure Calendar where
  /-- `dateComponents([.year, .month, .day, .hour, .minute], from: date)`. -/
  dateComponents : Date → DateComponents
  /-- `date(from: components)`. -/
  date : DateComponents → Date
  /-- `date(byAdding: .day, value: value, to: date)`. -/
  adding : ℕ → Date → Date
  /-- `component(.weekday, from: date)`. -/
  weekday : Date → Weekdays

/-- The end of the recurrence of a reminder that is due at a date. -/
def yearAfter (date : Date) : Date := date + 365 * 24 * 60 * 60

/-- What is asked of a calendar at a date.  The Gregorian calendar of Foundation is so at
the dates AD, also where clocks go back and the components of the date stand for the hour
before it; it is not where, in the year from the date on, the time zone skips a day or is
changed by seconds. -/
structure Calendar.Lawful (calendar : Calendar) (date : Date) : Prop where
  adding_zero : calendar.adding 0 date = date
  /-- The date that the due components stand for counts the same days, -/
  adding_due : ∀ value,
    calendar.dateComponents (calendar.adding value (calendar.date (calendar.dateComponents date))) =
      calendar.dateComponents (calendar.adding value date)
  /-- and the end of the recurrence cuts both at the same day. -/
  adding_due_le : ∀ value,
    calendar.adding value (calendar.date (calendar.dateComponents date)) ≤ yearAfter date ↔
      calendar.adding value date ≤ yearAfter date
  /-- The first week is within the year. -/
  adding_week_le : ∀ value < 7, calendar.adding value date ≤ yearAfter date
  /-- Different days of the year have different components. -/
  dateComponents_injective : ∀ j k, calendar.adding j date ≤ yearAfter date →
    calendar.adding k date ≤ yearAfter date →
    calendar.dateComponents (calendar.adding j date) =
      calendar.dateComponents (calendar.adding k date) → j = k
  weekday_ne_never : ∀ value, calendar.weekday (calendar.adding value date) ≠ .never
  /-- Seven days in a row have every day of the week. -/
  exists_weekday : ∀ weekday, weekday ≠ .never →
    ∃ value < 7, calendar.weekday (calendar.adding value date) = weekday

/-! ## The Gregorian calendar

In UTC.  Foundation's reference date is 1 January 2001, a Monday, and the first
day of a cycle of 400 years. -/

namespace Gregorian

/-- The days of 400, of 100 and of 4 years, the long ones at the end. -/
def yearOf (day : ℤ) : ℤ :=
  let cycle := day % 146097
  let century := min (cycle / 36524) 3
  let quarter := (cycle - 36524 * century) / 1461
  let year := min ((cycle - 36524 * century - 1461 * quarter) / 365) 3
  2001 + 400 * (day / 146097) + 100 * century + 4 * quarter + year

/-- The days before a year. -/
def yearStart (year : ℤ) : ℤ :=
  365 * (year - 2001) + (year - 2001) / 4 - (year - 2001) / 100 + (year - 2001) / 400

/-- Whether a year has 366 days. -/
def isLeap (year : ℤ) : Bool :=
  year % 4 = 0 ∧ (year % 100 ≠ 0 ∨ year % 400 = 0)

/-- The days of the year before a month. -/
def monthStart (year : ℤ) (month : ℕ) : ℤ :=
  ([0, 31, 59, 90, 120, 151, 181, 212, 243, 273, 304, 334].getD (month - 1) 0) +
    if isLeap year ∧ 2 < month then 1 else 0

/-- The month of a day of the year: the number of months that have begun. -/
def monthOf (year dayOfYear : ℤ) : ℕ :=
  ((List.range' 1 12).filter fun month => monthStart year month ≤ dayOfYear).length

/-- The components of the minute with a number. -/
def ofMinute (minute : ℤ) : DateComponents :=
  let day := minute / 1440
  let year := yearOf day
  let dayOfYear := day - yearStart year
  let month := monthOf year dayOfYear
  { year := year
    month := month
    day := dayOfYear - monthStart year month + 1
    hour := minute % 1440 / 60
    minute := minute % 60 }

/-- The number of the minute with these components. -/
def toMinute (components : DateComponents) : ℤ :=
  (yearStart components.year + monthStart components.year components.month.toNat +
    (components.day - 1)) * 1440 + components.hour * 60 + components.minute

theorem toMinute_ofMinute (minute : ℤ) : toMinute (ofMinute minute) = minute := by
  simp only [toMinute, ofMinute, Int.toNat_natCast]
  omega

/-- The day of the week of a day. -/
def weekdayOf (day : ℤ) : Weekdays :=
  Weekdays.next^[(day % 7).toNat] .monday

theorem weekdayOf_ne_never (day : ℤ) : weekdayOf day ≠ .never := by
  unfold weekdayOf
  generalize (day % 7).toNat = k
  induction k with
  | zero => simp
  | succ k ih =>
    rw [Function.iterate_succ_apply']
    revert ih
    cases Weekdays.next^[k] .monday <;> decide

theorem weekdayOf_succ (day : ℤ) : weekdayOf (day + 1) = (weekdayOf day).next := by
  unfold weekdayOf
  rw [← Function.iterate_succ_apply' Weekdays.next]
  by_cases hsunday : day % 7 = 6
  · have h0 : ((day + 1) % 7).toNat = 0 := by omega
    have h6 : (day % 7).toNat = 6 := by omega
    rw [h0, h6]
    rfl
  · have hsucc : ((day + 1) % 7).toNat = (day % 7).toNat + 1 := by omega
    rw [hsucc]

end Gregorian

/-- The Gregorian calendar in UTC, with the years before 1 as `0`, `-1`, … -/
def gregorian : Calendar where
  dateComponents date := Gregorian.ofMinute ⌊date / 60⌋
  date components := 60 * Gregorian.toMinute components
  adding value date := date + value * (24 * 60 * 60)
  weekday date := Gregorian.weekdayOf (⌊date / 60⌋ / 1440)

theorem gregorian_date_dateComponents (date : Date) :
    gregorian.date (gregorian.dateComponents date) = startOfMinute date := by
  simp only [gregorian, startOfMinute, Gregorian.toMinute_ofMinute]

/-- A number of days is a number of whole minutes. -/
theorem gregorian_startOfMinute_adding (value : ℕ) (date : Date) :
    startOfMinute (gregorian.adding value date) = gregorian.adding value (startOfMinute date) := by
  have h := startOfMinute_add date (1440 * value)
  simp only [gregorian]
  convert h using 2 <;> push_cast <;> ring

/-- The components leave out the seconds. -/
theorem gregorian_dateComponents_startOfMinute (date : Date) :
    gregorian.dateComponents (startOfMinute date) = gregorian.dateComponents date := by
  have h : startOfMinute date / 60 = ⌊date / 60⌋ := by
    unfold startOfMinute
    ring
  simp only [gregorian, h, Int.floor_intCast]

theorem gregorian_weekday_adding (value : ℕ) (date : Date) :
    gregorian.weekday (gregorian.adding value date) =
      Weekdays.next^[value] (gregorian.weekday date) := by
  induction value with
  | zero => simp [gregorian]
  | succ value ih =>
    have h : ∀ k : ℕ, ⌊(date + k * (24 * 60 * 60)) / 60⌋ / 1440 = ⌊date / 60⌋ / 1440 + k := by
      intro k
      have hdiv : (date + k * (24 * 60 * 60)) / 60 = date / 60 + ((1440 * k : ℤ) : ℚ) := by
        push_cast
        ring
      rw [hdiv, Int.floor_add_intCast]
      omega
    rw [Function.iterate_succ_apply', ← ih]
    simp only [gregorian, h]
    rw [Nat.cast_succ, ← add_assoc, Gregorian.weekdayOf_succ]

theorem gregorian_lawful (date : Date) : gregorian.Lawful date where
  adding_zero := by simp [gregorian]
  adding_due value := by
    rw [gregorian_date_dateComponents, ← gregorian_startOfMinute_adding,
      gregorian_dateComponents_startOfMinute]
  adding_due_le value := by
    have hle := startOfMinute_le date
    have hlt := lt_startOfMinute_add date
    rw [gregorian_date_dateComponents]
    simp only [gregorian, yearAfter]
    constructor
    · intro h
      -- the seconds of the date are less than a day
      have hvalue : (value : ℚ) < 366 := by linarith
      have hvalue : value < 366 := by exact_mod_cast hvalue
      have hvalue : (value : ℚ) ≤ 365 := by exact_mod_cast Nat.le_of_lt_succ hvalue
      linarith
    · intro h
      linarith
  adding_week_le value hvalue := by
    have hvalue : (value : ℚ) < 7 := by exact_mod_cast hvalue
    simp only [gregorian, yearAfter]
    linarith
  dateComponents_injective j k _ _ h := by
    have hdate := congrArg gregorian.date h
    rw [gregorian_date_dateComponents, gregorian_date_dateComponents,
      gregorian_startOfMinute_adding, gregorian_startOfMinute_adding] at hdate
    simp only [gregorian] at hdate
    have hjk : (j : ℚ) = k := by linarith
    exact_mod_cast hjk
  weekday_ne_never value := Gregorian.weekdayOf_ne_never _
  exists_weekday weekday hne := by
    obtain ⟨value, hvalue, hnext⟩ := Weekdays.exists_next_iterate
      (Gregorian.weekdayOf_ne_never (⌊date / 60⌋ / 1440)) hne
    exact ⟨value, hvalue, (gregorian_weekday_adding value date).trans hnext⟩

example : gregorian.dateComponents 99748800 = ⟨2004, 2, 29, 12, 0⟩ := by decide +kernel

end Alarma
