import Alarma.Services.Calendar

/-!
# The calendar of cron expressions

`SwiftCron` asks `Calendar.current` for the components of a date, for the next date with
a component, and for dates that are a unit later.  The calendar is a parameter, as it is
for the reminders.

* `CronCalendar.Lawful` — what is relied on: the next date is the next one, a unit later
  is later, every day has a midnight, and years do not come back.
* `gregorianCron_lawful` — the Gregorian calendar in UTC is such a calendar.
-/

namespace Alarma

/-- The units of a date that the fields of an expression are about. -/
inductive CalendarUnit where
  | minute | hour | day | month | weekday | year
  deriving DecidableEq, Repr

/-- What is asked of `Calendar.current`. -/
structure CronCalendar where
  /-- `component(unit, from: date)`.  Sunday is the first weekday. -/
  component : CalendarUnit → Date → ℤ
  /-- `ordinality(of: .weekday, in: .weekOfYear, for: date)`, with weeks from Monday. -/
  ordinality : Date → ℤ
  /-- The length of `range(of: .day, in: .month, for:)`, for a date made of a month alone. -/
  daysInMonth : ℤ → ℤ
  /-- `date(from: components)`, of a year, and of a month and a day if they are set. -/
  date : ℤ → Option ℤ → Option ℤ → Date
  /-- `date(from:)` of the components of a date, with the second at zero. -/
  startOfMinute : Date → Date
  /-- `date(from:)` of the components of a date, with the time at midnight. -/
  startOfDay : Date → Date
  /-- `date(byAdding: components, to: date)`, for one unit. -/
  adding : CalendarUnit → Date → Date
  /-- `nextDate(after: date, matching: components, matchingPolicy: .strict)`, for one unit. -/
  nextDate : Date → CalendarUnit → ℤ → Option Date

/-- `convertWeekdayWithMondayFirstToSundayFirst`. -/
def convertWeekdayWithMondayFirstToSundayFirst (weekday : ℤ) : ℤ :=
  if weekday = 7 then 1 else weekday + 1

/-- A date is the start of a minute: until a minute later it is the same minute. -/
def CronCalendar.Whole (calendar : CronCalendar) (date : Date) : Prop :=
  ∀ d, date ≤ d → d < calendar.adding .minute date →
    calendar.component .minute d = calendar.component .minute date

/-- What is relied on.  It holds of a Foundation calendar in a time zone where every day has
a midnight, for the dates of one era. -/
structure CronCalendar.Lawful (calendar : CronCalendar) : Prop where
  /-- Components are integers of 64 bits. -/
  component_mem : ∀ unit date,
    -2 ^ 63 ≤ calendar.component unit date ∧ calendar.component unit date < 2 ^ 63
  /-- The seconds are no component. -/
  component_startOfMinute : ∀ unit date,
    calendar.component unit (calendar.startOfMinute date) = calendar.component unit date
  /-- Minutes and days start at whole minutes, -/
  whole_startOfMinute : ∀ date, calendar.Whole (calendar.startOfMinute date)
  whole_startOfDay : ∀ date, calendar.Whole (calendar.startOfDay date)
  /-- and units later are whole minutes later. -/
  whole_adding : ∀ {unit date}, calendar.Whole date → calendar.Whole (calendar.adding unit date)
  /-- The next date with a component is where that component begins. -/
  whole_nextDate : ∀ {unit value date next}, calendar.nextDate date unit value = some next →
    calendar.Whole next
  lt_nextDate : ∀ {unit value date next}, calendar.nextDate date unit value = some next →
    date < next
  /-- From a date with another component, it is the next date with that component. -/
  nextDate_first : ∀ {unit value date next}, calendar.nextDate date unit value = some next →
    calendar.component unit date ≠ value →
    ∀ d, date ≤ d → d < next → calendar.component unit d ≠ value
  nextDate_none : ∀ {unit value date}, calendar.nextDate date unit value = none →
    calendar.component unit date ≠ value → ∀ d, date ≤ d → calendar.component unit d ≠ value
  lt_adding : ∀ date, date < calendar.adding .minute date ∧ date < calendar.adding .hour date
  /-- A day, a month and a year after the start of a day are after that day. -/
  lt_adding_startOfDay : ∀ date, date < calendar.adding .day (calendar.startOfDay date) ∧
    date < calendar.adding .month (calendar.startOfDay date) ∧
    date < calendar.adding .year (calendar.startOfDay date)
  /-- Until the next day begins it is the same day. -/
  same_day : ∀ {date d}, date ≤ d → d < calendar.adding .day (calendar.startOfDay date) →
    calendar.component .day d = calendar.component .day date ∧
      calendar.component .month d = calendar.component .month date ∧
      calendar.ordinality d = calendar.ordinality date
  /-- Years do not come back. -/
  year_mono : Monotone (calendar.component .year)
  /-- The two ways to count the days of a week. -/
  weekday : ∀ date, calendar.component .weekday date =
    convertWeekdayWithMondayFirstToSundayFirst (calendar.ordinality date)
  /-- A week has seven days. -/
  ordinality_mem : ∀ date, 1 ≤ calendar.ordinality date ∧ calendar.ordinality date ≤ 7

/-! ## The Gregorian calendar

In UTC, by the Gregorian rules throughout and with the years counted astronomically, so that
there is a year 0.  Foundation counts the years of an era, and before 15 October 1582 by the
Julian rules: only from then on the two are the same calendar. -/

namespace Gregorian

/-- A day in its cycle: the cycles of 400, 100, 4 years and the years, and the days left. -/
theorem yearOf_spec (day : ℤ) : ∃ a h q y r : ℤ,
    yearOf day = 2001 + 400 * a + 100 * h + 4 * q + y ∧
      day = 146097 * a + 36524 * h + 1461 * q + 365 * y + r ∧ (0 ≤ h ∧ h ≤ 3) ∧
      (0 ≤ q ∧ q ≤ 24) ∧ (0 ≤ y ∧ y ≤ 3) ∧ (0 ≤ r ∧ r ≤ 365) ∧
      (r = 365 → y = 3 ∧ (q = 24 → h = 3)) := by
  have hday := Int.mul_ediv_add_emod day 146097
  have hlo := Int.emod_nonneg day (show (146097 : ℤ) ≠ 0 by decide)
  have hhi := Int.emod_lt_of_pos day (show (0 : ℤ) < 146097 by decide)
  unfold yearOf
  generalize day % 146097 = cycle at *
  generalize day / 146097 = a at *
  generalize hcentury : min (cycle / 36524) 3 = h
  have hh : 0 ≤ h ∧ h ≤ 3 ∧ 36524 * h ≤ cycle ∧ (cycle < 36524 * h + 36524 ∨ h = 3) := by omega
  generalize hquarter : (cycle - 36524 * h) / 1461 = q
  have hq : 0 ≤ q ∧ q ≤ 24 ∧ 1461 * q ≤ cycle - 36524 * h ∧
      cycle - 36524 * h < 1461 * q + 1461 := by omega
  generalize hyear : min ((cycle - 36524 * h - 1461 * q) / 365) 3 = y
  have hy : 0 ≤ y ∧ y ≤ 3 ∧ 365 * y ≤ cycle - 36524 * h - 1461 * q ∧
      (cycle - 36524 * h - 1461 * q < 365 * y + 365 ∨ y = 3) := by omega
  refine ⟨a, h, q, y, cycle - 36524 * h - 1461 * q - 365 * y, ?_, by omega, by omega⟩
  simp only [hcentury, hquarter, hyear]

/-- A day lies in its year. -/
theorem yearStart_yearOf (day : ℤ) : yearStart (yearOf day) ≤ day ∧
    day ≤ yearStart (yearOf day) + 365 ∧ day < yearStart (yearOf day + 1) := by
  obtain ⟨a, h, q, y, r, hyear, hday, hh, hq, hy, hr, hlast⟩ := yearOf_spec day
  have h4 : (2001 + 400 * a + 100 * h + 4 * q + y - 2001) / 4 = 100 * a + 25 * h + q := by omega
  have h100 : (2001 + 400 * a + 100 * h + 4 * q + y - 2001) / 100 = 4 * a + h := by omega
  have h400 : (2001 + 400 * a + 100 * h + 4 * q + y - 2001) / 400 = a := by omega
  have hstart : yearStart (yearOf day) = 146097 * a + 36524 * h + 1461 * q + 365 * y := by
    rw [hyear, yearStart, h4, h100, h400]
    ring
  refine ⟨by omega, by omega, ?_⟩
  rw [hyear] at hstart ⊢
  unfold yearStart at hstart ⊢
  omega

theorem yearStart_strictMono : StrictMono yearStart := strictMono_int_of_lt_succ fun year => by
  unfold yearStart
  omega

theorem yearOf_mono : Monotone yearOf := by
  intro day day' h
  by_contra hlt
  have hle : yearStart (yearOf day' + 1) ≤ yearStart (yearOf day) :=
    yearStart_strictMono.monotone (by omega)
  have hstart := (yearStart_yearOf day).1
  have hend := (yearStart_yearOf day').2.2
  omega

theorem day_ofMinute_mem (minute : ℤ) : 1 ≤ (ofMinute minute).day ∧ (ofMinute minute).day ≤ 32 := by
  obtain ⟨hlo, hhi, -⟩ := yearStart_yearOf (minute / 1440)
  simp only [ofMinute]
  generalize yearOf (minute / 1440) = year at *
  generalize hday : minute / 1440 - yearStart year = dayOfYear
  obtain ⟨day, rfl⟩ := Int.eq_ofNat_of_zero_le (show 0 ≤ dayOfYear by omega)
  have hday : day < 366 := by omega
  -- a table of the days of a year, which is leap or not
  unfold monthOf monthStart
  generalize isLeap year = leap
  clear * - hday
  revert leap day
  decide +kernel

theorem month_ofMinute_mem (minute : ℤ) :
    0 ≤ (ofMinute minute).month ∧ (ofMinute minute).month ≤ 12 := by
  simp only [ofMinute, monthOf]
  generalize minute / 1440 - yearStart (yearOf (minute / 1440)) = dayOfYear
  have hlength := List.length_filter_le
    (fun month => decide (monthStart (yearOf (minute / 1440)) month ≤ dayOfYear))
    (List.range' 1 12)
  exact ⟨Int.natCast_nonneg _, by exact_mod_cast hlength⟩

/-- The days of a month. -/
def monthLength (year month : ℤ) : ℤ :=
  if month = 2 then if isLeap year then 29 else 28
  else if month ∈ [4, 6, 9, 11] then 30 else 31

theorem monthLength_mem (year month : ℤ) : 28 ≤ monthLength year month ∧
    monthLength year month ≤ 31 := by
  unfold monthLength
  split_ifs <;> omega

/-- The days to the same day of the next month, or its last. -/
def daysToNextMonth (components : DateComponents) : ℤ :=
  let next := if components.month = 12 then monthLength (components.year + 1) 1
    else monthLength components.year (components.month + 1)
  monthLength components.year components.month - max 0 (components.day - next)

/-- The days to the same day of the next year, or to 28 February. -/
def daysToNextYear (components : DateComponents) : ℤ :=
  if components.month = 2 ∧ components.day = 29 then 365
  else if isLeap (if components.month ≤ 2 then components.year else components.year + 1) then 366
  else 365

/-- The next month is ahead. -/
theorem daysToNextMonth_pos {components : DateComponents} (h : components.day ≤ 32) :
    0 < daysToNextMonth components := by
  have hthis := monthLength_mem components.year components.month
  have hnext := monthLength_mem components.year (components.month + 1)
  have hjanuary := monthLength_mem (components.year + 1) 1
  simp only [daysToNextMonth]
  split_ifs <;> omega

theorem daysToNextYear_pos (components : DateComponents) : 0 < daysToNextYear components := by
  unfold daysToNextYear
  split_ifs <;> decide

/-- The day that lends a minute its components: its own, within 700 million days of 2001.
It keeps the components integers of 64 bits. -/
def capped (minute : ℤ) : ℤ :=
  1440 * max (-700000000) (min 700000000 (minute / 1440)) + minute % 1440

/-- Within a day the components of the day stay. -/
theorem capped_ediv (minute : ℤ) :
    capped minute / 1440 = max (-700000000) (min 700000000 (minute / 1440)) := by
  unfold capped
  omega

/-- The components of the minute with a number. -/
def component (unit : CalendarUnit) (minute : ℤ) : ℤ :=
  match unit with
  | .minute => (ofMinute (capped minute)).minute
  | .hour => (ofMinute (capped minute)).hour
  | .day => (ofMinute (capped minute)).day
  | .month => (ofMinute (capped minute)).month
  | .weekday => (capped minute / 1440 + 1) % 7 + 1
  | .year => (ofMinute (capped minute)).year

theorem component_mem (unit : CalendarUnit) (minute : ℤ) :
    -2 ^ 63 ≤ component unit minute ∧ component unit minute < 2 ^ 63 := by
  have hcapped := capped_ediv minute
  cases unit with
  | minute => simp only [component, ofMinute]; omega
  | hour => simp only [component, ofMinute]; omega
  | weekday => simp only [component]; omega
  | day =>
    have hday := day_ofMinute_mem (capped minute)
    simp only [component]
    omega
  | month =>
    have hmonth := month_ofMinute_mem (capped minute)
    simp only [component]
    omega
  | year =>
    obtain ⟨hlo, hhi, -⟩ := yearStart_yearOf (capped minute / 1440)
    simp only [component, ofMinute]
    unfold yearStart at hlo hhi
    omega

/-- The components of a day are those of its minutes. -/
theorem component_of_ediv_eq {minute minute' : ℤ} (h : minute / 1440 = minute' / 1440) :
    component .day minute = component .day minute' ∧
      component .month minute = component .month minute' ∧
      capped minute / 1440 = capped minute' / 1440 := by
  have hcapped : capped minute / 1440 = capped minute' / 1440 := by
    rw [capped_ediv, capped_ediv, h]
  refine ⟨?_, ?_, hcapped⟩ <;> simp only [component, ofMinute, hcapped]

theorem year_mono : Monotone (component .year) := by
  intro minute minute' h
  simp only [component, ofMinute]
  apply yearOf_mono
  rw [capped_ediv, capped_ediv]
  omega

/-- A stretch of minutes with a component begins. -/
def Begins (unit : CalendarUnit) (value minute : ℤ) : Prop :=
  component unit minute = value ∧ component unit (minute - 1) ≠ value

instance (unit : CalendarUnit) (value minute : ℤ) : Decidable (Begins unit value minute) := by
  unfold Begins
  infer_instance

open Classical in
/-- The first stretch after a minute. -/
noncomputable def nextMinute (minute : ℤ) (unit : CalendarUnit) (value : ℤ) : Option ℤ :=
  if h : ∃ k : ℕ, Begins unit value (minute + 1 + k) then some (minute + 1 + Nat.find h) else none

/-- No minute before the first stretch has the component, when the first does not. -/
theorem component_ne_of_not_begins {unit : CalendarUnit} {value minute : ℤ}
    (hne : component unit minute ≠ value) {n : ℕ}
    (h : ∀ k : ℕ, k < n → ¬ Begins unit value (minute + 1 + k)) :
    ∀ k : ℕ, k ≤ n → component unit (minute + k) ≠ value := by
  intro k hk
  induction k with
  | zero => simpa using hne
  | succ k ih =>
    intro heq
    refine h k (by omega) ⟨?_, ?_⟩
    · rw [← heq]
      congr 1
      push_cast
      ring
    · have hprev := ih (by omega)
      rwa [show minute + 1 + (k : ℤ) - 1 = minute + k by ring]

theorem lt_nextMinute {unit : CalendarUnit} {value minute next : ℤ}
    (h : nextMinute minute unit value = some next) : minute < next := by
  unfold nextMinute at h
  split_ifs at h with hex
  cases h
  omega

theorem nextMinute_first {unit : CalendarUnit} {value minute next : ℤ}
    (h : nextMinute minute unit value = some next) (hne : component unit minute ≠ value) {m : ℤ}
    (hle : minute ≤ m) (hlt : m < next) : component unit m ≠ value := by
  unfold nextMinute at h
  split_ifs at h with hex
  cases h
  obtain ⟨k, rfl⟩ := Int.le.dest hle
  exact component_ne_of_not_begins hne (fun j hj => Nat.find_min hex hj) k (by omega)

theorem nextMinute_none {unit : CalendarUnit} {value minute : ℤ}
    (h : nextMinute minute unit value = none) (hne : component unit minute ≠ value) {m : ℤ}
    (hle : minute ≤ m) : component unit m ≠ value := by
  unfold nextMinute at h
  split_ifs at h with hex
  obtain ⟨k, rfl⟩ := Int.le.dest hle
  exact component_ne_of_not_begins hne (fun j _ hj => hex ⟨j, hj⟩) k le_rfl

end Gregorian

/-- The number of the minute of a date. -/
def minuteOf (date : Date) : ℤ := ⌊date / 60⌋

theorem minuteOf_mono : Monotone minuteOf := fun date date' h => by
  unfold minuteOf
  exact Int.floor_le_floor (by linarith)

theorem minuteOf_mul (minute : ℤ) : minuteOf (60 * minute) = minute := by
  have hdiv : (60 * (minute : ℚ)) / 60 = minute := by ring
  rw [minuteOf, hdiv, Int.floor_intCast]

theorem startOfMinute_mul (minute : ℤ) : startOfMinute (60 * minute) = 60 * minute := by
  have h : startOfMinute (60 * (minute : ℚ)) = 60 * ((minuteOf (60 * minute) : ℤ) : ℚ) := rfl
  rw [h, minuteOf_mul]

theorem lt_of_minuteOf_lt {date : Date} {minute : ℤ} (h : minuteOf date < minute) :
    date < 60 * minute := by
  by_contra hle
  have hmono := minuteOf_mono (not_lt.1 hle)
  rw [minuteOf_mul] at hmono
  omega

theorem minuteOf_lt_of_lt {date : Date} {minute : ℤ} (h : date < 60 * minute) :
    minuteOf date < minute := by
  have hfloor := Int.floor_le (date / 60)
  have hlt : (minuteOf date : ℚ) < minute := by
    unfold minuteOf
    linarith
  exact_mod_cast hlt

/-- The Gregorian calendar in UTC, with astronomical years. -/
noncomputable def gregorianCron : CronCalendar where
  component unit date := Gregorian.component unit (minuteOf date)
  ordinality date := Gregorian.capped (minuteOf date) / 1440 % 7 + 1
  daysInMonth month := Gregorian.monthLength 1 month
  date year month day := 60 * Gregorian.toMinute ⟨year, month.getD 1, day.getD 1, 0, 0⟩
  startOfMinute := startOfMinute
  startOfDay date := 60 * ((1440 * (minuteOf date / 1440) : ℤ) : ℚ)
  adding unit date :=
    let components := Gregorian.ofMinute (Gregorian.capped (minuteOf date))
    match unit with
    | .minute => date + 60
    | .hour => date + 60 * 60
    | .day => date + 24 * 60 * 60
    | .weekday => date + 24 * 60 * 60
    | .month => date + Gregorian.daysToNextMonth components * (24 * 60 * 60)
    | .year => date + Gregorian.daysToNextYear components * (24 * 60 * 60)
  nextDate date unit value :=
    (Gregorian.nextMinute (minuteOf date) unit value).map fun minute : ℤ => (60 * minute : Date)

/-- The day of a date ends within a day of its start. -/
theorem lt_startOfDay_add (date : Date) {days : ℤ} (hdays : 0 < days) :
    date < gregorianCron.startOfDay date + days * (24 * 60 * 60) := by
  have hlt : minuteOf date < 1440 * (minuteOf date / 1440) + 1440 * days := by omega
  have hdate := lt_of_minuteOf_lt hlt
  simp only [gregorianCron]
  push_cast at hdate ⊢
  linarith

/-- The dates that are the start of a minute. -/
theorem gregorianCron_whole_iff (date : Date) :
    gregorianCron.Whole date ↔ startOfMinute date = date := by
  constructor
  · intro hwhole
    refine le_antisymm (startOfMinute_le date) (not_lt.1 fun hlt => ?_)
    -- else the next minute begins less than a minute later
    have hstart : startOfMinute date = 60 * ((minuteOf date : ℤ) : ℚ) := rfl
    have hend := lt_startOfMinute_add date
    have hnext : (60 * ((minuteOf date + 1 : ℤ) : ℚ)) = startOfMinute date + 60 := by
      rw [hstart]
      push_cast
      ring
    have hsame := hwhole (60 * ((minuteOf date + 1 : ℤ) : ℚ)) (by rw [hnext]; exact hend.le)
      (by simp only [gregorianCron, hnext]; linarith)
    simp only [gregorianCron, minuteOf_mul, Gregorian.component, Gregorian.ofMinute,
      Gregorian.capped] at hsame
    omega
  · intro hdate d hle hlt
    have hmono := minuteOf_mono hle
    have hnext : d < 60 * ((minuteOf date + 1 : ℤ) : ℚ) := by
      have hstart : date = 60 * ((minuteOf date : ℤ) : ℚ) := hdate.symm
      simp only [gregorianCron] at hlt
      push_cast
      linarith
    have hminute := minuteOf_lt_of_lt hnext
    have heq : minuteOf d = minuteOf date := by omega
    simp only [gregorianCron, heq]

theorem gregorianCron_lawful : gregorianCron.Lawful where
  component_mem unit date := Gregorian.component_mem unit _
  component_startOfMinute unit date := by
    have hstart : startOfMinute date = 60 * ((minuteOf date : ℤ) : ℚ) := rfl
    simp only [gregorianCron, hstart, minuteOf_mul]
  whole_startOfMinute date := by
    exact (gregorianCron_whole_iff _).2 (startOfMinute_mul (minuteOf date))
  whole_startOfDay date := (gregorianCron_whole_iff _).2 (startOfMinute_mul _)
  whole_adding {unit date} hwhole := by
    have h := (gregorianCron_whole_iff date).1 hwhole
    have hadd : ∀ m : ℤ, startOfMinute (date + 60 * m) = date + 60 * m := fun m => by
      rw [startOfMinute_add]
      exact congrArg (· + 60 * (m : ℚ)) h
    have hdays : ∀ days : ℤ, startOfMinute (date + days * (24 * 60 * 60)) =
        date + days * (24 * 60 * 60) := fun days => by
      have hminutes : (days : ℚ) * (24 * 60 * 60) = 60 * ((1440 * days : ℤ) : ℚ) := by
        push_cast
        ring
      rw [hminutes, hadd]
    rw [gregorianCron_whole_iff]
    simp only [gregorianCron]
    cases unit with
    | minute => simpa using hadd 1
    | hour => simpa using hadd 60
    | day => simpa using hdays 1
    | weekday => simpa using hdays 1
    | month => exact hdays _
    | year => exact hdays _
  whole_nextDate h := by
    obtain ⟨minute, -, rfl⟩ := Option.map_eq_some_iff.1 h
    exact (gregorianCron_whole_iff _).2 (startOfMinute_mul minute)
  lt_nextDate h := by
    obtain ⟨minute, hminute, rfl⟩ := Option.map_eq_some_iff.1 h
    exact lt_of_minuteOf_lt (Gregorian.lt_nextMinute hminute)
  nextDate_first h hne d hle hlt := by
    obtain ⟨minute, hminute, rfl⟩ := Option.map_eq_some_iff.1 h
    exact Gregorian.nextMinute_first hminute hne (minuteOf_mono hle) (minuteOf_lt_of_lt hlt)
  nextDate_none h hne d hle :=
    Gregorian.nextMinute_none (Option.map_eq_none_iff.1 h) hne (minuteOf_mono hle)
  lt_adding date := by
    simp only [gregorianCron]
    constructor <;> linarith
  lt_adding_startOfDay date := by
    refine ⟨?_, ?_, ?_⟩
    · have hday := lt_startOfDay_add date one_pos
      simpa [gregorianCron] using hday
    · exact lt_startOfDay_add date (Gregorian.daysToNextMonth_pos (Gregorian.day_ofMinute_mem _).2)
    · exact lt_startOfDay_add date (Gregorian.daysToNextYear_pos _)
  same_day {date d} hle hlt := by
    have hday : minuteOf d / 1440 = minuteOf date / 1440 := by
      have hmono := minuteOf_mono hle
      have hend : d < 60 * ((1440 * (minuteOf date / 1440) + 1440 : ℤ) : ℚ) := by
        simp only [gregorianCron] at hlt
        push_cast at hlt ⊢
        linarith
      have hminute := minuteOf_lt_of_lt hend
      omega
    obtain ⟨hd, hmonth, hcapped⟩ := Gregorian.component_of_ediv_eq hday
    refine ⟨hd, hmonth, ?_⟩
    simp only [gregorianCron, hcapped]
  year_mono date date' h := Gregorian.year_mono (minuteOf_mono h)
  weekday date := by
    simp only [gregorianCron, Gregorian.component, convertWeekdayWithMondayFirstToSundayFirst]
    split_ifs <;> omega
  ordinality_mem date := by
    simp only [gregorianCron]
    omega

end Alarma
