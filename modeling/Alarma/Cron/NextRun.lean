import Alarma.Cron.CronCalendar
import Alarma.Cron.CronExpression
import Alarma.Library.Seek

/-!
# The next run of a cron expression

`getNextRunDate` goes from date to date: the first field that is not satisfied increments
the date, and all the fields are checked again, a thousand times at most.

* `CronField.Matches` — what a part of a field asks of a date; `isSatisfiedBy_iff` that
  the checkers ask for nothing else.
* `getNextRunDate_eq_seek` — the loop is a search by jumps.
* `getNextRunDate_skip` — no match is ever skipped.
* `getNextRunDate_matches` — every field matches the date that is returned.
* `getNextRunDate_first` — and it is the first such date, unless the hours, the months or
  the years are a list; `list_jumps_over` is a list of months.
* `toCron_next_run` — the next run of the expression of an alarm.
-/

namespace Alarma

/-! ## The checkers of the fields -/

namespace CronCalendar

variable (calendar : CronCalendar)

/-- `nextDate(matchingUnit:value:)`, of a date. -/
def nextDateMatching (date : Date) (unit : CalendarUnit) (value : String) : Option Date :=
  if ',' ∈ value.toList then none
  else
    match intOfString value with
    | none => none
    | some valueToMatch =>
      if unit = .year ∧ calendar.component .year date ≥ valueToMatch then none
      else calendar.nextDate date unit valueToMatch

/-- `getLastDayOfMonth`, of a date. -/
def getLastDayOfMonth (date : Date) : ℤ :=
  let month := calendar.component .month date
  if month ∈ [1, 3, 5, 7, 8, 10, 12] then 31
  else if month = 2 then calendar.daysInMonth month
  else 30

end CronCalendar

/-- `Field.isSatisfied`. -/
def Field.isSatisfied (dateValue value : String) : Bool := value == "*" || dateValue == value

namespace CronField

variable (calendar : CronCalendar)

/-- `MinutesField`, `HoursField`, `MonthField` and `YearField` compare their component. -/
def componentIsSatisfiedBy (unit : CalendarUnit) (date : Date) (value : String) : Bool :=
  Field.isSatisfied (toString (calendar.component unit date)) value

/-- `getFieldChecker().isSatisfiedBy`. -/
def isSatisfiedBy : CronField → Date → String → Bool
  | minute => componentIsSatisfiedBy calendar .minute
  | hour => componentIsSatisfiedBy calendar .hour
  | day => fun date value =>
    if value = "L" then calendar.component .day date == calendar.getLastDayOfMonth date
    else componentIsSatisfiedBy calendar .day date value
  | month => componentIsSatisfiedBy calendar .month
  | weekday => fun date value =>
    let weekdayWithMondayAsFirstDay :=
      if intOfString value = some 0 then 0 else calendar.ordinality date
    Field.isSatisfied (toString weekdayWithMondayAsFirstDay) value
  | year => componentIsSatisfiedBy calendar .year

/-- One unit later; from midnight, for the units that are not of the time of day. -/
def later : CronField → Date → Date
  | minute => calendar.adding .minute
  | hour => calendar.adding .hour
  | day => fun date => calendar.adding .day (calendar.startOfDay date)
  | month => fun date => calendar.adding .month (calendar.startOfDay date)
  | weekday => fun date => calendar.adding .day (calendar.startOfDay date)
  | year => fun date => calendar.adding .year (calendar.startOfDay date)

/-- The next date with a component, or else one unit later. -/
def incrementUnit (field : CronField) (unit : CalendarUnit) (date : Date) (value : String) : Date :=
  (calendar.nextDateMatching date unit value).getD (field.later calendar date)

/-- `getFieldChecker().increment`. -/
def increment : CronField → Date → String → Date
  | minute => incrementUnit calendar .minute .minute
  | hour => incrementUnit calendar .hour .hour
  | day => incrementUnit calendar .day .day
  | month => incrementUnit calendar .month .month
  | weekday => fun date value =>
    match intOfString value with
    | some toMatchInt =>
      let converted := convertWeekdayWithMondayFirstToSundayFirst toMatchInt
      incrementUnit calendar .weekday .weekday date (toString converted)
    | none => later calendar .weekday date
  | year => incrementUnit calendar .year .year

/-- One part of a list, or the only one, is satisfied. -/
def isSatisfied (field : CronField) (nextRun : Date) (part : String) : Bool :=
  if ',' ∈ part.toList then
    (componentsSeparatedBy ',' part).any fun listPart =>
      field.isSatisfiedBy calendar nextRun listPart
  else field.isSatisfiedBy calendar nextRun part

end CronField

/-! ## The loop -/

namespace CronExpression

variable (calendar : CronCalendar) (e : CronExpression)

/-- Where the loop over the fields ends. -/
inductive FieldLoop where
  /-- A field is not satisfied: start over, with the next date. -/
  | iterate (nextRun : Date) (timesToSkip : ℤ)
  /-- Every field has been checked. -/
  | finished (satisfied : Bool)
  deriving DecidableEq, Repr

/-- `currentFieldLoop`.  To skip a match, a date is incremented, and dropped. -/
def currentFieldLoop (nextRun : Date) : List CronField → Bool → ℤ → FieldLoop
  | [], satisfied, _ => .finished satisfied
  | cronField :: fields, _, timesToSkip =>
    let part := e.cronRepresentation.part cronField
    let satisfied := cronField.isSatisfied calendar nextRun part
    if satisfied = false then .iterate (cronField.increment calendar nextRun part) timesToSkip
    else if timesToSkip > 0 then
      let _ := CronField.minute.increment calendar nextRun part
      currentFieldLoop nextRun fields satisfied (timesToSkip - 1)
    else currentFieldLoop nextRun fields satisfied timesToSkip

/-- `iteration`, so many times. -/
def iteration : ℕ → Date → ℤ → Option Date
  | 0, _, _ => none
  | times + 1, nextRun, timesToSkip =>
    match currentFieldLoop calendar e nextRun CronField.all false timesToSkip with
    | .iterate nextRun timesToSkip => iteration times nextRun timesToSkip
    | .finished satisfied => if satisfied then some nextRun else none

/-- `matchIsTheoreticallyPossible`. -/
def matchIsTheoreticallyPossible (date : Date) : Bool :=
  match intOfString e.cronRepresentation.year with
  | none => true
  | some year =>
    let month := intOfString e.cronRepresentation.month
    if month.any (· < 1) then false
    else
      let day := (intOfString e.cronRepresentation.day).getD
        (calendar.getLastDayOfMonth (calendar.date year month none))
      if day < 1 then false else date ≤ calendar.date year month (some day)

/-- `getNextRunDate(_:skip:)`. -/
def getNextRunDate (date : Date) (skip : ℤ) : Option Date :=
  if matchIsTheoreticallyPossible calendar e date then
    iteration calendar e 1000 (calendar.startOfMinute date) skip
  else none

/-! ## A search by jumps -/

/-- The check of a field, and its increment. -/
def test (cronField : CronField) : Seek.Test Date where
  passes nextRun := cronField.isSatisfied calendar nextRun (e.cronRepresentation.part cronField)
  jump nextRun := cronField.increment calendar nextRun (e.cronRepresentation.part cronField)

/-- The checks of all the fields. -/
def tests : List (Seek.Test Date) := CronField.all.map (e.test calendar)

/-- The loop over the fields stops at the first one that is not satisfied. -/
theorem currentFieldLoop_eq (nextRun : Date) {fields : List CronField} {satisfied : Bool}
    (h : fields ≠ [] ∨ satisfied = true) (timesToSkip : ℤ) :
    ∃ n, currentFieldLoop calendar e nextRun fields satisfied timesToSkip =
      match (fields.map (e.test calendar)).find? fun test => !test.passes nextRun with
      | some test => .iterate (test.jump nextRun) n
      | none => .finished true := by
  induction fields generalizing satisfied timesToSkip with
  | nil =>
    have hsatisfied : satisfied = true := h.resolve_left (fun hne => hne rfl)
    exact ⟨0, by rw [hsatisfied]; rfl⟩
  | cons cronField fields ih =>
    simp only [List.map_cons, List.find?_cons, currentFieldLoop]
    cases hpass : cronField.isSatisfied calendar nextRun (e.cronRepresentation.part cronField) with
    | false =>
      have hfail : (!(e.test calendar cronField).passes nextRun) = true := by simp [test, hpass]
      exact ⟨timesToSkip, by simp only [hfail]; rfl⟩
    | true =>
      have hfail : (!(e.test calendar cronField).passes nextRun) = false := by simp [test, hpass]
      simp only [hfail, Bool.true_eq_false, if_false]
      split
      · exact ih (Or.inr rfl) _
      · exact ih (Or.inr rfl) _

/-- The iterations are the search, whatever is to be skipped. -/
theorem iteration_eq_seek (times : ℕ) (nextRun : Date) (timesToSkip : ℤ) :
    iteration calendar e times nextRun timesToSkip =
      Seek.seek (e.tests calendar) times nextRun := by
  induction times generalizing nextRun timesToSkip with
  | zero => rfl
  | succ times ih =>
    have hne : CronField.all ≠ [] ∨ false = true := Or.inl (by decide)
    obtain ⟨n, hloop⟩ := currentFieldLoop_eq calendar e nextRun hne timesToSkip
    rw [iteration, Seek.seek, hloop, tests]
    cases (CronField.all.map (e.test calendar)).find? fun test => !test.passes nextRun with
    | some test => exact ih _ _
    | none => rfl

/-- **The next run is searched for by jumps.** -/
theorem getNextRunDate_eq_seek (date : Date) (skip : ℤ) :
    getNextRunDate calendar e date skip = if matchIsTheoreticallyPossible calendar e date then
      Seek.seek (e.tests calendar) 1000 (calendar.startOfMinute date) else none := by
  rw [getNextRunDate, iteration_eq_seek]

/-- **No match is skipped**: whatever number of matches is to be skipped, the first one is
returned. -/
theorem getNextRunDate_skip (date : Date) (skip : ℤ) :
    getNextRunDate calendar e date skip = getNextRunDate calendar e date 0 := by
  rw [getNextRunDate_eq_seek, getNextRunDate_eq_seek]

end CronExpression

/-! ## What the fields ask for -/

/-- The number that a field compares. -/
def CronField.number (calendar : CronCalendar) : CronField → Date → ℤ
  | minute => calendar.component .minute
  | hour => calendar.component .hour
  | day => calendar.component .day
  | month => calendar.component .month
  | weekday => calendar.ordinality
  | year => calendar.component .year

/-- What a part of a field asks of a date: nothing, its own number in decimal digits, the
last day of the month, or — a weekday that is written as zero — nothing either. -/
inductive CronField.Matches (calendar : CronCalendar) (date : Date) : CronField → String → Prop
  | default (field : CronField) : Matches calendar date field "*"
  | number (field : CronField) : Matches calendar date field (toString (field.number calendar date))
  | lastDay : calendar.component .day date = calendar.getLastDayOfMonth date →
    Matches calendar date .day "L"
  | anyWeekday : Matches calendar date .weekday "0"

namespace CronField

variable {calendar : CronCalendar}

theorem isSatisfied_iff {dateValue value : String} :
    Field.isSatisfied dateValue value = true ↔ value = "*" ∨ value = dateValue := by
  simp only [Field.isSatisfied, Bool.or_eq_true, beq_iff_eq]
  exact or_congr_right eq_comm

/-- A value that a checker compares with the number of its field. -/
theorem matches_of_isSatisfied {field : CronField} {date : Date} {value : String}
    (h : Field.isSatisfied (toString (field.number calendar date)) value = true) :
    Matches calendar date field value := by
  rcases isSatisfied_iff.1 h with rfl | rfl
  · exact .default field
  · exact .number field

/-- A part that a checker is satisfied with matches. -/
theorem matches_of_isSatisfiedBy {field : CronField} {date : Date} {value : String}
    (h : field.isSatisfiedBy calendar date value = true) : Matches calendar date field value := by
  cases field with
  | minute => exact matches_of_isSatisfied h
  | hour => exact matches_of_isSatisfied h
  | month => exact matches_of_isSatisfied h
  | year => exact matches_of_isSatisfied h
  | day =>
    simp only [isSatisfiedBy] at h
    split at h
    case isTrue hlast =>
      subst hlast
      exact .lastDay (by simpa using h)
    case isFalse => exact matches_of_isSatisfied h
  | weekday =>
    simp only [isSatisfiedBy] at h
    split at h
    case isTrue =>
      rcases isSatisfied_iff.1 h with rfl | rfl
      · exact .default _
      · exact .anyWeekday
    case isFalse => exact matches_of_isSatisfied h

/-- The numbers are integers of 64 bits. -/
theorem number_mem (hcalendar : calendar.Lawful) (field : CronField) (date : Date) :
    -2 ^ 63 ≤ field.number calendar date ∧ field.number calendar date < 2 ^ 63 := by
  cases field with
  | weekday =>
    have hmem := hcalendar.ordinality_mem date
    simp only [number]
    omega
  | _ => exact hcalendar.component_mem _ date

/-- So they are read back from their digits. -/
theorem intOfString_number (hcalendar : calendar.Lawful) (field : CronField) (date : Date) :
    intOfString (toString (field.number calendar date)) = some (field.number calendar date) := by
  obtain ⟨hlo, hhi⟩ := number_mem hcalendar field date
  exact intOfString_toString hlo hhi

/-- And a part that matches satisfies the checker. -/
theorem isSatisfiedBy_iff (hcalendar : calendar.Lawful) {field : CronField} {date : Date}
    {value : String} :
    field.isSatisfiedBy calendar date value = true ↔ Matches calendar date field value := by
  refine ⟨matches_of_isSatisfiedBy, fun h => ?_⟩
  cases h with
  | default => cases field <;> rfl
  | number =>
    have hread := intOfString_number hcalendar field date
    cases field with
    | day =>
      have hne : toString (calendar.component .day date) ≠ "L" := by
        intro heq
        simp only [number, heq] at hread
        cases hread
      show (if toString (calendar.component .day date) = "L" then _ else _) = true
      rw [if_neg hne]
      exact isSatisfied_iff.2 (Or.inr rfl)
    | weekday =>
      have hmem := hcalendar.ordinality_mem date
      have hne : ¬ some (calendar.ordinality date) = some 0 := by
        rw [Option.some.injEq]
        omega
      simp only [number] at hread
      simp only [isSatisfiedBy, number, hread, if_neg hne]
      exact isSatisfied_iff.2 (Or.inr rfl)
    | _ => exact isSatisfied_iff.2 (Or.inr rfl)
  | lastDay hlast => simp [isSatisfiedBy, hlast]
  | anyWeekday => rfl

/-- The digits of a number, other than zero, are matched by that number only. -/
theorem number_eq_of_matches (hcalendar : calendar.Lawful) {field : CronField} {date d : Date}
    (h : Matches calendar d field (toString (field.number calendar date))) :
    field.number calendar d = field.number calendar date := by
  have hread := intOfString_number hcalendar field date
  generalize hvalue : toString (field.number calendar date) = value at h hread
  cases h with
  | default => cases hread
  | number =>
    rw [intOfString_number hcalendar field d] at hread
    exact Option.some.inj hread
  | lastDay => cases hread
  | anyWeekday =>
    have hmem := hcalendar.ordinality_mem date
    have hzero : intOfString "0" = some 0 := by decide
    rw [hzero, Option.some.injEq] at hread
    simp only [number] at hread
    omega

/-- One part of a list matches, or the only one. -/
def MatchesList (calendar : CronCalendar) (date : Date) (field : CronField) (value : String) :
    Prop :=
  ∃ part ∈ componentsSeparatedBy ',' value, Matches calendar date field part

theorem matchesList_of_isSatisfied {field : CronField} {date : Date} {value : String}
    (h : field.isSatisfied calendar date value = true) :
    MatchesList calendar date field value := by
  unfold isSatisfied at h
  split at h
  case isTrue =>
    obtain ⟨part, hpart, hsatisfied⟩ := List.any_eq_true.1 h
    exact ⟨part, hpart, matches_of_isSatisfiedBy hsatisfied⟩
  case isFalse hlist =>
    refine ⟨value, ?_, matches_of_isSatisfiedBy h⟩
    rw [componentsSeparatedBy_of_notMem hlist]
    exact List.mem_singleton_self _

/-- A field is satisfied when one of its parts matches. -/
theorem isSatisfied_iff_matchesList (hcalendar : calendar.Lawful) {field : CronField}
    {date : Date} {value : String} :
    field.isSatisfied calendar date value = true ↔ MatchesList calendar date field value := by
  refine ⟨matchesList_of_isSatisfied, fun ⟨part, hpart, hmatch⟩ => ?_⟩
  have hsatisfied := (isSatisfiedBy_iff hcalendar).2 hmatch
  unfold isSatisfied
  split
  case isTrue => exact List.any_eq_true.2 ⟨part, hpart, hsatisfied⟩
  case isFalse hlist =>
    rw [componentsSeparatedBy_of_notMem hlist, List.mem_singleton] at hpart
    rwa [hpart] at hsatisfied

/-! ## The increments -/

/-- A date with the component that a value is the digits of is not jumped over. -/
theorem nextDateMatching_le (hcalendar : calendar.Lawful) {unit : CalendarUnit} {value : String}
    (hlist : ',' ∉ value.toList) {date d : Date}
    (hfail : toString (calendar.component unit date) ≠ value) (hle : date ≤ d)
    (hd : toString (calendar.component unit d) = value) :
    ∃ next, calendar.nextDateMatching date unit value = some next ∧ next ≤ d := by
  obtain ⟨hlo, hhi⟩ := hcalendar.component_mem unit d
  have hread := intOfString_toString hlo hhi
  rw [hd] at hread
  have hne : calendar.component unit date ≠ calendar.component unit d := by
    intro heq
    rw [heq] at hfail
    exact hfail hd
  have hyear : ¬ (unit = .year ∧ calendar.component .year date ≥ calendar.component unit d) := by
    rintro ⟨rfl, hge⟩
    exact hne (le_antisymm (hcalendar.year_mono hle) hge)
  have hmatching : calendar.nextDateMatching date unit value =
      calendar.nextDate date unit (calendar.component unit d) := by
    simp only [CronCalendar.nextDateMatching, if_neg hlist, hread, if_neg hyear]
  rw [hmatching]
  cases hnext : calendar.nextDate date unit (calendar.component unit d) with
  | none => exact absurd rfl (hcalendar.nextDate_none hnext hne d hle)
  | some next =>
    refine ⟨next, rfl, not_lt.1 fun hlt => ?_⟩
    exact hcalendar.nextDate_first hnext hne d hle hlt rfl

/-- An increment is one unit later, or the next date with some component. -/
theorem increment_cases (field : CronField) (date : Date) (value : String) :
    field.increment calendar date value = field.later calendar date ∨
      ∃ unit component,
        calendar.nextDate date unit component = some (field.increment calendar date value) := by
  have hunit : ∀ (field : CronField) (unit : CalendarUnit) (value : String),
      incrementUnit calendar field unit date value = field.later calendar date ∨
        ∃ component, calendar.nextDate date unit component =
          some (incrementUnit calendar field unit date value) := by
    intro field unit value
    unfold incrementUnit CronCalendar.nextDateMatching
    split
    · exact Or.inl rfl
    · split
      · exact Or.inl rfl
      case h_2 component _ =>
        split
        · exact Or.inl rfl
        · cases hnext : calendar.nextDate date unit component with
          | none => exact Or.inl rfl
          | some next => exact Or.inr ⟨component, hnext⟩
  cases field with
  | weekday =>
    simp only [increment]
    split
    · exact (hunit .weekday .weekday _).imp_right fun h => ⟨_, h⟩
    · exact Or.inl rfl
  | _ => exact (hunit _ _ value).imp_right fun h => ⟨_, h⟩

/-- An increment goes forward. -/
theorem lt_increment (hcalendar : calendar.Lawful) (field : CronField) (date : Date)
    (value : String) : date < field.increment calendar date value := by
  rcases increment_cases field date value with hlater | ⟨unit, component, hnext⟩
  · obtain ⟨hminute, hhour⟩ := hcalendar.lt_adding date
    obtain ⟨hday, hmonth, hyear⟩ := hcalendar.lt_adding_startOfDay date
    rw [hlater]
    cases field <;> assumption
  · exact hcalendar.lt_nextDate hnext

/-- And to a whole minute. -/
theorem whole_increment (hcalendar : calendar.Lawful) (field : CronField) {date : Date}
    (hwhole : calendar.Whole date) (value : String) :
    calendar.Whole (field.increment calendar date value) := by
  rcases increment_cases field date value with hlater | ⟨unit, component, hnext⟩
  · rw [hlater]
    cases field with
    | minute => exact hcalendar.whole_adding hwhole
    | hour => exact hcalendar.whole_adding hwhole
    | _ => exact hcalendar.whole_adding (hcalendar.whole_startOfDay date)
  · exact hcalendar.whole_nextDate hnext

/-- The checkers that compare a component do not jump over a date. -/
theorem incrementUnit_le (hcalendar : calendar.Lawful) {unit : CalendarUnit} {value : String}
    (hlist : ',' ∉ value.toList) {field : CronField} {date d : Date}
    (hfail : componentIsSatisfiedBy calendar unit date value = false) (hle : date ≤ d)
    (hd : componentIsSatisfiedBy calendar unit d value = true) :
    incrementUnit calendar field unit date value ≤ d := by
  have hfail' : ¬ (value = "*" ∨ value = toString (calendar.component unit date)) := by
    rw [← isSatisfied_iff, Bool.not_eq_true]
    exact hfail
  obtain ⟨hstar, hdigits⟩ := not_or.1 hfail'
  have hmatch := (isSatisfied_iff.1 hd).resolve_left hstar
  obtain ⟨next, hnext, hle'⟩ :=
    nextDateMatching_le hcalendar hlist (Ne.symm hdigits) hle hmatch.symm
  rw [incrementUnit, hnext]
  exact hle'

theorem convert_injOn {v w : ℤ} (hv : 1 ≤ v ∧ v ≤ 7) (hw : 1 ≤ w ∧ w ≤ 7)
    (h : convertWeekdayWithMondayFirstToSundayFirst v =
      convertWeekdayWithMondayFirstToSundayFirst w) : v = w := by
  unfold convertWeekdayWithMondayFirstToSundayFirst at h
  split_ifs at h <;> omega

/-- Decimal digits are no list. -/
theorem comma_notMem_toString (n : ℤ) : ',' ∉ (toString n).toList := by
  have hrepr : ∀ m : ℕ, ',' ∉ m.repr.toList := by
    intro m hmem
    rw [Nat.toList_repr] at hmem
    have hdigit := Nat.isDigit_of_mem_toDigits (by omega) (by omega) hmem
    cases hdigit
  rw [Int.toString_eq_repr, Int.repr_eq_if]
  split
  · exact hrepr _
  · rw [String.toList_append, List.mem_append, not_or]
    exact ⟨by decide, hrepr _⟩

/-- **A date that satisfies a checker is not jumped over**, from one that does not. -/
theorem increment_le (hcalendar : calendar.Lawful) {field : CronField} {value : String}
    (hlist : ',' ∉ value.toList) {date d : Date}
    (hfail : field.isSatisfiedBy calendar date value = false) (hle : date ≤ d)
    (hd : field.isSatisfiedBy calendar d value = true) :
    field.increment calendar date value ≤ d := by
  cases field with
  | minute => exact incrementUnit_le hcalendar hlist hfail hle hd
  | hour => exact incrementUnit_le hcalendar hlist hfail hle hd
  | month => exact incrementUnit_le hcalendar hlist hfail hle hd
  | year => exact incrementUnit_le hcalendar hlist hfail hle hd
  | day =>
    simp only [isSatisfiedBy] at hfail hd
    split at hfail
    case isFalse hlast =>
      rw [if_neg hlast] at hd
      exact incrementUnit_le hcalendar hlist hfail hle hd
    case isTrue hlast =>
      -- `"L"` is no number, and the date jumps to the next midnight
      subst hlast
      simp only [if_true, beq_iff_eq, beq_eq_false_iff_ne] at hfail hd
      have hlater : increment calendar .day date "L" = later calendar .day date := rfl
      rw [hlater]
      refine not_lt.1 fun hlt => hfail ?_
      obtain ⟨hday, hmonth, -⟩ := hcalendar.same_day hle hlt
      rw [← hday, hd, CronCalendar.getLastDayOfMonth, CronCalendar.getLastDayOfMonth, hmonth]
  | weekday =>
    simp only [isSatisfiedBy] at hfail hd
    split at hfail
    case isTrue hzero =>
      -- a zero is compared with zero, on every date
      rw [if_pos hzero] at hd
      rw [hd] at hfail
      cases hfail
    case isFalse hzero =>
      rw [if_neg hzero] at hd
      have hfail' : ¬ (value = "*" ∨ value = toString (calendar.ordinality date)) := by
        rw [← isSatisfied_iff, Bool.not_eq_true]
        exact hfail
      obtain ⟨hstar, hdigits⟩ := not_or.1 hfail'
      have hmatch := (isSatisfied_iff.1 hd).resolve_left hstar
      have hmem := hcalendar.ordinality_mem d
      have hread := intOfString_toString (n := calendar.ordinality d) (by omega) (by omega)
      rw [← hmatch] at hread
      have hne : toString (calendar.component .weekday date) ≠ toString
          (convertWeekdayWithMondayFirstToSundayFirst (calendar.ordinality d)) := by
        intro heq
        obtain ⟨hlo, hhi⟩ := hcalendar.component_mem .weekday date
        obtain ⟨hlo', hhi'⟩ := hcalendar.component_mem .weekday d
        have hcomponent := congrArg intOfString heq
        rw [← hcalendar.weekday, intOfString_toString hlo hhi, intOfString_toString hlo' hhi',
          Option.some.injEq, hcalendar.weekday, hcalendar.weekday] at hcomponent
        rw [convert_injOn (hcalendar.ordinality_mem date) hmem hcomponent] at hdigits
        exact hdigits hmatch
      obtain ⟨next, hnext, hle'⟩ := nextDateMatching_le hcalendar (comma_notMem_toString _) hne hle
        (by rw [hcalendar.weekday])
      simp only [increment, incrementUnit, hread, hnext, Option.getD_some]
      exact hle'

/-! ## Lists

From a list, the minutes and the days go on to the next minute and to the next midnight;
the hours, the months and the years go on to the middle of the next one. -/

/-- No date of the next unit is jumped over from a list. -/
def KeepsLists : CronField → Prop
  | minute => True
  | hour => False
  | day => True
  | month => False
  | weekday => True
  | year => False

theorem increment_of_list {field : CronField} {value : String} (hlist : ',' ∈ value.toList)
    (date : Date) : field.increment calendar date value = field.later calendar date := by
  cases field with
  | weekday => simp only [increment, intOfString_of_comma hlist]
  | _ =>
    simp only [increment, incrementUnit, CronCalendar.nextDateMatching, if_pos hlist,
      Option.getD_none]

/-- A checker only looks at the number of its field, and at the month for the last day. -/
theorem isSatisfiedBy_congr {field : CronField} {date d : Date}
    (hnumber : field.number calendar d = field.number calendar date)
    (hmonth : field = .day → calendar.component .month d = calendar.component .month date)
    (value : String) :
    field.isSatisfiedBy calendar d value = field.isSatisfiedBy calendar date value := by
  cases field with
  | day =>
    simp only [number] at hnumber
    simp only [isSatisfiedBy, componentIsSatisfiedBy, CronCalendar.getLastDayOfMonth, hnumber,
      hmonth rfl]
  | weekday =>
    simp only [number] at hnumber
    simp only [isSatisfiedBy, hnumber]
  | _ =>
    simp only [number] at hnumber
    simp only [isSatisfiedBy, componentIsSatisfiedBy, hnumber]

/-- Until the next unit begins, a field that keeps lists is satisfied or not as before. -/
theorem isSatisfied_of_lt_later (hcalendar : calendar.Lawful) {field : CronField}
    (hkeeps : field.KeepsLists) {date d : Date} (hwhole : calendar.Whole date) (hle : date ≤ d)
    (hlt : d < field.later calendar date) (value : String) :
    field.isSatisfied calendar d value = field.isSatisfied calendar date value := by
  have hsame : field.number calendar d = field.number calendar date ∧
      (field = .day → calendar.component .month d = calendar.component .month date) := by
    cases field with
    | minute => exact ⟨hwhole d hle hlt, fun h => by cases h⟩
    | day =>
      obtain ⟨hday, hmonth, -⟩ := hcalendar.same_day hle hlt
      exact ⟨hday, fun _ => hmonth⟩
    | weekday => exact ⟨(hcalendar.same_day hle hlt).2.2, fun h => by cases h⟩
    | hour => exact hkeeps.elim
    | month => exact hkeeps.elim
    | year => exact hkeeps.elim
  simp only [isSatisfied, isSatisfiedBy_congr hsame.1 hsame.2]

end CronField

/-! ## The first match -/

namespace CronExpression

variable {calendar : CronCalendar} {e : CronExpression}

theorem mem_tests (field : CronField) : e.test calendar field ∈ e.tests calendar :=
  List.mem_map_of_mem field.mem_all

/-- A search has ended at the date that is returned. -/
theorem seek_of_getNextRunDate {date next : Date} {skip : ℤ}
    (h : e.getNextRunDate calendar date skip = some next) :
    Seek.seek (e.tests calendar) 1000 (calendar.startOfMinute date) = some next := by
  rw [getNextRunDate_eq_seek] at h
  split at h
  · exact h
  · cases h

/-- The minute of the start is returned when it satisfies every field. -/
theorem getNextRunDate_of_isSatisfied (hyear : intOfString e.cronRepresentation.year = none)
    {date : Date} (h : ∀ field : CronField, field.isSatisfied calendar (calendar.startOfMinute date)
      (e.cronRepresentation.part field) = true) (skip : ℤ) :
    e.getNextRunDate calendar date skip = some (calendar.startOfMinute date) := by
  have hpossible : e.matchIsTheoreticallyPossible calendar date = true := by
    rw [matchIsTheoreticallyPossible, hyear]
  have hpasses : ∀ test ∈ e.tests calendar, test.passes (calendar.startOfMinute date) = true := by
    intro test htest
    obtain ⟨field, -, rfl⟩ := List.mem_map.1 htest
    exact h field
  rw [getNextRunDate_eq_seek, if_pos hpossible]
  exact Seek.seek_of_passes hpasses 999

/-- Every field is satisfied with the date that is returned. -/
theorem isSatisfied_of_getNextRunDate {date next : Date} {skip : ℤ}
    (h : e.getNextRunDate calendar date skip = some next) (field : CronField) :
    field.isSatisfied calendar next (e.cronRepresentation.part field) = true :=
  Seek.seek_passes (seek_of_getNextRunDate h) _ (mem_tests field)

/-- **Every field matches the date that is returned**, with one of its parts if it is a
list.  Steps, ranges, names, and numbers with a sign or a leading zero are accepted, but
match no date. -/
theorem getNextRunDate_matches {date next : Date} {skip : ℤ}
    (h : e.getNextRunDate calendar date skip = some next) (field : CronField) :
    CronField.MatchesList calendar next field (e.cronRepresentation.part field) :=
  CronField.matchesList_of_isSatisfied (isSatisfied_of_getNextRunDate h field)

/-- Every half hour on weekdays. -/
def halfHours : CronExpression :=
  ⟨{ minute := "0,30", weekday := "1,2,3,4,5" }, by decide⟩

/-- The first minute of 2001 is on a Monday. -/
theorem getNextRunDate_matches_sample :
    halfHours.getNextRunDate gregorianCron 0 0 = some 0 ∧
      CronField.MatchesList gregorianCron 0 .weekday "1,2,3,4,5" := by
  have hnext : halfHours.getNextRunDate gregorianCron 0 0 = some 0 := by decide +kernel
  exact ⟨hnext, getNextRunDate_matches hnext .weekday⟩

/-- The hours, the months and the years are no lists. -/
def ListsKept (e : CronExpression) : Prop :=
  ∀ field : CronField, field.KeepsLists ∨ ',' ∉ (e.cronRepresentation.part field).toList

theorem passes_iff (hcalendar : calendar.Lawful) {field : CronField} {date : Date} :
    (e.test calendar field).passes date = true ↔
      CronField.MatchesList calendar date field (e.cronRepresentation.part field) :=
  CronField.isSatisfied_iff_matchesList hcalendar

/-- A point that passes the tests is a date that every field matches. -/
theorem passes_of_matchesList (hcalendar : calendar.Lawful) {date : Date}
    (h : ∀ field, CronField.MatchesList calendar date field (e.cronRepresentation.part field)) :
    ∀ test ∈ e.tests calendar, test.passes date = true := by
  intro test htest
  obtain ⟨field, -, rfl⟩ := List.mem_map.1 htest
  exact (passes_iff hcalendar).2 (h field)

theorem ListsKept.tests_leap (hlists : e.ListsKept) (hcalendar : calendar.Lawful) :
    ∀ test ∈ e.tests calendar, test.Leaps calendar.Whole := by
  intro test htest date hwhole hfail
  obtain ⟨field, -, rfl⟩ := List.mem_map.1 htest
  refine ⟨CronField.whole_increment hcalendar field hwhole _, fun d hle hlt => ?_⟩
  by_cases hlist : ',' ∈ (e.cronRepresentation.part field).toList
  · have hkeeps := (hlists field).resolve_right (not_not.2 hlist)
    have hlater : d < field.later calendar date := by
      rw [← CronField.increment_of_list hlist date]
      exact hlt
    exact (CronField.isSatisfied_of_lt_later hcalendar hkeeps hwhole hle hlater _).trans hfail
  · simp only [CronExpression.test, CronField.isSatisfied, if_neg hlist] at hfail hlt ⊢
    by_contra hd
    rw [Bool.not_eq_false] at hd
    exact absurd hlt (not_lt.2 (CronField.increment_le hcalendar hlist hfail hle hd))

/-- The increments go forward, with or without lists. -/
theorem tests_forward (hcalendar : calendar.Lawful) : ∀ test ∈ e.tests calendar, test.Forward := by
  intro test htest date _
  obtain ⟨field, -, rfl⟩ := List.mem_map.1 htest
  exact CronField.lt_increment hcalendar field date _

/-- **The next run is the first match.**  Unless the hours, the months or the years are a
list, every field matches the date that is returned, and not every field matches any date
from the minute of the start up to it. -/
theorem getNextRunDate_first (hcalendar : calendar.Lawful) (hlists : e.ListsKept)
    {date next : Date} {skip : ℤ} (h : e.getNextRunDate calendar date skip = some next) :
    calendar.startOfMinute date ≤ next ∧
      (∀ field, CronField.MatchesList calendar next field (e.cronRepresentation.part field)) ∧
      ∀ d, calendar.startOfMinute date ≤ d → d < next →
        ∃ field, ¬ CronField.MatchesList calendar d field (e.cronRepresentation.part field) := by
  have hseek := seek_of_getNextRunDate h
  refine ⟨Seek.le_of_seek (tests_forward hcalendar) hseek,
    fun field => CronField.matchesList_of_isSatisfied (isSatisfied_of_getNextRunDate h field),
    fun d hle hlt => ?_⟩
  obtain ⟨test, htest, hfail⟩ := Seek.seek_first (hlists.tests_leap hcalendar)
    (hcalendar.whole_startOfMinute date) hseek hle hlt
  obtain ⟨field, -, rfl⟩ := List.mem_map.1 htest
  refine ⟨field, fun hmatch => ?_⟩
  rw [(passes_iff hcalendar).2 hmatch] at hfail
  cases hfail

/-- From the first Saturday of 2001, it is the Monday after. -/
theorem getNextRunDate_first_sample :
    halfHours.getNextRunDate gregorianCron 432000 0 = some 604800 ∧
      ∀ d : Date, startOfMinute 432000 ≤ d → d < 604800 → ∃ field : CronField,
        ¬ CronField.MatchesList gregorianCron d field
          (halfHours.cronRepresentation.part field) := by
  have hlists : halfHours.ListsKept := by
    intro field
    cases field with
    | minute => exact Or.inl trivial
    | day => exact Or.inl trivial
    | weekday => exact Or.inl trivial
    | _ => exact Or.inr (by decide)
  have hnext : halfHours.getNextRunDate gregorianCron 432000 0 = some 604800 := by
    decide +kernel
  exact ⟨hnext, (getNextRunDate_first gregorianCron_lawful hlists hnext).2.2⟩

/-- The midnights of March and May. -/
def marchAndMay : CronExpression := ⟨{ minute := "0", hour := "0", month := "3,5" }, by decide⟩

/-- With a list of months, the next run from 28 February is on 28 March: the month that
does not match is left for the same day of the next one, and 1 March is jumped over. -/
theorem list_jumps_over :
    marchAndMay.getNextRunDate gregorianCron 5011200 0 = some 7430400 ∧
      ∀ field : CronField, field.isSatisfied gregorianCron 5097600
        (marchAndMay.cronRepresentation.part field) = true := by
  constructor
  · decide +kernel
  · intro field
    cases field <;> decide +kernel

end CronExpression

/-! ## The expression of an alarm -/

/-- `dateComponents([.year, .month, .day, .hour, .minute], from:)`, by the same calendar. -/
def CronCalendar.dateComponents (calendar : CronCalendar) (date : Date) : DateComponents where
  year := calendar.component .year date
  month := calendar.component .month date
  day := calendar.component .day date
  hour := calendar.component .hour date
  minute := calendar.component .minute date

namespace EventKitHelper

variable {calendar : CronCalendar}

/-- The digits of a number are a list of one part, which only that number matches. -/
theorem matchesList_number_iff (hcalendar : calendar.Lawful) {field : CronField} {date d : Date} :
    CronField.MatchesList calendar d field (toString (field.number calendar date)) ↔
      field.number calendar d = field.number calendar date := by
  rw [CronField.MatchesList, componentsSeparatedBy_of_notMem (CronField.comma_notMem_toString _)]
  constructor
  · rintro ⟨part, hpart, hmatch⟩
    rw [List.mem_singleton.1 hpart] at hmatch
    exact CronField.number_eq_of_matches hcalendar hmatch
  · intro heq
    refine ⟨_, List.mem_singleton_self _, ?_⟩
    rw [← heq]
    exact .number field

/-- The dates that the expression of an alarm matches. -/
theorem matchesList_toCron_iff (hcalendar : calendar.Lawful) {e : CronExpression} {date d : Date}
    (h : toCron calendar.dateComponents date = some e) :
    (∀ field, CronField.MatchesList calendar d field (e.cronRepresentation.part field)) ↔
      calendar.component .minute d = calendar.component .minute date ∧
        calendar.component .hour d = calendar.component .hour date ∧
        calendar.component .day d = calendar.component .day date := by
  obtain ⟨e', he', hparts⟩ := toCron_eq calendar.dateComponents date
  rw [h] at he'
  cases he'
  rw [hparts]
  constructor
  · intro hmatches
    exact ⟨(matchesList_number_iff hcalendar).1 (hmatches .minute),
      (matchesList_number_iff hcalendar).1 (hmatches .hour),
      (matchesList_number_iff hcalendar).1 (hmatches .day)⟩
  · rintro ⟨hminute, hhour, hday⟩ field
    have hdefault : CronField.MatchesList calendar d field "*" :=
      ⟨"*", by decide, .default field⟩
    cases field with
    | minute => exact (matchesList_number_iff hcalendar).2 hminute
    | hour => exact (matchesList_number_iff hcalendar).2 hhour
    | day => exact (matchesList_number_iff hcalendar).2 hday
    | month => exact hdefault
    | weekday => exact hdefault
    | year => exact hdefault

/-- It has no lists, and no year. -/
theorem listsKept_toCron {e : CronExpression} {date : Date}
    (h : toCron calendar.dateComponents date = some e) :
    e.ListsKept ∧ intOfString e.cronRepresentation.year = none := by
  obtain ⟨e', he', hparts⟩ := toCron_eq calendar.dateComponents date
  rw [h] at he'
  cases he'
  constructor
  · intro field
    rw [hparts]
    cases field with
    | hour => exact Or.inr (CronField.comma_notMem_toString _)
    | month => exact Or.inr (by decide : ',' ∉ "*".toList)
    | year => exact Or.inr (by decide : ',' ∉ "*".toList)
    | _ => exact Or.inl trivial
  · rw [hparts]
    exact (by decide : intOfString "*" = none)

/-- A next run of it is the first date with the minute, the hour and the day of the month
of the alarm. -/
theorem first_of_next_run (hcalendar : calendar.Lawful) {e : CronExpression} {date : Date}
    (h : toCron calendar.dateComponents date = some e) {start next : Date}
    (hnext : e.getNextRunDate calendar start 0 = some next) :
    (calendar.component .minute next = calendar.component .minute date ∧
      calendar.component .hour next = calendar.component .hour date ∧
      calendar.component .day next = calendar.component .day date) ∧
    ∀ d, calendar.startOfMinute start ≤ d →
      calendar.component .minute d = calendar.component .minute date →
      calendar.component .hour d = calendar.component .hour date →
      calendar.component .day d = calendar.component .day date → next ≤ d := by
  have hmatches := fun d => matchesList_toCron_iff hcalendar (d := d) h
  refine ⟨(hmatches next).1 fun field => CronField.matchesList_of_isSatisfied
    (CronExpression.isSatisfied_of_getNextRunDate hnext field), fun d hle hminute hhour hday => ?_⟩
  exact Seek.seek_le ((listsKept_toCron h).1.tests_leap hcalendar)
    (hcalendar.whole_startOfMinute start) (CronExpression.seek_of_getNextRunDate hnext) hle
    (CronExpression.passes_of_matchesList hcalendar ((hmatches d).2 ⟨hminute, hhour, hday⟩))

/-- **The expression of an alarm runs at the alarm.**  It is accepted; from the date of the
alarm its next run is the minute of the alarm; and from any date its next run is the first
date with the minute, the hour and the day of the month of the alarm, so that from no
earlier date the alarm is missed. -/
theorem toCron_next_run (hcalendar : calendar.Lawful) (date : Date) :
    ∃ e, toCron calendar.dateComponents date = some e ∧
      e.getNextRunDate calendar date 0 = some (calendar.startOfMinute date) ∧
      ∀ start next, e.getNextRunDate calendar start 0 = some next →
        (calendar.component .minute next = calendar.component .minute date ∧
          calendar.component .hour next = calendar.component .hour date ∧
          calendar.component .day next = calendar.component .day date) ∧
        ∀ d, calendar.startOfMinute start ≤ d →
          calendar.component .minute d = calendar.component .minute date →
          calendar.component .hour d = calendar.component .hour date →
          calendar.component .day d = calendar.component .day date → next ≤ d := by
  obtain ⟨e, he, -⟩ := toCron_eq calendar.dateComponents date
  refine ⟨e, he, ?_, fun start next hnext => first_of_next_run hcalendar he hnext⟩
  refine CronExpression.getNextRunDate_of_isSatisfied (listsKept_toCron he).2 (fun field => ?_) 0
  refine (CronField.isSatisfied_iff_matchesList hcalendar).2
    ((matchesList_toCron_iff hcalendar he).2 ?_ field)
  exact ⟨hcalendar.component_startOfMinute _ _, hcalendar.component_startOfMinute _ _,
    hcalendar.component_startOfMinute _ _⟩

/-- An alarm at noon on 29 February 2004. -/
theorem toCron_next_run_sample :
    ∃ e, toCron gregorianCron.dateComponents 99748800 = some e ∧
      e.getNextRunDate gregorianCron 99748800 0 = some (startOfMinute 99748800) := by
  obtain ⟨e, he, hnext, -⟩ := toCron_next_run gregorianCron_lawful 99748800
  exact ⟨e, he, hnext⟩

end EventKitHelper

end Alarma
