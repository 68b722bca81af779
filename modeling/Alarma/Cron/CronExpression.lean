import Alarma.Services.EventKitHelper

/-!
# Cron expressions

`SwiftCron` reads an expression of six fields, checks each of them, and keeps the
strings.  `EventKitHelper.toCron` makes one from the date of an alarm.

* `CronRepresentation` — the six strings; `ofCronString` reads them from one string.
* `CronField.validate` — what the checkers of the fields accept.
* `CronExpression` — a representation whose fields have been accepted.
* `ofCronString_stringRepresentation` — when an expression can be read back from its
  string.
-/

namespace Alarma

/-! ## Strings -/

/-- `components(separatedBy:)`. -/
def componentsSeparatedBy (separator : Char) (value : String) : List String :=
  (value.toList.splitOn separator).map String.ofList

/-- A string without the separator is one component. -/
theorem componentsSeparatedBy_of_notMem {separator : Char} {value : String}
    (h : separator ∉ value.toList) : componentsSeparatedBy separator value = [value] := by
  rw [componentsSeparatedBy, List.splitOn_eq_singleton h, List.map_singleton,
    String.ofList_toList]

/-- A string with the separator is more than one. -/
theorem one_lt_length_componentsSeparatedBy {separator : Char} {value : String}
    (h : separator ∈ value.toList) : 1 < (componentsSeparatedBy separator value).length := by
  obtain ⟨before, after, hvalue⟩ := List.append_of_mem h
  have hbefore := List.length_pos_of_ne_nil (List.splitOn_ne_nil separator before)
  have hafter := List.length_pos_of_ne_nil (List.splitOn_ne_nil separator after)
  rw [componentsSeparatedBy, hvalue, List.splitOn_append_cons_self, List.length_map,
    List.length_append]
  omega

theorem length_componentsSeparatedBy_pos (separator : Char) (value : String) :
    0 < (componentsSeparatedBy separator value).length := by
  rw [componentsSeparatedBy, List.length_map]
  exact List.length_pos_of_ne_nil (List.splitOn_ne_nil separator _)

/-- The digits of `Int(value)`. -/
def intOfDigits (digits : List Char) : Option ℤ :=
  if digits ≠ [] ∧ digits.all Char.isDigit then some (Nat.ofDigitChars 10 digits 0) else none

/-- `Int(value)`: a sign, if any, and decimal digits, of 64 bits. -/
def intOfString (value : String) : Option ℤ :=
  let int := match value.toList with
    | '-' :: digits => (intOfDigits digits).map Neg.neg
    | '+' :: digits => intOfDigits digits
    | digits => intOfDigits digits
  int.filter fun n => -2 ^ 63 ≤ n ∧ n < 2 ^ 63

theorem intOfDigits_toDigits (n : ℕ) : intOfDigits (Nat.toDigits 10 n) = some (n : ℤ) := by
  have hdigits : (Nat.toDigits 10 n).all Char.isDigit = true := by
    rw [List.all_eq_true]
    exact fun c hc => Nat.isDigit_of_mem_toDigits (by omega) (by omega) hc
  rw [intOfDigits, if_pos ⟨Nat.toDigits_ne_nil, hdigits⟩, Nat.ofDigitChars_ten_toDigits]

/-- An integer is read back from its decimal digits. -/
theorem intOfString_toString {n : ℤ} (hlo : -2 ^ 63 ≤ n) (hhi : n < 2 ^ 63) :
    intOfString (toString n) = some n := by
  have hint : (match (toString n).toList with
      | '-' :: digits => (intOfDigits digits).map Neg.neg
      | '+' :: digits => intOfDigits digits
      | digits => intOfDigits digits) = some n := by
    rw [Int.toString_eq_repr, Int.repr_eq_if]
    by_cases hn : 0 ≤ n
    · rw [if_pos hn, Nat.toList_repr]
      have hread := intOfDigits_toDigits n.toNat
      rw [Int.toNat_of_nonneg hn] at hread
      have hdigit : ∀ c ∈ Nat.toDigits 10 n.toNat, c.isDigit = true :=
        fun c hc => Nat.isDigit_of_mem_toDigits (by omega) (by omega) hc
      split
      case h_1 heq =>
        have hminus := hdigit '-' (heq ▸ List.mem_cons_self)
        cases hminus
      case h_2 heq =>
        have hplus := hdigit '+' (heq ▸ List.mem_cons_self)
        cases hplus
      case h_3 => exact hread
    · rw [if_neg hn, String.toList_append, Nat.toList_repr]
      show (intOfDigits (Nat.toDigits 10 (-n).toNat)).map Neg.neg = some n
      rw [intOfDigits_toDigits, Option.map_some, Int.toNat_of_nonneg (by omega), neg_neg]
  have hbits : decide (-2 ^ 63 ≤ n ∧ n < 2 ^ 63) = true := decide_eq_true ⟨hlo, hhi⟩
  simp only [intOfString, hint, Option.filter_some, hbits, if_true]

/-- A list is no integer. -/
theorem intOfString_of_comma {value : String} (h : ',' ∈ value.toList) :
    intOfString value = none := by
  have hdigits : ∀ digits : List Char, ',' ∈ digits → intOfDigits digits = none := by
    intro digits hmem
    refine if_neg fun hall => ?_
    have hcomma := List.all_eq_true.1 hall.2 ',' hmem
    cases hcomma
  unfold intOfString
  split
  case h_1 digits heq =>
    rw [heq] at h
    rw [hdigits digits ((List.mem_cons.1 h).resolve_left (by decide))]
    rfl
  case h_2 digits heq =>
    rw [heq] at h
    rw [hdigits digits ((List.mem_cons.1 h).resolve_left (by decide))]
    rfl
  case h_3 =>
    rw [hdigits _ h]
    rfl

/-! ## Fields -/

/-- The fields of an expression, in their order. -/
inductive CronField where
  | minute | hour | day | month | weekday | year
  deriving DecidableEq, Repr

namespace CronField

/-- `allFieldsInExpression`. -/
def all : List CronField := [.minute, .hour, .day, .month, .weekday, .year]

theorem mem_all (field : CronField) : field ∈ all := by cases field <;> decide

instance (p : CronField → Prop) [DecidablePred p] : Decidable (∀ field, p field) :=
  decidable_of_iff (∀ field ∈ all, p field) ⟨fun h field => h field field.mem_all,
    fun h field _ => h field⟩

end CronField

namespace StringValidator

/-- `validate(_:regex:)`: the patterns are not anchored, so that one character of a value
is enough. -/
def validate (value : String) (character : Char → Bool) : Bool := value.toList.any character

/-- The identifiers of steps, lists and ranges, the default, and digits. -/
def isNumber (value : String) : Bool :=
  validate value fun c => c.isDigit || ['*', ',', '/', '-'].contains c

/-- And letters in upper case. -/
def isUpperCaseOrNumber (value : String) : Bool :=
  validate value fun c => c.isDigit || c.isUpper || ['*', ',', '/', '-'].contains c

/-- And all letters, and the question mark. -/
def isAlphanumeric (value : String) : Bool :=
  validate value fun c => c.isDigit || c.isAlpha || ['*', ',', '/', '-', '?'].contains c

end StringValidator

/-- `getFieldChecker().validate`. -/
def CronField.validate : CronField → String → Bool
  | minute => StringValidator.isNumber
  | hour => StringValidator.isNumber
  | day => StringValidator.isAlphanumeric
  | month => StringValidator.isUpperCaseOrNumber
  | weekday => StringValidator.isUpperCaseOrNumber
  | year => StringValidator.isNumber

/-! ## Representations -/

/-- The fields as strings. -/
structure CronRepresentation where
  minute : String := "*"
  hour : String := "*"
  day : String := "*"
  month : String := "*"
  /-- The days of the week, from Monday. -/
  weekday : String := "*"
  year : String := "*"
  deriving DecidableEq, Repr

namespace CronRepresentation

/-- `cronParts`, by field. -/
def part (r : CronRepresentation) : CronField → String
  | .minute => r.minute
  | .hour => r.hour
  | .day => r.day
  | .month => r.month
  | .weekday => r.weekday
  | .year => r.year

/-- `cronString`. -/
def cronString (r : CronRepresentation) : String :=
  r.minute ++ " " ++ r.hour ++ " " ++ r.day ++ " " ++ r.month ++ " " ++ r.weekday ++ " " ++ r.year

/-- `init?(cronString:)`. -/
def ofCronString (cronString : String) : Option CronRepresentation :=
  match componentsSeparatedBy ' ' cronString with
  | [minute, hour, day, month, weekday, year] => some ⟨minute, hour, day, month, weekday, year⟩
  | _ => none

/-- The fields are joined with blanks. -/
theorem toList_cronString (r : CronRepresentation) :
    r.cronString.toList = [' '].intercalate [r.minute.toList, r.hour.toList, r.day.toList,
      r.month.toList, r.weekday.toList, r.year.toList] := by
  simp [cronString, List.intercalate, List.intersperse]

/-- What is read from a string is written as that string. -/
theorem cronString_of_ofCronString {cronString : String} {r : CronRepresentation}
    (h : ofCronString cronString = some r) : r.cronString = cronString := by
  simp only [ofCronString] at h
  split at h
  case h_1 minute hour day month weekday year hparts =>
    cases h
    have hsplit : cronString.toList.splitOn ' ' = [minute.toList, hour.toList, day.toList,
        month.toList, weekday.toList, year.toList] := by
      have hmap := congrArg (List.map String.toList) hparts
      simpa [componentsSeparatedBy] using hmap
    apply String.toList_injective
    rw [toList_cronString, ← hsplit, List.intercalate_splitOn]
  case h_2 => cases h

/-- The components of the string are those of the fields. -/
theorem components_cronString (r : CronRepresentation) :
    componentsSeparatedBy ' ' r.cronString = componentsSeparatedBy ' ' r.minute ++
      (componentsSeparatedBy ' ' r.hour ++ (componentsSeparatedBy ' ' r.day ++
        (componentsSeparatedBy ' ' r.month ++ (componentsSeparatedBy ' ' r.weekday ++
          componentsSeparatedBy ' ' r.year)))) := by
  have htoList : r.cronString.toList = r.minute.toList ++ ' ' :: (r.hour.toList ++ ' ' ::
      (r.day.toList ++ ' ' :: (r.month.toList ++ ' ' :: (r.weekday.toList ++ ' ' ::
        r.year.toList)))) := by
    simp [cronString]
  simp only [componentsSeparatedBy, htoList, List.splitOn_append_cons_self, List.map_append]

/-- A representation is read back from its string when no field has a blank, and nothing
is read otherwise. -/
theorem ofCronString_cronString (r : CronRepresentation) :
    ofCronString r.cronString =
      if ∀ field, ' ' ∉ (r.part field).toList then some r else none := by
  split
  case isTrue h =>
    have hparts : componentsSeparatedBy ' ' r.cronString =
        [r.minute, r.hour, r.day, r.month, r.weekday, r.year] := by
      have hone : ∀ field, componentsSeparatedBy ' ' (r.part field) = [r.part field] :=
        fun field => componentsSeparatedBy_of_notMem (h field)
      rw [components_cronString]
      exact congrArg₂ _ (hone .minute) (congrArg₂ _ (hone .hour) (congrArg₂ _ (hone .day)
        (congrArg₂ _ (hone .month) (congrArg₂ _ (hone .weekday) (hone .year)))))
    rw [ofCronString, hparts]
  case isFalse h =>
    obtain ⟨field, hfield⟩ := not_forall.1 h
    have hone := one_lt_length_componentsSeparatedBy (not_not.1 hfield)
    have hminute := length_componentsSeparatedBy_pos ' ' r.minute
    have hhour := length_componentsSeparatedBy_pos ' ' r.hour
    have hday := length_componentsSeparatedBy_pos ' ' r.day
    have hmonth := length_componentsSeparatedBy_pos ' ' r.month
    have hweekday := length_componentsSeparatedBy_pos ' ' r.weekday
    have hyear := length_componentsSeparatedBy_pos ' ' r.year
    have hlength : 6 < (componentsSeparatedBy ' ' r.cronString).length := by
      rw [components_cronString]
      simp only [List.length_append]
      cases field <;> simp only [part] at hone <;> omega
    unfold ofCronString
    split
    case h_1 hparts =>
      rw [hparts] at hlength
      simp at hlength
    case h_2 => rfl

end CronRepresentation

/-! ## Expressions -/

/-- An expression: a representation that the checkers of the fields accept. -/
structure CronExpression where
  cronRepresentation : CronRepresentation
  /-- They have been accepted. -/
  valid : ∀ field : CronField, field.validate (cronRepresentation.part field) = true

namespace CronExpression

/-- `init?(cronRepresentation:)`. -/
def ofRepresentation (r : CronRepresentation) : Option CronExpression :=
  if h : ∀ field : CronField, field.validate (r.part field) = true then some ⟨r, h⟩ else none

/-- `init?(cronString:)`. -/
def ofCronString (cronString : String) : Option CronExpression :=
  (CronRepresentation.ofCronString cronString).bind ofRepresentation

/-- `stringRepresentation`. -/
def stringRepresentation (e : CronExpression) : String := e.cronRepresentation.cronString

/-- An expression is its representation. -/
theorem ofRepresentation_eq_some {r : CronRepresentation} {e : CronExpression} :
    ofRepresentation r = some e ↔ e.cronRepresentation = r := by
  constructor
  · intro h
    unfold ofRepresentation at h
    split at h
    · cases h
      rfl
    · cases h
  · rintro rfl
    exact dif_pos e.valid

/-- **Reading back.**  An expression that was read from a string is written as that
string.  Any expression, also one made from its fields, is read back from its string
when none of its fields has a blank — which the checkers let pass — and otherwise its
string cannot be read at all. -/
theorem ofCronString_stringRepresentation :
    (∀ cronString e, ofCronString cronString = some e → e.stringRepresentation = cronString) ∧
      ∀ e : CronExpression, ofCronString e.stringRepresentation =
        if ∀ field, ' ' ∉ (e.cronRepresentation.part field).toList then some e else none := by
  constructor
  · intro cronString e h
    obtain ⟨r, hr, he⟩ := Option.bind_eq_some_iff.1 h
    rw [stringRepresentation, ofRepresentation_eq_some.1 he]
    exact CronRepresentation.cronString_of_ofCronString hr
  · intro e
    rw [ofCronString, stringRepresentation, CronRepresentation.ofCronString_cronString]
    split
    · exact ofRepresentation_eq_some.2 rfl
    · rfl

example : (ofRepresentation { minute := "1 2" }).isSome := by decide

end CronExpression

/-- `cronFieldRepresentation` of an integer is accepted for every field. -/
theorem CronField.validate_toString (field : CronField) (n : ℤ) :
    field.validate (toString n) = true := by
  have hdigit : ∃ c ∈ (toString n).toList, c.isDigit = true := by
    have hmem : ∀ m : ℕ, ∃ c ∈ m.repr.toList, c.isDigit = true := by
      intro m
      rw [Nat.toList_repr]
      obtain ⟨c, rest, hcons⟩ := List.exists_cons_of_ne_nil (Nat.toDigits_ne_nil (n := m) (b := 10))
      have hc : c ∈ Nat.toDigits 10 m := hcons ▸ List.mem_cons_self
      exact ⟨c, hc, Nat.isDigit_of_mem_toDigits (by omega) (by omega) hc⟩
    rw [Int.toString_eq_repr, Int.repr_eq_if]
    split
    · exact hmem _
    · obtain ⟨c, hc, hdigit⟩ := hmem (-n).toNat
      refine ⟨c, ?_, hdigit⟩
      rw [String.toList_append]
      exact List.mem_append_right _ hc
  obtain ⟨c, hc, hdigit⟩ := hdigit
  cases field <;>
    exact List.any_eq_true.2 ⟨c, hc, by simp [hdigit]⟩

theorem CronField.validate_default (field : CronField) : field.validate "*" = true := by
  cases field <;> decide

namespace EventKitHelper

/-- `toCron`, with the expression that it makes and drops. -/
def toCron (calendar : Date → DateComponents) (date : Date) : Option CronExpression :=
  let dateComponents := calendar date
  CronExpression.ofRepresentation
    { minute := toString dateComponents.minute
      hour := toString dateComponents.hour
      day := toString dateComponents.day }

/-- The expression of every date is accepted. -/
theorem toCron_eq (calendar : Date → DateComponents) (date : Date) :
    ∃ e, toCron calendar date = some e ∧ e.cronRepresentation =
      { minute := toString (calendar date).minute
        hour := toString (calendar date).hour
        day := toString (calendar date).day } := by
  have hvalid : ∀ field : CronField, field.validate (CronRepresentation.part
      { minute := toString (calendar date).minute
        hour := toString (calendar date).hour
        day := toString (calendar date).day } field) = true := by
    intro field
    cases field with
    | minute => exact CronField.validate_toString _ _
    | hour => exact CronField.validate_toString _ _
    | day => exact CronField.validate_toString _ _
    | month => exact CronField.validate_default _
    | weekday => exact CronField.validate_default _
    | year => exact CronField.validate_default _
  exact ⟨⟨_, hvalid⟩, CronExpression.ofRepresentation_eq_some.2 rfl, rfl⟩

end EventKitHelper

end Alarma
