import Mathlib

/-!
# Groups and alarms, as values and as Realm objects

The app holds every group and alarm twice: as a Swift value (`Group`, `Alarm`)
that the screens pass around, and as a Realm object (`RealmGroup`,
`RealmAlarm`) that the store keeps.  This file is the data model and the
conversions between the two.

* `toRealmEntity` — encoding.  Both initialisers draw a new `UUID` for the
  primary key: the identity of the value that is encoded is not looked at.
* `RealmAlarm.toModel` — decoding.  It force-unwraps `Weekdays(rawValue:)`, so
  it is partial here; `Alarm.toModel_toRealmEntity` says what a round trip
  keeps.
-/

namespace Alarma

/-- A point on Foundation's time line, in seconds from its reference date. -/
abbrev Date := ℚ

/-- The `UUID().uuidString` values one operation draws, in the order it draws
them. -/
abbrev UUIDs := ℕ → String

/-! ## Weekdays -/

/-- The days an alarm may repeat on. -/
inductive Weekdays where
  | never | monday | tuesday | wednesday | thursday | friday | saturday | sunday
  deriving DecidableEq, Repr

namespace Weekdays

/-- The raw value the store keeps. -/
def rawValue : Weekdays → ℤ
  | never => 0
  | monday => 1
  | tuesday => 2
  | wednesday => 3
  | thursday => 4
  | friday => 5
  | saturday => 6
  | sunday => 7

/-- `Weekdays(rawValue:)`, which fails on any other number. -/
def ofRawValue : ℤ → Option Weekdays
  | 0 => some never
  | 1 => some monday
  | 2 => some tuesday
  | 3 => some wednesday
  | 4 => some thursday
  | 5 => some friday
  | 6 => some saturday
  | 7 => some sunday
  | _ => none

@[simp] theorem ofRawValue_rawValue (d : Weekdays) : ofRawValue d.rawValue = some d := by
  cases d <;> rfl

theorem mapM_ofRawValue_rawValue (ds : List Weekdays) :
    (ds.map rawValue).mapM ofRawValue = some ds := by
  induction ds with
  | nil => rfl
  | cons d ds ih => rw [List.map_cons, List.mapM_cons, ih, ofRawValue_rawValue]; rfl

end Weekdays

/-! ## Alarms -/

/-- An alarm as the screens pass it around. -/
structure Alarm where
  /-- The primary key of the stored alarm; empty for an alarm not stored yet. -/
  alarmID : String := ""
  groupID : String := ""
  groupName : String
  time : Date
  isEnabled : Bool := false
  sound : String := ""
  loopSound : Bool := false
  repeatDays : List Weekdays := []
  deriving DecidableEq, Repr

/-- An alarm as a Realm object. -/
structure RealmAlarm where
  /-- The primary key. -/
  alarmID : String
  /-- The foreign key: the group the alarm belongs to. -/
  groupID : String
  groupName : String
  time : Date
  isEnabled : Bool
  sound : String
  loopSound : Bool
  /-- The raw values of the days it repeats on. -/
  repeatDays : List ℤ
  deriving DecidableEq, Repr

/-- `Alarm.toRealmEntity`, through `RealmAlarm.init`: every field is copied
except `alarmID`, which is the next `UUID`. -/
def Alarm.toRealmEntity (alarm : Alarm) (uuidString : String) : RealmAlarm where
  alarmID := uuidString
  groupID := alarm.groupID
  groupName := alarm.groupName
  time := alarm.time
  isEnabled := alarm.isEnabled
  sound := alarm.sound
  loopSound := alarm.loopSound
  repeatDays := alarm.repeatDays.map Weekdays.rawValue

/-- `RealmAlarm.toModel`; `none` is the trap of `Weekdays(rawValue: $0)!`. -/
def RealmAlarm.toModel (alarm : RealmAlarm) : Option Alarm := do
  let repeatDays ← alarm.repeatDays.mapM Weekdays.ofRawValue
  return {
    alarmID := alarm.alarmID
    groupID := alarm.groupID
    groupName := alarm.groupName
    time := alarm.time
    isEnabled := alarm.isEnabled
    sound := alarm.sound
    loopSound := alarm.loopSound
    repeatDays := repeatDays }

/-- The stored weekdays are raw values of `Weekdays`. -/
def RealmAlarm.Decodable (alarm : RealmAlarm) : Prop :=
  ∃ days : List Weekdays, alarm.repeatDays = days.map Weekdays.rawValue

/-- A decodable alarm decodes, field by field. -/
theorem RealmAlarm.toModel_of_repeatDays {alarm : RealmAlarm} {days : List Weekdays}
    (h : alarm.repeatDays = days.map Weekdays.rawValue) :
    alarm.toModel = some ⟨alarm.alarmID, alarm.groupID, alarm.groupName, alarm.time,
      alarm.isEnabled, alarm.sound, alarm.loopSound, days⟩ := by
  rw [RealmAlarm.toModel, h, Weekdays.mapM_ofRawValue_rawValue]
  rfl

theorem RealmAlarm.Decodable.isSome_toModel {alarm : RealmAlarm} (h : alarm.Decodable) :
    alarm.toModel.isSome := by
  obtain ⟨days, hdays⟩ := h
  rw [RealmAlarm.toModel_of_repeatDays hdays]
  rfl

theorem Alarm.decodable_toRealmEntity (alarm : Alarm) (uuidString : String) :
    (alarm.toRealmEntity uuidString).Decodable :=
  ⟨alarm.repeatDays, rfl⟩

/-- **The round trip of an alarm** keeps every field but the identity. -/
@[simp] theorem Alarm.toModel_toRealmEntity (alarm : Alarm) (uuidString : String) :
    (alarm.toRealmEntity uuidString).toModel = some { alarm with alarmID := uuidString } :=
  RealmAlarm.toModel_of_repeatDays rfl

/-! ## Groups -/

/-- A group as the screens pass it around. -/
structure Group where
  /-- The primary key of the stored group; empty for a group not stored yet. -/
  groupID : String := ""
  groupName : String
  /-- A display text. -/
  interval : String := ""
  isEnabled : Bool := false
  alarmList : List Alarm := []
  deriving DecidableEq, Repr

/-- A group as a Realm object that is not in the store yet: its list holds the
alarm objects themselves. -/
structure RealmGroup where
  /-- The primary key. -/
  groupID : String
  groupName : String
  interval : String
  isEnabled : Bool
  alarmList : List RealmAlarm
  deriving DecidableEq, Repr

/-- `Group.toRealmEntity`, through `RealmGroup.init`: the group draws the first
`UUID`, its alarms the following ones in list order. -/
def Group.toRealmEntity (group : Group) (uuidString : UUIDs) : RealmGroup where
  groupID := uuidString 0
  groupName := group.groupName
  interval := group.interval
  isEnabled := group.isEnabled
  alarmList := group.alarmList.mapIdx fun i alarm => alarm.toRealmEntity (uuidString (i + 1))

/-- What a cell of the group list shows. -/
structure GroupViewModel where
  groupID : String
  groupName : String
  interval : String
  isEnabled : Bool
  deriving DecidableEq, Repr

/-- What a cell of the alarm list shows. -/
structure AlarmViewModel where
  alarmID : String
  groupID : String
  groupName : String
  time : Date
  isEnabled : Bool
  sound : String
  deriving DecidableEq, Repr

/-- The fields of a group its cell shows. -/
def Group.toViewModel (group : Group) : GroupViewModel :=
  ⟨group.groupID, group.groupName, group.interval, group.isEnabled⟩

/-- The fields of an alarm its cell shows. -/
def Alarm.toViewModel (alarm : Alarm) : AlarmViewModel :=
  ⟨alarm.alarmID, alarm.groupID, alarm.groupName, alarm.time, alarm.isEnabled, alarm.sound⟩

end Alarma
