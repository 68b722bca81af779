import Alarma.Model.Realm

/-!
# Reminders

`EventKitHelper.setReminder` saves one reminder for an alarm in the event store
of the device, once its lazy `eventStore` is there.  The calendar of the device, which
splits a date into components, is a parameter, and so is what the event store saves.

* `EventKitHelper.createReminder` — the reminder, field by field.
* `EventKitHelper.eventStore` — the lazy property, whose initialiser reads it.
* `setReminder_new` — the helper that the app makes never returns from `setReminder`.
* `SetReminder` — a call as the callers see it, which is what they take as a parameter;
  `EventKitHelper.saving` is the one that saves.
* `EventKitHelper.createReminder_congr` — a reminder depends on the name of the group
  and on the time, and on nothing else of the alarm.
-/

namespace Alarma

/-- The components `[.year, .month, .day, .hour, .minute]` of a date. -/
structure DateComponents where
  year : ℤ
  month : ℤ
  day : ℤ
  hour : ℤ
  minute : ℤ
  deriving DecidableEq, Repr

/-- How often a reminder recurs. -/
inductive EKRecurrenceFrequency where
  | daily | weekly | monthly | yearly
  deriving DecidableEq, Repr

/-- A rule by which a reminder recurs, every `interval` days, weeks, … -/
structure EKRecurrenceRule where
  frequency : EKRecurrenceFrequency
  interval : ℕ
  recurrenceEnd : Date
  deriving DecidableEq, Repr

/-- A reminder of the event store. -/
structure EKReminder where
  title : String
  recurrenceRules : List EKRecurrenceRule
  dueDateComponents : DateComponents
  alarms : List Date
  deriving DecidableEq, Repr

/-- A call of `setReminder` as its callers see it: what it makes of the reminders of the
event store, and `none` if it does not return. -/
abbrev SetReminder := Env → Alarm → List EKReminder → Option (List EKReminder)

/-- Every call returns. -/
def SetReminder.Returns (setReminder : SetReminder) : Prop :=
  ∀ env alarm eventStore, (setReminder env alarm eventStore).isSome

/-- The helper, by the state of its lazy property. -/
structure EventKitHelper where
  /-- Whether the initialiser of `eventStore` has returned. -/
  isInitialised : Bool

namespace EventKitHelper

/-- `EventKitHelper()`. -/
def new : EventKitHelper := ⟨false⟩

/-- A read of `eventStore`, on a call stack with room for `depth` more reads; `none` when
it overflows.  The first read calls the initialiser `setEventStore()`, and the condition
that this begins with reads `eventStore`.  `setEventStore` stands for what follows there,
which mentions an `alarm` that is not in scope. -/
def eventStore (setEventStore : EventKitHelper → Option EventKitHelper) (helper : EventKitHelper) :
    ℕ → Option EventKitHelper
  | 0 => none
  | depth + 1 =>
    if helper.isInitialised then some helper
    else do
      let helper ← helper.eventStore setEventStore depth
      let _ ← setEventStore helper
      return ⟨true⟩

/-- `createReminder`, up to the `save` that ends it. -/
def createReminder (calendar : Date → DateComponents) (alarm : Alarm) : EKReminder :=
  let alarmDate := alarm.time
  let oneYear : Date := 365 * 24 * 60 * 60
  let oneYearFromNow := alarmDate + oneYear
  { title := "[Alarma] " ++ alarm.groupName
    recurrenceRules := [⟨.daily, 1, oneYearFromNow⟩]
    dueDateComponents := calendar alarmDate
    alarms := [alarmDate] }

/-- `setReminder`, by what the event store saves: an error of `save` is printed.  A store
that has been read is not `nil`, so that `requestAccess` is not reached. -/
def setReminder (setEventStore : EventKitHelper → Option EventKitHelper) (depth : ℕ)
    (calendar : Date → DateComponents) (saves : Env → EKReminder → Bool)
    (helper : EventKitHelper) : SetReminder := fun env alarm eventStore => do
  let _ ← helper.eventStore setEventStore depth
  let reminder := createReminder calendar alarm
  return if saves env reminder then eventStore ++ [reminder] else eventStore

/-- The initialiser waits for itself. -/
theorem eventStore_new (setEventStore : EventKitHelper → Option EventKitHelper) (depth : ℕ) :
    new.eventStore setEventStore depth = none := by
  induction depth with
  | zero => rfl
  | succ depth ih =>
    have hread : new.eventStore setEventStore (depth + 1) =
        (new.eventStore setEventStore depth).bind fun helper =>
          (setEventStore helper).bind fun _ => some ⟨true⟩ := rfl
    rw [hread, ih, Option.bind_none]

/-- **No call of the app returns**: its helper is new, however deep the stack, whatever
the calendar, and whatever the event store would save. -/
theorem setReminder_new (setEventStore : EventKitHelper → Option EventKitHelper) (depth : ℕ)
    (calendar : Date → DateComponents) (saves : Env → EKReminder → Bool) (env : Env)
    (alarm : Alarm) (eventStore : List EKReminder) :
    new.setReminder setEventStore depth calendar saves env alarm eventStore = none := by
  rw [setReminder, eventStore_new]
  rfl

/-- `setReminder`, where the event store is there and saves. -/
def saving (calendar : Date → DateComponents) : SetReminder :=
  setReminder some 1 calendar (fun _ _ => true) ⟨true⟩

/-- It saves one reminder. -/
theorem saving_eq (calendar : Date → DateComponents) (env : Env) (alarm : Alarm)
    (eventStore : List EKReminder) :
    saving calendar env alarm eventStore = some (eventStore ++ [createReminder calendar alarm]) :=
  rfl

theorem saving_returns (calendar : Date → DateComponents) : (saving calendar).Returns :=
  fun _ _ _ => rfl

theorem createReminder_congr (calendar : Date → DateComponents) {alarm alarm' : Alarm}
    (hname : alarm.groupName = alarm'.groupName) (htime : alarm.time = alarm'.time) :
    createReminder calendar alarm = createReminder calendar alarm' := by
  unfold createReminder
  rw [hname, htime]

end EventKitHelper

/-- The reminder of a stored alarm. -/
def RealmAlarm.reminder (calendar : Date → DateComponents) (alarm : RealmAlarm) : EKReminder :=
  EventKitHelper.createReminder calendar { groupName := alarm.groupName, time := alarm.time }

/-- Storing an alarm does not change its reminder. -/
theorem Alarm.reminder_toRealmEntity (calendar : Date → DateComponents) (alarm : Alarm)
    (uuidString : String) :
    (alarm.toRealmEntity uuidString).reminder calendar =
      EventKitHelper.createReminder calendar alarm :=
  EventKitHelper.createReminder_congr calendar rfl rfl

end Alarma
