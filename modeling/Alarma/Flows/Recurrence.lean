import Alarma.Services.Calendar
import Alarma.Flows.GroupCoordinator

/-!
# The days a reminder fires on

An alarm has the days it repeats on in `repeatDays`.  `createReminder` never
looks at them: the one rule it makes is daily, for a year.

* `EKReminder.fires` — when EventKit fires a reminder, and `Alarm.asked` — when
  the alarm asks for it.
* `createReminder_fires` — the reminder of an alarm fires on every day of a year.
* `asked_subset_fires` — so no day asked for is missed.
* `fires_eq_asked_iff` — and there are no others exactly when the alarm repeats
  on all seven days.
* `fires_the_day_after` — the alarm of the creation screen, which shows Never,
  is not such an alarm.
-/

namespace Alarma

/-- What EventKit makes of a rule: the components at which a reminder that is
due at the given ones recurs by it. -/
abbrev EventKit := EKRecurrenceRule → DateComponents → Set DateComponents

/-- A daily rule fires every `interval` days, from the due date until its end. -/
def EventKit.Daily (eventKit : EventKit) (calendar : Calendar) : Prop :=
  ∀ (interval : ℕ) (recurrenceEnd : Date) (due : DateComponents), 0 < interval →
    eventKit ⟨.daily, interval, recurrenceEnd⟩ due =
      {components | ∃ n, calendar.adding (interval * n) (calendar.date due) ≤ recurrenceEnd ∧
        components = calendar.dateComponents (calendar.adding (interval * n) (calendar.date due))}

/-- EventKit, for the daily rules. -/
def dailyEventKit (calendar : Calendar) : EventKit := fun rule due =>
  {components | rule.frequency = .daily ∧
    ∃ n, calendar.adding (rule.interval * n) (calendar.date due) ≤ rule.recurrenceEnd ∧ components =
      calendar.dateComponents (calendar.adding (rule.interval * n) (calendar.date due))}

theorem dailyEventKit_daily (calendar : Calendar) : (dailyEventKit calendar).Daily calendar := by
  intro interval recurrenceEnd due _
  simp [dailyEventKit]

/-- When a reminder fires: once, or as its rules say. -/
def EKReminder.fires (reminder : EKReminder) (eventKit : EventKit) : Set DateComponents :=
  if reminder.recurrenceRules = [] then {reminder.dueDateComponents}
  else {components | ∃ rule ∈ reminder.recurrenceRules,
    components ∈ eventKit rule reminder.dueDateComponents}

/-- When an alarm asks to be reminded of: once, or on its days for a year. -/
def Alarm.asked (alarm : Alarm) (calendar : Calendar) : Set DateComponents :=
  if ∀ day ∈ alarm.repeatDays, day = .never then {calendar.dateComponents alarm.time}
  else {components | ∃ k, calendar.weekday (calendar.adding k alarm.time) ∈ alarm.repeatDays ∧
    calendar.adding k alarm.time ≤ yearAfter alarm.time ∧
    components = calendar.dateComponents (calendar.adding k alarm.time)}

namespace EventKitHelper

variable {calendar : Calendar} {eventKit : EventKit} {alarm : Alarm}

/-- The reminder of an alarm fires on every day of a year. -/
theorem createReminder_fires (hcalendar : calendar.Lawful alarm.time)
    (hdaily : eventKit.Daily calendar) :
    (createReminder calendar.dateComponents alarm).fires eventKit =
      {components | ∃ k, calendar.adding k alarm.time ≤ yearAfter alarm.time ∧
        components = calendar.dateComponents (calendar.adding k alarm.time)} := by
  have hend : alarm.time + 365 * 24 * 60 * 60 = yearAfter alarm.time := rfl
  unfold EKReminder.fires createReminder
  rw [if_neg (by simp)]
  -- the days are counted from the due components, and the end cuts them at the same day
  simp only [List.mem_singleton, exists_eq_left, hdaily 1 _ _ one_pos, one_mul, hend,
    hcalendar.adding_due, hcalendar.adding_due_le]
  rfl

/-- In particular on each of the first seven days. -/
theorem mem_fires (hcalendar : calendar.Lawful alarm.time) (hdaily : eventKit.Daily calendar)
    {k : ℕ} (hk : k < 7) :
    calendar.dateComponents (calendar.adding k alarm.time) ∈
      (createReminder calendar.dateComponents alarm).fires eventKit := by
  rw [createReminder_fires hcalendar hdaily]
  exact ⟨k, hcalendar.adding_week_le k hk, rfl⟩

/-- No day that the alarm asks for is missed. -/
theorem asked_subset_fires (hcalendar : calendar.Lawful alarm.time)
    (hdaily : eventKit.Daily calendar) :
    alarm.asked calendar ⊆ (createReminder calendar.dateComponents alarm).fires eventKit := by
  intro components hasked
  unfold Alarm.asked at hasked
  split at hasked
  · cases hasked
    have hzero := mem_fires hcalendar hdaily (k := 0) (by omega)
    rwa [hcalendar.adding_zero] at hzero
  · obtain ⟨k, -, hle, heq⟩ := hasked
    rw [createReminder_fires hcalendar hdaily]
    exact ⟨k, hle, heq⟩

/-- A day of the first week is asked for only if it is a day the alarm repeats on, or the first. -/
theorem weekday_mem_of_asked (hcalendar : calendar.Lawful alarm.time) {k : ℕ} (hk : k < 7)
    (hasked : calendar.dateComponents (calendar.adding k alarm.time) ∈ alarm.asked calendar) :
    calendar.weekday (calendar.adding k alarm.time) ∈ alarm.repeatDays ∨
      (k = 0 ∧ ∀ day ∈ alarm.repeatDays, day = .never) := by
  have hweek := hcalendar.adding_week_le k hk
  unfold Alarm.asked at hasked
  split at hasked
  · rename_i hnever
    have heq : calendar.dateComponents (calendar.adding k alarm.time) =
        calendar.dateComponents (calendar.adding 0 alarm.time) := by
      rw [hcalendar.adding_zero]
      exact hasked
    exact Or.inr ⟨hcalendar.dateComponents_injective k 0 hweek
      (hcalendar.adding_week_le 0 (by omega)) heq, hnever⟩
  · obtain ⟨n, hmem, hle, heq⟩ := hasked
    -- the components tell the days apart, so `n` is the day itself
    obtain rfl := hcalendar.dateComponents_injective k n hweek hle heq
    exact Or.inl hmem

/-- The reminder fires when the alarm asks for it exactly if the alarm repeats on all seven days. -/
theorem fires_eq_asked_iff (hcalendar : calendar.Lawful alarm.time)
    (hdaily : eventKit.Daily calendar) :
    (createReminder calendar.dateComponents alarm).fires eventKit = alarm.asked calendar ↔
      ∀ day, day ≠ .never → day ∈ alarm.repeatDays := by
  constructor
  · intro heq
    have hasked : ∀ k < 7, calendar.weekday (calendar.adding k alarm.time) ∈ alarm.repeatDays ∨
        (k = 0 ∧ ∀ day ∈ alarm.repeatDays, day = .never) := by
      intro k hk
      apply weekday_mem_of_asked hcalendar hk
      rw [← heq]
      exact mem_fires hcalendar hdaily hk
    -- the day after is asked for, so the alarm repeats
    have hrepeats : ¬ ∀ day ∈ alarm.repeatDays, day = .never := by
      intro hnever
      obtain hmem | ⟨hzero, -⟩ := hasked 1 (by omega)
      · exact hcalendar.weekday_ne_never 1 (hnever _ hmem)
      · cases hzero
    intro day hday
    obtain ⟨k, hk, rfl⟩ := hcalendar.exists_weekday day hday
    obtain hmem | ⟨-, hnever⟩ := hasked k hk
    · exact hmem
    · exact absurd hnever hrepeats
  · intro hall
    apply Set.Subset.antisymm _ (asked_subset_fires hcalendar hdaily)
    intro components hfires
    rw [createReminder_fires hcalendar hdaily] at hfires
    obtain ⟨k, hle, heq⟩ := hfires
    have hrepeats : ¬ ∀ day ∈ alarm.repeatDays, day = .never := by
      intro hnever
      have hmonday := hnever .monday (hall .monday (by simp))
      cases hmonday
    unfold Alarm.asked
    rw [if_neg hrepeats]
    exact ⟨k, hall _ (hcalendar.weekday_ne_never k), hle, heq⟩

/-- An alarm for every day. -/
theorem fires_eq_asked_every_day :
    let alarm : Alarm := { groupName := "Work", time := 573118200, repeatDays :=
      [.monday, .tuesday, .wednesday, .thursday, .friday, .saturday, .sunday] }
    (createReminder gregorian.dateComponents alarm).fires (dailyEventKit gregorian) =
      alarm.asked gregorian := by
  intro alarm
  apply (fires_eq_asked_iff (gregorian_lawful alarm.time) (dailyEventKit_daily gregorian)).2
  intro day hday
  cases day <;> simp [alarm] at hday ⊢

/-- The alarm of the creation screen asks for 1 March 2019, 7:30, and its reminder fires again on
the day after. -/
theorem fires_the_day_after :
    let alarm := AlarmCreationController.alarm { groupName := "Work" } 573118200
    alarm.asked gregorian = {⟨2019, 3, 1, 7, 30⟩} ∧
      ⟨2019, 3, 2, 7, 30⟩ ∈
        (createReminder gregorian.dateComponents alarm).fires (dailyEventKit gregorian) := by
  intro alarm
  have hfirst : gregorian.dateComponents alarm.time = ⟨2019, 3, 1, 7, 30⟩ := by decide +kernel
  have hsecond : gregorian.dateComponents (gregorian.adding 1 alarm.time) =
      ⟨2019, 3, 2, 7, 30⟩ := by decide +kernel
  constructor
  · rw [← hfirst]
    simp [Alarm.asked, alarm, AlarmCreationController.alarm]
  · rw [← hsecond]
    exact mem_fires (gregorian_lawful alarm.time) (dailyEventKit_daily gregorian) (by omega)

end EventKitHelper

end Alarma
