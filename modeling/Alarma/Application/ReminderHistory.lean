import Alarma.Application.Installation

/-!
# The history of the event store

Where `setReminder` saves a reminder, no other event of the application reaches the event
store than the save button of the alarm screen, so that the event store is the history of
that button: whatever became of the alarms, and in whichever launch.

* `Installation.saved` — the alarm an event saves; `unsaved` — that alarm, if its write
  fails; `unreminded` — the alarm that is stored when the process ends before its reminder
  is set.
* `Valid.reminds` — what a step does to the reminders and to the alarms together.
* `event_store_is_history` — the reminders are those of the alarms saved, in their order.
* `reminders_match_iff` — they are those of the stored alarms, up to what has been deleted,
  was not stored, or was cut off.
-/

namespace Alarma

open Keyed

/-- What an update does to the alarms: it deletes none, and stores one exactly if its write
commits. -/
theorem Store.perm_update {s t : Store} {env : Env} (hu : s.Fresh env.uuidString) {alarm : Alarm}
    {id : String} (hid : id ∈ s.groups.keys)
    (ht : (Call.update alarm id).attempt env s = some t) (calendar : Date → DateComponents) :
    ((t.alarms.rows ++ s.deleted t).map (RealmAlarm.reminder calendar)).Perm
      (s.alarms.rows.map (RealmAlarm.reminder calendar) ++
        if env.commits then [EventKitHelper.createReminder calendar alarm] else []) := by
  have hstep : s.after (GroupRepositoryImp.update env alarm id s) = some t := ht
  cases hcommits : env.commits with
  | false =>
    rcases Store.after_write hstep with ⟨-, rfl⟩ | ⟨hc, -⟩
    · rw [Store.deleted_of_keys fun a ha => Table.key_mem_keys ha, List.append_nil]
      simp
    · rw [hcommits] at hc
      cases hc
  | true =>
    obtain ⟨t', hupdate, hrows⟩ := Store.update_commits hu hcommits hid
    rw [hupdate] at hstep
    obtain rfl : t' = t := Option.some.inj hstep
    have hkept : ∀ a ∈ s.alarms.rows, a.alarmID ∈ t'.alarms.keys := by
      intro a ha
      refine Table.key_mem_keys ?_
      rw [hrows]
      exact List.mem_append_left _ ha
    rw [Store.deleted_of_keys hkept, List.append_nil, hrows, List.map_append, List.map_singleton,
      Alarm.reminder_toRealmEntity, if_pos rfl]

namespace Device

/-- A device becomes another one in a step that sets the reminder of an alarm, or none.  The
reminders of the alarms that are stored after the step or were deleted in it are those of
the alarms stored before and of the alarm saved, unless its write fails, or of an alarm
whose reminder is not set. -/
structure Reminds (calendar : Date → DateComponents) (saved unsaved unreminded : Option Alarm)
    (d t : Device) : Prop where
  eventStore : t.eventStore =
    d.eventStore ++ saved.toList.map (EventKitHelper.createReminder calendar)
  alarms : ((t.store.alarms.rows ++ d.store.deleted t.store).map (RealmAlarm.reminder calendar) ++
    unsaved.toList.map (EventKitHelper.createReminder calendar)).Perm
      (d.reminders calendar ++ (saved.toList.map (EventKitHelper.createReminder calendar) ++
        unreminded.toList.map (EventKitHelper.createReminder calendar)))

variable {calendar : Date → DateComponents}

/-- Nothing happens to the device. -/
theorem reminds_of_eq {d t : Device} (h : t = d) : Reminds calendar none none none d t := by
  subst h
  refine ⟨by simp, ?_⟩
  simpa [reminders] using (Store.perm_deleted_of_eq (s := t.store) rfl).map
    (RealmAlarm.reminder calendar)

/-- An operation that reports no alarm. -/
theorem reminds_of_quiet {setReminder : SetReminder} {d t : Device} {e : Operation × Env}
    (hquiet : e.1.report = none) (ht : (machine setReminder).step d e = some t) :
    Reminds calendar none none none d t := by
  obtain ⟨hevents, hperm⟩ := quiet_step calendar hquiet ht
  exact ⟨by simpa using hevents, by simpa using hperm⟩

/-- The reminders there are and those that are missing are those of the alarms and of
others: a step adds to the missing ones, and to the others. -/
theorem Reminds.balance {saved unsaved unreminded : Option Alarm} {d t : Device}
    (h : Reminds calendar saved unsaved unreminded d t) {missing others : List EKReminder}
    (hd : (d.eventStore ++ missing).Perm (d.reminders calendar ++ others)) :
    (t.eventStore ++ (missing ++ unreminded.toList.map (EventKitHelper.createReminder
      calendar))).Perm (t.reminders calendar ++
        (others ++ ((d.store.deleted t.store).map (RealmAlarm.reminder calendar) ++
          unsaved.toList.map (EventKitHelper.createReminder calendar)))) := by
  have halarms := h.alarms
  rw [List.map_append, List.append_assoc] at halarms
  rw [h.eventStore]
  generalize saved.toList.map (EventKitHelper.createReminder calendar) = new at halarms ⊢
  generalize unreminded.toList.map (EventKitHelper.createReminder calendar) = lost at halarms ⊢
  generalize (d.store.deleted t.store).map (RealmAlarm.reminder calendar) ++
    unsaved.toList.map (EventKitHelper.createReminder calendar) = strays at halarms ⊢
  have hmove : (new ++ (missing ++ lost)).Perm (missing ++ (new ++ lost)) := by
    rw [← List.append_assoc, ← List.append_assoc]
    exact List.perm_append_comm.append_right lost
  calc ((d.eventStore ++ new) ++ (missing ++ lost)).Perm
        ((d.eventStore ++ missing) ++ (new ++ lost)) := by
          rw [List.append_assoc, List.append_assoc]
          exact hmove.append_left _
    List.Perm _ ((d.reminders calendar ++ others) ++ (new ++ lost)) := hd.append_right _
    List.Perm _ ((d.reminders calendar ++ (new ++ lost)) ++ others) := by
      rw [List.append_assoc, List.append_assoc]
      exact List.perm_append_comm.append_left _
    List.Perm _ ((t.reminders calendar ++ strays) ++ others) := halarms.symm.append_right others
    List.Perm _ (t.reminders calendar ++ (others ++ strays)) := by
      rw [List.append_assoc]
      exact List.perm_append_comm.append_left _

end Device

/-! ## The groups tab -/

namespace GroupsTab

variable {calendar : Date → DateComponents}

/-- The alarm that an event saves, if the write fails. -/
def unsaved (t : GroupsTab) (e : Event) : Option Alarm :=
  if e.env.any fun env => env.commits then none else t.saved e

theorem unsaved_of_saved {t : GroupsTab} {e : Event} (h : t.saved e = none) :
    t.unsaved e = none := by
  rw [unsaved, h, ite_self]

/-- An alarm is saved on its screen. -/
theorem Shows.reminds_save {t u : GroupsTab} {g : Group} (h : t.Shows (.alarmCreation g))
    {date : Date} {env : Env}
    (he : (machine (EventKitHelper.saving calendar)).enabled t (.saveAlarmButtonClicked date env))
    (hu : (machine (EventKitHelper.saving calendar)).step t (.saveAlarmButtonClicked date env) =
      some u) :
    Device.Reminds calendar (t.saved (.saveAlarmButtonClicked date env))
      (t.unsaved (.saveAlarmButtonClicked date env)) none t.coordinator.device
      u.coordinator.device := by
  have hscreen : t.screen = some (.alarmCreation g) := h.screen_eq
  obtain ⟨v, hv, -, -, hattempt, hevents⟩ :=
    h.saveAlarmButtonClicked he (EventKitHelper.saving_eq calendar env _ _)
  obtain rfl : v = u := Option.some.inj (hv.step_eq.symm.trans hu)
  have hdraws : Draws t.store env := by simpa [machine, hscreen] using he
  have hperm := Store.perm_update hdraws (h.stored g rfl) hattempt calendar
  rw [unsaved, h.saved_eq]
  refine ⟨hevents, ?_⟩
  show (List.map _ (v.store.alarms.rows ++ t.store.deleted v.store) ++ _).Perm
    (t.store.alarms.rows.map (RealmAlarm.reminder calendar) ++ _)
  cases hcommits : env.commits with
  | false =>
    rw [hcommits] at hperm
    simpa [Event.env, hcommits] using hperm.append_right
      [EventKitHelper.createReminder calendar (AlarmCreationController.alarm g date)]
  | true => simpa [Event.env, hcommits] using hperm

/-- **A step of the tab**: the reminder of the alarm that is saved is set, whether or not
the alarm is stored; nothing else is done to the reminders. -/
theorem Valid.reminds {t u : GroupsTab} {e : Event} (h : t.Valid)
    (he : (machine (EventKitHelper.saving calendar)).enabled t e)
    (hu : (machine (EventKitHelper.saving calendar)).step t e = some u) :
    Device.Reminds calendar (t.saved e) (t.unsaved e) none t.coordinator.device
      u.coordinator.device := by
  by_cases hsave : e.IsSave
  · obtain ⟨place, hplace, -⟩ := h
    cases e with
    | saveAlarmButtonClicked date env =>
      cases place with
      | alarmCreation g => exact hplace.reminds_save he hu
      | _ => simp [machine, hplace.screen_eq, Place.screen] at he
    | _ => exact hsave.elim
  · have hsaved : t.saved e = none := saved_of_not_isSave hsave
    rw [unsaved_of_saved hsaved, hsaved]
    rcases (h.step_of_eq he hu).onDevice with hsame | ⟨op, env, -, -, -, hreport, hop⟩
    · exact Device.reminds_of_eq hsame
    · have hquiet : op.report = none := by
        by_contra hne
        exact hsave (hreport hne)
      exact Device.reminds_of_quiet hquiet hop

end GroupsTab

namespace Installation

variable {calendar : Date → DateComponents}

/-- The alarm that an event saves. -/
def saved (a : Installation) : Event → Option Alarm
  | .groups event => a.tabs.bind fun m => m.groups.saved event
  | _ => none

/-- That alarm, if the write fails. -/
def unsaved (a : Installation) : Event → Option Alarm
  | .groups event => a.tabs.bind fun m => m.groups.unsaved event
  | _ => none

/-- The alarm that is stored when the process ends before its reminder is set. -/
def unreminded (a : Installation) : Event → Option Alarm
  | .cutOff date env =>
    if env.commits then a.tabs.bind fun m => m.groups.saved (.saveAlarmButtonClicked date env)
    else none
  | _ => none

/-- The alarms saved in the course of a life, stored or not. -/
def savedAlarms (a : Installation) (tr : Trace Installation Event) : List Alarm :=
  Machine.collect (fun a e _ => (a.saved e).toList) a tr

/-- The reminders that an event fails to set. -/
def missing (calendar : Date → DateComponents) (a : Installation) (e : Event)
    (_ : Installation) : List EKReminder :=
  (a.unreminded e).toList.map (EventKitHelper.createReminder calendar)

/-- The reminders of the alarms that a step deletes, or saves and does not store. -/
def strays (calendar : Date → DateComponents) (a : Installation) (e : Event) (b : Installation) :
    List EKReminder :=
  (a.device.store.deleted b.device.store).map (RealmAlarm.reminder calendar) ++
    (a.unsaved e).toList.map (EventKitHelper.createReminder calendar)

/-- The end of the process in the save button. -/
theorem Valid.reminds_cutOff {setReminder : SetReminder} {a b : Installation} (ha : a.Valid)
    {date : Date} {env : Env} (he : (machine setReminder).enabled a (.cutOff date env))
    (hb : (machine setReminder).step a (.cutOff date env) = some b) :
    Device.Reminds calendar none none (a.unreminded (.cutOff date env)) a.device b.device := by
  obtain ⟨m, g, store, hm, hscreen, hstored, hdraws, hattempt, hstep⟩ := ha.cutOff_step he
  have hsame := hstep.symm.trans hb
  cases hsame
  have hperm := Store.perm_update hdraws hstored hattempt calendar
  have hunreminded : a.unreminded (.cutOff date env) =
      if env.commits then some (AlarmCreationController.alarm g date) else none := by
    simp [unreminded, hm, GroupsTab.saved, hscreen]
  rw [hunreminded]
  refine ⟨(List.append_nil _).symm, ?_⟩
  show (List.map _ (store.alarms.rows ++ a.device.store.deleted store) ++ _).Perm _
  cases hcommits : env.commits <;> simpa [hcommits, Device.reminders] using hperm

/-- **A step of the installation** does to the device what the groups tab does. -/
theorem Valid.reminds {a b : Installation} (ha : a.Valid) {e : Event}
    (he : (machine (EventKitHelper.saving calendar)).enabled a e)
    (hb : (machine (EventKitHelper.saving calendar)).step a e = some b) :
    Device.Reminds calendar (a.saved e) (a.unsaved e) (a.unreminded e) a.device b.device := by
  obtain ⟨-, hdevice⟩ := ha.step_of_eq he hb
  cases e with
  | groups event =>
    obtain ⟨launch, found, tabs⟩ := a
    obtain ⟨m, rfl, -, henabled⟩ := he
    obtain ⟨groups, hgroups, hb⟩ := Option.bind_eq_some_iff.1 hb
    cases hb
    exact (ha.groups m rfl).reminds henabled hgroups
  | cutOff date env => exact ha.reminds_cutOff he hb
  | _ =>
    cases hdevice with
    | keeps hsame => exact Device.reminds_of_eq hsame

/-! ## Whole lives -/

/-- A first launch, a group, and an alarm whose write fails. -/
theorem sample_saving (calendar : Date → DateComponents) :
    ∃ tr, (machine (EventKitHelper.saving calendar)).Run (onDevice Device.new) tr ∧
      (onDevice Device.new).savedAlarms tr =
        [AlarmCreationController.alarm { groupID := "x", groupName := "Work" } 573118200] ∧
      Machine.EachTransition (fun a e _ => a.unreminded e = none) (onDevice Device.new) tr ∧
      ¬ Machine.EachTransition (fun a e b =>
        a.device.store.deleted b.device.store = [] ∧ a.unsaved e = none)
        (onDevice Device.new) tr := by
  have hr : (machine (EventKitHelper.saving calendar)).Run (onDevice Device.new)
      [(.launch (.start none), _), (.launch (.press .loginButtonTapped), _),
        (.launch (.press .startButtonTapped), _), (.launch (.press .allowButtonPressed), _),
        (.groups (.saveAction (some "Work") ⟨Sample.drawn 0, true⟩), _),
        (.groups .hideButtonClicked, _), (.groups .addAlarmButtonClicked, _),
        (.groups (.saveAlarmButtonClicked 573118200 ⟨Sample.drawn 1, false⟩), _)] :=
    .cons ⟨trivial, rfl⟩ rfl (.cons ⟨⟨_, _, rfl, rfl⟩, rfl⟩ rfl (.cons ⟨⟨_, _, rfl, rfl⟩, rfl⟩ rfl
      (.cons ⟨⟨_, _, rfl, rfl⟩, rfl⟩ rfl (.cons ⟨_, rfl, rfl, Sample.fresh_drawn (by decide)⟩ rfl
        (.cons ⟨_, rfl, rfl, Option.some_ne_none _⟩ rfl (.cons ⟨_, rfl, rfl, trivial⟩ rfl
          (.cons ⟨_, rfl, rfl, Sample.fresh_drawn (by decide)⟩ rfl (.nil _))))))))
  exact ⟨_, hr, rfl, ⟨rfl, rfl, rfl, rfl, rfl, rfl, rfl, rfl, trivial⟩,
    fun h => nomatch h.2.2.2.2.2.2.2.1.2⟩

/-- **The event store is a history.**  Where `setReminder` saves, from a device whose Realm
file coherent calls can leave, over any life: the reminders are those that were there and,
in the order in which they were saved, one for every alarm whose save button came back,
whatever became of its write, of the alarm and of the process. -/
theorem event_store_is_history {device : Device}
    (hs : coherentRepository.Reachable Store.empty device.store) {tr : Trace Installation Event}
    (hr : (machine (EventKitHelper.saving calendar)).Run (onDevice device) tr) :
    (Trace.last (onDevice device) tr).device.eventStore = device.eventStore ++
      ((onDevice device).savedAlarms tr).map (EventKitHelper.createReminder calendar) :=
  hr.collect (I := Valid) (l := [])
    (R := fun b l => b.device.eventStore =
      device.eventStore ++ l.map (EventKitHelper.createReminder calendar))
    (by
      rintro b e c l hb he hc hl
      refine ⟨(hb.step_of_eq he hc).1, ?_⟩
      rw [(hb.reminds he hc).eventStore, hl, List.map_append, List.append_assoc])
    (valid_onDevice (integrity_of_reachable hs)) (List.append_nil _).symm

/-- The alarm that was not stored has its reminder. -/
theorem event_store_is_history_sample :
    ∃ tr, (machine Sample.setReminder).Run (onDevice Device.new) tr ∧
      (Trace.last (onDevice Device.new) tr).device.eventStore =
        [EventKitHelper.createReminder Sample.calendar
          (AlarmCreationController.alarm { groupID := "x", groupName := "Work" } 573118200)] := by
  obtain ⟨tr, hr, hsaved, -⟩ := sample_saving Sample.calendar
  refine ⟨tr, hr, ?_⟩
  rw [event_store_is_history (Machine.Reachable.refl _ _) hr, hsaved]
  rfl

/-- **The reminders and the alarms**, where `setReminder` saves, after a life that began
with a new installation.  The reminders, with those that the ends of the process in the
save button left missing, are those of the stored alarms and of the alarms that an event
deleted, or saved and failed to store.  So where no alarm was left without its reminder,
the reminders match the alarms precisely when no event deleted an alarm, or failed to store
the one it saved. -/
theorem reminders_match_iff {tr : Trace Installation Event}
    (hr : (machine (EventKitHelper.saving calendar)).Run (onDevice Device.new) tr) :
    ((Trace.last (onDevice Device.new) tr).device.eventStore ++
        Machine.collect (missing calendar) (onDevice Device.new) tr).Perm
      ((Trace.last (onDevice Device.new) tr).device.reminders calendar ++
        Machine.collect (strays calendar) (onDevice Device.new) tr) ∧
    (Machine.EachTransition (fun a e _ => a.unreminded e = none) (onDevice Device.new) tr →
      ((Trace.last (onDevice Device.new) tr).device.eventStore.Perm
          ((Trace.last (onDevice Device.new) tr).device.reminders calendar) ↔
        Machine.EachTransition (fun a e b =>
          a.device.store.deleted b.device.store = [] ∧ a.unsaved e = none)
          (onDevice Device.new) tr)) := by
  -- both histories at once: what is missing, and what strays
  have hbalance := hr.collect (I := Valid) (l := [])
    (f := fun a e b => [(missing calendar a e b, strays calendar a e b)])
    (R := fun a l => (a.device.eventStore ++ l.flatMap Prod.fst).Perm
      (a.device.reminders calendar ++ l.flatMap Prod.snd))
    (by
      rintro a e b l ha he hb hl
      refine ⟨(ha.step_of_eq he hb).1, ?_⟩
      simpa [missing, strays] using (ha.reminds he hb).balance hl)
    (valid_onDevice Store.integrity_empty) (List.Perm.refl _)
  simp only [List.nil_append, Machine.flatMap_collect, List.flatMap_singleton] at hbalance
  have hperm : ((Trace.last (onDevice Device.new) tr).device.eventStore ++
      Machine.collect (missing calendar) (onDevice Device.new) tr).Perm
    ((Trace.last (onDevice Device.new) tr).device.reminders calendar ++
      Machine.collect (strays calendar) (onDevice Device.new) tr) := hbalance
  refine ⟨hperm, fun hreminded => ?_⟩
  have hmissing : Machine.collect (missing calendar) (onDevice Device.new) tr = [] := by
    rw [Machine.collect_eq_nil_iff]
    simpa [missing] using hreminded
  have hstrays : Machine.collect (strays calendar) (onDevice Device.new) tr = [] ↔
      Machine.EachTransition (fun a e b =>
        a.device.store.deleted b.device.store = [] ∧ a.unsaved e = none)
        (onDevice Device.new) tr := by
    rw [Machine.collect_eq_nil_iff]
    simp [strays]
  rw [hmissing, List.append_nil] at hperm
  rw [← hstrays]
  constructor
  · intro h
    have hlength := (h.symm.trans hperm).length_eq
    rw [List.length_append] at hlength
    exact List.length_eq_zero_iff.1 (by omega)
  · intro h
    rwa [h, List.append_nil] at hperm

/-- After a write that failed they do not. -/
theorem reminders_match_iff_sample :
    ∃ tr, (machine Sample.setReminder).Run (onDevice Device.new) tr ∧
      ¬ (Trace.last (onDevice Device.new) tr).device.eventStore.Perm
        ((Trace.last (onDevice Device.new) tr).device.reminders Sample.calendar) := by
  obtain ⟨tr, hr, -, hreminded, hfails⟩ := sample_saving Sample.calendar
  exact ⟨tr, hr, fun hperm => hfails (((reminders_match_iff hr).2 hreminded).1 hperm)⟩

end Installation

end Alarma
