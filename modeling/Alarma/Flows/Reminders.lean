import Alarma.Services.Decoding
import Alarma.Services.EventKitHelper

/-!
# Reminders and stored alarms

The device keeps what the user entered twice: alarms in the Realm file, and
reminders in the event store.  Creating an alarm writes to both, and nothing
else writes to the event store: the app has no code that takes a reminder back.
What a call of `setReminder` does to the event store is a parameter.

* `Device` — both stores; `Device.onAlarmCreated` is the closure that
  `GroupCoordinator.showAlarmCreation` installs.
* `Device.machine` — the operations of the screens, in any order, with any of the
  writes failing.
* `Store.deleted` — the alarms a step deletes; `Device.deletions` collects them
  along a run.
* `reminders_cover_alarms` — where `setReminder` saves a reminder, every stored alarm has
  one of its own, deletions leave the reminders as they are, and as long as every alarm
  that was reported was stored, the reminders are those of the alarms that are stored and
  of those deleted since.
-/

namespace Alarma

open Keyed

/-- The two stores of the device. -/
structure Device where
  store : Store
  eventStore : List EKReminder

namespace Device

/-- A new installation. -/
def new : Device := ⟨Store.empty, []⟩

/-- `try?` on a repository call. -/
def write (env : Env) (call : Call) (d : Device) : Option Device := do
  let store ← d.store.after (call.exec env d.store)
  return { d with store := store }

/-- The call of the repository that `onAlarmCreated` makes, if a group is
selected. -/
def updateCall (selectedGroup : Option Group) (alarm : Alarm) : Option Call :=
  selectedGroup.map fun group => .update alarm group.groupID

/-- `onAlarmCreated`: without a selected group nothing happens; otherwise the
alarm is appended to that group, and whatever came of it a reminder is set. -/
def onAlarmCreated (setReminder : SetReminder) (selectedGroup : Option Group) (alarm : Alarm)
    (env : Env) (d : Device) : Option Device :=
  match updateCall selectedGroup alarm with
  | none => some d
  | some call => do
    let d ← d.write env call
    let eventStore ← setReminder env alarm d.eventStore
    return { d with eventStore := eventStore }

/-- The operations of the screens. -/
inductive Operation where
  /-- A group is added on the list of groups. -/
  | groupAdded (groupName : String)
  /-- The creation screen reports an alarm while a group is selected. -/
  | alarmCreated (selectedGroup : Option Group) (alarm : Alarm)
  /-- An alarm is deleted on the screen of its group. -/
  | alarmDeleted (alarm : Alarm)
  /-- A group is deleted on the list of groups. -/
  | groupDeleted (group : Group)
  | alarmSwitched (alarm : Alarm) (isOn : Bool)
  | groupSwitched (group : Group) (isOn : Bool)
  deriving DecidableEq, Repr

/-- The operations, in any order; each has fresh `UUID`s to draw, and its write
may or may not commit. -/
def machine (setReminder : SetReminder) : Machine Device (Operation × Env) where
  enabled := fun d e => d.store.Fresh e.2.uuidString
  step := fun d e =>
    match e.1 with
    | .groupAdded groupName => d.write e.2 (.saveGroup { groupName := groupName })
    | .alarmCreated selectedGroup alarm => d.onAlarmCreated setReminder selectedGroup alarm e.2
    | .alarmDeleted alarm => d.write e.2 (.removeAlarm alarm)
    | .groupDeleted group => d.write e.2 (.removeGroup group)
    | .alarmSwitched alarm isOn => d.write e.2 (.enableAlarm alarm isOn)
    | .groupSwitched group isOn => d.write e.2 (.enableGroup group isOn)

/-- The alarm an operation reports, and the group it is reported for. -/
def Operation.report : Operation → Option (Group × Alarm)
  | .alarmCreated (some group) alarm => some (group, alarm)
  | _ => none

/-- The condition that an alarm that is reported is stored: its group is stored,
and the write commits. -/
def Stores (d : Device) (e : Operation × Env) : Prop :=
  ∀ group alarm, e.1.report = some (group, alarm) →
    group.groupID ∈ d.store.groups.keys ∧ e.2.commits = true

end Device

/-! ## What a step deletes -/

/-- The alarms that were stored in `s` and are not in `t`. -/
def Store.deleted (s t : Store) : List RealmAlarm :=
  s.alarms.rows.filter fun a => a.alarmID ∉ t.alarms.keys

/-- The alarms deleted in the course of a run. -/
def Device.deletions (d : Device) : Trace Device (Device.Operation × Env) → List RealmAlarm
  | [] => []
  | p :: tr => d.store.deleted p.2.store ++ Device.deletions p.2 tr

/-- A step that keeps every key deletes nothing. -/
theorem Store.deleted_of_keys {s t : Store} (h : ∀ a ∈ s.alarms.rows, a.alarmID ∈ t.alarms.keys) :
    s.deleted t = [] :=
  List.filter_eq_nil_iff.2 fun a ha => by simpa using h a ha

/-- What a selection of the rows keeps and what it deletes are all the rows. -/
theorem Store.perm_deleted {s t : Store} {p : RealmAlarm → Bool}
    (h : t.alarms.rows.Perm (s.alarms.rows.filter p)) :
    (t.alarms.rows ++ s.deleted t).Perm s.alarms.rows := by
  have hgone : s.deleted t = s.alarms.rows.filter fun a => !p a := by
    refine List.filter_congr fun a ha => ?_
    have hiff : a.alarmID ∈ t.alarms.keys ↔ p a = true := by
      constructor
      · intro hkey
        obtain ⟨b, hb, hid⟩ := Table.mem_keys.1 hkey
        obtain ⟨hrow, hpb⟩ := List.mem_filter.1 (h.mem_iff.1 hb)
        rw [← s.alarms.eq_of_key_eq hrow ha hid]
        exact hpb
      · intro hpa
        exact Table.key_mem_keys (h.mem_iff.2 (List.mem_filter.2 ⟨ha, hpa⟩))
    cases hp : p a <;> simp [hiff, hp]
  rw [hgone]
  exact (h.append_right _).trans (List.filter_append_perm p _)

/-- Nothing is deleted while the alarm table stays as it is. -/
theorem Store.perm_deleted_of_eq {s t : Store} (h : t.alarms = s.alarms) :
    (t.alarms.rows ++ s.deleted t).Perm s.alarms.rows := by
  refine Store.perm_deleted (p := fun _ => true) ?_
  rw [h, List.filter_true]

/-- The calls that neither store nor overwrite an alarm. -/
def Call.AddsNoAlarm : Call → Prop
  | saveGroup group => group.alarmList = []
  | update _ _ | saveAlarm _ => False
  | removeGroup _ | enableGroup _ _ | enableAlarm _ _ | removeAlarm _ => True

section Reminders

variable {calendar : Date → DateComponents} {setReminder : SetReminder}

/-- **Nothing is lost**: the reminders of the alarms there were are those of the
alarms that are left and of those the call deleted. -/
theorem Call.Effect.conserves {call : Call} {env : Env} {s t : Store} (h : call.Effect env s t)
    (hcall : call.AddsNoAlarm) :
    ((t.alarms.rows ++ s.deleted t).map (RealmAlarm.reminder calendar)).Perm
      (s.alarms.rows.map (RealmAlarm.reminder calendar)) := by
  cases h with
  | unchanged => exact (Store.perm_deleted_of_eq rfl).map _
  | savedGroup group =>
    have hnil : group.alarmList = [] := hcall
    exact (Store.perm_deleted_of_eq (by simp [Group.toRealmEntity, hnil])).map _
  | removedGroup _ => exact (Store.perm_deleted (s.alarms.removeAll_perm _)).map _
  | updated => exact hcall.elim
  | enabledGroup => exact (Store.perm_deleted_of_eq rfl).map _
  | savedAlarm => exact hcall.elim
  | enabledAlarm alarm isEnabled =>
    have hkeys : ∀ a ∈ s.alarms.rows,
        a.alarmID ∈ (s.setAlarmEnabled alarm.alarmID isEnabled).alarms.keys := by
      intro a ha
      rw [Store.setAlarmEnabled, Table.keys_modify]
      exact Table.key_mem_keys ha
    rw [Store.deleted_of_keys hkeys, List.append_nil, Store.rows_setAlarmEnabled, List.map_map]
    refine List.Perm.of_eq (List.map_congr_left fun a _ => ?_)
    -- the switch is not part of the reminder
    rw [Function.comp_apply]
    split <;> rfl
  | removedAlarm alarm => exact (Store.perm_deleted (s.alarms.removeAll_perm _)).map _

/-- An update that finds its group and commits stores the alarm. -/
theorem Store.update_commits {s : Store} {env : Env} (hu : s.Fresh env.uuidString)
    (hc : env.commits = true) {alarm : Alarm} {id : String} (hid : id ∈ s.groups.keys) :
    ∃ t, GroupRepositoryImp.update env alarm id s = .ok t ∧
      t.alarms.rows = s.alarms.rows ++ [alarm.toRealmEntity (env.uuidString 0)] := by
  obtain ⟨row, hrow, rfl⟩ := Table.mem_keys.1 hid
  have hnew : (alarm.toRealmEntity (env.uuidString 0)).alarmID ∉ s.alarms.keys := hu.notMem_alarms 0
  obtain ⟨t, ht⟩ := Option.isSome_iff_exists.1 (Store.isSome_appendAlarm row.groupID hnew)
  refine ⟨t, ?_, (Store.rows_appendAlarm ht).2.1⟩
  have hblock : s.ifFound (s.groups.find? row.groupID) (fun row =>
      s.appendAlarm row.groupID (alarm.toRealmEntity (env.uuidString 0))) = some t := by
    rw [Table.find?_of_mem hrow]
    exact ht
  rw [GroupRepositoryImp.update, Store.write_eq hblock, if_pos hc]

namespace Device

/-- The reminders the stored alarms ask for. -/
def reminders (calendar : Date → DateComponents) (d : Device) : List EKReminder :=
  d.store.alarms.rows.map (RealmAlarm.reminder calendar)

/-! ## What an operation does -/

/-- A write is a call of the repository, and leaves the reminders. -/
theorem effect_of_write {d t : Device} {env : Env} {call : Call} (h : d.write env call = some t) :
    call.Effect env d.store t.store ∧ t.eventStore = d.eventStore := by
  obtain ⟨store, hstore, ht⟩ := Option.bind_eq_some_iff.1 h
  cases ht
  exact ⟨effect_of_step hstore, rfl⟩

/-- An operation that reports no alarm leaves the reminders, and the alarms up
to those it deletes. -/
theorem quiet_step (calendar : Date → DateComponents) {d t : Device} {e : Operation × Env}
    (hquiet : e.1.report = none) (ht : (machine setReminder).step d e = some t) :
    t.eventStore = d.eventStore ∧
      ((t.store.alarms.rows ++ d.store.deleted t.store).map (RealmAlarm.reminder calendar)).Perm
        (d.reminders calendar) := by
  have hidle : t = d → t.eventStore = d.eventStore ∧
      ((t.store.alarms.rows ++ d.store.deleted t.store).map (RealmAlarm.reminder calendar)).Perm
        (d.reminders calendar) := by
    rintro rfl
    exact ⟨rfl, (Store.perm_deleted_of_eq rfl).map _⟩
  have hwrite : ∀ {call : Call}, d.write e.2 call = some t → call.AddsNoAlarm →
      t.eventStore = d.eventStore ∧
        ((t.store.alarms.rows ++ d.store.deleted t.store).map
          (RealmAlarm.reminder calendar)).Perm (d.reminders calendar) := by
    intro call h hcall
    obtain ⟨heffect, hevents⟩ := effect_of_write h
    exact ⟨hevents, heffect.conserves hcall⟩
  obtain ⟨op, env⟩ := e
  cases op with
  | groupAdded groupName => exact hwrite ht rfl
  | alarmCreated selectedGroup alarm =>
    cases selectedGroup with
    | none => exact hidle (Option.some.inj ht).symm
    | some group => exact absurd hquiet (by simp [Operation.report])
  | alarmDeleted alarm => exact hwrite ht trivial
  | groupDeleted group => exact hwrite ht trivial
  | alarmSwitched alarm isOn => exact hwrite ht trivial
  | groupSwitched group isOn => exact hwrite ht trivial

/-- An operation that reports an alarm updates its group, and calls `setReminder`. -/
theorem report_step {d t : Device} {e : Operation × Env} {group : Group} {alarm : Alarm}
    (hreport : e.1.report = some (group, alarm)) (ht : (machine setReminder).step d e = some t) :
    d.store.after (GroupRepositoryImp.update e.2 alarm group.groupID d.store) = some t.store ∧
      setReminder e.2 alarm d.eventStore = some t.eventStore := by
  obtain ⟨op, env⟩ := e
  cases op with
  | alarmCreated selectedGroup alarm' =>
    cases selectedGroup with
    | none => exact absurd hreport (by simp [Operation.report])
    | some group' =>
      cases hreport
      obtain ⟨d', hwrite, ht⟩ := Option.bind_eq_some_iff.1 ht
      obtain ⟨store, hstore, hd'⟩ := Option.bind_eq_some_iff.1 hwrite
      cases hd'
      obtain ⟨eventStore, hset, ht⟩ := Option.bind_eq_some_iff.1 ht
      cases ht
      exact ⟨hstore, hset⟩
  | _ => exact absurd hreport (by simp [Operation.report])

/-- Where it saves, it sets a reminder. -/
theorem saving_step {d t : Device} {e : Operation × Env} {group : Group} {alarm : Alarm}
    (hreport : e.1.report = some (group, alarm))
    (ht : (machine (EventKitHelper.saving calendar)).step d e = some t) :
    d.store.after (GroupRepositoryImp.update e.2 alarm group.groupID d.store) = some t.store ∧
      t.eventStore = d.eventStore ++ [EventKitHelper.createReminder calendar alarm] := by
  obtain ⟨hstore, hset⟩ := report_step hreport ht
  rw [EventKitHelper.saving_eq] at hset
  exact ⟨hstore, (Option.some.inj hset).symm⟩

/-! ## The reminders cover the alarms -/

/-- Every stored alarm has a reminder of its own. -/
def Covered (calendar : Date → DateComponents) (d : Device) : Prop :=
  (d.reminders calendar).Subperm d.eventStore

theorem Covered.step {d t : Device} {e : Operation × Env} (hd : d.Covered calendar)
    (ht : (machine (EventKitHelper.saving calendar)).step d e = some t) : t.Covered calendar := by
  cases hreport : e.1.report with
  | none =>
    obtain ⟨hevents, hperm⟩ := quiet_step calendar hreport ht
    rw [List.map_append] at hperm
    have hkept : (t.reminders calendar).Subperm (d.reminders calendar) :=
      (List.sublist_append_left _ _).subperm.trans hperm.subperm
    rw [Covered, hevents]
    exact hkept.trans hd
  | some report =>
    obtain ⟨group, alarm⟩ := report
    obtain ⟨hstore, hevents⟩ := saving_step hreport ht
    have heffect : (Call.update alarm group.groupID).Effect e.2 d.store t.store :=
      effect_of_step hstore
    have hrows : t.store.alarms.rows = d.store.alarms.rows ∨ t.store.alarms.rows =
        d.store.alarms.rows ++ [alarm.toRealmEntity (e.2.uuidString 0)] := by
      generalize t.store = s at heffect
      cases heffect with
      | unchanged => exact Or.inl rfl
      | updated _ hupdate => exact Or.inr (Store.rows_appendAlarm hupdate).2.1
    rw [Covered, hevents, reminders]
    rcases hrows with hrows | hrows
    · rw [hrows]
      exact hd.trans (List.sublist_append_left _ _).subperm
    · rw [hrows, List.map_append, List.map_singleton, Alarm.reminder_toRealmEntity]
      exact (List.subperm_append_right _).2 hd

/-- The reminders are those of the stored alarms and of some others. -/
def Balanced (calendar : Date → DateComponents) (gone : List RealmAlarm) (d : Device) : Prop :=
  d.eventStore.Perm ((d.store.alarms.rows ++ gone).map (RealmAlarm.reminder calendar))

/-- A step whose alarm is stored moves what it deletes to the others. -/
theorem Balanced.step {d t : Device} {gone : List RealmAlarm} {e : Operation × Env}
    (hd : d.Balanced calendar gone) (he : (machine (EventKitHelper.saving calendar)).enabled d e)
    (hstores : d.Stores e) (ht : (machine (EventKitHelper.saving calendar)).step d e = some t) :
    t.Balanced calendar (gone ++ d.store.deleted t.store) := by
  unfold Balanced at hd ⊢
  cases hreport : e.1.report with
  | none =>
    obtain ⟨hevents, hperm⟩ := quiet_step calendar hreport ht
    have hmove : (t.store.alarms.rows ++ (gone ++ d.store.deleted t.store)).Perm
        ((t.store.alarms.rows ++ d.store.deleted t.store) ++ gone) := by
      rw [List.append_assoc]
      exact List.perm_append_comm.append_left _
    rw [hevents]
    refine hd.trans (List.Perm.symm ?_)
    calc ((t.store.alarms.rows ++ (gone ++ d.store.deleted t.store)).map
            (RealmAlarm.reminder calendar)).Perm
          (((t.store.alarms.rows ++ d.store.deleted t.store) ++ gone).map
            (RealmAlarm.reminder calendar)) := hmove.map _
      _ = (t.store.alarms.rows ++ d.store.deleted t.store).map (RealmAlarm.reminder calendar) ++
            gone.map (RealmAlarm.reminder calendar) := List.map_append
      List.Perm _ (d.reminders calendar ++ gone.map (RealmAlarm.reminder calendar)) :=
            hperm.append_right _
      _ = (d.store.alarms.rows ++ gone).map (RealmAlarm.reminder calendar) := List.map_append.symm
  | some report =>
    obtain ⟨group, alarm⟩ := report
    obtain ⟨hstore, hevents⟩ := saving_step hreport ht
    obtain ⟨hkey, hcommits⟩ := hstores group alarm hreport
    obtain ⟨store, hupdate, hrows⟩ := Store.update_commits he hcommits hkey
    rw [hupdate] at hstore
    have hsame : store = t.store := Option.some.inj hstore
    rw [hsame] at hrows
    have hkeys : ∀ a ∈ d.store.alarms.rows, a.alarmID ∈ t.store.alarms.keys := by
      intro a ha
      refine Table.key_mem_keys ?_
      rw [hrows]
      exact List.mem_append_left _ ha
    rw [hevents, Store.deleted_of_keys hkeys, List.append_nil, hrows, List.append_assoc,
      List.map_append, List.singleton_append, List.map_cons, Alarm.reminder_toRealmEntity]
    rw [List.map_append] at hd
    refine (hd.append_right _).trans ?_
    rw [List.append_assoc]
    exact (List.perm_append_singleton _ _).append_left _

/-- Along a run whose reported alarms are stored, the others are what the run
deletes. -/
theorem Balanced.run {d : Device} {tr : Trace Device (Operation × Env)} {gone : List RealmAlarm}
    (hr : (machine (EventKitHelper.saving calendar)).Run d tr)
    (hstores : Machine.EachStep Stores d tr) (hd : d.Balanced calendar gone) :
    (Trace.last d tr).Balanced calendar (gone ++ d.deletions tr) := by
  induction hr generalizing gone with
  | nil d =>
    rw [deletions, List.append_nil]
    exact hd
  | @cons d t e tr he ht _ ih =>
    have hnext := ih hstores.2 (hd.step he hstores.1 ht)
    rw [List.append_assoc] at hnext
    exact hnext

/-- **The reminders cover the alarms.**  After any run from a new installation, where
`setReminder` saves: every stored alarm has a reminder of its own, with its title and its
time; an operation that reports no alarm, a deletion for one, leaves the reminders as they
are; and if every alarm that was reported was stored, the reminders are those of the alarms
that are stored and of the alarms deleted since. -/
theorem reminders_cover_alarms {tr : Trace Device (Operation × Env)}
    (hr : (machine (EventKitHelper.saving calendar)).Run new tr) :
    ((Trace.last new tr).reminders calendar).Subperm (Trace.last new tr).eventStore ∧
    (∀ e t, e.1.report = none →
      (machine (EventKitHelper.saving calendar)).step (Trace.last new tr) e = some t →
      t.eventStore = (Trace.last new tr).eventStore) ∧
    (Machine.EachStep Stores new tr →
      (Trace.last new tr).eventStore.Perm
        (((Trace.last new tr).store.alarms.rows ++ new.deletions tr).map
          (RealmAlarm.reminder calendar))) := by
  refine ⟨?_, fun e t hquiet ht => (quiet_step calendar hquiet ht).1, fun hstores => ?_⟩
  · exact hr.invariant (I := Covered calendar) (fun hd _ ht => hd.step ht) List.nil_subperm
  · have hnew : new.Balanced calendar [] := List.Perm.refl _
    exact hnew.run hr hstores

end Device

end Reminders

/-! ## One alarm, created and deleted -/

namespace Sample

/-- The calendar of a device in Greenwich, at the reference date. -/
def calendar : Date → DateComponents := fun _ => ⟨2001, 1, 1, 0, 0⟩

/-- The helper of that device, where reminders are saved. -/
def setReminder : SetReminder := EventKitHelper.saving calendar

/-- The reminder of `alarm`. -/
def reminder : EKReminder := EventKitHelper.createReminder calendar alarm

/-- A group is added, an alarm is created for it, and deleted. -/
def operations : Trace Device (Device.Operation × Env) :=
  [((.groupAdded "Work", ⟨drawn 0, true⟩), ⟨grouped, []⟩),
    ((.alarmCreated (some { groupID := "x", groupName := "Work" }) alarm, ⟨drawn 1, true⟩),
      ⟨filed, [reminder]⟩),
    ((.alarmDeleted { alarm with alarmID := "xx" }, ⟨drawn 2, true⟩), ⟨grouped, [reminder]⟩)]

theorem run_operations : (Device.machine setReminder).Run Device.new operations :=
  .cons (fresh_drawn (by decide)) rfl (.cons (fresh_drawn (by decide)) rfl
    (.cons (fresh_drawn (by decide)) rfl (.nil _)))

end Sample

/-- The reminder outlives its alarm. -/
theorem reminder_outlives_alarm :
    ∃ tr, (Device.machine Sample.setReminder).Run Device.new tr ∧
      (Trace.last Device.new tr).store.alarms.rows = [] ∧
      (Trace.last Device.new tr).eventStore = [Sample.reminder] :=
  ⟨Sample.operations, Sample.run_operations, rfl, rfl⟩

/-- Along the small run every alarm that is reported is stored, so the one
reminder that is left is that of the deleted alarm. -/
theorem reminders_cover_alarms_sample :
    (Trace.last Device.new Sample.operations).eventStore.Perm
      ((Device.new.deletions Sample.operations).map (RealmAlarm.reminder Sample.calendar)) := by
  refine (Device.reminders_cover_alarms Sample.run_operations).2.2 ⟨?_, ?_, ?_, trivial⟩
  · intro group alarm h
    exact absurd h (by simp [Device.Operation.report])
  · intro group alarm h
    cases h
    exact ⟨by decide, rfl⟩
  · intro group alarm h
    exact absurd h (by simp [Device.Operation.report])

end Alarma
