import Alarma.Flows.GroupsTabEvents

/-!
# Runs of the groups tab

What holds however the user goes through the tab, from a launch on a Realm file
that an earlier launch has left, with any of the writes failing, and whatever
`setReminder` does.

* `tab_never_traps` — a button or a row traps only where it waits for `setReminder`, and
  the file can be launched on again.
* `screens_agree` — every screen is about the selected group, which is stored, and
  every row about a stored object.
* `tab_refines_catalogue` — the four screens do to the stores what operations of the
  device do, coherent calls of the repositories, changes of a catalogue.
* `saved_alarm_is_listed` — a saved alarm is at the end of the screen that appears,
  precisely when its write commits.
* `tables_mirror_iff_no_tap` — as long as the writes commit, every table on the stack
  mirrors the file precisely when no switch is tapped.
-/

namespace Alarma

open Keyed

namespace GroupsTab

variable {setReminder : SetReminder}

/-! ## Launches -/

/-- A launch reads the list of groups. -/
theorem start_spec {device : Device} (hs : device.store.Integrity) :
    ∃ t, start device = some t ∧ t.Shows .groupsList ∧ t.coordinator = .started device ∧
      groupsListController.InStep (t.groupsList.on t.store) ∧
      groupsListController.fetch t.store = some t.groupsList.items := by
  obtain ⟨s, happear, hbackend, hlisted, hread⟩ := groupsListController_tracks.appear
    (s := TableCopy.on {} device.store) hs (fun h => nomatch h)
  have hbackend' : s.backend = device.store := hbackend
  have hon : s.copy.on device.store = s := by rw [← hbackend', s.copy_on]
  have hstart : start device = some ⟨.started device, s.copy, []⟩ := by
    have hlist : start device = onList groupsListController.appear ⟨.started device, {}, []⟩ := rfl
    rw [hlist, onList]
    show (groupsListController.appear (TableCopy.on {} device.store)).bind _ = _
    rw [happear]
    simp only [Option.bind_some, hbackend']
    rfl
  refine ⟨_, hstart, ⟨GroupCoordinator.valid_started device, rfl, rfl, by simp [Place.group],
    by simp [Place.group], hs, ?_, rfl, by simp [Place.group]⟩, rfl, ?_⟩
  · show ListController.Listed _ _ (s.copy.on device.store)
    rwa [hon]
  · show groupsListController.InStep (s.copy.on device.store) ∧
      groupsListController.fetch device.store = some s.items
    rw [hon]
    rcases hread with ⟨hin, hfetch⟩ | ⟨-, hloaded, -⟩
    · rw [hbackend'] at hfetch
      exact ⟨hin, hfetch⟩
    · cases hloaded

/-- What a launch has led to. -/
theorem shows_of_start {device : Device} (hs : device.store.Integrity) {t : GroupsTab}
    (ht : start device = some t) : t.Shows .groupsList ∧ t.coordinator = .started device ∧
      groupsListController.InStep (t.groupsList.on t.store) ∧
      groupsListController.fetch t.store = some t.groupsList.items := by
  obtain ⟨t', hstart, hspec⟩ := start_spec hs
  rw [ht] at hstart
  cases hstart
  exact hspec

theorem Shows.valid_of_start {t : GroupsTab} (h : t.Shows .groupsList) : t.Valid :=
  ⟨.groupsList, h, fun _ d hd => by rw [h.no_detail] at hd; exact absurd hd List.not_mem_nil⟩

theorem Valid.run {t : GroupsTab} (h : t.Valid) {tr : Trace GroupsTab Event}
    (hr : (machine setReminder).Run t tr) : (Trace.last t tr).Valid :=
  hr.invariant (fun hv he hu => (hv.step_of_eq he hu).valid) h

/-- A group is created, its alarm screen is opened, and an alarm is saved. -/
theorem sample_run :
    ∃ t tr u, start Device.new = some t ∧ (machine Sample.setReminder).Run t tr ∧
      tr.map Prod.fst = [.saveAction (some "Work") ⟨Sample.drawn 0, true⟩, .hideButtonClicked,
        .addAlarmButtonClicked] ∧
      (machine Sample.setReminder).enabled (Trace.last t tr)
        (.saveAlarmButtonClicked 0 ⟨Sample.drawn 1, true⟩) ∧
      (machine Sample.setReminder).step (Trace.last t tr)
        (.saveAlarmButtonClicked 0 ⟨Sample.drawn 1, true⟩) = some u := by
  refine ⟨_, [(.saveAction (some "Work") ⟨Sample.drawn 0, true⟩, _), (.hideButtonClicked, _),
    (.addAlarmButtonClicked, _)], _, rfl, .cons ?_ rfl (.cons ?_ rfl (.cons ?_ rfl (.nil _))), rfl,
    ?_, rfl⟩
  · exact Sample.fresh_drawn (by decide)
  · exact Option.some_ne_none _
  · trivial
  · exact Sample.fresh_drawn (by decide)

/-! ## The device and the Realm file -/

/-- The device as the tab uses it. -/
def device (setReminder : SetReminder) : Machine Device (Device.Operation × Env) :=
  (Device.machine setReminder).restrict fun d e => e.1.Filed d

/-- A filed alarm whose write commits is stored. -/
theorem stores_of_filed {d : Device} {op : Device.Operation} {env : Env} (hfiled : op.Filed d)
    (hcommits : op.report ≠ none → env.commits = true) : d.Stores (op, env) := by
  intro group alarm hreport
  simp only at hreport
  refine ⟨?_, hcommits (by simp [hreport])⟩
  cases op with
  | alarmCreated selectedGroup reported =>
    cases selectedGroup with
    | none => cases hreport
    | some selected =>
      cases hreport
      exact hfiled.2
  | _ => cases hreport

/-- The tab runs on the device; where the save button's writes commit, every alarm
that is reported is stored. -/
theorem Valid.run_on_device {t : GroupsTab} (h : t.Valid) {tr : Trace GroupsTab Event}
    (hr : (machine setReminder).Run t tr) :
    ∃ tr', (device setReminder).Run t.coordinator.device tr' ∧
      (Trace.last t tr).coordinator.device = Trace.last t.coordinator.device tr' ∧
      ((∀ p ∈ tr, p.1.IsSave → ∀ env, p.1.env = some env → env.commits = true) →
        Machine.EachStep Device.Stores t.coordinator.device tr') := by
  obtain ⟨tr', hr', ⟨-, hlast⟩, hstores⟩ := hr.simulate_eachStep (N := device setReminder)
    (R := fun t d => t.Valid ∧ t.coordinator.device = d)
    (C := fun e => e.IsSave → ∀ env, e.env = some env → env.commits = true) (D := Device.Stores)
    (by
      rintro t e u d ⟨ht, rfl⟩ he hu
      have hstep := ht.step_of_eq he hu
      rcases hstep.onDevice with hsame | ⟨op, env, henv, hdraws, hfiled, hsave, hop⟩
      · exact Or.inl ⟨hstep.valid, hsame⟩
      · refine Or.inr ⟨(op, env), _, ⟨hdraws, hfiled⟩, hop, ⟨hstep.valid, rfl⟩, fun hcommits => ?_⟩
        exact stores_of_filed hfiled fun hreport => hcommits (hsave hreport) env henv)
    ⟨h, rfl⟩
  exact ⟨tr', hr', hlast, hstores⟩

/-- An operation on filed alarms is a coherent call, or does not reach the Realm
file. -/
theorem coherent_of_device {d d' : Device} {e : Device.Operation × Env}
    (he : (device setReminder).enabled d e) (hd' : (device setReminder).step d e = some d') :
    d'.store = d.store ∨ ∃ call : Call, coherentRepository.enabled d.store (call, e.2) ∧
      coherentRepository.step d.store (call, e.2) = some d'.store := by
  obtain ⟨op, env⟩ := e
  obtain ⟨hdraws, hfiled⟩ := he
  have hwrite : ∀ {call : Call}, d.write env call = some d' → call.Coherent →
      d'.store = d.store ∨ ∃ call : Call, coherentRepository.enabled d.store (call, env) ∧
        coherentRepository.step d.store (call, env) = some d'.store := by
    intro call h hcall
    obtain ⟨s, hs, h⟩ := Option.bind_eq_some_iff.1 h
    cases h
    exact Or.inr ⟨call, ⟨hdraws, hcall⟩, hs⟩
  cases op with
  | groupAdded groupName => exact hwrite hd' rfl
  | alarmCreated selectedGroup alarm =>
    cases selectedGroup with
    | none =>
      cases hd'
      exact Or.inl rfl
    | some group =>
      obtain ⟨d'', hd'', h⟩ := Option.bind_eq_some_iff.1 hd'
      obtain ⟨s, hs, h'⟩ := Option.bind_eq_some_iff.1 hd''
      cases h'
      obtain ⟨eventStore, -, h⟩ := Option.bind_eq_some_iff.1 h
      cases h
      exact Or.inr ⟨.update alarm group.groupID, ⟨hdraws, hfiled.1⟩, hs⟩
  | alarmDeleted alarm => exact hwrite hd' trivial
  | groupDeleted group => exact hwrite hd' trivial
  | alarmSwitched alarm isOn => exact hwrite hd' trivial
  | groupSwitched group isOn => exact hwrite hd' trivial

/-- So a run of the device is a run of the repositories. -/
theorem device_run_coherent {d : Device} {tr : Trace Device (Device.Operation × Env)}
    (hr : (device setReminder).Run d tr) :
    ∃ tr', coherentRepository.Run d.store tr' ∧
      (Trace.last d tr).store = Trace.last d.store tr' :=
  hr.simulate (R := fun d s => d.store = s)
    (by
      rintro d e d' s rfl he hd'
      rcases coherent_of_device he hd' with hsame | ⟨call, hcall, hstep⟩
      · exact Or.inl hsame
      · exact Or.inr ⟨(call, e.2), d'.store, hcall, hstep, rfl⟩)
    rfl

theorem Valid.run_coherent {t : GroupsTab} (h : t.Valid) {tr : Trace GroupsTab Event}
    (hr : (machine setReminder).Run t tr) :
    ∃ tr', coherentRepository.Run t.store tr' ∧
      (Trace.last t tr).store = Trace.last t.store tr' := by
  obtain ⟨devices, hdevices, hlast, -⟩ := h.run_on_device hr
  obtain ⟨tr', hr', hstore⟩ := device_run_coherent hdevices
  exact ⟨tr', hr', (congrArg Device.store hlast).trans hstore⟩

/-- **The tab never traps** of itself.  From a launch on any Realm file that coherent
calls can leave, over any run of the tab with any of its writes failing: a button or a row
traps exactly if it is the save button and its call of `setReminder` does not return, and
the file is again one that coherent calls can leave, so that the next launch is as good as
this one. -/
theorem tab_never_traps {device : Device}
    (hs : coherentRepository.Reachable Store.empty device.store) :
    ∃ t, start device = some t ∧ ∀ tr, (machine setReminder).Run t tr →
      coherentRepository.Reachable Store.empty (Trace.last t tr).store ∧
        ∀ e, (machine setReminder).enabled (Trace.last t tr) e →
          (((machine setReminder).step (Trace.last t tr) e).isSome ↔
            (Trace.last t tr).Returns setReminder e) := by
  obtain ⟨t, hstart, hshows, hcoordinator, -⟩ := start_spec (integrity_of_reachable hs)
  refine ⟨t, hstart, fun tr hr => ⟨?_, fun e he => ?_⟩⟩
  · obtain ⟨calls, hcalls, hlast⟩ := hshows.valid_of_start.run_coherent hr
    have hstore : t.store = device.store := by
      rw [GroupsTab.store, hcoordinator]
      rfl
    rw [hstore] at hcalls hlast
    rw [hlast]
    exact hs.run hcalls
  · exact (hshows.valid_of_start.run hr).step_isSome_iff he

/-- A first launch, where reminders are saved. -/
theorem tab_never_traps_new :
    ∃ t, start Device.new = some t ∧ ∀ tr, (machine Sample.setReminder).Run t tr →
      coherentRepository.Reachable Store.empty (Trace.last t tr).store ∧
        ∀ e, (machine Sample.setReminder).enabled (Trace.last t tr) e →
          ((machine Sample.setReminder).step (Trace.last t tr) e).isSome := by
  obtain ⟨t, hstart, hruns⟩ := tab_never_traps (Machine.Reachable.refl _ Device.new.store)
  refine ⟨t, hstart, fun tr hr => ?_⟩
  obtain ⟨hreachable, hsteps⟩ := hruns tr hr
  exact ⟨hreachable, fun e he => (hsteps e he).2 fun alarm _ env _ =>
    EventKitHelper.saving_returns Sample.calendar env alarm _⟩

/-- **The screens agree.**  After any run from a launch: every screen of the stack
that was made for a group was made for the selected group, and that group is stored;
the list of groups has a row for every group of its copy, all of them stored and each
once; and so have the detail screens whose views are loaded, with the stored alarms of
their group. -/
theorem screens_agree {device : Device}
    (hs : coherentRepository.Reachable Store.empty device.store) {t : GroupsTab}
    (ht : start device = some t) {tr : Trace GroupsTab Event}
    (hr : (machine setReminder).Run t tr) :
    (∀ screen ∈ (Trace.last t tr).coordinator.viewControllers, ∀ g, screen.group = some g →
      (Trace.last t tr).coordinator.selectedGroup = some g ∧
        g.groupID ∈ (Trace.last t tr).store.groups.keys) ∧
    ListController.Listed Group.groupID (fun s : Store => s.groups.keys)
      ((Trace.last t tr).groupsList.on (Trace.last t tr).store) ∧
    ∀ g, .groupDetail g ∈ (Trace.last t tr).coordinator.viewControllers →
      ∀ d ∈ (Trace.last t tr).groupDetails, d.isViewLoaded = true →
        ListController.Listed Alarm.alarmID
          (fun s : Store => (s.alarmsOf g.groupID).map RealmAlarm.alarmID)
          (d.on (Trace.last t tr).store) := by
  obtain ⟨hshows, -⟩ := shows_of_start (integrity_of_reachable hs) ht
  obtain ⟨place, hplace, -⟩ := hshows.valid_of_start.run hr
  refine ⟨fun screen hscreen g hg => ?_, hplace.groupsList, fun g hg => ?_⟩
  · have hplace' := hplace.group_of_mem hscreen hg
    exact ⟨hplace.selected g hplace', hplace.stored g hplace'⟩
  · exact hplace.groupDetails g (hplace.group_of_mem hg rfl)

/-- They do on the alarm screen of a group that was just created. -/
theorem screens_agree_sample :
    ∃ t tr, start Device.new = some t ∧ (machine Sample.setReminder).Run t tr ∧ tr.length = 3 ∧
      ∀ screen ∈ (Trace.last t tr).coordinator.viewControllers, ∀ g, screen.group = some g →
        (Trace.last t tr).coordinator.selectedGroup = some g ∧
          g.groupID ∈ (Trace.last t tr).store.groups.keys := by
  obtain ⟨t, tr, -, hstart, hr, hevents, -⟩ := sample_run
  have hlength : tr.length = 3 := by simpa using congrArg List.length hevents
  exact ⟨t, tr, hstart, hr, hlength, (screens_agree (Machine.Reachable.refl _ _) hstart hr).1⟩

/-- What an update leaves under a group: the new alarm at the end of its own, if the
write commits. -/
theorem fetchAllAlarms_update {s t : Store} (hs : s.Integrity) {env : Env} (hu : Draws s env)
    {alarm : Alarm} {group : Group} (hid : alarm.groupID = group.groupID)
    (hstored : group.groupID ∈ s.groups.keys)
    (ht : (Call.update alarm group.groupID).attempt env s = some t) (g : Group) :
    ∃ before, AlarmRepositoryImp.fetchAllAlarms s g = some before ∧
      AlarmRepositoryImp.fetchAllAlarms t g = some (before ++
        if env.commits = true ∧ group.groupID = g.groupID then
          [{ alarm with alarmID := env.uuidString 0 }]
        else []) := by
  have hdec := hs.decodable
  have hdec' : t.Decodable := hdec.attempt ht
  refine ⟨_, hdec.fetchAllAlarms_eq g, ?_⟩
  rw [hdec'.fetchAllAlarms_eq g]
  have hafter : s.after (GroupRepositoryImp.update env alarm group.groupID s) = some t := ht
  rcases Store.after_write hafter with ⟨hc, rfl⟩ | ⟨hc, hblock⟩
  · simp [hc]
  · obtain ⟨row, hrow, hkey⟩ := Table.mem_keys.1 hstored
    have hfind : s.groups.find? group.groupID = some row := hkey ▸ Table.find?_of_mem hrow
    rw [hfind] at hblock
    rw [Store.alarmsOf_appendAlarm hblock, List.filterMap_append]
    have hforeign : (alarm.toRealmEntity (env.uuidString 0)).groupID = group.groupID := hid
    rw [hforeign]
    by_cases hg : group.groupID = g.groupID <;> simp [hc, hg]

/-- **A saved alarm is listed.**  Whenever the save button of the alarm screen is tapped
and comes back, in any run from a launch: the detail screen of the group the alarm was
created for appears and lists the alarms it had and, precisely when the write commits, the
new one at the end; the other groups keep their alarms; and `setReminder` was called for
the alarm, whether or not the write commits. -/
theorem saved_alarm_is_listed {d : Device}
    (hs : coherentRepository.Reachable Store.empty d.store) {t : GroupsTab}
    (ht : start d = some t) {tr : Trace GroupsTab Event} (hr : (machine setReminder).Run t tr)
    {date : Date} {env : Env} {u : GroupsTab}
    (he : (machine setReminder).enabled (Trace.last t tr) (.saveAlarmButtonClicked date env))
    (hu : (machine setReminder).step (Trace.last t tr) (.saveAlarmButtonClicked date env) =
      some u) :
    ∃ g before, (Trace.last t tr).screen = some (.alarmCreation g) ∧
      u.screen = some (.groupDetail g) ∧
      AlarmRepositoryImp.fetchAllAlarms (Trace.last t tr).store g = some before ∧
      u.groupDetails.map TableCopy.items =
        [before ++ if env.commits then
          [{ AlarmCreationController.alarm g date with alarmID := env.uuidString 0 }] else []] ∧
      (∀ g' : Group, g'.groupID ≠ g.groupID → AlarmRepositoryImp.fetchAllAlarms u.store g' =
        AlarmRepositoryImp.fetchAllAlarms (Trace.last t tr).store g') ∧
      setReminder env (AlarmCreationController.alarm g date)
        (Trace.last t tr).coordinator.device.eventStore =
          some u.coordinator.device.eventStore := by
  obtain ⟨hshows, -⟩ := shows_of_start (integrity_of_reachable hs) ht
  obtain ⟨place, hplace, hloaded⟩ := hshows.valid_of_start.run hr
  generalize Trace.last t tr = s at he hu hplace hloaded ⊢
  have hscreen := hplace.screen_eq
  cases place with
  | groupsList => simp [machine, hscreen, Place.screen] at he
  | groupDetail g => simp [machine, hscreen, Place.screen] at he
  | groupCreate g => simp [machine, hscreen, Place.screen] at he
  | alarmCreation g =>
    have hdraws : Draws s.store env := by simpa [machine, hscreen, Place.screen] using he
    have hvalid : s.Valid := ⟨_, hplace, hloaded⟩
    obtain ⟨eventStore, hset⟩ := Option.isSome_iff_exists.1
      (hvalid.returns_of_step hu _ (hplace.saved_eq date env) env rfl)
    obtain ⟨v, hv, hshows', ⟨detail, hdetail, -, hread⟩, hattempt, hevents⟩ :=
      hplace.saveAlarmButtonClicked he hset
    have hsame : v = u := Option.some.inj (hv.step_eq.symm.trans hu)
    subst hsame
    have hfetch := fetchAllAlarms_update hplace.integrity hdraws rfl (hplace.stored g rfl) hattempt
    obtain ⟨before, hbefore, hafter⟩ := hfetch g
    have hread' : AlarmRepositoryImp.fetchAllAlarms v.store g = some detail.items := hread
    refine ⟨g, before, hscreen, hshows'.screen_eq, hbefore, ?_, fun g' hne => ?_,
      hevents ▸ hset⟩
    · have hitems := Option.some.inj (hread'.symm.trans hafter)
      simp only [and_true] at hitems
      rw [hdetail, List.map_singleton, hitems]
    · obtain ⟨others, hothers, hothers'⟩ := hfetch g'
      rw [hothers', hothers, if_neg fun h => hne h.2.symm, List.append_nil]

/-- The alarm of the small run is the only one of its group. -/
theorem saved_alarm_is_listed_sample :
    ∃ t tr u, start Device.new = some t ∧ (machine Sample.setReminder).Run t tr ∧
      (machine Sample.setReminder).step (Trace.last t tr)
        (.saveAlarmButtonClicked 0 ⟨Sample.drawn 1, true⟩) = some u ∧
      ∃ g before, u.screen = some (.groupDetail g) ∧ u.groupDetails.map TableCopy.items =
        [before ++ [{ AlarmCreationController.alarm g 0 with alarmID := "xx" }]] := by
  obtain ⟨t, tr, u, hstart, hr, -, he, hu⟩ := sample_run
  obtain ⟨g, before, -, hscreen, -, hitems, -⟩ :=
    saved_alarm_is_listed (Machine.Reachable.refl _ _) hstart hr he hu
  exact ⟨t, tr, u, hstart, hr, hu, g, before, hscreen, hitems⟩

/-! ## Mirrors -/

/-- Every table on the stack whose view is loaded mirrors the Realm file. -/
structure Mirrors (t : GroupsTab) : Prop where
  groupsList : groupsListController.Mirrors GroupViewModel.groupID (t.groupsList.on t.store)
  groupDetails : ∀ g, .groupDetail g ∈ t.coordinator.viewControllers → ∀ d ∈ t.groupDetails,
    d.isViewLoaded = true → (groupDetailController g).Mirrors AlarmViewModel.alarmID (d.on t.store)

/-- The cells of every table on the stack show what the copies hold. -/
structure InStep (t : GroupsTab) : Prop where
  valid : t.Valid
  groupsList : groupsListController.InStep (t.groupsList.on t.store)
  groupDetails : ∀ g, .groupDetail g ∈ t.coordinator.viewControllers → ∀ d ∈ t.groupDetails,
    d.isViewLoaded = true → (groupDetailController g).InStep (d.on t.store)

/-- The event is a tap on a switch. -/
def Event.IsTap : Event → Prop
  | row event => event.IsTap
  | _ => False

/-- The write of the event, if it makes one, commits. -/
def Event.Commits (e : Event) : Prop := ∀ env, e.env = some env → env.commits = true

/-- What a row does to the mirror of its table: a tap breaks it, and nothing else does. -/
theorem mirrors_row {Item View New Key : Type} [DecidableEq Key]
    {C : ListController Store Env Item View New} {key : View → Key}
    (hlawful : C.Lawful key Commits Store.Decodable) {s s' : ListScreen Store Item View}
    {event : RowEvent Env} (hin : C.InStep s) (hs : s.backend.Integrity) (hm : C.Mirrors key s)
    (hc : ∀ env, event.world = some env → env.commits = true)
    (he : (C.machine Draws).enabled s (event.toListEvent _))
    (hs' : (C.machine Draws).step s (event.toListEvent _) = some s') :
    (event.IsTap → ¬ C.Mirrors key s') ∧ (¬ event.IsTap → C.InStep s' ∧ C.Mirrors key s') := by
  have he' := ListController.enabled_of_world (B := Commits) he
    fun env henv hdraws => ⟨hdraws, hc env henv⟩
  have hspec := ListController.step_spec hlawful hin hs.decodable hm he' hs'
  rw [RowEvent.isTap_toListEvent] at hspec
  exact ⟨hspec.1, fun hnot => ⟨(hspec.2 hnot).1.1, (hspec.2 hnot).2⟩⟩

/-- The list of groups, covered while alarms are written, keeps its mirror. -/
theorem Mirrors.covered {t u : GroupsTab} (ht : t.store.Integrity) (hu : u.store.Integrity)
    (hlist : u.groupsList = t.groupsList)
    (hviews : u.store.groups.rows.map GroupRow.toViewModel =
      t.store.groups.rows.map GroupRow.toViewModel)
    (hm : groupsListController.Mirrors GroupViewModel.groupID (t.groupsList.on t.store)) :
    groupsListController.Mirrors GroupViewModel.groupID (u.groupsList.on u.store) := by
  obtain ⟨stored, hfetch, hrender⟩ := ht.decodable.views_groups
  obtain ⟨stored', hfetch', hrender'⟩ := hu.decodable.views_groups
  rw [hlist]
  exact ListController.mirrors_of_views hfetch hfetch'
    (hrender'.trans (hviews.trans hrender.symm)) hm

/-- What holds of the detail screen of a place holds of every detail screen of the stack. -/
theorem Shows.forall_details {t : GroupsTab} {place : Place} (h : t.Shows place) {g : Group}
    (hg : place.group = some g) {d : TableCopy Alarm AlarmViewModel} (hd : t.groupDetails = [d])
    {P : Group → TableCopy Alarm AlarmViewModel → Prop} (hP : P g d) :
    ∀ g', .groupDetail g' ∈ t.coordinator.viewControllers → ∀ d' ∈ t.groupDetails, P g' d' := by
  intro g' hg' d' hd'
  have hsame := h.group_of_mem hg' rfl
  rw [hg, Option.some_inj] at hsame
  rw [hd, List.mem_singleton] at hd'
  rw [← hsame, hd']
  exact hP

/-- **One event**: every event but a tap keeps the mirrors, and a tap breaks one. -/
theorem InStep.step {t u : GroupsTab} {e : Event} (ht : t.InStep) (hm : t.Mirrors)
    (he : (machine setReminder).enabled t e) (hc : e.Commits)
    (hu : (machine setReminder).step t e = some u) :
    (e.IsTap → ¬ u.Mirrors) ∧ (¬ e.IsTap → u.InStep ∧ u.Mirrors) := by
  have hstep := ht.valid.step_of_eq he hu
  have hnotap : (∀ event, e ≠ .row event) → ¬ e.IsTap := by
    intro hrow
    cases e with
    | row event => exact absurd rfl (hrow event)
    | _ => exact id
  cases hstep.effect with
  | listRow event hshows hshows' he' hs' =>
    obtain ⟨hbreaks, hkeeps⟩ := mirrors_row groupsListController_lawful ht.groupsList
      hshows.integrity hm.groupsList hc he' hs'
    refine ⟨fun htap hmu => hbreaks htap hmu.groupsList, fun hnot => ?_⟩
    obtain ⟨hin, hmirrors⟩ := hkeeps hnot
    refine ⟨⟨hstep.valid, hin, fun g _ d hd => ?_⟩, ⟨hmirrors, fun g _ d hd => ?_⟩⟩
    · rw [hshows'.no_detail] at hd
      exact absurd hd List.not_mem_nil
    · rw [hshows'.no_detail] at hd
      exact absurd hd List.not_mem_nil
  | @detailRow event g d d' hshows hshows' hd hd' hlist hviews he' hs' =>
    have hstack : Screen.groupDetail g ∈ t.coordinator.viewControllers := by
      rw [hshows.viewControllers]
      exact List.mem_cons_self
    have hstack' : Screen.groupDetail g ∈ u.coordinator.viewControllers := by
      rw [hshows'.viewControllers]
      exact List.mem_cons_self
    have hmem : d ∈ t.groupDetails := by rw [hd]; exact List.mem_singleton_self d
    have hmem' : d' ∈ u.groupDetails := by rw [hd']; exact List.mem_singleton_self d'
    have hloaded : d.isViewLoaded = true := ListController.loaded_of_enabled he'
    obtain ⟨hbreaks, hkeeps⟩ := mirrors_row (groupDetailController_lawful g)
      (ht.groupDetails g hstack d hmem hloaded) hshows.integrity
      (hm.groupDetails g hstack d hmem hloaded) hc he' hs'
    have hloaded' : d'.isViewLoaded = true := hstep.valid.loaded hshows' rfl d' hmem'
    refine ⟨fun htap hmu => hbreaks htap (hmu.groupDetails g hstack' d' hmem' hloaded'),
      fun hnot => ?_⟩
    obtain ⟨hin, hmirrors⟩ := hkeeps hnot
    refine ⟨⟨hstep.valid, ?_, hshows'.forall_details rfl hd' fun _ => hin⟩,
      ⟨?_, hshows'.forall_details rfl hd' fun _ => hmirrors⟩⟩
    · rw [hlist]
      exact ht.groupsList.on _
    · exact Mirrors.covered hshows.integrity hshows'.integrity hlist hviews hm.groupsList
  | @shows _ g hrow hshows hread hlist hviews =>
    refine ⟨fun htap => absurd htap (hnotap hrow), fun _ => ?_⟩
    obtain ⟨d, hd, hin, hfetch⟩ := hread
    obtain ⟨place, hplace, -⟩ := ht.valid
    refine ⟨⟨hstep.valid, ?_, hshows.forall_details rfl hd fun _ => hin⟩,
      ⟨?_, hshows.forall_details rfl hd fun _ => ListController.mirrors_of_fetch hfetch⟩⟩
    · rw [hlist]
      exact ht.groupsList.on _
    · exact Mirrors.covered hplace.integrity hshows.integrity hlist hviews hm.groupsList
  | @lists _ place hrow hshows hunloaded hin hread =>
    refine ⟨fun htap => absurd htap (hnotap hrow), fun _ => ?_⟩
    refine ⟨⟨hstep.valid, hin, fun g _ d hd hloaded => ?_⟩,
      ⟨ListController.mirrors_of_fetch hread, fun g _ d hd hloaded => ?_⟩⟩
    · rw [hunloaded d hd] at hloaded
      cases hloaded
    · rw [hunloaded d hd] at hloaded
      cases hloaded
  | @stays _ place place' hrow hshows hshows' hgroup hstore hlist hdetails =>
    refine ⟨fun htap => absurd htap (hnotap hrow), fun _ => ?_⟩
    -- a detail screen that is still there is about the same group
    have hold : ∀ g, Screen.groupDetail g ∈ u.coordinator.viewControllers →
        ∀ d ∈ u.groupDetails, Screen.groupDetail g ∈ t.coordinator.viewControllers ∧
          d ∈ t.groupDetails := by
      intro g hg d hd
      rcases hdetails with hsame | hnil
      · have hplace' := hshows'.group_of_mem hg rfl
        have hplace : place.group = some g := by
          rcases hgroup with heq | hnone
          · rw [← heq]
            exact hplace'
          · rw [hnone] at hplace'
            cases hplace'
        rw [hsame] at hd
        exact ⟨hshows.detail_mem hplace, hd⟩
      · rw [hnil] at hd
        exact absurd hd List.not_mem_nil
    refine ⟨⟨hstep.valid, ?_, fun g hg d hd hloaded => ?_⟩,
      ⟨?_, fun g hg d hd hloaded => ?_⟩⟩
    · rw [hlist]
      exact ht.groupsList.on _
    · obtain ⟨hg', hd'⟩ := hold g hg d hd
      exact (ht.groupDetails g hg' d hd' hloaded).on _
    · rw [hlist, hstore]
      exact hm.groupsList
    · obtain ⟨hg', hd'⟩ := hold g hg d hd
      rw [hstore]
      exact hm.groupDetails g hg' d hd' hloaded

/-- **When the tables mirror the Realm file.**  From a launch on any file that coherent
calls can leave, over any run of the tab whose writes commit: every table on the stack
whose view is loaded, covered or not, mirrors the file after every event precisely when
no switch is tapped.  The list of groups does, although it never reads the file again
when it appears. -/
theorem tables_mirror_iff_no_tap {d : Device}
    (hs : coherentRepository.Reachable Store.empty d.store) {t : GroupsTab}
    (ht : start d = some t) {tr : Trace GroupsTab Event} (hr : (machine setReminder).Run t tr)
    (hcommits : ∀ p ∈ tr, p.1.Commits) :
    (∀ p ∈ tr, p.2.Mirrors) ↔ ∀ p ∈ tr, ¬ p.1.IsTap := by
  obtain ⟨hshows, -, hin, hread⟩ := shows_of_start (integrity_of_reachable hs) ht
  have hnone : ∀ d' ∈ t.groupDetails, False := fun d' hd' => by
    rw [hshows.no_detail] at hd'
    exact List.not_mem_nil hd'
  have hrun : ((machine setReminder).restrict fun _ e => e.Commits).Run t tr :=
    Machine.restrict_run_iff.2 ⟨hr, Machine.eachStep_event_iff.2 hcommits⟩
  rw [hrun.forall_iff_eachStep (I := InStep) (P := Mirrors) (C := fun _ e => ¬ e.IsTap) ?_ ?_ ?_ ?_]
  · exact Machine.eachStep_event_iff
  · intro s e u hin hm he hu hnot
    exact ((hin.step hm he.1 he.2 hu).2 hnot).1
  · intro s e u hin hm he hu
    obtain ⟨hbreaks, hkeeps⟩ := hin.step hm he.1 he.2 hu
    exact ⟨fun hmu htap => hbreaks htap hmu, fun hnot => (hkeeps hnot).2⟩
  · exact ⟨hshows.valid_of_start, hin, fun _ _ d' hd' => (hnone d' hd').elim⟩
  · exact ⟨ListController.mirrors_of_fetch hread, fun _ _ d' hd' => (hnone d' hd').elim⟩

/-- No switch is tapped in the small run. -/
theorem tables_mirror_iff_no_tap_sample :
    ∃ t tr, start Device.new = some t ∧ (machine Sample.setReminder).Run t tr ∧ tr.length = 3 ∧
      ∀ p ∈ tr, p.2.Mirrors := by
  obtain ⟨t, tr, -, hstart, hr, hevents, -⟩ := sample_run
  have hlength : tr.length = 3 := by simpa using congrArg List.length hevents
  have hevent : ∀ p ∈ tr, p.1.Commits ∧ ¬ p.1.IsTap := by
    intro p hp
    have hmem : p.1 ∈ tr.map Prod.fst := List.mem_map_of_mem hp
    rw [hevents] at hmem
    simp only [List.mem_cons, List.not_mem_nil, or_false] at hmem
    rcases hmem with h | h | h <;> rw [h] <;> simp [Event.Commits, Event.env, Event.IsTap]
  have hmirrors := tables_mirror_iff_no_tap (Machine.Reachable.refl _ _) hstart hr
    fun p hp => (hevent p hp).1
  exact ⟨t, tr, hstart, hr, hlength, hmirrors.2 fun p hp => (hevent p hp).2⟩

end GroupsTab

end Alarma
