import Alarma.Flows.GroupsTab

/-!
# The events of the groups tab

One lemma for every button and row of the tab, and what they have in common: no
event traps, unless it waits for `setReminder`, and after every event the screens agree
again.

* `Device.Operation.Filed` — the device operations the tab carries out: an alarm is
  reported for the group on whose screen it was created, and that group is stored.
* `GroupsTab.saved` — the alarm an event reports; `GroupsTab.Returns` — its `setReminder`
  returns.
* `GroupsTab.Effect` — everything an event can do to the tables;
  `GroupsTab.OnDevice` — and to the device.
* `GroupsTab.Valid.step` — from a valid state every event that comes back is taken, and
  ends in one; `GroupsTab.Valid.returns_of_step` — no other event is.
-/

namespace Alarma

open Keyed

/-- A write of the device is an attempt at a call. -/
theorem Device.write_eq {d : Device} {env : Env} {call : Call} {s : Store}
    (h : call.attempt env d.store = some s) : d.write env call = some { d with store := s } :=
  Option.bind_eq_some_iff.2 ⟨s, h, rfl⟩

/-- An alarm is reported: the update of its group, then its reminder. -/
theorem Device.onAlarmCreated_eq {setReminder : SetReminder} {d : Device} {g : Group}
    {alarm : Alarm} {env : Env} {s : Store} {eventStore : List EKReminder}
    (hattempt : (Call.update alarm g.groupID).attempt env d.store = some s)
    (hset : setReminder env alarm d.eventStore = some eventStore) :
    d.onAlarmCreated setReminder (some g) alarm env = some ⟨s, eventStore⟩ := by
  have hwrite : d.write env (.update alarm g.groupID) = some { d with store := s } :=
    Device.write_eq hattempt
  simp only [onAlarmCreated, updateCall, Option.map_some, hwrite, Option.bind_eq_bind,
    Option.bind_some, hset]
  rfl

/-- Then its screen is popped. -/
theorem GroupCoordinator.onAlarmCreated_eq {setReminder : SetReminder} {c : GroupCoordinator}
    {g : Group} {alarm : Alarm} {env : Env} {device : Device} {screen next : Screen}
    {rest : List Screen} (hselected : c.selectedGroup = some g)
    (hstack : c.viewControllers = screen :: next :: rest)
    (hdevice : c.device.onAlarmCreated setReminder (some g) alarm env = some device) :
    c.onAlarmCreated setReminder alarm env =
      some { c with device := device, viewControllers := next :: rest } := by
  simp only [onAlarmCreated, Device.updateCall, hselected, Option.map_some, hdevice,
    Option.bind_eq_bind, Option.bind_some, popModule, hstack]
  rfl

/-- An alarm that is reported names the group it is reported for, and that group is
stored. -/
def Device.Operation.Filed (d : Device) : Device.Operation → Prop
  | .alarmCreated (some group) alarm =>
    alarm.groupID = group.groupID ∧ group.groupID ∈ d.store.groups.keys
  | _ => True

namespace GroupsTab

variable {setReminder : SetReminder}

/-- The alarm that an event saves: the one the alarm screen reports. -/
def saved (t : GroupsTab) : Event → Option Alarm
  | .saveAlarmButtonClicked date _ =>
    match t.screen with
    | some (.alarmCreation group) => some (AlarmCreationController.alarm group date)
    | _ => none
  | _ => none

/-- The event comes back from `setReminder`, if it calls it. -/
def Returns (setReminder : SetReminder) (t : GroupsTab) (e : Event) : Prop :=
  ∀ alarm ∈ t.saved e, ∀ env ∈ e.env,
    (setReminder env alarm t.coordinator.device.eventStore).isSome

theorem saved_of_not_isSave {t : GroupsTab} {e : Event} (h : ¬ e.IsSave) : t.saved e = none := by
  cases e with
  | saveAlarmButtonClicked date env => exact absurd trivial h
  | _ => rfl

/-- The save button is that of the alarm screen. -/
theorem Shows.saved_eq {t : GroupsTab} {g : Group} (h : t.Shows (.alarmCreation g)) (date : Date)
    (env : Env) :
    t.saved (.saveAlarmButtonClicked date env) = some (AlarmCreationController.alarm g date) := by
  have hscreen : t.screen = some (.alarmCreation g) := h.screen_eq
  simp [saved, hscreen]

/-- What an event does to the device is an operation on filed alarms, in the
environment of the event, or nothing; only the save button reports an alarm. -/
def OnDevice (setReminder : SetReminder) (t : GroupsTab) (e : Event) (u : GroupsTab) :
    Prop :=
  u.coordinator.device = t.coordinator.device ∨ ∃ op env, e.env = some env ∧ Draws t.store env ∧
    op.Filed t.coordinator.device ∧ (op.report ≠ none → e.IsSave) ∧
    (Device.machine setReminder).step t.coordinator.device (op, env) = some u.coordinator.device

/-- The detail screen of a group has just read its alarms. -/
def Reads (u : GroupsTab) (g : Group) : Prop :=
  ∃ d, u.groupDetails = [d] ∧ (groupDetailController g).InStep (d.on u.store) ∧
    (groupDetailController g).fetch u.store = some d.items

/-- Everything an event can do to the tables. -/
inductive Effect (t u : GroupsTab) : Event → Prop
  /-- A row of the list of groups. -/
  | listRow (event : RowEvent Env) : t.Shows .groupsList → u.Shows .groupsList →
      (groupsListController.machine Draws).enabled (t.groupsList.on t.store)
        (event.toListEvent _) →
      (groupsListController.machine Draws).step (t.groupsList.on t.store) (event.toListEvent _) =
        some (u.groupsList.on u.store) →
      Effect t u (.row event)
  /-- A row of a detail screen. -/
  | detailRow (event : RowEvent Env) {g : Group} {d d' : TableCopy Alarm AlarmViewModel} :
      t.Shows (.groupDetail g) → u.Shows (.groupDetail g) →
      t.groupDetails = [d] → u.groupDetails = [d'] → u.groupsList = t.groupsList →
      u.store.groups.rows.map GroupRow.toViewModel = t.store.groups.rows.map GroupRow.toViewModel →
      ((groupDetailController g).machine Draws).enabled (d.on t.store) (event.toListEvent _) →
      ((groupDetailController g).machine Draws).step (d.on t.store) (event.toListEvent _) =
        some (d'.on u.store) →
      Effect t u (.row event)
  /-- A detail screen appears. -/
  | shows {e : Event} {g : Group} : (∀ event, e ≠ .row event) → u.Shows (.groupDetail g) →
      u.Reads g → u.groupsList = t.groupsList →
      u.store.groups.rows.map GroupRow.toViewModel = t.store.groups.rows.map GroupRow.toViewModel →
      Effect t u e
  /-- The list of groups is read. -/
  | lists {e : Event} {place : Place} : (∀ event, e ≠ .row event) → u.Shows place →
      (∀ d ∈ u.groupDetails, d.isViewLoaded = false) →
      groupsListController.InStep (u.groupsList.on u.store) →
      groupsListController.fetch u.store = some u.groupsList.items → Effect t u e
  /-- Nothing is read or written; a detail screen may go. -/
  | stays {e : Event} {place place' : Place} : (∀ event, e ≠ .row event) → t.Shows place →
      u.Shows place' → (place'.group = place.group ∨ place'.group = none) →
      u.store = t.store → u.groupsList = t.groupsList →
      (u.groupDetails = t.groupDetails ∨ u.groupDetails = []) → Effect t u e

/-- What is known of a step. -/
structure Step (setReminder : SetReminder) (t : GroupsTab) (e : Event) (u : GroupsTab) :
    Prop where
  step_eq : (machine setReminder).step t e = some u
  valid : u.Valid
  effect : Effect t u e
  onDevice : OnDevice setReminder t e u

/-- A write to the Realm file leaves the rest of the coordinator. -/
theorem Shows.setStore {t : GroupsTab} {place : Place} (h : t.Shows place) {s : Store}
    (hs : s.Integrity)
    (hstored : ∀ g, place.group = some g → g.groupID ∈ s.groups.keys)
    {groupsList : TableCopy Group GroupViewModel}
    (hlist : ListController.Listed Group.groupID (fun s : Store => s.groups.keys)
      (groupsList.on s))
    {groupDetails : List (TableCopy Alarm AlarmViewModel)}
    (hlength : groupDetails.length = t.groupDetails.length)
    (hdetails : ∀ g, place.group = some g → ∀ d ∈ groupDetails, d.isViewLoaded = true →
      ListController.Listed Alarm.alarmID
        (fun s : Store => (s.alarmsOf g.groupID).map RealmAlarm.alarmID) (d.on s)) :
    Shows { t.setStore s with groupsList := groupsList, groupDetails := groupDetails } place where
  coordinator := ⟨h.coordinator.stacked, h.coordinator.retained, h.coordinator.leaf,
    h.coordinator.count⟩
  viewControllers := h.viewControllers
  presented := h.presented
  selected := h.selected
  stored := hstored
  integrity := hs
  groupsList := hlist
  details := hlength.trans h.details
  groupDetails := hdetails

/-- A row of the list of groups. -/
theorem Shows.listRow {t : GroupsTab} (h : t.Shows .groupsList) {event : RowEvent Env}
    (he : (machine setReminder).enabled t (.row event)) :
    ∃ u, Step setReminder t (.row event) u := by
  have hscreen : t.screen = some .groupsList := h.screen_eq
  simp only [machine, hscreen] at he
  obtain ⟨s, hstep, hint, hlisted, hwrites⟩ :=
    h.groupsList.step groupsListController_tracks h.integrity he
  have hu : (machine setReminder).step t (.row event) =
      some { t.setStore s.backend with groupsList := s.copy } := by
    simp only [machine, hscreen, onList, hstep]
    rfl
  have hshows : Shows { t.setStore s.backend with groupsList := s.copy } .groupsList :=
    h.setStore hint (by simp [Place.group]) (s.copy_on.symm ▸ hlisted) rfl (by simp [Place.group])
  refine ⟨_, hu, ⟨_, hshows, fun _ d hd => ?_⟩, .listRow event h hshows he hstep, ?_⟩
  · rw [hshows.no_detail] at hd
    exact absurd hd List.not_mem_nil
  · rcases hwrites with ⟨-, hsame⟩ | ⟨env, henv, hdraws, group, -, hremove | ⟨on, henable⟩⟩
    · refine Or.inl ?_
      show { t.coordinator.device with store := s.backend } = t.coordinator.device
      rw [hsame]
      rfl
    · exact Or.inr ⟨.groupDeleted group, env, henv, hdraws, trivial, fun h => absurd rfl h,
        Device.write_eq hremove⟩
    · exact Or.inr ⟨.groupSwitched group on, env, henv, hdraws, trivial, fun h => absurd rfl h,
        Device.write_eq henable⟩

/-- A row of a detail screen. -/
theorem Shows.detailRow {t : GroupsTab} {g : Group} (h : t.Shows (.groupDetail g))
    (hloaded : ∀ d ∈ t.groupDetails, d.isViewLoaded = true) {event : RowEvent Env}
    (he : (machine setReminder).enabled t (.row event)) :
    ∃ u, Step setReminder t (.row event) u := by
  have hscreen : t.screen = some (.groupDetail g) := h.screen_eq
  obtain ⟨d, hd⟩ := h.detail rfl
  have hmem : d ∈ t.groupDetails := by
    rw [hd]
    exact List.mem_singleton_self d
  simp only [machine, hscreen, hd, List.head?_cons, Option.some.injEq, exists_eq_left'] at he
  obtain ⟨s, hstep, hint, hlisted, hwrites⟩ :=
    (h.groupDetails g rfl d hmem (hloaded d hmem)).step (groupDetailController_tracks g)
      h.integrity he
  -- what a row of this screen writes is addressed to an alarm
  have hcall : s.backend = t.store ∨ ∃ op env, ∃ call : Call, event.world = some env ∧
      Draws t.store env ∧ Device.Operation.Filed t.coordinator.device op ∧ op.report = none ∧
      call.OnAlarm ∧ call.Effect env t.store s.backend ∧
      (Device.machine setReminder).step t.coordinator.device (op, env) =
        some { t.coordinator.device with store := s.backend } := by
    rcases hwrites with ⟨-, hsame⟩ | ⟨env, henv, hdraws, alarm, -, hremove | ⟨on, henable⟩⟩
    · exact Or.inl hsame
    · exact Or.inr ⟨.alarmDeleted alarm, env, .removeAlarm alarm, henv, hdraws, trivial, rfl,
        trivial, effect_of_step hremove, Device.write_eq hremove⟩
    · exact Or.inr ⟨.alarmSwitched alarm on, env, .enableAlarm alarm on, henv, hdraws, trivial,
        rfl, trivial, effect_of_step henable, Device.write_eq henable⟩
  have hviews : s.backend.groups.rows.map GroupRow.toViewModel =
      t.store.groups.rows.map GroupRow.toViewModel := by
    rcases hcall with hsame | ⟨_, _, _, -, -, -, -, honAlarm, heffect, -⟩
    · rw [hsame]
    · exact heffect.views_groups honAlarm
  have hkeys : s.backend.groups.keys = t.store.groups.keys := by
    have hids := congrArg (List.map GroupViewModel.groupID) hviews
    rwa [List.map_map, List.map_map] at hids
  have hshows : Shows { t.setStore s.backend with groupDetails := [s.copy] } (.groupDetail g) := by
    refine h.setStore hint (fun g' hg' => ?_) (h.groupsList.on fun k hk => ?_) ?_ ?_
    · rw [hkeys]
      exact h.stored g' hg'
    · rwa [hkeys]
    · rw [hd]
      rfl
    · intro g' hg' d' hd' _
      cases hg'
      rw [List.mem_singleton.1 hd']
      exact s.copy_on.symm ▸ hlisted
  have hu : (machine setReminder).step t (.row event) =
      some { t.setStore s.backend with groupDetails := [s.copy] } := by
    simp only [machine, hscreen, onDetail, hd, hstep]
    rfl
  refine ⟨_, hu, ⟨_, hshows, fun _ d' hd' => ?_⟩,
    .detailRow event h hshows hd rfl rfl hviews he hstep, ?_⟩
  · rw [List.mem_singleton.1 hd']
    exact hlisted.loaded
  · rcases hcall with hsame | ⟨op, env, call, henv, hdraws, hfiled, hquiet, -, -, hstep⟩
    · refine Or.inl ?_
      show { t.coordinator.device with store := s.backend } = t.coordinator.device
      rw [hsame]
      rfl
    · exact Or.inr ⟨op, env, henv, hdraws, hfiled, fun h => absurd hquiet h, hstep⟩

/-- A detail screen that comes on screen ends a step. -/
theorem Shows.shows {t t' : GroupsTab} {e : Event} {g : Group} (h : t'.Shows (.groupDetail g))
    (hrow : ∀ event, e ≠ .row event)
    (hstep : (machine setReminder).step t e = t'.appear) (hlist : t'.groupsList = t.groupsList)
    (hviews : t'.store.groups.rows.map GroupRow.toViewModel =
      t.store.groups.rows.map GroupRow.toViewModel) (hdevice : OnDevice setReminder t e t') :
    ∃ u, Step setReminder t e u ∧ u.Shows (.groupDetail g) ∧ u.Reads g ∧
      u.coordinator = t'.coordinator := by
  obtain ⟨u, hu, hshows, hcoordinator, hlist', d, hd, hin, hread⟩ := h.appear
  have hstore : u.store = t'.store := by rw [GroupsTab.store, hcoordinator]; rfl
  refine ⟨u, ⟨hstep.trans hu, ⟨_, hshows, fun _ d' hd' => ?_⟩,
    .shows hrow hshows ⟨d, hd, hin, hread⟩ (hlist'.trans hlist) ?_, ?_⟩, hshows,
    ⟨d, hd, hin, hread⟩, hcoordinator⟩
  · rw [hd] at hd'
    rw [List.mem_singleton.1 hd']
    exact hin.loaded
  · rw [hstore]
    exact hviews
  · unfold OnDevice at hdevice ⊢
    rw [hcoordinator]
    exact hdevice

/-- A row of the list of groups is selected. -/
theorem Shows.selectRow {t : GroupsTab} (h : t.Shows .groupsList) {row : ℕ}
    (he : (machine setReminder).enabled t (.selectRow row)) :
    ∃ u, Step setReminder t (.selectRow row) u := by
  have hscreen : t.screen = some .groupsList := h.screen_eq
  simp only [machine, hscreen] at he
  have hrows : t.groupsList.cells.length = t.groupsList.items.length := h.groupsList.rows
  have hrow : row < t.groupsList.items.length := by omega
  have hitem : t.groupsList.items[row]? = some t.groupsList.items[row] :=
    List.getElem?_eq_getElem hrow
  generalize t.groupsList.items[row] = group at hitem
  have hstored : group.groupID ∈ t.store.groups.keys :=
    h.groupsList.stored group (List.mem_of_getElem? hitem)
  have hpresented : t.coordinator.presented = none := by
    simpa [Place.isModal] using h.presented
  have hhead : t.coordinator.viewControllers.head? = some .groupsList := by
    rw [h.viewControllers]
    rfl
  have hselect : (GroupCoordinator.machine setReminder).step t.coordinator (.onGroupSelect group) =
      some (t.coordinator.onGroupSelect group) := rfl
  have hvalid := (GroupCoordinator.effect_of_step (e := .onGroupSelect group) h.coordinator
    ⟨hpresented, hhead⟩ hselect).2
  have hshows : Shows { t with
      coordinator := t.coordinator.onGroupSelect group
      groupDetails := {} :: t.groupDetails } (.groupDetail group) := by
    refine ⟨hvalid, ?_, h.presented, ?_, ?_, h.integrity, h.groupsList, ?_, ?_⟩
    · show .groupDetail group :: t.coordinator.viewControllers = _
      rw [h.viewControllers]
      rfl
    · rintro g ⟨⟩
      rfl
    · rintro g ⟨⟩
      exact hstored
    · rw [h.no_detail]
      rfl
    · rintro g ⟨⟩ d hd hloaded
      rw [h.no_detail, List.mem_singleton] at hd
      rw [hd] at hloaded
      cases hloaded
  have hrow : (machine setReminder).step t (.selectRow row) = GroupsTab.appear { t with
      coordinator := t.coordinator.onGroupSelect group
      groupDetails := {} :: t.groupDetails } := by
    simp only [machine, hscreen, hitem]
    rfl
  obtain ⟨u, hu, -⟩ := hshows.shows (by simp) hrow rfl rfl (Or.inl rfl)
  exact ⟨u, hu⟩

/-- The list of groups reads the Realm file after a write. -/
theorem Shows.refreshList {t : GroupsTab} (h : t.Shows .groupsList) {s : Store}
    (hs : s.Integrity) :
    ∃ groupsList : TableCopy Group GroupViewModel,
      (t.setStore s).onList groupsListController.refresh =
        some { t.setStore s with groupsList := groupsList } ∧
      Shows { t.setStore s with groupsList := groupsList } .groupsList ∧
      groupsListController.InStep (groupsList.on s) ∧
      groupsListController.fetch s = some groupsList.items := by
  obtain ⟨u, hu, hbackend, hlisted, hin, hread⟩ :=
    groupsListController_tracks.refresh (s := t.groupsList.on s) hs h.groupsList.loaded
  have hbackend' : u.backend = s := hbackend
  subst hbackend'
  have hrefresh : (t.setStore u.backend).onList groupsListController.refresh =
      some { t.setStore u.backend with groupsList := u.copy } := by
    have hlist : (t.setStore u.backend).groupsList.on (t.setStore u.backend).store =
        t.groupsList.on u.backend := rfl
    simp only [onList, hlist, hu]
    rfl
  exact ⟨u.copy, hrefresh,
    h.setStore hs (by simp [Place.group]) (u.copy_on.symm ▸ hlisted) rfl (by simp [Place.group]),
    hin, hread⟩

/-- A group is added, or the write of it fails. -/
theorem Shows.saveAction {t : GroupsTab} (h : t.Shows .groupsList) {text : Option String}
    {env : Env} (he : (machine setReminder).enabled t (.saveAction text env)) :
    ∃ u, Step setReminder t (.saveAction text env) u := by
  have hscreen : t.screen = some .groupsList := h.screen_eq
  simp only [machine, hscreen] at he
  have hstep : (machine setReminder).step t (.saveAction text env) = t.saveAction text env := by
    simp only [machine, hscreen]
  generalize hgroup : ({ groupName := text.getD "New Group" } : Group) = newGroup
  have hnil : newGroup.alarmList = [] := by rw [← hgroup]
  cases hcommits : env.commits with
  | false =>
    have hsave : GroupRepositoryImp.save env newGroup t.store = .error .thrown := by
      rw [GroupRepositoryImp.save_eq, hcommits]
      rfl
    obtain ⟨groupsList, hrefresh, hshows, hin, hread⟩ := h.refreshList h.integrity
    refine ⟨_, ?_, ⟨_, hshows, fun _ d hd => ?_⟩,
      .lists (by simp) hshows (fun d hd => ?_) hin hread, Or.inl rfl⟩
    · rw [hstep, GroupsTab.saveAction, hgroup, hsave]
      exact hrefresh
    · rw [hshows.no_detail] at hd
      exact absurd hd List.not_mem_nil
    · rw [hshows.no_detail] at hd
      exact absurd hd List.not_mem_nil
  | true =>
    generalize hstore : t.store.addGroup (newGroup.toRealmEntity env.uuidString) = s
    have hsave : GroupRepositoryImp.save env newGroup t.store = .ok (env.uuidString 0, s) := by
      rw [GroupRepositoryImp.save_eq, hcommits, ← hstore]
      rfl
    have hint : s.Integrity := hstore ▸ h.integrity.saveGroup he hnil
    obtain ⟨groupsList, hrefresh, hshows, hin, hread⟩ := h.refreshList hint
    have hrow : (newGroup.toRealmEntity env.uuidString).toRow ∈ s.groups.rows := by
      rw [← hstore, (Store.rows_addGroup he newGroup).1]
      exact List.mem_append_right _ List.mem_cons_self
    have hfind : s.groups.find? (env.uuidString 0) =
        some (newGroup.toRealmEntity env.uuidString).toRow := Table.find?_of_mem hrow
    have hmodel := Store.toModel_addGroup he newGroup
    rw [hstore, hnil, List.mapIdx_nil] at hmodel
    generalize hsaved : ({ newGroup with groupID := env.uuidString 0, alarmList := [] } : Group) =
      group at hmodel
    have hid : group.groupID = env.uuidString 0 := by rw [← hsaved]
    have hpresented : t.coordinator.presented = none := by
      simpa [Place.isModal] using h.presented
    have hhead : t.coordinator.viewControllers.head? = some .groupsList := by
      rw [h.viewControllers]
      rfl
    have hopen : (GroupCoordinator.machine setReminder).step (t.setStore s).coordinator
        (.onCreateGroup group) = some ((t.setStore s).coordinator.onCreateGroup group) := rfl
    have hvalid := (GroupCoordinator.effect_of_step (e := .onCreateGroup group)
      hshows.coordinator ⟨hpresented, hhead⟩ hopen).2
    have hcreate : Shows { t.setStore s with
        coordinator := (t.setStore s).coordinator.onCreateGroup group
        groupsList := groupsList
        groupDetails := {} :: t.groupDetails } (.groupCreate group) := by
      refine ⟨hvalid, ?_, rfl, ?_, ?_, hint, hshows.groupsList, ?_, ?_⟩
      · show .groupDetail group :: t.coordinator.viewControllers = _
        rw [h.viewControllers]
        rfl
      · rintro g ⟨⟩
        rfl
      · rintro g ⟨⟩
        rw [hid]
        exact Table.key_mem_keys hrow
      · rw [h.no_detail]
        rfl
      · rintro g ⟨⟩ d hd hloaded
        rw [h.no_detail, List.mem_singleton] at hd
        rw [hd] at hloaded
        cases hloaded
    obtain ⟨u, happear, -, -, -, hsame⟩ := hcreate.appear
    simp only at hsame
    subst hsame
    refine ⟨_, ?_, ⟨_, hcreate, fun hmodal => by cases hmodal⟩,
      .lists (by simp) hcreate (fun d hd => ?_) hin hread, Or.inr ?_⟩
    · rw [hstep, GroupsTab.saveAction, hgroup, hsave]
      simp only [hrefresh, Option.bind_eq_bind, Option.bind_some]
      have hread' : (s.groups.find? (env.uuidString 0)).bind s.toModel = some group := by
        rw [hfind, Option.bind_some, hmodel]
      show ((s.groups.find? (env.uuidString 0)).bind s.toModel).bind _ = _
      rw [hread', Option.bind_some]
      exact happear
    · rw [h.no_detail, List.mem_singleton] at hd
      rw [hd]
    · have hattempt : (Call.saveGroup newGroup).attempt env t.store = some s := by
        show t.store.after ((GroupRepositoryImp.save env newGroup t.store).map Prod.snd) = some s
        rw [hsave]
        rfl
      refine ⟨.groupAdded (text.getD "New Group"), env, rfl, he, trivial, fun h => absurd rfl h, ?_⟩
      exact Device.write_eq (hgroup ▸ hattempt)

/-- The add button of a detail screen. -/
theorem Shows.addAlarmButtonClicked {t : GroupsTab} {g : Group} (h : t.Shows (.groupDetail g))
    (hloaded : ∀ d ∈ t.groupDetails, d.isViewLoaded = true) :
    ∃ u, Step setReminder t .addAlarmButtonClicked u := by
  have hscreen : t.screen = some (.groupDetail g) := h.screen_eq
  have hpresented : t.coordinator.presented = none := by
    simpa [Place.isModal] using h.presented
  have hstack : t.coordinator.viewControllers = [.groupDetail g, .groupsList] := h.viewControllers
  have hhead : t.coordinator.viewControllers.head? = some (.groupDetail g) := by
    rw [hstack]
    rfl
  have hopen : (GroupCoordinator.machine setReminder).step t.coordinator
      .onCreateAlarmButtonTapped = some (t.coordinator.showAlarmCreation g) := by
    simp only [GroupCoordinator.machine, hstack]
  have hvalid := (GroupCoordinator.effect_of_step (e := .onCreateAlarmButtonTapped) h.coordinator
    ⟨hpresented, g, hhead⟩ hopen).2
  have hshows : Shows { t with coordinator := t.coordinator.showAlarmCreation g }
      (.alarmCreation g) := by
    refine ⟨hvalid, ?_, h.presented, h.selected, h.stored, h.integrity, h.groupsList, h.details,
      h.groupDetails⟩
    show .alarmCreation g :: t.coordinator.viewControllers = _
    rw [hstack]
    rfl
  obtain ⟨u, happear, -, -, -, hsame⟩ := hshows.appear
  simp only at hsame
  subst hsame
  refine ⟨_, ?_, ⟨_, hshows, fun _ => hloaded⟩,
    .stays (by simp) h hshows (Or.inl rfl) rfl rfl (Or.inl rfl), Or.inl rfl⟩
  simp only [machine, hscreen]
  exact happear

/-- The update of the alarm's group leaves the screens below the alarm screen in agreement. -/
theorem Shows.updated {t : GroupsTab} {g : Group} (h : t.Shows (.alarmCreation g)) {alarm : Alarm}
    {env : Env} (device : Device) (hint : device.store.Integrity)
    (heffect : (Call.update alarm g.groupID).Effect env t.store device.store)
    (hvalid : GroupCoordinator.Valid { t.coordinator with
      device := device
      viewControllers := [.groupDetail g, .groupsList] }) :
    Shows { t with
      coordinator := { t.coordinator with
        device := device
        viewControllers := [.groupDetail g, .groupsList] } } (.groupDetail g) := by
  have hkeys := heffect.keys_groups trivial
  refine ⟨hvalid, rfl, h.presented, h.selected, fun g' hg' => ?_, hint, ?_, h.details, ?_⟩
  · show g'.groupID ∈ device.store.groups.keys
    rw [hkeys]
    exact h.stored g' hg'
  · refine h.groupsList.on fun k hk => ?_
    show k ∈ device.store.groups.keys
    rwa [hkeys]
  · rintro g' ⟨⟩ d hd hloaded
    refine (h.groupDetails g rfl d hd hloaded).on fun k hk => ?_
    show k ∈ (device.store.alarmsOf g.groupID).map RealmAlarm.alarmID
    generalize device.store = s at heffect
    cases heffect with
    | unchanged => exact hk
    | updated _ ht =>
      rw [Store.alarmsOf_appendAlarm ht, List.map_append]
      exact List.mem_append_left _ hk

/-- An alarm is saved, and once its reminder is set the detail screen of its group
appears. -/
theorem Shows.saveAlarmButtonClicked {t : GroupsTab} {g : Group} (h : t.Shows (.alarmCreation g))
    {date : Date} {env : Env} {eventStore : List EKReminder}
    (he : (machine setReminder).enabled t (.saveAlarmButtonClicked date env))
    (hset : setReminder env (AlarmCreationController.alarm g date)
      t.coordinator.device.eventStore = some eventStore) :
    ∃ u, Step setReminder t (.saveAlarmButtonClicked date env) u ∧ u.Shows (.groupDetail g) ∧
      u.Reads g ∧
      (Call.update (AlarmCreationController.alarm g date) g.groupID).attempt env t.store =
        some u.store ∧
      u.coordinator.device.eventStore = eventStore := by
  have hscreen : t.screen = some (.alarmCreation g) := h.screen_eq
  simp only [machine, hscreen] at he
  have hpresented : t.coordinator.presented = none := by
    simpa [Place.isModal] using h.presented
  have hselected : t.coordinator.selectedGroup = some g := h.selected g rfl
  have hstack : t.coordinator.viewControllers =
      [.alarmCreation g, .groupDetail g, .groupsList] := h.viewControllers
  have hhead : t.coordinator.viewControllers.head? = some (.alarmCreation g) := by
    rw [hstack]
    rfl
  generalize halarm : AlarmCreationController.alarm g date = alarm at hset ⊢
  have hid : alarm.groupID = g.groupID := by rw [← halarm]; rfl
  obtain ⟨s, hattempt, hint, heffect⟩ := h.integrity.attempt he (.update alarm g.groupID) hid
  have honAlarm := Device.onAlarmCreated_eq hattempt hset
  have hcreated := GroupCoordinator.onAlarmCreated_eq hselected hstack honAlarm
  have hstep' : (GroupCoordinator.machine setReminder).step t.coordinator
      (.onAlarmCreated date env) = some { t.coordinator with
        device := ⟨s, eventStore⟩
        viewControllers := [.groupDetail g, .groupsList] } := by
    simp only [GroupCoordinator.machine, hstack, halarm]
    exact hcreated
  have hvalid := (GroupCoordinator.effect_of_step (e := .onAlarmCreated date env) h.coordinator
    ⟨hpresented, he, g, hhead⟩ hstep').2
  have hsave : (machine setReminder).step t (.saveAlarmButtonClicked date env) =
      GroupsTab.appear { t with
        coordinator := { t.coordinator with
          device := ⟨s, eventStore⟩
          viewControllers := [.groupDetail g, .groupsList] } } := by
    simp only [machine, hscreen, onAlarmCreated, halarm, hcreated, Option.bind_eq_bind,
      Option.bind_some]
  obtain ⟨u, hu, hshows, hread, hcoordinator⟩ := (h.updated ⟨s, eventStore⟩ hint heffect
    hvalid).shows (by simp) hsave rfl (heffect.views_groups trivial)
    (Or.inr ⟨.alarmCreated (some g) alarm, env, rfl, he, ⟨hid, h.stored g rfl⟩, fun _ => trivial,
      honAlarm⟩)
  refine ⟨u, hu, hshows, hread, ?_, ?_⟩
  · rw [hattempt, GroupsTab.store, hcoordinator]
  · rw [hcoordinator]

/-- The creation screen is hidden, and the detail screen it covered appears. -/
theorem Shows.hideButtonClicked {t : GroupsTab} {g : Group} (h : t.Shows (.groupCreate g)) :
    ∃ u, Step setReminder t .hideButtonClicked u := by
  have hscreen : t.screen = none := h.screen_eq
  obtain ⟨k, hk⟩ := Option.isSome_iff_exists.1 h.presented
  obtain ⟨coordinators, hempty, hcount, hfinish⟩ := h.coordinator.finishFlow_eq hk none
  have hstep : (GroupCoordinator.machine setReminder).step t.coordinator (.finishFlow none) = some
      { t.coordinator with
        presented := none
        coordinators := coordinators
        viewControllers := t.coordinator.viewControllers } := by
    simp only [GroupCoordinator.machine, hk]
    exact hfinish
  have henabled : t.coordinator.presented ≠ none := by simp [hk]
  have hvalid := (GroupCoordinator.effect_of_step (e := .finishFlow none) h.coordinator henabled
    hstep).2
  have hshows : Shows { t with
      coordinator := { t.coordinator with
        presented := none
        coordinators := coordinators
        viewControllers := t.coordinator.viewControllers } } (.groupDetail g) :=
    ⟨hvalid, h.viewControllers, rfl, h.selected, h.stored, h.integrity, h.groupsList, h.details,
      h.groupDetails⟩
  have hhide : (machine setReminder).step t .hideButtonClicked = GroupsTab.appear { t with
      coordinator := { t.coordinator with
        presented := none
        coordinators := coordinators
        viewControllers := t.coordinator.viewControllers } } := by
    simp only [machine, hscreen, onHideButtonTap, hk, Option.bind_eq_bind, Option.bind_some,
      hfinish]
    rfl
  obtain ⟨u, hu, -⟩ := hshows.shows (by simp) hhide rfl rfl (Or.inl rfl)
  exact ⟨u, hu⟩

/-- The back button, on a detail screen. -/
theorem Shows.backToList {t : GroupsTab} {g : Group} (h : t.Shows (.groupDetail g)) :
    ∃ u, Step setReminder t .back u := by
  have hscreen : t.screen = some (.groupDetail g) := h.screen_eq
  have hpresented : t.coordinator.presented = none := by
    simpa [Place.isModal] using h.presented
  have hstack : t.coordinator.viewControllers = [.groupDetail g, .groupsList] := h.viewControllers
  have hpop :
      t.coordinator.popModule = { t.coordinator with viewControllers := [.groupsList] } := by
    rw [GroupCoordinator.popModule, hstack]
  have hpopped : (GroupCoordinator.machine setReminder).step t.coordinator .back =
      some t.coordinator.popModule := rfl
  have hvalid := (GroupCoordinator.effect_of_step (e := .back) h.coordinator
    ⟨hpresented, by simp [hstack]⟩ hpopped).2
  rw [hpop] at hvalid
  obtain ⟨d, hd⟩ := h.detail rfl
  have hshows : Shows { t with
      coordinator := { t.coordinator with viewControllers := [.groupsList] }
      groupDetails := t.groupDetails.tail } .groupsList := by
    refine ⟨hvalid, rfl, h.presented, by simp [Place.group], by simp [Place.group], h.integrity,
      h.groupsList, ?_, by simp [Place.group]⟩
    rw [hd]
    rfl
  obtain ⟨u, happear, -, -, -, hsame⟩ := hshows.appear
  simp only at hsame
  subst hsame
  refine ⟨_, ?_, ⟨_, hshows, fun _ d' hd' => ?_⟩,
    .stays (by simp) h hshows (Or.inr rfl) rfl rfl (Or.inr ?_), Or.inl rfl⟩
  · simp only [machine, hscreen, GroupsTab.popModule, hpop, hstack]
    exact happear
  · have hnil : t.groupDetails.tail = [] := by rw [hd]; rfl
    have hmem : d' ∈ t.groupDetails.tail := hd'
    rw [hnil] at hmem
    exact absurd hmem List.not_mem_nil
  · show t.groupDetails.tail = []
    rw [hd]
    rfl

/-- The back button, on the alarm screen. -/
theorem Shows.backToDetail {t : GroupsTab} {g : Group} (h : t.Shows (.alarmCreation g)) :
    ∃ u, Step setReminder t .back u := by
  have hscreen : t.screen = some (.alarmCreation g) := h.screen_eq
  have hpresented : t.coordinator.presented = none := by
    simpa [Place.isModal] using h.presented
  have hstack : t.coordinator.viewControllers =
      [.alarmCreation g, .groupDetail g, .groupsList] := h.viewControllers
  have hpop : t.coordinator.popModule =
      { t.coordinator with viewControllers := [.groupDetail g, .groupsList] } := by
    rw [GroupCoordinator.popModule, hstack]
  have hpopped : (GroupCoordinator.machine setReminder).step t.coordinator .back =
      some t.coordinator.popModule := rfl
  have hvalid := (GroupCoordinator.effect_of_step (e := .back) h.coordinator
    ⟨hpresented, by simp [hstack]⟩ hpopped).2
  rw [hpop] at hvalid
  have hshows : Shows { t with
      coordinator := { t.coordinator with viewControllers := [.groupDetail g, .groupsList] } }
      (.groupDetail g) :=
    ⟨hvalid, rfl, h.presented, h.selected, h.stored, h.integrity, h.groupsList, h.details,
      h.groupDetails⟩
  have hback : (machine setReminder).step t .back = GroupsTab.appear { t with
      coordinator := { t.coordinator with viewControllers := [.groupDetail g, .groupsList] } } := by
    simp only [machine, hscreen, GroupsTab.popModule, hpop, hstack]
  obtain ⟨u, hu, -⟩ := hshows.shows (by simp) hback rfl rfl (Or.inl rfl)
  exact ⟨u, hu⟩

/-- The events that change nothing. -/
theorem Shows.idle {t : GroupsTab} {place : Place} (h : t.Shows place)
    (hloaded : place.isModal = false → ∀ d ∈ t.groupDetails, d.isViewLoaded = true) {e : Event}
    (hrow : ∀ event, e ≠ .row event) (hstep : (machine setReminder).step t e = some t) :
    ∃ u, Step setReminder t e u :=
  ⟨t, hstep, ⟨place, h, hloaded⟩, .stays hrow h h (Or.inl rfl) rfl rfl (Or.inl rfl), Or.inl rfl⟩

/-- **No event traps** that comes back from `setReminder`, and every such event leaves the
screens in agreement. -/
theorem Valid.step {t : GroupsTab} (h : t.Valid) {e : Event}
    (he : (machine setReminder).enabled t e) (hreturns : t.Returns setReminder e) :
    ∃ u, Step setReminder t e u := by
  obtain ⟨place, hshows, hloaded⟩ := h
  have hscreen := hshows.screen_eq
  cases place with
  | groupsList =>
    cases e with
    | row event => exact hshows.listRow he
    | selectRow row => exact hshows.selectRow he
    | saveAction text env => exact hshows.saveAction he
    | addAlarmButtonClicked => simp [machine, hscreen, Place.screen] at he
    | saveAlarmButtonClicked date env => simp [machine, hscreen, Place.screen] at he
    | hideButtonClicked => simp [machine, hscreen, Place.screen] at he
    | createButtonClicked => simp [machine, hscreen, Place.screen] at he
    | back => simp [machine, hscreen, Place.screen] at he
  | groupDetail g =>
    cases e with
    | row event => exact hshows.detailRow (hloaded rfl) he
    | selectRow row =>
      exact hshows.idle hloaded (by simp) (by simp [machine, hscreen, Place.screen])
    | saveAction text env => simp [machine, hscreen, Place.screen] at he
    | addAlarmButtonClicked => exact hshows.addAlarmButtonClicked (hloaded rfl)
    | saveAlarmButtonClicked date env => simp [machine, hscreen, Place.screen] at he
    | hideButtonClicked => simp [machine, hscreen, Place.screen] at he
    | createButtonClicked => simp [machine, hscreen, Place.screen] at he
    | back => exact hshows.backToList
  | groupCreate g =>
    cases e with
    | row event => simp [machine, hscreen, Place.screen] at he
    | selectRow row => simp [machine, hscreen, Place.screen] at he
    | saveAction text env => simp [machine, hscreen, Place.screen] at he
    | addAlarmButtonClicked => simp [machine, hscreen, Place.screen] at he
    | saveAlarmButtonClicked date env => simp [machine, hscreen, Place.screen] at he
    | hideButtonClicked => exact hshows.hideButtonClicked
    | createButtonClicked =>
      exact hshows.idle hloaded (by simp) (by simp [machine])
    | back => simp [machine, hscreen, Place.screen] at he
  | alarmCreation g =>
    cases e with
    | row event => simp [machine, hscreen, Place.screen] at he
    | selectRow row => simp [machine, hscreen, Place.screen] at he
    | saveAction text env => simp [machine, hscreen, Place.screen] at he
    | addAlarmButtonClicked => simp [machine, hscreen, Place.screen] at he
    | saveAlarmButtonClicked date env =>
      obtain ⟨eventStore, hset⟩ :=
        Option.isSome_iff_exists.1 (hreturns _ (hshows.saved_eq date env) env rfl)
      obtain ⟨u, hu, -⟩ := hshows.saveAlarmButtonClicked he hset
      exact ⟨u, hu⟩
    | hideButtonClicked => simp [machine, hscreen, Place.screen] at he
    | createButtonClicked => simp [machine, hscreen, Place.screen] at he
    | back => exact hshows.backToDetail

/-- An event that is taken has come back. -/
theorem Valid.returns_of_step {t u : GroupsTab} (h : t.Valid) {e : Event}
    (hu : (machine setReminder).step t e = some u) : t.Returns setReminder e := by
  obtain ⟨place, hshows, -⟩ := h
  intro alarm halarm env henv
  cases e with
  | saveAlarmButtonClicked date env' =>
    cases henv
    have hscreen := hshows.screen_eq
    cases place with
    | alarmCreation g =>
      rw [hshows.saved_eq] at halarm
      cases halarm
      simp only [machine, hscreen, Place.screen] at hu
      obtain ⟨coordinator, hcoordinator, -⟩ := Option.bind_eq_some_iff.1 hu
      simp only [GroupCoordinator.onAlarmCreated, hshows.selected g rfl, Device.updateCall,
        Option.map_some] at hcoordinator
      obtain ⟨device, hdevice, -⟩ := Option.bind_eq_some_iff.1 hcoordinator
      simp only [Device.onAlarmCreated, Device.updateCall, Option.map_some] at hdevice
      obtain ⟨written, hwritten, hdevice⟩ := Option.bind_eq_some_iff.1 hdevice
      obtain ⟨eventStore, hset, -⟩ := Option.bind_eq_some_iff.1 hdevice
      obtain ⟨store, -, hwritten⟩ := Option.bind_eq_some_iff.1 hwritten
      cases hwritten
      rw [hset]
      rfl
    | _ => simp [saved, hscreen, Place.screen] at halarm
  | _ => cases halarm

/-- A step of the machine is one of the steps that are known. -/
theorem Valid.step_of_eq {t u : GroupsTab} {e : Event} (h : t.Valid)
    (he : (machine setReminder).enabled t e) (hu : (machine setReminder).step t e = some u) :
    Step setReminder t e u := by
  obtain ⟨v, hv⟩ := h.step he (h.returns_of_step hu)
  have hsame : v = u := Option.some.inj (hv.step_eq.symm.trans hu)
  rwa [hsame] at hv

/-- **An event traps** exactly if it waits for `setReminder`. -/
theorem Valid.step_isSome_iff {t : GroupsTab} {e : Event} (h : t.Valid)
    (he : (machine setReminder).enabled t e) :
    ((machine setReminder).step t e).isSome ↔ t.Returns setReminder e := by
  constructor
  · intro hsome
    obtain ⟨u, hu⟩ := Option.isSome_iff_exists.1 hsome
    exact h.returns_of_step hu
  · intro hreturns
    obtain ⟨u, hu⟩ := h.step he hreturns
    rw [hu.step_eq]
    rfl

end GroupsTab

end Alarma
