import Alarma.Flows.GroupCoordinator
import Alarma.Flows.ListScreens
import Alarma.Library.SharedStore
import Alarma.Services.Refinement
import Alarma.Services.Saving

/-!
# The groups tab

The screens of the tab together: the list of groups, the screen of a group, the
screen that creates an alarm and the modal screen that creates a group, each in the
hands of `GroupCoordinator`, over one Realm file.  A screen only gets the user's
events while nothing covers it, and only then writes.

* `GroupsTab.machine` — the buttons and rows of the screens, in any order, with any
  of the writes failing.
* `Place` — where the user is; `GroupsTab.Shows` says what the screens agree on
  there.
* `Shows.appear` — coming on screen keeps it, and a detail screen reads its alarms.
-/

namespace Alarma

open Keyed

/-! ## The repositories, whether or not they commit -/

/-- Drawing fresh `UUID`s is all the screens ask of the environment. -/
def Draws (s : Store) (env : Env) : Prop := s.Fresh env.uuidString

/-- A coherent call with fresh `UUID`s returns, and keeps integrity. -/
theorem Store.Integrity.attempt {s : Store} (hs : s.Integrity) {env : Env} (hu : Draws s env)
    (call : Call) (hcall : call.Coherent) :
    ∃ t, call.attempt env s = some t ∧ t.Integrity ∧ call.Effect env s t := by
  have hsome : (repository.step s (call, env)).isSome := repository_step_isSome hu
  obtain ⟨t, ht⟩ := Option.isSome_iff_exists.1 hsome
  have heffect := effect_of_step ht
  exact ⟨t, ht, hs.effect hu hcall heffect, heffect⟩

theorem groupsListController_tracks :
    groupsListController.Tracks Group.groupID (fun s => s.groups.keys) Draws Store.Integrity := by
  refine ⟨fun {s} hs => ?_, fun {s} _ => s.groups.nodup, fun {s env} hs hu group => ?_,
    fun {s env} hs hu group on => ?_⟩
  · obtain ⟨stored, hfetch, hviews⟩ := hs.decodable.views_groups
    refine ⟨stored, hfetch, ?_⟩
    have hkeys := congrArg (List.map GroupViewModel.groupID) hviews
    rwa [List.map_map, List.map_map] at hkeys
  · obtain ⟨t, ht, hint, heffect⟩ := hs.attempt hu (.removeGroup group) trivial
    refine ⟨t, ht, hint, fun k hk hne => ?_⟩
    cases heffect with
    | unchanged => exact hk
    | removedGroup =>
      obtain ⟨row, hrow, rfl⟩ := Table.mem_keys.1 hk
      rw [Store.cascade, Store.keys_deleteAlarms]
      exact Table.key_mem_keys (Table.mem_remove.2 ⟨hrow, hne⟩)
  · obtain ⟨t, ht, hint, heffect⟩ := hs.attempt hu (.enableGroup group on) trivial
    refine ⟨t, ht, hint, fun k hk => ?_⟩
    cases heffect with
    | unchanged => exact hk
    | enabledGroup => rwa [Store.keys_setGroupEnabled]

theorem groupDetailController_tracks (group : Group) :
    (groupDetailController group).Tracks Alarm.alarmID
      (fun s => (s.alarmsOf group.groupID).map RealmAlarm.alarmID) Draws Store.Integrity := by
  refine ⟨fun {s} hs => ?_, fun {s} _ => ?_, fun {s env} hs hu alarm => ?_,
    fun {s env} hs hu alarm on => ?_⟩
  · obtain ⟨stored, hfetch, hviews⟩ := hs.decodable.views_alarms group
    refine ⟨stored, hfetch, ?_⟩
    have hkeys := congrArg (List.map AlarmViewModel.alarmID) hviews
    rwa [List.map_map, List.map_map] at hkeys
  · exact s.alarms.nodup.sublist (List.filter_sublist.map _)
  · obtain ⟨t, ht, hint, heffect⟩ := hs.attempt hu (.removeAlarm alarm) trivial
    refine ⟨t, ht, hint, fun k hk hne => ?_⟩
    cases heffect with
    | unchanged => exact hk
    | removedAlarm =>
      obtain ⟨row, hrow, rfl⟩ := List.mem_map.1 hk
      obtain ⟨hstored, hid⟩ := Store.mem_alarmsOf.1 hrow
      refine List.mem_map_of_mem (Store.mem_alarmsOf.2 ⟨?_, hid⟩)
      exact Table.mem_removeAll.2 ⟨hstored, by simpa using hne⟩
  · obtain ⟨t, ht, hint, heffect⟩ := hs.attempt hu (.enableAlarm alarm on) trivial
    refine ⟨t, ht, hint, fun k hk => ?_⟩
    cases heffect with
    | unchanged => exact hk
    | enabledAlarm =>
      obtain ⟨row, hrow, rfl⟩ := List.mem_map.1 hk
      rw [Store.alarmsOf_setAlarmEnabled, List.map_map]
      refine List.mem_map.2 ⟨row, hrow, ?_⟩
      simp only [Function.comp_apply]
      split <;> rfl

/-- The calls that are addressed to an alarm. -/
def Call.OnAlarm : Call → Prop
  | update _ _ | saveAlarm _ | enableAlarm _ _ | removeAlarm _ => True
  | saveGroup _ | removeGroup _ | enableGroup _ _ => False

/-- They leave what the list of groups shows. -/
theorem Call.Effect.views_groups {call : Call} {env : Env} {s t : Store} (h : call.Effect env s t)
    (hcall : call.OnAlarm) :
    t.groups.rows.map GroupRow.toViewModel = s.groups.rows.map GroupRow.toViewModel := by
  cases h with
  | unchanged => rfl
  | savedGroup => exact hcall.elim
  | removedGroup => exact hcall.elim
  | updated _ ht =>
    rw [(Store.rows_appendAlarm ht).1, List.map_map]
    refine List.map_congr_left fun row _ => ?_
    simp only [Function.comp_apply]
    split <;> rfl
  | enabledGroup => exact hcall.elim
  | savedAlarm ht => rw [(Store.rows_addAlarm ht).1]
  | enabledAlarm => rw [Store.groups_setAlarmEnabled]
  | removedAlarm =>
    rw [Store.rows_deleteAlarms, List.map_map]
    rfl

/-- Nor do they remove a group. -/
theorem Call.Effect.keys_groups {call : Call} {env : Env} {s t : Store} (h : call.Effect env s t)
    (hcall : call.OnAlarm) : t.groups.keys = s.groups.keys := by
  have hviews := congrArg (List.map GroupViewModel.groupID) (h.views_groups hcall)
  rwa [List.map_map, List.map_map] at hviews

/-! ## The tab -/

/-- The screens of the tab. -/
structure GroupsTab where
  coordinator : GroupCoordinator
  groupsList : TableCopy Group GroupViewModel
  /-- What the detail screens of the stack keep, the top first. -/
  groupDetails : List (TableCopy Alarm AlarmViewModel)

namespace GroupsTab

/-- The Realm file. -/
def store (t : GroupsTab) : Store := t.coordinator.device.store

/-- A screen has written to the Realm file. -/
def setStore (s : Store) (t : GroupsTab) : GroupsTab :=
  { t with coordinator := { t.coordinator with
    device := { t.coordinator.device with store := s } } }

/-- The list of groups handles an event. -/
def onList (handle : ListScreen Store Group GroupViewModel →
    Option (ListScreen Store Group GroupViewModel)) (t : GroupsTab) : Option GroupsTab := do
  let s ← handle (t.groupsList.on t.store)
  return { t.setStore s.backend with groupsList := s.copy }

/-- The detail screen on top handles an event. -/
def onDetail (handle : ListScreen Store Alarm AlarmViewModel →
    Option (ListScreen Store Alarm AlarmViewModel)) (t : GroupsTab) : Option GroupsTab :=
  match t.groupDetails with
  | [] => some t
  | detail :: details => do
    let s ← handle (detail.on t.store)
    return { t.setStore s.backend with groupDetails := s.copy :: details }

/-- The screen nothing covers. -/
def screen (t : GroupsTab) : Option Screen :=
  match t.coordinator.presented with
  | none => t.coordinator.viewControllers.head?
  | some _ => none

/-- That screen comes on screen. -/
def appear (t : GroupsTab) : Option GroupsTab :=
  match t.screen with
  | some .groupsList => t.onList groupsListController.appear
  | some (.groupDetail group) => t.onDetail (groupDetailController group).appear
  | _ => some t

/-- `start`, on a device. -/
def start (device : Device) : Option GroupsTab := appear ⟨.started device, {}, []⟩

/-- `onGroupSelect`: the detail screen that is pushed is a new one. -/
def onGroupSelect (group : Group) (t : GroupsTab) : Option GroupsTab :=
  appear { t with
    coordinator := t.coordinator.onGroupSelect group
    groupDetails := {} :: t.groupDetails }

/-- `onCreateGroup`: so is this one, and the creation screen covers it. -/
def onCreateGroup (group : Group) (t : GroupsTab) : Option GroupsTab :=
  appear { t with
    coordinator := t.coordinator.onCreateGroup group
    groupDetails := {} :: t.groupDetails }

/-- The save action of the alert that `addGroupButtonClicked` presents, with the
text of its field. -/
def saveAction (text : Option String) (env : Env) (t : GroupsTab) : Option GroupsTab :=
  match GroupRepositoryImp.save env { groupName := text.getD "New Group" } t.store with
  | .error .trapped => none
  | .error .thrown => t.onList groupsListController.refresh
  | .ok (savedGroup, store) => do
    let t ← (t.setStore store).onList groupsListController.refresh
    let group ← (t.store.groups.find? savedGroup).bind t.store.toModel
    t.onCreateGroup group

/-- The navigation controller pops the top screen, and a detail screen takes what
it kept along. -/
def popModule (t : GroupsTab) : Option GroupsTab :=
  appear { t with
    coordinator := t.coordinator.popModule
    groupDetails :=
      match t.coordinator.viewControllers with
      | .groupDetail _ :: _ :: _ => t.groupDetails.tail
      | _ => t.groupDetails }

/-- `onAlarmCreated`, after which the detail screen appears again. -/
def onAlarmCreated (setReminder : SetReminder) (alarm : Alarm) (env : Env) (t : GroupsTab) :
    Option GroupsTab := do
  let coordinator ← t.coordinator.onAlarmCreated setReminder alarm env
  appear { t with coordinator := coordinator }

/-- The creation flow finishes without a group, and what it covered appears. -/
def onHideButtonTap (t : GroupsTab) : Option GroupsTab := do
  let coordinator ← t.coordinator.presented.bind fun k => t.coordinator.finishFlow k none
  appear { t with coordinator := coordinator }

/-- What the user does. -/
inductive Event where
  /-- Something happens to a row of the table on screen. -/
  | row (event : RowEvent Env)
  | selectRow (row : ℕ)
  /-- The list's add button, and the save action of its alert. -/
  | saveAction (text : Option String) (env : Env)
  /-- The add button of a detail screen. -/
  | addAlarmButtonClicked
  /-- The save button of the alarm screen, with the date of its picker. -/
  | saveAlarmButtonClicked (date : Date) (env : Env)
  /-- The hide button of the creation screen. -/
  | hideButtonClicked
  /-- The create button of the creation screen, whose action is commented out. -/
  | createButtonClicked
  | back

/-- What the environment contributes, if the event writes. -/
def Event.env : Event → Option Env
  | row event => event.world
  | saveAction _ env => some env
  | saveAlarmButtonClicked _ env => some env
  | _ => none

/-- The event is the save button of the alarm screen. -/
def Event.IsSave : Event → Prop
  | saveAlarmButtonClicked _ _ => True
  | _ => False

/-- The tab.  A screen has its buttons and rows while nothing covers it; a detail
screen only deselects a row that is selected. -/
def machine (setReminder : SetReminder) : Machine GroupsTab Event where
  enabled := fun t e =>
    match e, t.screen with
    | .row event, some .groupsList =>
      (groupsListController.machine Draws).enabled (t.groupsList.on t.store) (event.toListEvent _)
    | .row event, some (.groupDetail group) => ∃ detail, t.groupDetails.head? = some detail ∧
        ((groupDetailController group).machine Draws).enabled (detail.on t.store)
          (event.toListEvent _)
    | .selectRow row, some .groupsList => row < t.groupsList.cells.length
    | .selectRow row, some (.groupDetail _) => ∃ detail, t.groupDetails.head? = some detail ∧
        row < detail.cells.length
    | .saveAction _ env, some .groupsList => Draws t.store env
    | .addAlarmButtonClicked, some (.groupDetail _) => True
    | .saveAlarmButtonClicked _ env, some (.alarmCreation _) => Draws t.store env
    | .back, some (.groupDetail _) => True
    | .back, some (.alarmCreation _) => True
    | .hideButtonClicked, none => t.coordinator.presented ≠ none
    | .createButtonClicked, none => t.coordinator.presented ≠ none
    | _, _ => False
  step := fun t e =>
    match e, t.screen with
    | .row event, some .groupsList =>
      t.onList fun s => (groupsListController.machine Draws).step s (event.toListEvent _)
    | .row event, some (.groupDetail group) =>
      t.onDetail fun s => ((groupDetailController group).machine Draws).step s (event.toListEvent _)
    | .selectRow row, some .groupsList => t.groupsList.items[row]?.bind fun group =>
        t.onGroupSelect group
    | .saveAction text env, some .groupsList => t.saveAction text env
    | .addAlarmButtonClicked, some (.groupDetail group) =>
      appear { t with coordinator := t.coordinator.showAlarmCreation group }
    | .saveAlarmButtonClicked date env, some (.alarmCreation group) =>
      t.onAlarmCreated setReminder (AlarmCreationController.alarm group date) env
    | .back, some _ => t.popModule
    | .hideButtonClicked, none => t.onHideButtonTap
    | _, _ => some t

/-! ## Where the user is -/

/-- The places of the tab, each with the group it is about. -/
inductive Place where
  | groupsList
  | groupDetail (group : Group)
  /-- The creation screen, over the screen of the group that was created last. -/
  | groupCreate (group : Group)
  /-- The alarm screen, over the screen of its group. -/
  | alarmCreation (group : Group)
  deriving DecidableEq, Repr

namespace Place

/-- The group. -/
def group : Place → Option Group
  | groupsList => none
  | groupDetail group => some group
  | groupCreate group => some group
  | alarmCreation group => some group

/-- The stack. -/
def viewControllers : Place → List Screen
  | groupsList => [.groupsList]
  | groupDetail group => [.groupDetail group, .groupsList]
  | groupCreate group => [.groupDetail group, .groupsList]
  | alarmCreation group => [.alarmCreation group, .groupDetail group, .groupsList]

/-- Whether a module is presented over the stack. -/
def isModal : Place → Bool
  | groupCreate _ => true
  | _ => false

/-- The screen nothing covers. -/
def screen : Place → Option Screen
  | groupsList => some .groupsList
  | groupDetail group => some (.groupDetail group)
  | groupCreate _ => none
  | alarmCreation group => some (.alarmCreation group)

end Place

/-- The screens of the tab agree that the user is at a place. -/
structure Shows (t : GroupsTab) (place : Place) : Prop where
  /-- The coordinator retains what it has to. -/
  coordinator : t.coordinator.Valid
  viewControllers : t.coordinator.viewControllers = place.viewControllers
  presented : t.coordinator.presented.isSome = place.isModal
  selected : ∀ g, place.group = some g → t.coordinator.selectedGroup = some g
  stored : ∀ g, place.group = some g → g.groupID ∈ t.store.groups.keys
  integrity : t.store.Integrity
  /-- The list of groups lists stored groups. -/
  groupsList : ListController.Listed Group.groupID (fun s : Store => s.groups.keys)
    (t.groupsList.on t.store)
  /-- One detail screen at most. -/
  details : t.groupDetails.length = place.group.toList.length
  /-- Its view lists stored alarms of the group, once it is loaded. -/
  groupDetails : ∀ g, place.group = some g → ∀ d ∈ t.groupDetails, d.isViewLoaded = true →
    ListController.Listed Alarm.alarmID
      (fun s : Store => (s.alarmsOf g.groupID).map RealmAlarm.alarmID) (d.on t.store)

/-- What holds of the tab whatever the user does. -/
def Valid (t : GroupsTab) : Prop :=
  ∃ place, t.Shows place ∧
    (place.isModal = false → ∀ d ∈ t.groupDetails, d.isViewLoaded = true)

theorem Shows.screen_eq {t : GroupsTab} {place : Place} (h : t.Shows place) :
    t.screen = place.screen := by
  have hpresented := h.presented
  unfold GroupsTab.screen
  rw [h.viewControllers]
  cases place <;> cases hp : t.coordinator.presented <;> simp_all [Place.isModal, Place.screen,
    Place.viewControllers]

/-- The one detail screen of a place that has a group. -/
theorem Shows.detail {t : GroupsTab} {place : Place} (h : t.Shows place) {g : Group}
    (hg : place.group = some g) : ∃ d, t.groupDetails = [d] := by
  have hlength := h.details
  rw [hg] at hlength
  exact List.length_eq_one_iff.1 hlength

/-- The screens of the stack are about the group of the place. -/
theorem Shows.group_of_mem {t : GroupsTab} {place : Place} (h : t.Shows place) {screen : Screen}
    (hscreen : screen ∈ t.coordinator.viewControllers) {g : Group} (hg : screen.group = some g) :
    place.group = some g := by
  rw [h.viewControllers] at hscreen
  cases place with
  | groupsList =>
    rw [List.mem_singleton.1 hscreen] at hg
    cases hg
  | groupDetail g' =>
    rcases List.mem_pair.1 hscreen with rfl | rfl
    · exact hg
    · cases hg
  | groupCreate g' =>
    rcases List.mem_pair.1 hscreen with rfl | rfl
    · exact hg
    · cases hg
  | alarmCreation g' =>
    rcases List.mem_cons.1 hscreen with rfl | hrest
    · exact hg
    · rcases List.mem_pair.1 hrest with rfl | rfl
      · exact hg
      · cases hg

/-- The detail screen of the group of a place is on the stack. -/
theorem Shows.detail_mem {t : GroupsTab} {place : Place} (h : t.Shows place) {g : Group}
    (hg : place.group = some g) : .groupDetail g ∈ t.coordinator.viewControllers := by
  rw [h.viewControllers]
  cases place with
  | groupsList => cases hg
  | groupDetail g' => simpa [Place.group, Place.viewControllers] using hg.symm
  | groupCreate g' => simpa [Place.group, Place.viewControllers] using hg.symm
  | alarmCreation g' => simpa [Place.group, Place.viewControllers] using hg.symm

theorem Shows.no_detail {t : GroupsTab} (h : t.Shows .groupsList) : t.groupDetails = [] :=
  List.length_eq_zero_iff.1 h.details

/-- Where nothing is presented, the detail screen is loaded. -/
theorem Valid.loaded {t : GroupsTab} (h : t.Valid) {place : Place} (hshows : t.Shows place)
    (hmodal : place.isModal = false) : ∀ d ∈ t.groupDetails, d.isViewLoaded = true := by
  obtain ⟨place', hshows', hloaded⟩ := h
  refine hloaded ?_
  rw [← hshows'.presented, hshows.presented, hmodal]

/-- **What covered a screen is gone**: coming on screen never traps, leaves the
coordinator and the list, and a detail screen has read the alarms of its group. -/
theorem Shows.appear {t : GroupsTab} {place : Place} (h : t.Shows place) :
    ∃ u, t.appear = some u ∧ u.Shows place ∧ u.coordinator = t.coordinator ∧
      u.groupsList = t.groupsList ∧
      match place with
      | .groupDetail g => ∃ d, u.groupDetails = [d] ∧
          (groupDetailController g).InStep (d.on u.store) ∧
          (groupDetailController g).fetch u.store = some d.items
      | _ => u = t := by
  unfold GroupsTab.appear
  rw [h.screen_eq]
  cases place with
  | groupsList =>
    have hloaded : (t.groupsList.on t.store).isViewLoaded = true := h.groupsList.loaded
    have happear : groupsListController.appear (t.groupsList.on t.store) =
        some (t.groupsList.on t.store) := by
      simp [ListController.appear, hloaded, groupsListController]
    refine ⟨t, ?_, h, rfl, rfl, rfl⟩
    simp only [Place.screen, GroupsTab.onList, happear]
    rfl
  | groupDetail g =>
    obtain ⟨d, hd⟩ := h.detail rfl
    have hlisted := h.groupDetails g rfl d (by rw [hd]; exact List.mem_singleton_self d)
    obtain ⟨s, hs, hbackend, hlist, hread⟩ :=
      (groupDetailController_tracks g).appear (s := d.on t.store) h.integrity hlisted
    have hsame : t.setStore s.backend = t := by
      rw [hbackend]
      rfl
    have happear : t.onDetail (groupDetailController g).appear =
        some { t with groupDetails := [s.copy] } := by
      simp only [GroupsTab.onDetail, hd, hs, Option.bind_eq_bind, Option.bind_some, hsame]
      rfl
    have hon : s.copy.on t.store = s := by
      have hcopy := s.copy_on
      rwa [hbackend] at hcopy
    refine ⟨_, happear, ⟨h.coordinator, h.viewControllers, h.presented, h.selected, h.stored,
      h.integrity, h.groupsList, rfl, ?_⟩, rfl, rfl, s.copy, rfl, ?_⟩
    · intro g' hg' d' hd' _
      cases hg'
      rw [List.mem_singleton.1 hd']
      show ListController.Listed _ _ (s.copy.on t.store)
      rwa [hon]
    · show (groupDetailController g).InStep (s.copy.on t.store) ∧
        (groupDetailController g).fetch t.store = some s.items
      rw [hon]
      rcases hread with ⟨hin, hfetch⟩ | ⟨-, -, hnever⟩
      · rw [hbackend] at hfetch
        exact ⟨hin, hfetch⟩
      · exact absurd hnever (by simp [groupDetailController])
  | groupCreate g => exact ⟨t, rfl, h, rfl, rfl, rfl⟩
  | alarmCreation g => exact ⟨t, rfl, h, rfl, rfl, rfl⟩

end GroupsTab

end Alarma
