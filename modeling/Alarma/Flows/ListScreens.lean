import Alarma.Library.TableView
import Alarma.Services.Decoding

/-!
# The two list screens

`GroupsListController` lists the groups, `GroupDetailController` the alarms of
one group.  Both keep a copy of what they list, refresh it after an addition,
edit it on a deletion, and leave it alone when a switch is tapped.

* `groupsListController`, `groupDetailController` — the two screens as
  instances of `ListController`, with the repositories as their store.
* `groupsListController_lawful`, `groupDetailController_lawful` — the
  repositories obey the laws of a store while their writes commit.
* `screens_mirror_iff_no_tap` — each screen shows what is stored after every
  event precisely when no switch is tapped.
* `failed_write_never_undone` — a write that throws leaves the store as it was, and
  never the screen.
* `table_rows_match` — the table views have a row for every object of the copy,
  whatever the repositories do.
-/

namespace Alarma

open Keyed

/-! ## The screens -/

/-- `try?` on a repository call. -/
def Call.attempt (call : Call) (env : Env) (s : Store) : Option Store := s.after (call.exec env s)

/-- `GroupsListController`.  A group is added under the text of a text field, if
the field has one. -/
def groupsListController : ListController Store Env Group GroupViewModel (Option String) where
  fetch := GroupRepositoryImp.fetchAllGroups
  render := Group.toViewModel
  isOn := GroupViewModel.isEnabled
  turn := fun isOn view => { view with isEnabled := isOn }
  add := fun env text => (Call.saveGroup { groupName := text.getD "New Group" }).attempt env
  remove := fun env group => (Call.removeGroup group).attempt env
  enable := fun env group isOn => (Call.enableGroup group isOn).attempt env
  refreshesOnAppear := false

/-- `GroupDetailController` for a group.  An alarm is added by the coordinator,
to the group with the given ID, and the screen appears again. -/
def groupDetailController (group : Group) :
    ListController Store Env Alarm AlarmViewModel (Alarm × String) where
  fetch := fun s => AlarmRepositoryImp.fetchAllAlarms s group
  render := Alarm.toViewModel
  isOn := AlarmViewModel.isEnabled
  turn := fun isOn view => { view with isEnabled := isOn }
  add := fun env new => (Call.update new.1 new.2).attempt env
  remove := fun env alarm => (Call.removeAlarm alarm).attempt env
  enable := fun env alarm isOn => (Call.enableAlarm alarm isOn).attempt env
  refreshesOnAppear := true

/-- A write that draws fresh `UUID`s and commits. -/
def Commits (s : Store) (env : Env) : Prop := s.Fresh env.uuidString ∧ env.commits = true

/-! ## What is stored, as the screens show it -/

/-- The view of a stored group. -/
def GroupRow.toViewModel (row : GroupRow) : GroupViewModel :=
  ⟨row.groupID, row.groupName, row.interval, row.isEnabled⟩

/-- The view of a stored alarm. -/
def RealmAlarm.toViewModel (row : RealmAlarm) : AlarmViewModel :=
  ⟨row.alarmID, row.groupID, row.groupName, row.time, row.isEnabled, row.sound⟩

/-- Reading the groups loses nothing a cell shows. -/
theorem Store.Decodable.views_groups {s : Store} (hs : s.Decodable) :
    ∃ stored, GroupRepositoryImp.fetchAllGroups s = some stored ∧
      stored.map Group.toViewModel = s.groups.rows.map GroupRow.toViewModel := by
  have hview : ∀ row ∈ s.groups.rows,
      (s.toModel row).map Group.toViewModel = some row.toViewModel := by
    intro row _
    rw [hs.toModel_eq row]
    rfl
  refine ⟨_, hs.fetchAllGroups_eq, ?_⟩
  rw [List.map_filterMap, List.filterMap_congr hview, List.filterMap_eq_map']

/-- Reading the alarms of a group loses nothing a cell shows. -/
theorem Store.Decodable.views_alarms {s : Store} (hs : s.Decodable) (group : Group) :
    ∃ stored, AlarmRepositoryImp.fetchAllAlarms s group = some stored ∧
      stored.map Alarm.toViewModel = (s.alarmsOf group.groupID).map RealmAlarm.toViewModel := by
  have hview : ∀ row ∈ s.alarmsOf group.groupID,
      row.toModel.map Alarm.toViewModel = some row.toViewModel := by
    intro row hrow
    obtain ⟨days, hdays⟩ := hs row (Store.mem_alarmsOf.1 hrow).1
    rw [RealmAlarm.toModel_of_repeatDays hdays]
    rfl
  refine ⟨_, hs.fetchAllAlarms_eq group, ?_⟩
  rw [List.map_filterMap, List.filterMap_congr hview, List.filterMap_eq_map']

/-- Any call keeps a store decodable. -/
theorem Store.Decodable.attempt {s t : Store} (hs : s.Decodable) {call : Call} {env : Env}
    (h : call.attempt env s = some t) : t.Decodable :=
  hs.effect (effect_of_step h)

/-! ## The repositories obey the laws -/

/-- A committed removal of a group leaves the other groups as they are shown. -/
theorem views_removeGroup {s t : Store} {env : Env} (hc : env.commits = true) {group : Group}
    (h : (Call.removeGroup group).attempt env s = some t) :
    (t.groups.rows.map GroupRow.toViewModel).Perm
      ((s.groups.rows.map GroupRow.toViewModel).filter fun view =>
        view.groupID ≠ group.groupID) := by
  rw [List.filter_map]
  have hafter : s.after (GroupRepositoryImp.remove env group s) = some t := h
  rcases Store.after_write_ifFound hafter with ⟨rfl, hnone⟩ | ⟨row, hf, ht⟩
  · have hall := Table.filter_key_ne (Table.find?_eq_none_iff.1 (hnone hc))
    exact List.Perm.of_eq (congrArg _ hall.symm)
  · rw [Table.find?_key hf] at ht
    cases ht
    have hunlink : ∀ ids, GroupRow.toViewModel ∘ GroupRow.unlink ids = GroupRow.toViewModel :=
      fun ids => rfl
    rw [Store.rows_deleteAlarms, List.map_map, hunlink]
    exact (s.groups.remove_perm group.groupID).map _

/-- A committed switch of a group switches it, and no other. -/
theorem views_enableGroup {s t : Store} {env : Env} (hc : env.commits = true) {group : Group}
    {isOn : Bool} (h : (Call.enableGroup group isOn).attempt env s = some t) :
    t.groups.rows.map GroupRow.toViewModel =
      (s.groups.rows.map GroupRow.toViewModel).map fun view =>
        if view.groupID = group.groupID then { view with isEnabled := isOn } else view := by
  rw [List.map_map]
  have hafter : s.after (GroupRepositoryImp.enable env group isOn s) = some t := h
  rcases Store.after_write_ifFound hafter with ⟨rfl, hnone⟩ | ⟨row, hf, ht⟩
  · have hkey := Table.find?_eq_none_iff.1 (hnone hc)
    refine List.map_congr_left fun row hrow => (if_neg fun heq => ?_).symm
    exact hkey (heq ▸ Table.key_mem_keys hrow)
  · rw [Table.find?_key hf] at ht
    cases ht
    rw [Store.rows_setGroupEnabled, List.map_map]
    refine List.map_congr_left fun row _ => ?_
    by_cases hid : row.groupID = group.groupID <;> simp [hid, GroupRow.toViewModel]

theorem groupsListController_lawful :
    groupsListController.Lawful GroupViewModel.groupID Commits Store.Decodable := by
  refine .of_views (fun s => s.groups.rows.map GroupRow.toViewModel) (fun hs => hs.views_groups)
    ?_ (fun _ _ => rfl) (fun hs _ h => hs.attempt h) ?_ ?_
  · intro s _
    rw [List.map_map]
    exact s.groups.nodup
  · intro s t env group hs hc h
    exact ⟨hs.attempt h, views_removeGroup hc.2 h⟩
  · intro s t env group isOn hs hc h
    exact ⟨hs.attempt h, views_enableGroup hc.2 h⟩

/-- A committed removal of an alarm leaves the other alarms of a group. -/
theorem views_removeAlarm {s t : Store} {env : Env} (hc : env.commits = true) {alarm : Alarm}
    (h : (Call.removeAlarm alarm).attempt env s = some t) (groupID : String) :
    ((t.alarmsOf groupID).map RealmAlarm.toViewModel).Perm
      (((s.alarmsOf groupID).map RealmAlarm.toViewModel).filter fun view =>
        view.alarmID ≠ alarm.alarmID) := by
  rw [List.filter_map]
  have hafter : s.after (AlarmRepositoryImp.remove env alarm s) = some t := h
  rcases Store.after_write_ifFound hafter with ⟨rfl, hnone⟩ | ⟨row, hf, ht⟩
  · have hkey := Table.find?_eq_none_iff.1 (hnone hc)
    have hothers : ∀ row ∈ t.alarmsOf groupID, row.alarmID ≠ alarm.alarmID := fun row hrow heq =>
      hkey (heq ▸ Table.key_mem_keys (Store.mem_alarmsOf.1 hrow).1)
    have hall := List.filter_eq_self.2 fun row hrow => decide_eq_true (hothers row hrow)
    exact List.Perm.of_eq (congrArg _ hall.symm)
  · rw [Table.find?_key hf] at ht
    cases ht
    refine ((s.alarmsOf_deleteAlarms [alarm.alarmID] groupID).map RealmAlarm.toViewModel).trans ?_
    refine List.Perm.of_eq (congrArg _ (List.filter_congr fun row _ => ?_))
    show decide (row.alarmID ∉ [alarm.alarmID]) = decide (row.alarmID ≠ alarm.alarmID)
    rw [decide_eq_decide, List.mem_singleton]

/-- A committed switch of an alarm switches it, and no other. -/
theorem views_enableAlarm {s t : Store} {env : Env} (hc : env.commits = true) {alarm : Alarm}
    {isOn : Bool} (h : (Call.enableAlarm alarm isOn).attempt env s = some t) (groupID : String) :
    (t.alarmsOf groupID).map RealmAlarm.toViewModel =
      ((s.alarmsOf groupID).map RealmAlarm.toViewModel).map fun view =>
        if view.alarmID = alarm.alarmID then { view with isEnabled := isOn } else view := by
  rw [List.map_map]
  have hafter : s.after (AlarmRepositoryImp.enable env alarm isOn s) = some t := h
  rcases Store.after_write_ifFound hafter with ⟨rfl, hnone⟩ | ⟨row, hf, ht⟩
  · have hkey := Table.find?_eq_none_iff.1 (hnone hc)
    refine List.map_congr_left fun row hrow => (if_neg fun heq => ?_).symm
    exact hkey (heq ▸ Table.key_mem_keys (Store.mem_alarmsOf.1 hrow).1)
  · rw [Table.find?_key hf] at ht
    cases ht
    rw [Store.alarmsOf_setAlarmEnabled, List.map_map]
    refine List.map_congr_left fun row _ => ?_
    by_cases hid : row.alarmID = alarm.alarmID <;> simp [hid, RealmAlarm.toViewModel]

theorem groupDetailController_lawful (group : Group) :
    (groupDetailController group).Lawful AlarmViewModel.alarmID Commits Store.Decodable := by
  refine .of_views (fun s => (s.alarmsOf group.groupID).map RealmAlarm.toViewModel)
    (fun hs => hs.views_alarms group) ?_ (fun _ _ => rfl) (fun hs _ h => hs.attempt h) ?_ ?_
  · intro s _
    rw [List.map_map]
    exact s.alarms.nodup.sublist (List.filter_sublist.map _)
  · intro s t env alarm hs hc h
    exact ⟨hs.attempt h, views_removeAlarm hc.2 h group.groupID⟩
  · intro s t env alarm isOn hs hc h
    exact ⟨hs.attempt h, views_enableAlarm hc.2 h group.groupID⟩

/-! ## The screens -/

/-- The list of groups, while every write commits. -/
abbrev groupsListScreen : Machine (ListScreen Store Group GroupViewModel)
    (ListEvent Env (Option String)) :=
  groupsListController.machine Commits

/-- The screen of a group, while every write commits. -/
abbrev groupDetailScreen (group : Group) : Machine (ListScreen Store Alarm AlarmViewModel)
    (ListEvent Env (Alarm × String)) :=
  (groupDetailController group).machine Commits

/-- **When the screens show what is stored.**  On any store the repositories can
make, and over any run of events with every write committing: the list of groups
mirrors the store after every event precisely when no switch is tapped, and so
does the screen of a group. -/
theorem screens_mirror_iff_no_tap {s : Store} (hs : repository.Reachable Store.empty s) :
    (∀ tr, groupsListScreen.Run (ListController.unloaded s) tr →
      ((∀ p ∈ tr, groupsListController.Mirrors GroupViewModel.groupID p.2) ↔
        ∀ p ∈ tr, ¬ p.1.IsTap)) ∧
    ∀ group tr, (groupDetailScreen group).Run (ListController.unloaded s) tr →
      ((∀ p ∈ tr, (groupDetailController group).Mirrors AlarmViewModel.alarmID p.2) ↔
        ∀ p ∈ tr, ¬ p.1.IsTap) := by
  have hdec := decodable_of_reachable hs
  constructor
  · intro tr hr
    exact ListController.mirrors_iff_no_tap groupsListController_lawful hdec hr
  · intro group tr hr
    exact ListController.mirrors_iff_no_tap (groupDetailController_lawful group) hdec hr

/-- The one group is switched on, and when its cell is rendered again the switch
is back in its old position, while the store has the new one. -/
theorem tapped_switch_springs_back :
    ∃ tr, groupsListScreen.Run (ListController.unloaded Sample.filed) tr ∧
      let s := Trace.last (ListController.unloaded Sample.filed) tr
      s.cells = [some ⟨"x", "Work", "", false⟩] ∧
      s.backend.groups.rows.map GroupRow.toViewModel = [⟨"x", "Work", "", true⟩] ∧
      ¬ groupsListController.Mirrors GroupViewModel.groupID s := by
  refine ⟨[(.viewDidLoad, _), (.dequeue 0, _), (.tapSwitch ⟨Sample.drawn 2, true⟩ 0, _),
    (.dequeue 0, _)], .cons rfl rfl (.cons ⟨rfl, Nat.one_pos⟩ rfl
      (.cons ⟨rfl, ⟨Sample.fresh_drawn (by decide), rfl⟩, _, rfl⟩ rfl
        (.cons ⟨rfl, Nat.one_pos⟩ rfl (.nil _)))), rfl, rfl, ?_⟩
  rintro ⟨stored, hfetch, hrendered, -⟩
  cases hfetch
  obtain ⟨object, hobject, hsame⟩ := hrendered _ List.mem_cons_self
  rw [List.mem_singleton.1 hobject] at hsame
  exact absurd hsame (by decide)

/-- Loading the list of groups and rendering its one row. -/
theorem screens_mirror_iff_no_tap_filed :
    ∃ s t, groupsListScreen.Run (ListController.unloaded Sample.filed)
        [(.viewDidLoad, s), (.dequeue 0, t)] ∧
      groupsListController.Mirrors GroupViewModel.groupID t := by
  have hreach : repository.Reachable Store.empty Sample.filed :=
    ⟨Sample.calls, Sample.run_calls, rfl⟩
  have hr : groupsListScreen.Run (ListController.unloaded Sample.filed)
      [(.viewDidLoad, _), (.dequeue 0, _)] :=
    .cons rfl rfl (.cons ⟨rfl, Nat.one_pos⟩ rfl (.nil _))
  have hmirrors := ((screens_mirror_iff_no_tap hreach).1 _ hr).2 (by simp [ListEvent.IsTap])
  exact ⟨_, _, hr, hmirrors _ (List.mem_cons_of_mem _ List.mem_cons_self)⟩

/-! ## Writes that throw -/

/-- A transaction on an object that throws leaves the old store. -/
theorem Store.after_write_of_throws {Object : Type} {env : Env} (hc : env.commits = false)
    {find : Store → Option Object} {act : Store → Object → Option Store}
    (hact : ∀ s object, (act s object).isSome) (s : Store) :
    s.after (s.write env fun s => s.ifFound (find s) (act s)) = some s := by
  have hblock : (s.ifFound (find s) (act s)).isSome := Store.isSome_ifFound (hact s)
  obtain ⟨t, ht⟩ := Option.isSome_iff_exists.1 hblock
  rw [Store.write_eq ht, hc]
  rfl

/-- **A write that throws is never undone on the screen.**  On every state of the
two screens that agrees with the store, for every row and both handlers that write:
when the repository throws, the handler returns, the store is what it was, and the
screen is not — the row is gone, or the switch shows what was not written. -/
theorem failed_write_never_undone {env : Env} (hc : env.commits = false) :
    (∀ s : ListScreen Store Group GroupViewModel, groupsListController.InStep s →
      groupsListController.Mirrors GroupViewModel.groupID s →
      groupsListController.NeverUndone GroupViewModel.groupID env s) ∧
    ∀ group, ∀ s : ListScreen Store Alarm AlarmViewModel, (groupDetailController group).InStep s →
      (groupDetailController group).Mirrors AlarmViewModel.alarmID s →
      (groupDetailController group).NeverUndone AlarmViewModel.alarmID env s := by
  constructor
  · intro s hin hm
    refine ListController.neverUndone hin hm (fun _ _ => rfl) (fun group => ?_) fun group on => ?_
    · show s.backend.after (GroupRepositoryImp.remove env group s.backend) = some s.backend
      exact Store.after_write_of_throws hc (fun _ _ => rfl) s.backend
    · show s.backend.after (GroupRepositoryImp.enable env group on s.backend) = some s.backend
      exact Store.after_write_of_throws hc (fun _ _ => rfl) s.backend
  · intro group s hin hm
    refine ListController.neverUndone hin hm (fun _ _ => rfl) (fun alarm => ?_) fun alarm on => ?_
    · show s.backend.after (AlarmRepositoryImp.remove env alarm s.backend) = some s.backend
      exact Store.after_write_of_throws hc (fun _ _ => rfl) s.backend
    · show s.backend.after (AlarmRepositoryImp.enable env alarm on s.backend) = some s.backend
      exact Store.after_write_of_throws hc (fun _ _ => rfl) s.backend

/-- The list of groups on the store with one group, its cell on screen. -/
def Sample.listed : ListScreen Store Group GroupViewModel where
  backend := Sample.filed
  items := [{ groupID := "x", groupName := "Work",
              alarmList := [{ Sample.alarm with alarmID := "xx" }] }]
  cells := [some ⟨"x", "Work", "", false⟩]
  isViewLoaded := true

theorem Sample.inStep_listed : groupsListController.InStep Sample.listed := by
  refine ⟨rfl, rfl, fun row view h => ?_⟩
  cases row with
  | zero => exact Option.some.inj h
  | succ row => cases h

/-- The screen agrees with the store, the deletion throws, the row of the group
disappears, and the group is still stored. -/
theorem deleted_row_still_stored :
    groupsListController.Mirrors GroupViewModel.groupID Sample.listed ∧
      ∃ t, groupsListController.commitDelete ⟨Sample.drawn 2, false⟩ 0 Sample.listed = some t ∧
        t.items = [] ∧ t.cells = [] ∧
        GroupRepositoryImp.fetchAllGroups t.backend = some Sample.listed.items ∧
        ¬ ListController.Undone 0 Sample.listed t :=
  ⟨ListController.mirrors_of_fetch rfl, _, rfl, rfl, rfl, rfl, fun h => nomatch h.rows⟩

/-- Neither handler undoes a failure there. -/
theorem failed_write_never_undone_listed :
    groupsListController.NeverUndone GroupViewModel.groupID ⟨Sample.drawn 2, false⟩ Sample.listed :=
  (failed_write_never_undone rfl).1 Sample.listed Sample.inStep_listed
    (ListController.mirrors_of_fetch rfl)

/-! ## Rows and copies -/

/-- `GroupsListController`, whose add button saves a group, and which hands a
selected group on. -/
def groupsListTable : TableController Store Env Group GroupViewModel (Option String) :=
  { groupsListController with savesOnAdd := true, readsOnSelect := true }

/-- `GroupDetailController`, whose add button opens another screen, and which only
deselects a selected row. -/
def groupDetailTable (group : Group) :
    TableController Store Env Alarm AlarmViewModel (Alarm × String) :=
  { groupDetailController group with savesOnAdd := false, readsOnSelect := false }

/-- **The table views have a row for every object.**  On any store, over any run of
events of the two screens, with every write committing or throwing and the store
changing arbitrarily between the events: after every event the rows are as many as
the objects of the copy, a deletion has taken one of each, and any event that may
come next uses indices in range and traps only where a call of the repository
does. -/
theorem table_rows_match (s : Store) :
    (∀ tr, groupsListTable.machine.Run (ListController.unloaded s) tr →
      Machine.EachTransition TableController.RowsMatch (ListController.unloaded s) tr ∧
        ∀ e, groupsListTable.machine.enabled (Trace.last (ListController.unloaded s) tr) e →
          TableController.InRange (Trace.last (ListController.unloaded s) tr) e ∧
            (groupsListTable.machine.step (Trace.last (ListController.unloaded s) tr) e = none →
              groupsListTable.StoreTraps (Trace.last (ListController.unloaded s) tr) e)) ∧
    ∀ group tr, (groupDetailTable group).machine.Run (ListController.unloaded s) tr →
      Machine.EachTransition TableController.RowsMatch (ListController.unloaded s) tr ∧
        ∀ e, (groupDetailTable group).machine.enabled (Trace.last (ListController.unloaded s) tr) e →
          TableController.InRange (Trace.last (ListController.unloaded s) tr) e ∧
            ((groupDetailTable group).machine.step (Trace.last (ListController.unloaded s) tr) e = none →
              (groupDetailTable group).StoreTraps (Trace.last (ListController.unloaded s) tr) e) :=
  ⟨fun _ hr => TableController.rows_match_objects hr,
    fun _ _ hr => TableController.rows_match_objects hr⟩

/-- The list is loaded, the store loses its group to another screen, and the row is
deleted with a write that throws. -/
theorem table_rows_match_emptied :
    ∃ tr, groupsListTable.machine.Run (ListController.unloaded Sample.filed) tr ∧
      tr.map Prod.fst = [.screen .viewDidLoad, .select 0, .storeChanges Store.empty,
        .screen (.delete ⟨Sample.drawn 2, false⟩ 0)] ∧
      Machine.EachTransition TableController.RowsMatch (ListController.unloaded Sample.filed) tr := by
  have hr : groupsListTable.machine.Run (ListController.unloaded Sample.filed)
      [(.screen .viewDidLoad, _), (.select 0, _), (.storeChanges Store.empty, _),
        (.screen (.delete ⟨Sample.drawn 2, false⟩ 0), _)] :=
    .cons rfl rfl (.cons ⟨rfl, Nat.one_pos⟩ rfl (.cons trivial rfl
      (.cons ⟨rfl, trivial, Nat.one_pos⟩ rfl (.nil _))))
  exact ⟨_, hr, rfl, ((table_rows_match Sample.filed).1 _ hr).1⟩

end Alarma
