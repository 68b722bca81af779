import Alarma.Services.Decoding

/-!
# What saving a group does to its identity

`GroupRepositoryImp.save` writes with `update: true`, but the object it writes
got its primary key from `RealmGroup.init`, which draws a new `UUID` and passes
over the `groupID` it is given.  Two things follow.

* `save_never_upserts` — no save that returns updates a stored group: the store
  gains a second record of it, and of each of its alarms.
* `save_owns_alarms_iff` — the foreign keys of the alarms were fixed by the
  caller, before that `UUID` was drawn.  So a group saved with alarms does not
  find them by its key, and its removal does not delete them.
-/

namespace Alarma

open Keyed

/-! ## A save is never an upsert -/

/-- What an upsert of a group by its identity makes of the store, up to the
order of rows: the row with that identity has the new values, and nothing else
has changed. -/
structure Store.Upserted (s : Store) (group : Group) (t : Store) : Prop where
  groups : t.groups.rows.Perm <| s.groups.rows.map fun row =>
    if row.groupID = group.groupID then
      { row with groupName := group.groupName, interval := group.interval,
                 isEnabled := group.isEnabled }
    else row
  alarms : t.alarms.rows.Perm s.alarms.rows

/-- An upsert adds no record. -/
theorem Store.Upserted.length_groups {s t : Store} {group : Group} (h : s.Upserted group t) :
    t.groups.rows.length = s.groups.rows.length := by
  rw [h.groups.length_eq, List.length_map]

/-- **A save is never an upsert**, whatever group it is given, stored or not.
A save that returns adds one group record under a new key, and an alarm record
for every alarm of the group; the old records stay as they were. -/
theorem save_never_upserts {s t : Store} {env : Env} {group : Group} {id : String}
    (hu : s.Fresh env.uuidString) (h : GroupRepositoryImp.save env group s = .ok (id, t)) :
    (t ≠ s ∧ ¬ s.Upserted group t) ∧
      id ∉ s.groups.keys ∧ t.groups.keys = s.groups.keys ++ [id] ∧
      t.alarms.rows.length = s.alarms.rows.length + group.alarmList.length := by
  rw [GroupRepositoryImp.save_eq] at h
  split at h
  case isFalse => exact absurd h (by simp)
  case isTrue =>
    cases h
    obtain ⟨hgroups, halarms⟩ := Store.rows_addGroup hu group
    have hlength : (s.addGroup (group.toRealmEntity env.uuidString)).groups.rows.length =
        s.groups.rows.length + 1 := by
      rw [hgroups, List.length_append, List.length_singleton]
    refine ⟨⟨fun hsame => ?_, fun hup => ?_⟩, hu.notMem_groups 0, ?_, ?_⟩
    · rw [hsame] at hlength
      omega
    · have hcount := hup.length_groups
      omega
    · rw [Table.keys, hgroups, List.map_append]
      rfl
    · rw [halarms, List.length_append, Group.toRealmEntity, List.length_mapIdx]

/-- Saving the stored group again, just as it was fetched, duplicates it. -/
theorem save_duplicates_filed :
    repository.Reachable Store.empty Sample.filed ∧
    ∃ g, GroupRepositoryImp.fetchAllGroups Sample.filed = some [g] ∧ g.groupID = "x" ∧
      ∃ id t, GroupRepositoryImp.save ⟨Sample.drawn 2, true⟩ g Sample.filed = .ok (id, t) ∧
        t ≠ Sample.filed ∧ t.groups.keys = ["x", "xxx"] ∧ t.alarms.keys = ["xx", "xxxx"] := by
  refine ⟨⟨Sample.calls, Sample.run_calls, rfl⟩, _, rfl, rfl, _, _, rfl, ?_, rfl, rfl⟩
  intro h
  exact absurd (congrArg (fun s => s.groups.keys) h) (by decide)

/-- The stored group again, under another name. -/
theorem save_never_upserts_filed :
    ∃ id t, GroupRepositoryImp.save ⟨Sample.drawn 2, true⟩
        { groupID := "x", groupName := "Office", alarmList := [Sample.alarm] } Sample.filed =
          .ok (id, t) ∧ t ≠ Sample.filed := by
  have hsave : GroupRepositoryImp.save ⟨Sample.drawn 2, true⟩
      { groupID := "x", groupName := "Office", alarmList := [Sample.alarm] } Sample.filed =
        .ok ("xxx", _) := rfl
  exact ⟨_, _, hsave, (save_never_upserts (Sample.fresh_drawn (by decide)) hsave).1.1⟩

/-! ## Who owns the alarms of a saved group -/

/-- The alarm without its identity. -/
def Alarm.anonymous (alarm : Alarm) : Alarm := { alarm with alarmID := "" }

/-- `model`, read back from the store `t`, owns the alarms it was saved with:
they are what a query for the group returns, up to their identities, and
removing the group removes them. -/
structure Group.OwnsAlarms (model : Group) (alarmList : List Alarm) (t : Store) : Prop where
  fetched : ∃ alarms, AlarmRepositoryImp.fetchAllAlarms t model = some alarms ∧
    (alarms.map Alarm.anonymous).Perm (alarmList.map Alarm.anonymous)
  removed : ∀ env t', GroupRepositoryImp.remove env model t = .ok t' →
    ∀ a ∈ model.alarmList, a.alarmID ∉ t'.alarms.keys

/-- Reading a stored list back gives the alarms with their new identities. -/
theorem Store.toModel_addGroup {s : Store} {u : UUIDs} (hu : s.Fresh u) (group : Group) :
    (s.addGroup (group.toRealmEntity u)).toModel (group.toRealmEntity u).toRow =
      some { group with
        groupID := u 0
        alarmList := group.alarmList.mapIdx fun i a => { a with alarmID := u (i + 1) } } := by
  have hlinked : (s.addGroup (group.toRealmEntity u)).linkedAlarms (group.toRealmEntity u).toRow =
      (group.toRealmEntity u).alarmList := by
    refine Table.filterMap_find?_keys fun a ha => ?_
    rw [(Store.rows_addGroup hu group).2]
    exact List.mem_append_right _ ha
  have hdecode : (group.toRealmEntity u).alarmList.mapM RealmAlarm.toModel =
      some (group.alarmList.mapIdx fun i a => { a with alarmID := u (i + 1) }) := by
    rw [mapM_of_isSome fun a ha => (group.decodable_toRealmEntity u a ha).isSome_toModel,
      Group.toRealmEntity, List.mapIdx_eq_zipIdx_map, List.mapIdx_eq_zipIdx_map,
      List.filterMap_map]
    simp
  rw [Store.toModel, hlinked, hdecode]
  rfl

/-- A saved group finds none of its alarms: no stored alarm names its key. -/
theorem Store.alarmsOf_addGroup {s : Store} {u : UUIDs} (hu : s.Fresh u) {group : Group}
    (hnew : ∀ a ∈ group.alarmList, a.groupID ≠ u 0) :
    (s.addGroup (group.toRealmEntity u)).alarmsOf (u 0) = [] := by
  rw [Store.alarmsOf, (Store.rows_addGroup hu group).2, List.filter_append, ← Store.alarmsOf,
    hu.alarmsOf 0, List.nil_append]
  refine List.filter_eq_nil_iff.2 fun a ha => ?_
  obtain ⟨i, hi, rfl⟩ := List.mem_mapIdx.1 ha
  rw [decide_eq_true_eq]
  exact hnew _ (List.getElem_mem hi)

/-- **When a saved group owns its alarms**: exactly when it has none.  The `UUID`
drawn for the group is new to the store and to the alarms it is given. -/
theorem save_owns_alarms_iff {s t : Store} {env : Env} {group : Group} {id : String}
    (hu : s.Fresh env.uuidString) (hnew : ∀ a ∈ group.alarmList, a.groupID ≠ env.uuidString 0)
    (h : GroupRepositoryImp.save env group s = .ok (id, t)) :
    ∃ model, (t.groups.find? id).bind t.toModel = some model ∧
      model.alarmList.map Alarm.anonymous = group.alarmList.map Alarm.anonymous ∧
      (model.OwnsAlarms group.alarmList t ↔ group.alarmList = []) := by
  rw [GroupRepositoryImp.save_eq] at h
  split at h
  case isFalse => exact absurd h (by simp)
  case isTrue =>
    cases h
    have hmodel := Store.toModel_addGroup hu group
    have hnone := Store.alarmsOf_addGroup hu hnew
    obtain ⟨hgroups, halarms⟩ := Store.rows_addGroup hu group
    have hrow : (group.toRealmEntity env.uuidString).toRow ∈
        (s.addGroup (group.toRealmEntity env.uuidString)).groups.rows := by
      rw [hgroups]
      exact List.mem_append_right _ List.mem_cons_self
    have hfind : (s.addGroup (group.toRealmEntity env.uuidString)).groups.find?
        (env.uuidString 0) = some (group.toRealmEntity env.uuidString).toRow :=
      Table.find?_of_mem hrow
    refine ⟨_, by rw [hfind, Option.bind_some, hmodel], ?_, ?_, ?_⟩
    · refine List.ext_getElem (by simp) fun i hi hi' => ?_
      simp [Alarm.anonymous]
    · -- the query returns nothing, so there was nothing to return
      rintro ⟨⟨alarms, hfetch, hperm⟩, -⟩
      rw [AlarmRepositoryImp.fetchAllAlarms, hnone] at hfetch
      cases hfetch
      exact List.map_eq_nil_iff.1 hperm.symm.eq_nil
    · intro hnil
      refine ⟨⟨[], ?_, by simp [hnil]⟩, ?_⟩
      · rw [AlarmRepositoryImp.fetchAllAlarms, hnone]
        rfl
      · simp [hnil]

/-- The alarm of a saved group is stored, but the group does not find it, and
removing the group leaves it in the store. -/
theorem save_orphans_alarms :
    ∃ id t model t', GroupRepositoryImp.save ⟨Sample.drawn 2, true⟩
        { groupName := "Work", alarmList := [Sample.alarm] } Store.empty = .ok (id, t) ∧
      (t.groups.find? id).bind t.toModel = some model ∧ model.alarmList.length = 1 ∧
      AlarmRepositoryImp.fetchAllAlarms t model = some [] ∧
      GroupRepositoryImp.remove ⟨Sample.drawn 4, true⟩ model t = .ok t' ∧
      t'.groups.keys = [] ∧ t'.alarms.keys = model.alarmList.map Alarm.alarmID :=
  ⟨_, _, _, _, rfl, rfl, rfl, rfl, rfl, rfl, rfl⟩

/-- A group saved with one alarm does not own it. -/
theorem save_owns_alarms_iff_sample :
    ∃ id t, GroupRepositoryImp.save ⟨Sample.drawn 2, true⟩
        { groupName := "Work", alarmList := [Sample.alarm] } Store.empty = .ok (id, t) ∧
      ∃ model, (t.groups.find? id).bind t.toModel = some model ∧
        ¬ model.OwnsAlarms [Sample.alarm] t := by
  have hsave : GroupRepositoryImp.save ⟨Sample.drawn 2, true⟩
      { groupName := "Work", alarmList := [Sample.alarm] } Store.empty = .ok ("xxx", _) := rfl
  obtain ⟨model, hmodel, -, hiff⟩ :=
    save_owns_alarms_iff (Sample.fresh_drawn (by decide)) (by decide) hsave
  exact ⟨_, _, hsave, model, hmodel, fun hc => absurd (hiff.1 hc) (by decide)⟩

end Alarma
