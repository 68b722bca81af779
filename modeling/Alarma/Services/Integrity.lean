import Alarma.Services.Decoding

/-!
# Referential integrity

That an alarm belongs to a group is recorded twice: in the foreign key
`groupID` of the alarm, which `fetchAllAlarms` and the cascade of `remove` go
by, and in the list `alarmList` of the group, which `fetchAllGroups` reads.
`Store.Integrity` says that the two records agree.

* `Call.Coherent` — the calls the app makes: a group is saved without alarms,
  an alarm is appended to the group its foreign key names, and alarms are never
  saved on their own.
* `Integrity.effect` — every coherent call keeps integrity, whatever its
  arguments and whether or not it commits; `integrity_of_reachable` is the same
  for runs.
* `referential_integrity` — in every reachable state the two readers return the
  same alarms, and every alarm is in exactly one list, once.
-/

namespace Alarma

open Keyed

/-- The two records of what belongs to a group agree. -/
structure Store.Integrity (s : Store) : Prop where
  /-- Stored weekdays are raw values of `Weekdays`. -/
  decodable : s.Decodable
  /-- A foreign key names a stored group. -/
  owned : ∀ a ∈ s.alarms.rows, a.groupID ∈ s.groups.keys
  /-- A list links exactly the alarms whose foreign key names its group. -/
  listed : ∀ row ∈ s.groups.rows,
    row.alarmList.Perm ((s.alarmsOf row.groupID).map RealmAlarm.alarmID)

theorem Store.integrity_empty : Store.empty.Integrity :=
  ⟨by simp [Store.Decodable], by simp, by simp⟩

/-! ## What integrity says about the readers -/

section Readers

variable {s : Store} (hs : s.Integrity)
include hs

/-- The alarms a list links are the alarms that name the group. -/
theorem Store.Integrity.linkedAlarms_perm {row : GroupRow} (hrow : row ∈ s.groups.rows) :
    (s.linkedAlarms row).Perm (s.alarmsOf row.groupID) := by
  have hfind : ((s.alarmsOf row.groupID).map RealmAlarm.alarmID).filterMap s.alarms.find? =
      s.alarmsOf row.groupID :=
    Table.filterMap_find?_keys fun a ha => (Store.mem_alarmsOf.1 ha).1
  have hperm := (hs.listed row hrow).filterMap s.alarms.find?
  rwa [hfind] at hperm

/-- **The two readers agree** on every stored group. -/
theorem Store.Integrity.readers_agree {row : GroupRow} (hrow : row ∈ s.groups.rows) {g : Group}
    (hg : s.toModel row = some g) :
    ∃ alarms, AlarmRepositoryImp.fetchAllAlarms s g = some alarms ∧ alarms.Perm g.alarmList := by
  rw [hs.decodable.toModel_eq row, Option.some.injEq] at hg
  subst hg
  exact ⟨_, hs.decodable.fetchAllAlarms_eq _, ((hs.linkedAlarms_perm hrow).filterMap _).symm⟩

/-- The list of the group an alarm names links the alarm once. -/
theorem Store.Integrity.count_eq_one {a : RealmAlarm} (ha : a ∈ s.alarms.rows) {row : GroupRow}
    (hrow : row ∈ s.groups.rows) (hid : row.groupID = a.groupID) :
    row.alarmList.count a.alarmID = 1 := by
  have hnodup : ((s.alarmsOf row.groupID).map RealmAlarm.alarmID).Nodup :=
    s.alarms.nodup.sublist (List.filter_sublist.map _)
  have hmem : a.alarmID ∈ (s.alarmsOf row.groupID).map RealmAlarm.alarmID :=
    (Store.mem_map_alarmsOf ha).2 hid.symm
  rw [(hs.listed row hrow).count_eq]
  exact List.count_eq_one_of_mem hnodup hmem

/-- A list only links alarms that name its group. -/
theorem Store.Integrity.groupID_of_linked {a : RealmAlarm} (ha : a ∈ s.alarms.rows)
    {row : GroupRow} (hrow : row ∈ s.groups.rows) (hlink : a.alarmID ∈ row.alarmList) :
    a.groupID = row.groupID :=
  (Store.mem_map_alarmsOf ha).1 ((hs.listed row hrow).mem_iff.1 hlink)

/-- No list links an alarm that names another group. -/
theorem Store.Integrity.notMem_of_other {row : GroupRow} (hrow : row ∈ s.groups.rows)
    {groupID : String} (hne : row.groupID ≠ groupID) :
    ∀ id ∈ row.alarmList, id ∉ (s.alarmsOf groupID).map RealmAlarm.alarmID := by
  intro id hid hother
  obtain ⟨a, ha, rfl⟩ := List.mem_map.1 hother
  obtain ⟨harow, hgroup⟩ := Store.mem_alarmsOf.1 ha
  exact hne ((hs.groupID_of_linked harow hrow hid).symm.trans hgroup)

/-- **Every alarm is in exactly one list, once.** -/
theorem Store.Integrity.unique_list {a : RealmAlarm} (ha : a ∈ s.alarms.rows) :
    ∃ row ∈ s.groups.rows, row.groupID = a.groupID ∧ row.alarmList.count a.alarmID = 1 ∧
      ∀ row' ∈ s.groups.rows, a.alarmID ∈ row'.alarmList → row' = row := by
  obtain ⟨row, hrow, hid⟩ := Table.mem_keys.1 (hs.owned a ha)
  refine ⟨row, hrow, hid, hs.count_eq_one ha hrow hid, fun row' hrow' hlink => ?_⟩
  have hid' := hs.groupID_of_linked ha hrow' hlink
  exact s.groups.eq_of_key_eq hrow' hrow (hid'.symm.trans hid.symm)

end Readers

/-! ## The calls that keep integrity -/

/-- The calls the app makes. -/
def Call.Coherent : Call → Prop
  | saveGroup group => group.alarmList = []
  | update alarm id => alarm.groupID = id
  | saveAlarm _ => False
  | removeGroup _ | enableGroup _ _ | enableAlarm _ _ | removeAlarm _ => True

/-- A group saved without alarms adds a row with an empty list. -/
theorem Store.addGroup_of_nil {s : Store} {u : UUIDs} (hu : s.Fresh u) {group : Group}
    (h : group.alarmList = []) :
    (s.addGroup (group.toRealmEntity u)).groups.rows =
        s.groups.rows ++ [⟨u 0, group.groupName, group.interval, group.isEnabled, []⟩] ∧
      (s.addGroup (group.toRealmEntity u)).alarms = s.alarms := by
  refine ⟨?_, by simp [Group.toRealmEntity, h]⟩
  rw [(Store.rows_addGroup hu group).1]
  simp [RealmGroup.toRow, Group.toRealmEntity, h]

theorem Store.Integrity.saveGroup {s : Store} (hs : s.Integrity) {u : UUIDs} (hu : s.Fresh u)
    {group : Group} (h : group.alarmList = []) :
    (s.addGroup (group.toRealmEntity u)).Integrity := by
  obtain ⟨hgroups, halarms⟩ := Store.addGroup_of_nil hu h
  refine ⟨hs.decodable.addGroup group u, ?_, ?_⟩
  · intro a ha
    rw [halarms] at ha
    rw [Table.keys, hgroups, List.map_append]
    exact List.mem_append_left _ (hs.owned a ha)
  · intro row hrow
    rw [Store.alarmsOf, halarms, ← Store.alarmsOf]
    rw [hgroups, List.mem_append, List.mem_singleton] at hrow
    rcases hrow with hold | rfl
    · exact hs.listed row hold
    · rw [hu.alarmsOf 0]
      exact List.Perm.refl _

/-- Deleting alarms keeps lists and foreign keys in step. -/
theorem Store.listed_deleteAlarms {s : Store} (ids : List String)
    (hs : ∀ row ∈ s.groups.rows,
      row.alarmList.Perm ((s.alarmsOf row.groupID).map RealmAlarm.alarmID)) :
    ∀ row ∈ (s.deleteAlarms ids).groups.rows,
      row.alarmList.Perm (((s.deleteAlarms ids).alarmsOf row.groupID).map RealmAlarm.alarmID) := by
  intro row hrow
  obtain ⟨old, hold, rfl⟩ := List.mem_map.1 hrow
  have hlist := (hs old hold).filter fun id => decide (id ∉ ids)
  rw [List.filter_map] at hlist
  exact hlist.trans ((s.alarmsOf_deleteAlarms ids old.groupID).map _).symm

theorem Store.Integrity.removeAlarm {s : Store} (hs : s.Integrity) (ids : List String) :
    (s.deleteAlarms ids).Integrity := by
  refine ⟨hs.decodable.deleteAlarms ids, ?_, Store.listed_deleteAlarms ids hs.listed⟩
  intro a ha
  rw [Store.keys_deleteAlarms]
  exact hs.owned a (Table.mem_removeAll.1 ha).1

/-- The cascade of `GroupRepositoryImp.remove` goes by the foreign key, and
takes with the group exactly the alarms that would have been orphaned. -/
theorem Store.Integrity.cascade {s : Store} (hs : s.Integrity) (groupID : String) :
    (s.cascade groupID).Integrity := by
  refine ⟨?_, ?_, Store.listed_deleteAlarms _ fun row hrow => ?_⟩
  · intro a ha
    exact hs.decodable a (Table.mem_removeAll.1 ha).1
  · intro a ha
    obtain ⟨hmem, hids⟩ := Table.mem_removeAll.1 ha
    have hne : a.groupID ≠ groupID := fun hc => hids ((Store.mem_map_alarmsOf hmem).2 hc)
    obtain ⟨row, hrow, hid⟩ := Table.mem_keys.1 (hs.owned a hmem)
    rw [Store.cascade, Store.keys_deleteAlarms, Store.groups_deleteGroup]
    exact Table.mem_keys.2 ⟨row, Table.mem_remove.2 ⟨hrow, hid ▸ hne⟩, hid⟩
  · exact hs.listed row (Table.mem_remove.1 hrow).1

/-- The alarms the cascade spares are those that name another group. -/
theorem Store.alarms_cascade_perm (s : Store) (groupID : String) :
    (s.cascade groupID).alarms.rows.Perm
      (s.alarms.rows.filter fun a => a.groupID ≠ groupID) := by
  refine (s.alarms.removeAll_perm _).trans (List.Perm.of_eq ?_)
  refine List.filter_congr fun a ha => ?_
  simp [Store.mem_map_alarmsOf ha]

/-- The groups the cascade spares keep their rows, lists included. -/
theorem Store.Integrity.groups_cascade_perm {s : Store} (hs : s.Integrity) (groupID : String) :
    (s.cascade groupID).groups.rows.Perm
      (s.groups.rows.filter fun row => row.groupID ≠ groupID) := by
  have hkeep : ∀ row ∈ (s.groups.remove groupID).rows,
      row.unlink ((s.alarmsOf groupID).map RealmAlarm.alarmID) = id row := by
    intro row hrow
    obtain ⟨hmem, hne⟩ := Table.mem_remove.1 hrow
    have hlist := List.filter_eq_self.2 fun id hid =>
      decide_eq_true (hs.notMem_of_other hmem hne id hid)
    rw [GroupRow.unlink, hlist, id]
  rw [Store.cascade, Store.rows_deleteAlarms, Store.groups_deleteGroup, List.map_congr_left hkeep,
    List.map_id]
  exact s.groups.remove_perm groupID

/-- **What `remove(group:)` removes**: the group and the alarms that name it.
Every other group keeps its row, list included. -/
theorem Store.Integrity.remove_perm {s t : Store} (hs : s.Integrity) {env : Env} {group : Group}
    (h : GroupRepositoryImp.remove env group s = .ok t) :
    t.groups.rows.Perm (s.groups.rows.filter fun row => row.groupID ≠ group.groupID) ∧
      t.alarms.rows.Perm (s.alarms.rows.filter fun a => a.groupID ≠ group.groupID) := by
  have hblock := Store.block_of_write h
  cases hf : s.groups.find? group.groupID with
  | none =>
    rw [hf] at hblock
    cases hblock
    -- no group is stored under the key, so no alarm names it
    have hkey := Table.find?_eq_none_iff.1 hf
    have halarms : ∀ a ∈ s.alarms.rows, a.groupID ≠ group.groupID := fun a ha hc =>
      hkey (hc ▸ hs.owned a ha)
    rw [Table.filter_key_ne hkey, List.filter_eq_self.2 (by simpa using halarms)]
    exact ⟨List.Perm.refl _, List.Perm.refl _⟩
  | some row =>
    rw [hf] at hblock
    have hcascade : s.cascade group.groupID = t := by
      rw [← Table.find?_key hf]
      exact Option.some.inj hblock
    subst hcascade
    exact ⟨hs.groups_cascade_perm _, s.alarms_cascade_perm _⟩

/-- An alarm appended to the list of the group it names. -/
theorem Store.Integrity.update {s t : Store} (hs : s.Integrity) {alarm : RealmAlarm}
    (hdec : t.Decodable) (hid : alarm.groupID ∈ s.groups.keys)
    (h : s.appendAlarm alarm.groupID alarm = some t) : t.Integrity := by
  obtain ⟨hgroups, halarms, hkeys⟩ := Store.rows_appendAlarm h
  refine ⟨hdec, ?_, ?_⟩
  · intro a ha
    rw [hkeys]
    rw [halarms, List.mem_append, List.mem_singleton] at ha
    rcases ha with hold | rfl
    · exact hs.owned a hold
    · exact hid
  · intro row hrow
    rw [hgroups] at hrow
    obtain ⟨old, hold, rfl⟩ := List.mem_map.1 hrow
    have hlist := hs.listed old hold
    by_cases hg : old.groupID = alarm.groupID
    · rw [if_pos hg, GroupRow.alarmList_link, GroupRow.groupID_link,
        Store.alarmsOf_appendAlarm h, if_pos hg.symm, List.map_append]
      exact hlist.append_right _
    · rw [if_neg hg, Store.alarmsOf_appendAlarm h, if_neg (Ne.symm hg), List.append_nil]
      exact hlist

theorem Store.Integrity.enableGroup {s : Store} (hs : s.Integrity) (id : String) (b : Bool) :
    (s.setGroupEnabled id b).Integrity := by
  refine ⟨hs.decodable, ?_, ?_⟩
  · intro a ha
    rw [Store.keys_setGroupEnabled]
    exact hs.owned a ha
  · intro row hrow
    obtain ⟨old, hold, rfl⟩ := List.mem_map.1 hrow
    have hlist := hs.listed old hold
    split <;> exact hlist

theorem Store.Integrity.enableAlarm {s : Store} (hs : s.Integrity) (id : String) (b : Bool) :
    (s.setAlarmEnabled id b).Integrity := by
  refine ⟨hs.decodable.setAlarmEnabled id b, ?_, ?_⟩
  · intro a ha
    obtain ⟨old, hold, rfl⟩ := List.mem_map.1 ha
    have hown := hs.owned old hold
    split <;> exact hown
  · intro row hrow
    have hkey : RealmAlarm.alarmID ∘
        (fun a => if a.alarmID = id then { a with isEnabled := b } else a) = RealmAlarm.alarmID := by
      funext a
      simp only [Function.comp_apply]
      split <;> rfl
    rw [Store.alarmsOf_setAlarmEnabled, List.map_map, hkey]
    exact hs.listed row hrow

/-- **Every coherent call keeps integrity**, whatever it does. -/
theorem Store.Integrity.effect {s t : Store} {call : Call} {env : Env} (hs : s.Integrity)
    (hu : s.Fresh env.uuidString) (hc : call.Coherent) (h : call.Effect env s t) : t.Integrity := by
  cases h with
  | unchanged => exact hs
  | savedGroup group => exact hs.saveGroup hu hc
  | removedGroup _ => exact hs.cascade _
  | @updated alarm id _ _ hid ht =>
    have hkey : alarm.groupID = id := hc
    subst hkey
    exact hs.update (hs.decodable.effect (.updated hid ht)) hid ht
  | enabledGroup => exact hs.enableGroup _ _
  | savedAlarm => exact hc.elim
  | enabledAlarm => exact hs.enableAlarm _ _
  | removedAlarm => exact hs.removeAlarm _

/-! ## Runs -/

/-- The store, driven by coherent calls only. -/
def coherentRepository : Machine Store (Call × Env) :=
  repository.restrict fun _ e => e.1.Coherent

theorem Store.Integrity.step {s t : Store} {e : Call × Env} (hs : s.Integrity)
    (he : coherentRepository.enabled s e) (ht : coherentRepository.step s e = some t) :
    t.Integrity :=
  hs.effect he.1 he.2 (effect_of_step ht)

theorem integrity_of_reachable {s : Store} (h : coherentRepository.Reachable Store.empty s) :
    s.Integrity :=
  h.invariant (fun hs he ht => hs.step he ht) Store.integrity_empty

/-- **Referential integrity.**  After any run of coherent calls from the empty
store, with any arguments and any of the writes failing: for every group that
`fetchAllGroups` returns, `fetchAllAlarms` returns the alarms of its `alarmList`
up to order; and every stored alarm names a stored group, whose list has it
once, and is in no other list. -/
theorem referential_integrity {s : Store} (h : coherentRepository.Reachable Store.empty s) :
    (∃ groups, GroupRepositoryImp.fetchAllGroups s = some groups ∧
      groups.map Group.groupID = s.groups.keys ∧
      ∀ g ∈ groups, ∃ alarms,
        AlarmRepositoryImp.fetchAllAlarms s g = some alarms ∧ alarms.Perm g.alarmList) ∧
    ∀ a ∈ s.alarms.rows,
      ∃ row ∈ s.groups.rows, row.groupID = a.groupID ∧ row.alarmList.count a.alarmID = 1 ∧
        ∀ row' ∈ s.groups.rows, a.alarmID ∈ row'.alarmList → row' = row := by
  have hs := integrity_of_reachable h
  refine ⟨⟨_, hs.decodable.fetchAllGroups_eq, ?_, fun g hg => ?_⟩, fun a ha => hs.unique_list ha⟩
  · have hmap : s.groups.rows.filterMap (fun row => (s.toModel row).map Group.groupID) =
        s.groups.rows.filterMap fun row => some row.groupID :=
      List.filterMap_congr fun row _ => by rw [hs.decodable.toModel_eq row]; rfl
    rw [List.map_filterMap, hmap, Table.keys, List.filterMap_eq_map']
  · obtain ⟨row, hrow, hg⟩ := List.mem_filterMap.1 hg
    exact hs.readers_agree hrow hg

theorem Sample.filed_reachable : coherentRepository.Reachable Store.empty Sample.filed :=
  ⟨Sample.calls, Machine.restrict_run_iff.2 ⟨Sample.run_calls, rfl, rfl, trivial⟩, rfl⟩

/-- The small store is reachable, and both readers return its alarm. -/
theorem referential_integrity_filed :
    ∃ groups, GroupRepositoryImp.fetchAllGroups Sample.filed = some groups ∧
      groups.map Group.groupID = ["x"] ∧ ∀ g ∈ groups, ∃ alarms,
        AlarmRepositoryImp.fetchAllAlarms Sample.filed g = some alarms ∧
          alarms.Perm g.alarmList :=
  (referential_integrity Sample.filed_reachable).1

end Alarma
