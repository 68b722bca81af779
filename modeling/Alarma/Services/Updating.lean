import Alarma.Services.Decoding

/-!
# Appending an alarm to a group

`GroupRepositoryImp.update` works on the group through optional chaining, so it
has three ways to end: it throws, it finds the group and stores the alarm, or it
does not find the group and returns as if nothing were wrong.

* `Store.Files` — the alarm is one more record of the store, and both readers
  return it under the group.
* `update_files_or_skips` — in a reachable store the three outcomes are all
  there is, and the presence of the group decides between the last two.
-/

namespace Alarma

open Keyed

/-- `t` is the store `s` with one more alarm, filed under the group `id`. -/
structure Store.Files (s t : Store) (id : String) (alarm : Alarm) : Prop where
  /-- The store holds exactly one more alarm, which decodes to the given one. -/
  stored : ∃ row : RealmAlarm, t.alarms.rows = s.alarms.rows ++ [row] ∧ row.toModel = some alarm
  /-- The group has it in its list. -/
  listed : ∃ groups, GroupRepositoryImp.fetchAllGroups t = some groups ∧
    ∃ group ∈ groups, group.groupID = id ∧ alarm ∈ group.alarmList
  /-- A query for the group returns it. -/
  fetched : ∀ group : Group, group.groupID = id → ∃ alarms,
    AlarmRepositoryImp.fetchAllAlarms t group = some alarms ∧ alarm ∈ alarms

/-- The new link finds the new alarm. -/
theorem Store.mem_linkedAlarms_appendAlarm {s t : Store} {groupID : String} {alarm : RealmAlarm}
    (h : s.appendAlarm groupID alarm = some t) (row : GroupRow) :
    alarm ∈ t.linkedAlarms (row.link alarm.alarmID) := by
  have halarm : alarm ∈ t.alarms.rows := by
    rw [(Store.rows_appendAlarm h).2.1]
    exact List.mem_append_right _ List.mem_cons_self
  refine List.mem_filterMap.2 ⟨alarm.alarmID, ?_, Table.find?_of_mem halarm⟩
  rw [GroupRow.alarmList_link]
  exact List.mem_append_right _ List.mem_cons_self

/-- **Appending to a stored group files the alarm.** -/
theorem Store.files_appendAlarm {s t : Store} (hs : s.Decodable) {row : GroupRow}
    (hrow : row ∈ s.groups.rows) {alarm : Alarm} (hid : alarm.groupID = row.groupID)
    {uuidString : String}
    (h : s.appendAlarm row.groupID (alarm.toRealmEntity uuidString) = some t) :
    s.Files t row.groupID { alarm with alarmID := uuidString } := by
  obtain ⟨hgroups, halarms, -⟩ := Store.rows_appendAlarm h
  have hdec : t.Decodable := hs.concat halarms
  have hmodel := alarm.toModel_toRealmEntity uuidString
  refine ⟨⟨_, halarms, hmodel⟩, ?_, ?_⟩
  · have hnew : row.link uuidString ∈ t.groups.rows := by
      rw [hgroups]
      exact List.mem_map.2 ⟨row, hrow, if_pos rfl⟩
    have hlinked := Store.mem_linkedAlarms_appendAlarm h row
    have hgroup := List.mem_filterMap.2 ⟨_, hnew, hdec.toModel_eq _⟩
    exact ⟨_, hdec.fetchAllGroups_eq, _, hgroup, rfl, List.mem_filterMap.2 ⟨_, hlinked, hmodel⟩⟩
  · intro group hgroup
    refine ⟨_, hdec.fetchAllAlarms_eq group, List.mem_filterMap.2 ⟨_, ?_, hmodel⟩⟩
    refine Store.mem_alarmsOf.2 ⟨?_, hid.trans hgroup.symm⟩
    rw [halarms]
    exact List.mem_append_right _ List.mem_cons_self

/-- **An update throws, files the alarm, or skips it.**  In a reachable store, an
update with an alarm of the group `id` either throws and leaves the store as it
was, or returns; then the alarm is filed if the group is stored, and the store
is unchanged if it is not. -/
theorem update_files_or_skips {s : Store} (hs : repository.Reachable Store.empty s) {env : Env}
    (hu : s.Fresh env.uuidString) {id : String} {alarm : Alarm} (hid : alarm.groupID = id) :
    (GroupRepositoryImp.update env alarm id s = .error .thrown ∧
        s.after (GroupRepositoryImp.update env alarm id s) = some s) ∨
      ∃ t, GroupRepositoryImp.update env alarm id s = .ok t ∧
        (id ∈ s.groups.keys → s.Files t id { alarm with alarmID := env.uuidString 0 }) ∧
        (id ∉ s.groups.keys → t = s) := by
  have hdec := decodable_of_reachable hs
  have hsome := repository_step_isSome (s := s) (e := (.update alarm id, env)) hu
  cases hupdate : GroupRepositoryImp.update env alarm id s with
  | error failure =>
    cases failure with
    | thrown => exact Or.inl ⟨rfl, rfl⟩
    | trapped =>
      have htrap : repository.step s (.update alarm id, env) = none := by
        show s.after (GroupRepositoryImp.update env alarm id s) = none
        rw [hupdate]
        rfl
      rw [htrap] at hsome
      exact absurd hsome (by simp)
  | ok t =>
    refine Or.inr ⟨t, rfl, ?_⟩
    have hblock := Store.block_of_write hupdate
    cases hf : s.groups.find? id with
    | none =>
      rw [hf] at hblock
      have hkey := Table.find?_eq_none_iff.1 hf
      exact ⟨fun h => absurd h hkey, fun _ => (Option.some.inj hblock).symm⟩
    | some row =>
      rw [hf] at hblock
      have hrow := Table.find?_mem hf
      have hkey := Table.find?_key hf
      refine ⟨fun _ => ?_, fun h => absurd (Table.find?_keys hf) h⟩
      rw [← hkey]
      exact Store.files_appendAlarm hdec hrow (hid.trans hkey.symm) hblock

/-- Updating a group that is not stored returns, and the alarm is nowhere. -/
theorem update_skips_empty :
    GroupRepositoryImp.update ⟨Sample.drawn 0, true⟩ Sample.alarm Sample.alarm.groupID Store.empty =
      .ok Store.empty ∧ Store.empty.alarms.rows = [] :=
  ⟨rfl, rfl⟩

/-- Updating the one stored group files the alarm. -/
theorem update_files_grouped :
    ∃ t, GroupRepositoryImp.update ⟨Sample.drawn 1, true⟩ Sample.alarm "x" Sample.grouped = .ok t ∧
      Sample.grouped.Files t "x" { Sample.alarm with alarmID := "xx" } := by
  have hfresh : Sample.grouped.Fresh (Env.uuidString ⟨Sample.drawn 1, true⟩) :=
    Sample.fresh_drawn (by decide)
  have hid : Sample.alarm.groupID = "x" := rfl
  rcases update_files_or_skips Sample.grouped_reachable hfresh hid with ⟨h, -⟩ | ⟨t, h, hf, -⟩
  · exact absurd h (by decide)
  · exact ⟨t, h, hf (by decide)⟩

end Alarma
