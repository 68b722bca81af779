import Alarma.Services.TimeOrder
import Alarma.Services.Saving

/-!
# Two ways of storing an alarm

`AlarmRepositoryImp.save` adds an alarm to the alarm table, and
`GroupRepositoryImp.update` appends it to the list of its group, which adds it to
the table as well.

* `Store.Renamed` — two stores are the same, up to the identities of their alarms.
* `stores_never_agree` — the two calls never leave such stores: they agree on the
  alarm table, and so does `fetchAllAlarms`, but the lists that `fetchAllGroups`
  reads have one alarm more after `update`.
-/

namespace Alarma

open Keyed

/-- `t` is the store `s` with the identities of its alarms renamed, up to the order
of rows. -/
structure Store.Renamed (rename : String → String) (s t : Store) : Prop where
  groups : t.groups.rows.Perm <| s.groups.rows.map fun row =>
    { row with alarmList := row.alarmList.map rename }
  alarms : t.alarms.rows.Perm <| s.alarms.rows.map fun a =>
    { a with alarmID := rename a.alarmID }

/-- How many links the lists of the store hold. -/
def Store.links (s : Store) : ℕ := (s.groups.rows.map fun row => row.alarmList.length).sum

/-- A renaming keeps their number. -/
theorem Store.Renamed.links_eq {rename : String → String} {s t : Store} (h : s.Renamed rename t) :
    t.links = s.links := by
  have hperm := h.groups.map fun row => row.alarmList.length
  rw [Store.links, hperm.sum_eq, List.map_map, Store.links]
  simp [Function.comp_def]

/-- Appending to the rows with one key. -/
theorem sum_length_link (rows : List GroupRow) (groupID alarmID : String) :
    ((rows.map fun row => if row.groupID = groupID then row.link alarmID else row).map
        fun row => row.alarmList.length).sum =
      (rows.map fun row => row.alarmList.length).sum +
        (rows.map GroupRow.groupID).count groupID := by
  induction rows with
  | nil => simp
  | cons row rows ih =>
    simp only [List.map_cons, List.sum_cons, ih]
    by_cases hid : row.groupID = groupID
    · rw [if_pos hid, GroupRow.alarmList_link, List.length_append, List.length_singleton, hid,
        List.count_cons_self]
      omega
    · rw [if_neg hid, List.count_cons_of_ne hid]
      omega

/-- The lists have one link more after an append to a stored group. -/
theorem Store.links_appendAlarm {s t : Store} {groupID : String} {alarm : RealmAlarm}
    (hid : groupID ∈ s.groups.keys) (h : s.appendAlarm groupID alarm = some t) :
    t.links = s.links + 1 := by
  rw [Store.links, (Store.rows_appendAlarm h).1, sum_length_link, Store.links]
  exact congrArg _ (List.count_eq_one_of_mem s.groups.nodup hid)

/-- The lists that are read have as many alarms as the store has links. -/
theorem Store.Decodable.links_eq {s : Store} (hs : s.Decodable) :
    ∃ groups, GroupRepositoryImp.fetchAllGroups s = some groups ∧
      (groups.map fun g => g.alarmList.length).sum = s.links := by
  refine ⟨_, hs.fetchAllGroups_eq, ?_⟩
  have hlength : ∀ row ∈ s.groups.rows,
      (s.toModel row).map (fun g => g.alarmList.length) = some row.alarmList.length := by
    intro row hrow
    have hdecoded : ((s.linkedAlarms row).filterMap RealmAlarm.toModel).length =
        (s.linkedAlarms row).length := List.filterMap_length_eq_length.2 fun a ha =>
      (hs a (Store.mem_linkedAlarms ha).1).isSome_toModel
    rw [hs.toModel_eq row, Option.map_some, hdecoded, ← Store.map_linkedAlarms hrow,
      List.length_map]
  rw [List.map_filterMap, List.filterMap_congr hlength, List.filterMap_eq_map', Store.links]

/-- Alarms that differ in their identities alone decode to such alarms. -/
theorem anonymous_alarmsOf {s t t' : Store} {alarm : Alarm} {uuid uuid' : String}
    (hs : s.Decodable) (halarms : t.alarms.rows = s.alarms.rows ++ [alarm.toRealmEntity uuid])
    (halarms' : t'.alarms.rows = s.alarms.rows ++ [alarm.toRealmEntity uuid']) (group : Group) :
    ∃ alarms alarms', AlarmRepositoryImp.fetchAllAlarms t group = some alarms ∧
      AlarmRepositoryImp.fetchAllAlarms t' group = some alarms' ∧
      alarms'.map Alarm.anonymous = alarms.map Alarm.anonymous := by
  refine ⟨_, _, (hs.concat halarms).fetchAllAlarms_eq group,
    (hs.concat halarms').fetchAllAlarms_eq group, ?_⟩
  rw [Store.alarmsOf, Store.alarmsOf, halarms, halarms', List.filter_append, List.filter_append]
  have hkey : ∀ id, (alarm.toRealmEntity id).groupID = alarm.groupID := fun _ => rfl
  by_cases hid : alarm.groupID = group.groupID <;> simp [hkey, hid, Alarm.anonymous]

/-- **The two calls never agree.**  In every store the repositories make, for every
alarm of a stored group: when both calls return, no renaming of the identities of
alarms makes their stores the same.  What they agree on are the alarms of every
group as `fetchAllAlarms` returns them; the lists that `fetchAllGroups` returns have
one alarm more after `update`. -/
theorem stores_never_agree {s t t' : Store} (hs : repository.Reachable Store.empty s)
    {alarm : Alarm} (hid : alarm.groupID ∈ s.groups.keys) {env env' : Env}
    (hsave : AlarmRepositoryImp.save env alarm s = .ok t)
    (hupdate : GroupRepositoryImp.update env' alarm alarm.groupID s = .ok t') :
    (∀ rename, ¬ t.Renamed rename t') ∧
    (∀ group, ∃ alarms alarms', AlarmRepositoryImp.fetchAllAlarms t group = some alarms ∧
      AlarmRepositoryImp.fetchAllAlarms t' group = some alarms' ∧
      alarms'.map Alarm.anonymous = alarms.map Alarm.anonymous) ∧
    ∃ groups groups', GroupRepositoryImp.fetchAllGroups t = some groups ∧
      GroupRepositoryImp.fetchAllGroups t' = some groups' ∧
      (groups'.map fun g => g.alarmList.length).sum =
        (groups.map fun g => g.alarmList.length).sum + 1 := by
  have hdec := decodable_of_reachable hs
  have hadd := Store.block_of_write hsave
  have hblock := Store.block_of_write hupdate
  obtain ⟨row, hrow, hkey⟩ := Table.mem_keys.1 hid
  rw [← hkey, Table.find?_of_mem hrow] at hblock
  have happend : s.appendAlarm row.groupID (alarm.toRealmEntity (env'.uuidString 0)) =
      some t' := hblock
  rw [hkey] at happend
  obtain ⟨hgroups, halarms⟩ := Store.rows_addAlarm hadd
  have halarms' := (Store.rows_appendAlarm happend).2.1
  -- the save leaves the lists alone, and the update lengthens one
  have hlinks : t.links = s.links := by rw [Store.links, hgroups, Store.links]
  have hlinks' : t'.links = s.links + 1 := Store.links_appendAlarm hid happend
  obtain ⟨groups, hfetch, hsum⟩ := (hdec.concat halarms).links_eq
  obtain ⟨groups', hfetch', hsum'⟩ := (hdec.concat halarms').links_eq
  refine ⟨fun rename h => ?_, anonymous_alarmsOf hdec halarms halarms',
    groups, groups', hfetch, hfetch', ?_⟩
  · have hsame := h.links_eq
    omega
  · omega

/-- The alarm is stored either way, and only `update` lists it. -/
theorem saved_alarm_not_listed :
    repository.Reachable Store.empty Sample.grouped ∧ Sample.alarm.groupID ∈ Sample.grouped.groups.keys ∧
      ∃ t, AlarmRepositoryImp.save ⟨Sample.drawn 1, true⟩ Sample.alarm Sample.grouped = .ok t ∧
        GroupRepositoryImp.update ⟨Sample.drawn 1, true⟩ Sample.alarm "x" Sample.grouped =
          .ok Sample.filed ∧
        t.alarms = Sample.filed.alarms ∧ ∀ rename, ¬ t.Renamed rename Sample.filed :=
  ⟨Sample.grouped_reachable, by decide, _, rfl, rfl, rfl, fun _ h => absurd h.links_eq (by decide)⟩

/-- The same two calls. -/
theorem stores_never_agree_grouped :
    ∃ t, AlarmRepositoryImp.save ⟨Sample.drawn 1, true⟩ Sample.alarm Sample.grouped = .ok t ∧
      ∀ rename, ¬ t.Renamed rename Sample.filed := by
  have hsave : AlarmRepositoryImp.save ⟨Sample.drawn 1, true⟩ Sample.alarm Sample.grouped =
      .ok _ := rfl
  have hupdate : GroupRepositoryImp.update ⟨Sample.drawn 1, true⟩ Sample.alarm Sample.alarm.groupID
      Sample.grouped = .ok Sample.filed := rfl
  exact ⟨_, hsave, (stores_never_agree Sample.grouped_reachable (by decide) hsave hupdate).1⟩

end Alarma
