import Alarma.Services.Saving

/-!
# Saving and reading back

`GroupRepositoryImp.save` encodes a group with all its alarms under new `UUID`s,
and `fetchAllGroups` decodes what is stored.

* `Store.Identified` — the primary keys of the store are not empty, and no group
  and alarm share one; `Identified.effect` carries it through any of the seven
  calls, `identified_of_reachable` through a run.
* `fetchAllGroups_addGroup` — after a save the reader returns what it returned
  before, and one group more.
* `save_reads_back` — both together, with the readers of a reachable store.
-/

namespace Alarma

open Keyed

/-! ## Primary keys -/

/-- Primary keys are not empty, and no group has the key of an alarm.  Within its
table a key is unique already. -/
structure Store.Identified (s : Store) : Prop where
  apart : ∀ id ∈ s.groups.keys, id ∉ s.alarms.keys
  groups : ∀ id ∈ s.groups.keys, id ≠ ""
  alarms : ∀ id ∈ s.alarms.keys, id ≠ ""

theorem Store.identified_empty : Store.empty.Identified := by
  refine ⟨?_, ?_, ?_⟩ <;> simp [Table.keys]

/-- All primary keys are pairwise distinct. -/
theorem Store.Identified.nodup {s : Store} (hs : s.Identified) :
    (s.groups.keys ++ s.alarms.keys).Nodup := by
  refine List.nodup_append.2 ⟨s.groups.nodup, s.alarms.nodup, ?_⟩
  rintro a ha b hb rfl
  exact hs.apart a ha hb

/-- Fewer objects. -/
theorem Store.Identified.subset {s t : Store} (hs : s.Identified)
    (hgroups : t.groups.keys ⊆ s.groups.keys) (halarms : t.alarms.keys ⊆ s.alarms.keys) :
    t.Identified :=
  ⟨fun id hid hid' => hs.apart id (hgroups hid) (halarms hid'),
    fun id hid => hs.groups id (hgroups hid), fun id hid => hs.alarms id (halarms hid)⟩

/-- More objects, each under a `UUID` of its own. -/
theorem Store.Identified.extend {s t : Store} (hs : s.Identified) {u : UUIDs} (hu : s.Fresh u)
    (hne : ∀ n, u n ≠ "") (forGroups forAlarms : List ℕ) (hapart : ∀ n ∈ forGroups, n ∉ forAlarms)
    (hgroups : t.groups.keys = s.groups.keys ++ forGroups.map u)
    (halarms : t.alarms.keys = s.alarms.keys ++ forAlarms.map u) : t.Identified := by
  refine ⟨fun id hid hid' => ?_, fun id hid => ?_, fun id hid => ?_⟩
  · rw [hgroups, List.mem_append, List.mem_map] at hid
    rw [halarms, List.mem_append, List.mem_map] at hid'
    rcases hid with hid | ⟨m, hm, rfl⟩
    · rcases hid' with hid' | ⟨n, -, rfl⟩
      · exact hs.apart id hid hid'
      · exact hu.notMem_groups n hid
    · rcases hid' with hid' | ⟨n, hn, heq⟩
      · exact hu.notMem_alarms m hid'
      · exact hapart m hm (hu.1 heq ▸ hn)
  · rw [hgroups, List.mem_append, List.mem_map] at hid
    rcases hid with hid | ⟨m, -, rfl⟩
    · exact hs.groups id hid
    · exact hne m
  · rw [halarms, List.mem_append, List.mem_map] at hid
    rcases hid with hid | ⟨m, -, rfl⟩
    · exact hs.alarms id hid
    · exact hne m

/-- **Every call keeps the primary keys apart**, whatever its arguments. -/
theorem Store.Identified.effect {s t : Store} {call : Call} {env : Env} (hs : s.Identified)
    (hu : s.Fresh env.uuidString) (hne : ∀ n, env.uuidString n ≠ "") (h : call.Effect env s t) :
    t.Identified := by
  cases h with
  | unchanged => exact hs
  | savedGroup group =>
    obtain ⟨hgroups, halarms⟩ := Store.rows_addGroup hu group
    refine hs.extend hu hne [0] ((List.range group.alarmList.length).map Nat.succ) ?_ ?_ ?_
    · simp
    · rw [Table.keys, hgroups, List.map_append]
      rfl
    · rw [Table.keys, halarms, List.map_append, Group.alarmID_toRealmEntity, List.map_map]
      rfl
  | removedGroup _ =>
    refine hs.subset ?_ (Table.keys_removeAll_subset _ _)
    intro id hid
    rw [Store.cascade, Store.keys_deleteAlarms] at hid
    obtain ⟨row, hrow, rfl⟩ := Table.mem_keys.1 hid
    exact Table.key_mem_keys (Table.mem_remove.1 hrow).1
  | updated _ ht =>
    obtain ⟨-, halarms, hkeys⟩ := Store.rows_appendAlarm ht
    refine hs.extend hu hne [] [0] ?_ ?_ ?_
    · simp
    · simp [hkeys]
    · simp [Table.keys, halarms, Alarm.toRealmEntity]
  | enabledGroup => exact hs.subset (by simp) (by simp [Store.setGroupEnabled])
  | savedAlarm ht =>
    obtain ⟨hgroups, halarms⟩ := Store.rows_addAlarm ht
    refine hs.extend hu hne [] [0] ?_ ?_ ?_
    · simp
    · simp [hgroups]
    · simp [Table.keys, halarms, Alarm.toRealmEntity]
  | enabledAlarm => exact hs.subset (by simp) (by simp [Store.setAlarmEnabled])
  | removedAlarm => exact hs.subset (by simp) (Table.keys_removeAll_subset _ _)

/-- The store, driven by calls that draw `UUID`s which are not empty. -/
def uuidRepository : Machine Store (Call × Env) :=
  repository.restrict fun _ e => ∀ n, e.2.uuidString n ≠ ""

theorem identified_of_reachable {s : Store} (h : uuidRepository.Reachable Store.empty s) :
    s.Identified :=
  h.invariant (fun hs he ht => hs.effect he.1 he.2 (effect_of_step ht)) Store.identified_empty

theorem repository_of_uuidRepository {s : Store} (h : uuidRepository.Reachable Store.empty s) :
    repository.Reachable Store.empty s := by
  obtain ⟨tr, hr, hlast⟩ := h
  exact ⟨tr, (Machine.restrict_run_iff.1 hr).1, hlast⟩

/-! ## What the readers return after a save -/

/-- A save leaves the lists of the other groups alone. -/
theorem Store.linkedAlarms_addGroup {s : Store} {u : UUIDs} (hu : s.Fresh u) (group : Group)
    {row : GroupRow} (hrow : row ∈ s.groups.rows) :
    (s.addGroup (group.toRealmEntity u)).linkedAlarms row = s.linkedAlarms row := by
  refine List.filterMap_congr fun id hid => ?_
  obtain ⟨a, ha, rfl⟩ := Table.mem_keys.1 (s.linked row hrow id hid)
  have hkept : a ∈ (s.addGroup (group.toRealmEntity u)).alarms.rows := by
    rw [(Store.rows_addGroup hu group).2]
    exact List.mem_append_left _ ha
  rw [Table.find?_of_mem ha, Table.find?_of_mem hkept]

/-- A group as a save stores it: the identities are new. -/
def Group.saved (group : Group) (u : UUIDs) : Group :=
  { group with
    groupID := u 0
    alarmList := group.alarmList.mapIdx fun i a => { a with alarmID := u (i + 1) } }

/-- Without its identities, a saved group is the group it was. -/
theorem Group.anonymous_saved (group : Group) (u : UUIDs) :
    (group.saved u).groupName = group.groupName ∧ (group.saved u).interval = group.interval ∧
      (group.saved u).isEnabled = group.isEnabled ∧
      (group.saved u).alarmList.map Alarm.anonymous = group.alarmList.map Alarm.anonymous := by
  refine ⟨rfl, rfl, rfl, List.ext_getElem (by simp [Group.saved]) fun i hi hi' => ?_⟩
  simp [Group.saved, Alarm.anonymous]

/-- **Reading after a save** returns what reading returned before, and the saved
group after it. -/
theorem fetchAllGroups_addGroup {s : Store} (hs : s.Decodable) {u : UUIDs} (hu : s.Fresh u)
    (group : Group) : ∃ before, GroupRepositoryImp.fetchAllGroups s = some before ∧
      GroupRepositoryImp.fetchAllGroups (s.addGroup (group.toRealmEntity u)) =
        some (before ++ [group.saved u]) := by
  refine ⟨_, hs.fetchAllGroups_eq, ?_⟩
  have hold : ∀ row ∈ s.groups.rows,
      (s.addGroup (group.toRealmEntity u)).toModel row = s.toModel row := by
    intro row hrow
    rw [Store.toModel, Store.toModel, Store.linkedAlarms_addGroup hu group hrow]
  rw [(hs.addGroup group u).fetchAllGroups_eq, (Store.rows_addGroup hu group).1,
    List.filterMap_append, List.filterMap_congr hold, List.filterMap_cons_some
      (Store.toModel_addGroup hu group)]
  rfl

/-- **Saving and reading back.**  In every store that calls drawing fresh `UUID`s
make, and for every group: when a save of the group returns, `fetchAllGroups`
returns every group it returned before, unchanged, and one more, equal to the given
one but for the new identities; all primary keys of the store are pairwise distinct
and not empty; and no alarm that a reader decodes fails to decode. -/
theorem save_reads_back {s t : Store} (hs : uuidRepository.Reachable Store.empty s) {env : Env}
    (hu : s.Fresh env.uuidString) (hne : ∀ n, env.uuidString n ≠ "") {group : Group} {id : String}
    (h : GroupRepositoryImp.save env group s = .ok (id, t)) :
    (∃ before saved, GroupRepositoryImp.fetchAllGroups s = some before ∧
      GroupRepositoryImp.fetchAllGroups t = some (before ++ [saved]) ∧ saved.groupID = id ∧
      saved.groupName = group.groupName ∧ saved.interval = group.interval ∧
      saved.isEnabled = group.isEnabled ∧
      saved.alarmList.map Alarm.anonymous = group.alarmList.map Alarm.anonymous) ∧
    (t.groups.keys ++ t.alarms.keys).Nodup ∧ (∀ key ∈ t.groups.keys ++ t.alarms.keys, key ≠ "") ∧
    (∀ a ∈ t.alarms.rows, a.toModel.isSome) ∧
    ∀ other, (AlarmRepositoryImp.fetchAllAlarms t other).isSome := by
  have hdec := decodable_of_reachable (repository_of_uuidRepository hs)
  rw [GroupRepositoryImp.save_eq] at h
  split at h
  case isFalse => cases h
  case isTrue =>
    cases h
    have hdec' := hdec.addGroup group env.uuidString
    have hidentified := (identified_of_reachable hs).effect hu hne (.savedGroup group s)
    obtain ⟨before, hbefore, hafter⟩ := fetchAllGroups_addGroup hdec hu group
    refine ⟨⟨before, group.saved env.uuidString, hbefore, hafter, rfl,
      group.anonymous_saved env.uuidString⟩, hidentified.nodup, ?_, ?_, ?_⟩
    · intro key hkey
      exact (List.mem_append.1 hkey).elim (hidentified.groups key) (hidentified.alarms key)
    · exact fun a ha => (hdec' a ha).isSome_toModel
    · intro other
      rw [hdec'.fetchAllAlarms_eq other]
      rfl

/-! ## A second group -/

theorem Sample.drawn_ne_empty (k n : ℕ) : Sample.drawn k n ≠ "" := by
  intro h
  have hlen := congrArg String.length h
  simp [Sample.drawn] at hlen

/-- A group with an alarm that repeats, saved next to the one that is stored. -/
theorem save_reads_back_filed :
    ∃ t before saved, GroupRepositoryImp.save ⟨Sample.drawn 2, true⟩
        { groupName := "Home", alarmList := [{ Sample.alarm with repeatDays := [.monday, .never] }] }
        Sample.filed = .ok ("xxx", t) ∧
      GroupRepositoryImp.fetchAllGroups Sample.filed = some before ∧
      GroupRepositoryImp.fetchAllGroups t = some (before ++ [saved]) ∧ saved.groupName = "Home" := by
  have hreach : uuidRepository.Reachable Store.empty Sample.filed :=
    ⟨Sample.calls, Machine.restrict_run_iff.2 ⟨Sample.run_calls, Sample.drawn_ne_empty 0,
      Sample.drawn_ne_empty 1, trivial⟩, rfl⟩
  have hsave : GroupRepositoryImp.save ⟨Sample.drawn 2, true⟩
      { groupName := "Home", alarmList := [{ Sample.alarm with repeatDays := [.monday, .never] }] }
      Sample.filed = .ok ("xxx", _) := rfl
  obtain ⟨⟨before, saved, hbefore, hafter, -, hname, -⟩, -⟩ :=
    save_reads_back hreach (Sample.fresh_drawn (by decide)) (Sample.drawn_ne_empty 2) hsave
  exact ⟨_, before, saved, hsave, hbefore, hafter, hname⟩

end Alarma
