import Alarma.Library.Table
import Alarma.Model.Entities

/-!
# The Realm file

What the app uses of Realm: two tables of objects with a primary key, and the
list property `RealmGroup.alarmList`, which links rows of the alarm table.

* `Store` — both tables.  Uniqueness of primary keys is a field of `Keyed.Table`
  and link integrity a field of `Store`: a list only links stored alarms.
* `addGroup` is `realm.add(_, update: true)`, which also adds the listed alarms;
  `addAlarm` is `realm.add(_)`, which refuses a primary key in use.
* `appendAlarm` is `List.append` on a managed list: it adds the alarm, then
  links it.
* `deleteGroup` and `deleteAlarms` are `realm.delete`.  Rows are deleted by
  moving the last row over them, and a deleted alarm leaves every list.
* `write` — a transaction: it commits, or throws and leaves the store as it was.
-/

namespace Alarma

open Keyed

/-- A stored `RealmGroup`: its list holds links, given by the primary keys of
the linked alarms. -/
structure GroupRow where
  /-- The primary key. -/
  groupID : String
  groupName : String
  interval : String
  isEnabled : Bool
  /-- The links of `alarmList`, in list order. -/
  alarmList : List String
  deriving DecidableEq, Repr

/-- The row a `RealmGroup` is stored as. -/
def RealmGroup.toRow (group : RealmGroup) : GroupRow where
  groupID := group.groupID
  groupName := group.groupName
  interval := group.interval
  isEnabled := group.isEnabled
  alarmList := group.alarmList.map RealmAlarm.alarmID

/-- Drop the links to some alarms. -/
def GroupRow.unlink (alarmIDs : List String) (row : GroupRow) : GroupRow :=
  { row with alarmList := row.alarmList.filter fun id => id ∉ alarmIDs }

/-- Link one more alarm, at the end of the list. -/
def GroupRow.link (alarmID : String) (row : GroupRow) : GroupRow :=
  { row with alarmList := row.alarmList ++ [alarmID] }

@[simp] theorem GroupRow.groupID_unlink (ids : List String) (row : GroupRow) :
    (row.unlink ids).groupID = row.groupID := rfl

@[simp] theorem GroupRow.alarmList_unlink (ids : List String) (row : GroupRow) :
    (row.unlink ids).alarmList = row.alarmList.filter fun id => id ∉ ids := rfl

@[simp] theorem GroupRow.groupID_link (id : String) (row : GroupRow) :
    (row.link id).groupID = row.groupID := rfl

@[simp] theorem GroupRow.alarmList_link (id : String) (row : GroupRow) :
    (row.link id).alarmList = row.alarmList ++ [id] := rfl

/-- The objects of the Realm file. -/
@[ext] structure Store where
  /-- The `RealmGroup` table. -/
  groups : Table GroupRow.groupID
  /-- The `RealmAlarm` table. -/
  alarms : Table RealmAlarm.alarmID
  /-- A list only links stored alarms. -/
  linked : ∀ row ∈ groups.rows, ∀ id ∈ row.alarmList, id ∈ alarms.keys

namespace Store

instance : DecidableEq Store := fun s t =>
  decidable_of_iff (s.groups = t.groups ∧ s.alarms = t.alarms) Store.ext_iff.symm

/-- The file of a new installation. -/
def empty : Store where
  groups := Table.empty _
  alarms := Table.empty _
  linked := by simp

@[simp] theorem groups_empty : empty.groups = Table.empty _ := rfl

@[simp] theorem alarms_empty : empty.alarms = Table.empty _ := rfl

/-! ## Reading -/

/-- `realm.objects(RealmAlarm.self).filter("groupID = %@", groupID)`. -/
def alarmsOf (s : Store) (groupID : String) : List RealmAlarm :=
  s.alarms.rows.filter fun alarm => alarm.groupID = groupID

theorem mem_alarmsOf {s : Store} {groupID : String} {alarm : RealmAlarm} :
    alarm ∈ s.alarmsOf groupID ↔ alarm ∈ s.alarms.rows ∧ alarm.groupID = groupID := by
  simp [alarmsOf]

/-- A stored alarm is found under the foreign key it has. -/
theorem mem_map_alarmsOf {s : Store} {groupID : String} {alarm : RealmAlarm}
    (h : alarm ∈ s.alarms.rows) :
    alarm.alarmID ∈ (s.alarmsOf groupID).map RealmAlarm.alarmID ↔ alarm.groupID = groupID := by
  constructor
  · intro hmem
    obtain ⟨found, hfound, hkey⟩ := List.mem_map.1 hmem
    obtain ⟨hrow, hid⟩ := mem_alarmsOf.1 hfound
    rw [← s.alarms.eq_of_key_eq hrow h hkey]
    exact hid
  · intro hid
    exact List.mem_map_of_mem (mem_alarmsOf.2 ⟨h, hid⟩)

/-- The alarm objects a list links to, in list order. -/
def linkedAlarms (s : Store) (row : GroupRow) : List RealmAlarm :=
  row.alarmList.filterMap s.alarms.find?

/-- `RealmGroup.toModel` on a stored group. -/
def toModel (s : Store) (row : GroupRow) : Option Group := do
  let alarmList ← (s.linkedAlarms row).mapM RealmAlarm.toModel
  return ⟨row.groupID, row.groupName, row.interval, row.isEnabled, alarmList⟩

/-! ## Writing -/

/-- `realm.add(alarm)`; `none` is the exception on a primary key in use. -/
def addAlarm (s : Store) (alarm : RealmAlarm) : Option Store :=
  if h : alarm.alarmID ∈ s.alarms.keys then none
  else some {
    groups := s.groups
    alarms := s.alarms.append alarm h
    linked := fun row hrow id hid => by
      rw [Table.keys_append]
      exact List.mem_append_left _ (s.linked row hrow id hid) }

/-- `group.alarmList.append(alarm)` on the stored group `groupID`, with an alarm
that is not in the store yet. -/
def appendAlarm (s : Store) (groupID : String) (alarm : RealmAlarm) : Option Store :=
  if h : alarm.alarmID ∈ s.alarms.keys then none
  else some {
    groups := s.groups.modify
      (fun row => if row.groupID = groupID then row.link alarm.alarmID else row)
      fun row => by split <;> rfl
    alarms := s.alarms.append alarm h
    linked := fun row hrow id hid => by
      rw [Table.keys_append, List.mem_append, List.mem_singleton]
      obtain ⟨old, hold, rfl⟩ := List.mem_map.1 hrow
      by_cases hg : old.groupID = groupID
      · rw [if_pos hg, GroupRow.alarmList_link, List.mem_append, List.mem_singleton] at hid
        exact hid.imp_left (s.linked old hold id)
      · rw [if_neg hg] at hid
        exact Or.inl (s.linked old hold id hid) }

/-- `realm.add(group, update: true)`: the listed alarms are added or
overwritten by primary key, then the group is. -/
def addGroup (s : Store) (group : RealmGroup) : Store where
  groups := s.groups.upsert group.toRow
  alarms := s.alarms.upsertAll group.alarmList
  linked := fun row hrow id hid => by
    rw [Table.mem_keys_upsertAll]
    rcases Table.mem_upsert hrow with rfl | hold
    · exact Or.inr (List.mem_map.1 hid)
    · exact Or.inl (s.linked row hold id hid)

/-- `realm.delete(alarms)`: the alarms go, and every list drops its links to
them. -/
def deleteAlarms (s : Store) (alarmIDs : List String) : Store where
  groups := s.groups.modify (GroupRow.unlink alarmIDs) (GroupRow.groupID_unlink alarmIDs)
  alarms := s.alarms.removeAll alarmIDs
  linked := fun row hrow id hid => by
    obtain ⟨old, hold, rfl⟩ := List.mem_map.1 hrow
    rw [GroupRow.alarmList_unlink, List.mem_filter, decide_eq_true_eq] at hid
    obtain ⟨alarm, halarm, rfl⟩ := Table.mem_keys.1 (s.linked old hold id hid.1)
    exact Table.key_mem_keys (Table.mem_removeAll.2 ⟨halarm, hid.2⟩)

/-- `realm.delete(group)`; the alarms it lists stay. -/
def deleteGroup (s : Store) (groupID : String) : Store where
  groups := s.groups.remove groupID
  alarms := s.alarms
  linked := fun row hrow => s.linked row (Table.mem_remove.1 hrow).1

/-- Set `isEnabled` of a stored group. -/
def setGroupEnabled (s : Store) (groupID : String) (isEnabled : Bool) : Store where
  groups := s.groups.modify
    (fun row => if row.groupID = groupID then { row with isEnabled := isEnabled } else row)
    fun row => by split <;> rfl
  alarms := s.alarms
  linked := fun row hrow id hid => by
    obtain ⟨old, hold, rfl⟩ := List.mem_map.1 hrow
    refine s.linked old hold id ?_
    split at hid <;> exact hid

/-- Set `isEnabled` of a stored alarm. -/
def setAlarmEnabled (s : Store) (alarmID : String) (isEnabled : Bool) : Store where
  groups := s.groups
  alarms := s.alarms.modify
    (fun alarm => if alarm.alarmID = alarmID then { alarm with isEnabled := isEnabled } else alarm)
    fun alarm => by split <;> rfl
  linked := fun row hrow id hid => by
    rw [Table.keys_modify]
    exact s.linked row hrow id hid

/-! ## What the writes leave in the tables -/

@[simp] theorem groups_addGroup (s : Store) (group : RealmGroup) :
    (s.addGroup group).groups = s.groups.upsert group.toRow := rfl

@[simp] theorem alarms_addGroup (s : Store) (group : RealmGroup) :
    (s.addGroup group).alarms = s.alarms.upsertAll group.alarmList := rfl

@[simp] theorem rows_deleteAlarms (s : Store) (ids : List String) :
    (s.deleteAlarms ids).groups.rows = s.groups.rows.map (GroupRow.unlink ids) := rfl

@[simp] theorem keys_deleteAlarms (s : Store) (ids : List String) :
    (s.deleteAlarms ids).groups.keys = s.groups.keys := by
  simp [deleteAlarms]

@[simp] theorem alarms_deleteAlarms (s : Store) (ids : List String) :
    (s.deleteAlarms ids).alarms = s.alarms.removeAll ids := rfl

@[simp] theorem groups_deleteGroup (s : Store) (groupID : String) :
    (s.deleteGroup groupID).groups = s.groups.remove groupID := rfl

@[simp] theorem keys_setGroupEnabled (s : Store) (groupID : String) (b : Bool) :
    (s.setGroupEnabled groupID b).groups.keys = s.groups.keys := by
  simp [setGroupEnabled]

@[simp] theorem groups_setAlarmEnabled (s : Store) (alarmID : String) (b : Bool) :
    (s.setAlarmEnabled alarmID b).groups = s.groups := rfl

/-- Switching a group on or off rewrites one row. -/
theorem rows_setGroupEnabled (s : Store) (groupID : String) (b : Bool) :
    (s.setGroupEnabled groupID b).groups.rows = s.groups.rows.map fun row =>
      if row.groupID = groupID then { row with isEnabled := b } else row := rfl

/-- Switching an alarm on or off rewrites one row. -/
theorem rows_setAlarmEnabled (s : Store) (alarmID : String) (b : Bool) :
    (s.setAlarmEnabled alarmID b).alarms.rows = s.alarms.rows.map fun alarm =>
      if alarm.alarmID = alarmID then { alarm with isEnabled := b } else alarm := rfl

/-- What appending an alarm leaves in the two tables. -/
theorem rows_appendAlarm {s t : Store} {groupID : String} {alarm : RealmAlarm}
    (h : s.appendAlarm groupID alarm = some t) :
    t.groups.rows = s.groups.rows.map
        (fun row => if row.groupID = groupID then row.link alarm.alarmID else row) ∧
      t.alarms.rows = s.alarms.rows ++ [alarm] ∧ t.groups.keys = s.groups.keys := by
  rw [appendAlarm] at h
  split at h
  · exact absurd h (by simp)
  · cases h
    exact ⟨rfl, rfl, by simp⟩

/-- What adding an alarm leaves in the two tables. -/
theorem rows_addAlarm {s t : Store} {alarm : RealmAlarm} (h : s.addAlarm alarm = some t) :
    t.groups = s.groups ∧ t.alarms.rows = s.alarms.rows ++ [alarm] := by
  rw [addAlarm] at h
  split at h
  · exact absurd h (by simp)
  · cases h
    exact ⟨rfl, rfl⟩

/-! ## What the writes leave under a foreign key -/

theorem alarmsOf_deleteAlarms (s : Store) (ids : List String) (groupID : String) :
    ((s.deleteAlarms ids).alarmsOf groupID).Perm
      ((s.alarmsOf groupID).filter fun a => a.alarmID ∉ ids) := by
  have hperm := (s.alarms.removeAll_perm ids).filter fun a => a.groupID = groupID
  rwa [List.filter_comm] at hperm

theorem alarmsOf_appendAlarm {s t : Store} {groupID : String} {alarm : RealmAlarm}
    (h : s.appendAlarm groupID alarm = some t) (id : String) :
    t.alarmsOf id = s.alarmsOf id ++ if alarm.groupID = id then [alarm] else [] := by
  rw [alarmsOf, (rows_appendAlarm h).2.1, List.filter_append, ← alarmsOf,
    List.filter_singleton]
  simp

/-- Switching an alarm on or off touches neither of its keys. -/
theorem alarmsOf_setAlarmEnabled (s : Store) (id : String) (b : Bool) (groupID : String) :
    (s.setAlarmEnabled id b).alarmsOf groupID =
      (s.alarmsOf groupID).map fun a =>
        if a.alarmID = id then { a with isEnabled := b } else a := by
  rw [alarmsOf, alarmsOf, rows_setAlarmEnabled, List.filter_map]
  congr 1
  refine List.filter_congr fun a _ => ?_
  simp only [Function.comp_apply]
  split <;> rfl

end Store

/-! ## Transactions -/

/-- How a repository call can fail to return. -/
inductive Failure where
  /-- A Swift error, which `try?` swallows. -/
  | thrown
  /-- An exception or a failed unwrap, which ends the app. -/
  | trapped
  deriving DecidableEq, Repr

/-- What the platform contributes to one repository call. -/
structure Env where
  /-- The `UUID` strings the call draws. -/
  uuidString : UUIDs
  /-- Whether the transaction of the call commits. -/
  commits : Bool

/-- `try realm.write { … }`. -/
def Store.write (env : Env) (block : Store → Option Store) (s : Store) : Except Failure Store :=
  match block s with
  | none => .error .trapped
  | some s' => if env.commits then .ok s' else .error .thrown

end Alarma
