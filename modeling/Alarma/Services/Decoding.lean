import Alarma.Services.Repositories

/-!
# The readers never trap

Decoding an alarm force-unwraps `Weekdays(rawValue:)`.  The readers are safe
because every write of the store encodes its weekdays through the enumeration,
and that is an invariant of all seven calls, coherent or not.

* `Store.Decodable` — the invariant; `Decodable.effect` carries it through a
  call and `decodable_of_reachable` through a run.
* `Decodable.fetchAllAlarms_eq`, `Decodable.fetchAllGroups_eq` — what the
  readers return then.
* `readers_isSome` — no reader traps in a reachable store.
-/

namespace Alarma

open Keyed

/-- Stored weekdays are raw values of `Weekdays`. -/
def Store.Decodable (s : Store) : Prop := ∀ a ∈ s.alarms.rows, a.Decodable

/-! ## What the readers return -/

/-- The alarms a list links are stored, and under the keys the list holds. -/
theorem Store.mem_linkedAlarms {s : Store} {row : GroupRow} {a : RealmAlarm}
    (h : a ∈ s.linkedAlarms row) : a ∈ s.alarms.rows ∧ a.alarmID ∈ row.alarmList := by
  obtain ⟨id, hid, ha⟩ := List.mem_filterMap.1 h
  exact ⟨Table.find?_mem ha, Table.find?_key ha ▸ hid⟩

section Readers

variable {s : Store} (hs : s.Decodable)
include hs

theorem Store.Decodable.fetchAllAlarms_eq (group : Group) :
    AlarmRepositoryImp.fetchAllAlarms s group =
      some ((s.alarmsOf group.groupID).filterMap RealmAlarm.toModel) :=
  mapM_of_isSome fun a ha => (hs a (Store.mem_alarmsOf.1 ha).1).isSome_toModel

theorem Store.Decodable.toModel_eq (row : GroupRow) :
    s.toModel row = some ⟨row.groupID, row.groupName, row.interval, row.isEnabled,
      (s.linkedAlarms row).filterMap RealmAlarm.toModel⟩ := by
  have hdec : ∀ a ∈ s.linkedAlarms row, (a.toModel).isSome := fun a ha =>
    (hs a (Store.mem_linkedAlarms ha).1).isSome_toModel
  rw [Store.toModel, mapM_of_isSome hdec]
  rfl

theorem Store.Decodable.fetchAllGroups_eq :
    GroupRepositoryImp.fetchAllGroups s = some (s.groups.rows.filterMap s.toModel) :=
  mapM_of_isSome fun row _ => by rw [hs.toModel_eq row]; rfl

end Readers

/-! ## Every write encodes -/

theorem Group.decodable_toRealmEntity (group : Group) (uuidString : UUIDs) :
    ∀ a ∈ (group.toRealmEntity uuidString).alarmList, a.Decodable := by
  intro a ha
  obtain ⟨i, hi, rfl⟩ := List.mem_mapIdx.1 ha
  exact Alarm.decodable_toRealmEntity _ _

theorem Store.Decodable.addGroup {s : Store} (hs : s.Decodable) (group : Group) (u : UUIDs) :
    (s.addGroup (group.toRealmEntity u)).Decodable := by
  intro a ha
  rcases Table.mem_upsertAll ha with hnew | hold
  · exact group.decodable_toRealmEntity u a hnew
  · exact hs a hold

theorem Store.Decodable.concat {s t : Store} (hs : s.Decodable) {alarm : Alarm} {id : String}
    (h : t.alarms.rows = s.alarms.rows ++ [alarm.toRealmEntity id]) : t.Decodable := by
  intro a ha
  rw [h, List.mem_append, List.mem_singleton] at ha
  rcases ha with hold | rfl
  · exact hs a hold
  · exact alarm.decodable_toRealmEntity id

theorem Store.Decodable.deleteAlarms {s : Store} (hs : s.Decodable) (ids : List String) :
    (s.deleteAlarms ids).Decodable := fun a ha => hs a (Table.mem_removeAll.1 ha).1

theorem Store.Decodable.setAlarmEnabled {s : Store} (hs : s.Decodable) (id : String) (b : Bool) :
    (s.setAlarmEnabled id b).Decodable := by
  intro a ha
  obtain ⟨old, hold, rfl⟩ := List.mem_map.1 ha
  have hdec := hs old hold
  split <;> exact hdec

/-- **Every call keeps the alarms decodable**, whatever its arguments. -/
theorem Store.Decodable.effect {s t : Store} {call : Call} {env : Env} (hs : s.Decodable)
    (h : call.Effect env s t) : t.Decodable := by
  cases h with
  | unchanged => exact hs
  | savedGroup group => exact hs.addGroup group _
  | removedGroup _ => exact Store.Decodable.deleteAlarms (s := Store.deleteGroup _ _) hs _
  | updated _ ht => exact hs.concat (Store.rows_appendAlarm ht).2.1
  | enabledGroup => exact hs
  | savedAlarm ht => exact hs.concat (Store.rows_addAlarm ht).2
  | enabledAlarm => exact hs.setAlarmEnabled _ _
  | removedAlarm => exact hs.deleteAlarms _

theorem decodable_of_reachable {s : Store} (h : repository.Reachable Store.empty s) :
    s.Decodable :=
  h.invariant (fun hs _ ht => hs.effect (effect_of_step ht)) (by simp [Store.Decodable])

/-- **The readers never trap.**  After any run of any of the seven calls,
`fetchAllGroups` and `fetchAllAlarms` return. -/
theorem readers_isSome {s : Store} (h : repository.Reachable Store.empty s) :
    (GroupRepositoryImp.fetchAllGroups s).isSome ∧
      ∀ group, (AlarmRepositoryImp.fetchAllAlarms s group).isSome := by
  have hs := decodable_of_reachable h
  refine ⟨?_, fun group => ?_⟩
  · rw [hs.fetchAllGroups_eq]; rfl
  · rw [hs.fetchAllAlarms_eq group]; rfl

end Alarma
