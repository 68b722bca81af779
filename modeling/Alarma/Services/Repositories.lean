import Alarma.Library.Machine
import Alarma.Model.Realm

/-!
# The two repositories

`GroupRepositoryImp` and `AlarmRepositoryImp`, method by method, and the store
as the event-driven program that their calls make of it.

* The reading methods are partial (`toModel` may trap), the writing methods are
  transactions, so they commit, throw or trap.
* `Call` names the seven writing methods with their arguments, `repository` is
  the machine whose events are calls; a caller is left with the store of a call
  that committed, and with the old store when the call threw.
* `Call.Effect` says once what a call can do to the store, and
  `effect_of_step` that the machine does nothing else.
* `repository_step_isSome`: with fresh `UUID`s no call ever traps.
-/

namespace Alarma

open Keyed

/-- `guard let object = … else { return }` and `object?.…` inside a transaction:
without the object the block ends, and what it did so far is kept. -/
def Store.ifFound {Object : Type} (s : Store) (object : Option Object)
    (act : Object → Option Store) : Option Store :=
  match object with
  | none => some s
  | some object => act object

/-! ## Groups -/

namespace GroupRepositoryImp

/-- Every stored group, in table order, with its alarms in list order. -/
def fetchAllGroups (s : Store) : Option (List Group) :=
  s.groups.rows.mapM s.toModel

/-- Store a group.  The managed object that is returned is named by its primary
key. -/
def save (env : Env) (group : Group) (s : Store) : Except Failure (String × Store) := do
  let newGroup := group.toRealmEntity env.uuidString
  let s' ← s.write env fun s => some (s.addGroup newGroup)
  return (newGroup.groupID, s')

/-- Delete a group and the alarms whose foreign key names it; nothing happens if
the group is not stored. -/
def remove (env : Env) (group : Group) (s : Store) : Except Failure Store :=
  s.write env fun s =>
    s.ifFound (s.groups.find? group.groupID) fun row =>
      let s' := s.deleteGroup row.groupID
      some (s'.deleteAlarms ((s'.alarmsOf row.groupID).map RealmAlarm.alarmID))

/-- Append an alarm to the list of the group `id`; nothing happens if the group
is not stored.  The method goes on to compute a view of the list sorted by
`time`, which it drops. -/
def update (env : Env) (alarm : Alarm) (id : String) (s : Store) : Except Failure Store :=
  s.write env fun s =>
    s.ifFound (s.groups.find? id) fun row =>
      s.appendAlarm row.groupID (alarm.toRealmEntity (env.uuidString 0))

/-- Switch a group on or off; nothing happens if it is not stored. -/
def enable (env : Env) (group : Group) (isEnabled : Bool) (s : Store) : Except Failure Store :=
  s.write env fun s =>
    s.ifFound (s.groups.find? group.groupID) fun row =>
      some (s.setGroupEnabled row.groupID isEnabled)

end GroupRepositoryImp

/-! ## Alarms -/

namespace AlarmRepositoryImp

/-- The alarms whose foreign key names the group, in table order. -/
def fetchAllAlarms (s : Store) (group : Group) : Option (List Alarm) :=
  (s.alarmsOf group.groupID).mapM RealmAlarm.toModel

/-- Store an alarm in the alarm table; no list is touched. -/
def save (env : Env) (alarm : Alarm) (s : Store) : Except Failure Store :=
  s.write env fun s => s.addAlarm (alarm.toRealmEntity (env.uuidString 0))

/-- Switch an alarm on or off; nothing happens if it is not stored. -/
def enable (env : Env) (alarm : Alarm) (isEnabled : Bool) (s : Store) : Except Failure Store :=
  s.write env fun s =>
    s.ifFound (s.alarms.find? alarm.alarmID) fun row =>
      some (s.setAlarmEnabled row.alarmID isEnabled)

/-- Delete an alarm; nothing happens if it is not stored. -/
def remove (env : Env) (alarm : Alarm) (s : Store) : Except Failure Store :=
  s.write env fun s =>
    s.ifFound (s.alarms.find? alarm.alarmID) fun row => some (s.deleteAlarms [row.alarmID])

end AlarmRepositoryImp

/-! ## The store as a machine -/

/-- A call of one of the writing methods. -/
inductive Call where
  /-- `GroupRepositoryImp.save(group:)` -/
  | saveGroup (group : Group)
  /-- `GroupRepositoryImp.remove(group:)` -/
  | removeGroup (group : Group)
  /-- `GroupRepositoryImp.update(alarm:id:)` -/
  | update (alarm : Alarm) (id : String)
  /-- `GroupRepositoryImp.enable(group:isEnabled:)` -/
  | enableGroup (group : Group) (isEnabled : Bool)
  /-- `AlarmRepositoryImp.save(alarm:)` -/
  | saveAlarm (alarm : Alarm)
  /-- `AlarmRepositoryImp.enable(alarm:isEnabled:)` -/
  | enableAlarm (alarm : Alarm) (isEnabled : Bool)
  /-- `AlarmRepositoryImp.remove(alarm:)` -/
  | removeAlarm (alarm : Alarm)
  deriving DecidableEq, Repr

/-- Run a call. -/
def Call.exec (env : Env) (s : Store) : Call → Except Failure Store
  | saveGroup group => (GroupRepositoryImp.save env group s).map Prod.snd
  | removeGroup group => GroupRepositoryImp.remove env group s
  | update alarm id => GroupRepositoryImp.update env alarm id s
  | enableGroup group isEnabled => GroupRepositoryImp.enable env group isEnabled s
  | saveAlarm alarm => AlarmRepositoryImp.save env alarm s
  | enableAlarm alarm isEnabled => AlarmRepositoryImp.enable env alarm isEnabled s
  | removeAlarm alarm => AlarmRepositoryImp.remove env alarm s

/-- The store a caller is left with: a call that threw leaves the old one. -/
def Store.after (s : Store) : Except Failure Store → Option Store
  | .ok s' => some s'
  | .error .thrown => some s
  | .error .trapped => none

/-- Every string that names an object of the store. -/
def Store.identifiers (s : Store) : List String :=
  s.groups.keys ++ s.alarms.keys ++ s.alarms.rows.map RealmAlarm.groupID

/-- New `UUID`s: pairwise distinct, and none of them in use. -/
def Store.Fresh (s : Store) (uuidString : UUIDs) : Prop :=
  Function.Injective uuidString ∧ ∀ n, uuidString n ∉ s.identifiers

/-- The store, driven by calls.  Each call draws fresh `UUID`s, and its
transaction may or may not commit. -/
def repository : Machine Store (Call × Env) where
  enabled := fun s e => s.Fresh e.2.uuidString
  step := fun s e => s.after (e.1.exec e.2 s)

theorem Store.Fresh.notMem_groups {s : Store} {u : UUIDs} (h : s.Fresh u) (n : ℕ) :
    u n ∉ s.groups.keys := fun hc => h.2 n (by simp [Store.identifiers, hc])

theorem Store.Fresh.notMem_alarms {s : Store} {u : UUIDs} (h : s.Fresh u) (n : ℕ) :
    u n ∉ s.alarms.keys := fun hc => h.2 n (by simp [Store.identifiers, hc])

theorem Store.Fresh.ne_groupID {s : Store} {u : UUIDs} (h : s.Fresh u) (n : ℕ) {a : RealmAlarm}
    (ha : a ∈ s.alarms.rows) : a.groupID ≠ u n := fun hc =>
  h.2 n (List.mem_append_right _ (List.mem_map.2 ⟨a, ha, hc⟩))

/-- No stored alarm names a new group. -/
theorem Store.Fresh.alarmsOf {s : Store} {u : UUIDs} (h : s.Fresh u) (n : ℕ) :
    s.alarmsOf (u n) = [] := by
  refine List.filter_eq_nil_iff.2 fun a ha => ?_
  simpa using h.ne_groupID n ha

/-! ## What a call does -/

theorem Store.write_eq {env : Env} {block : Store → Option Store} {s s' : Store}
    (h : block s = some s') :
    s.write env block = if env.commits then .ok s' else .error .thrown := by
  rw [Store.write, h]

/-- A transaction that returns has run its block. -/
theorem Store.block_of_write {env : Env} {block : Store → Option Store} {s t : Store}
    (h : s.write env block = .ok t) : block s = some t := by
  cases hb : block s with
  | none => rw [Store.write, hb] at h; exact absurd h (by simp)
  | some s' =>
    rw [Store.write_eq hb] at h
    cases hc : env.commits with
    | false => rw [hc] at h; exact absurd h (by simp)
    | true => rw [hc] at h; exact congrArg some (Except.ok.inj h)

/-- A transaction leaves the old store when it throws, and the one its block made
when it commits. -/
theorem Store.after_write {env : Env} {block : Store → Option Store} {s t : Store}
    (h : s.after (s.write env block) = some t) :
    (env.commits = false ∧ t = s) ∨ (env.commits = true ∧ block s = some t) := by
  cases hb : block s with
  | none => rw [Store.write, hb] at h; exact absurd h (by simp [Store.after])
  | some s' =>
    rw [Store.write_eq hb] at h
    cases hc : env.commits with
    | false => rw [hc] at h; exact Or.inl ⟨rfl, (Option.some.inj h).symm⟩
    | true => rw [hc] at h; exact Or.inr ⟨rfl, h⟩

/-- A transaction on an object acts on the object, or leaves the old store; if it
commits nevertheless, there is no object. -/
theorem Store.after_write_ifFound {Object : Type} {env : Env} {find : Store → Option Object}
    {act : Store → Object → Option Store} {s t : Store}
    (h : s.after (s.write env fun s => s.ifFound (find s) (act s)) = some t) :
    (t = s ∧ (env.commits = true → find s = none)) ∨
      ∃ object, find s = some object ∧ act s object = some t := by
  rcases Store.after_write h with ⟨hc, rfl⟩ | ⟨-, hb⟩
  · refine Or.inl ⟨rfl, fun hc' => ?_⟩
    rw [hc] at hc'
    cases hc'
  · cases hf : find s with
    | none => rw [hf] at hb; exact Or.inl ⟨(Option.some.inj hb).symm, fun _ => rfl⟩
    | some object => rw [hf] at hb; exact Or.inr ⟨object, rfl, hb⟩

theorem Store.isSome_after_write {env : Env} {block : Store → Option Store} {s : Store}
    (h : (block s).isSome) : (s.after (s.write env block)).isSome := by
  obtain ⟨s', hs'⟩ := Option.isSome_iff_exists.1 h
  rw [Store.write_eq hs']
  cases env.commits <;> rfl

theorem Store.isSome_ifFound {Object : Type} {s : Store} {object : Option Object}
    {act : Object → Option Store} (h : ∀ object, (act object).isSome) :
    (s.ifFound object act).isSome := by
  cases object with
  | none => rfl
  | some object => exact h object

/-- A write transaction that commits returns from `remove(group:)`. -/
theorem GroupRepositoryImp.remove_of_commits {env : Env} (group : Group) (s : Store)
    (h : env.commits = true) : ∃ t, GroupRepositoryImp.remove env group s = .ok t := by
  have hblock : (s.ifFound (s.groups.find? group.groupID) fun row =>
      let s' := s.deleteGroup row.groupID
      some (s'.deleteAlarms ((s'.alarmsOf row.groupID).map RealmAlarm.alarmID))).isSome :=
    Store.isSome_ifFound fun _ => rfl
  obtain ⟨t, ht⟩ := Option.isSome_iff_exists.1 hblock
  exact ⟨t, by rw [GroupRepositoryImp.remove, Store.write_eq ht, if_pos h]⟩

theorem GroupRepositoryImp.save_eq (env : Env) (group : Group) (s : Store) :
    GroupRepositoryImp.save env group s =
      if env.commits then .ok (env.uuidString 0, s.addGroup (group.toRealmEntity env.uuidString))
      else .error .thrown := by
  simp only [GroupRepositoryImp.save, Store.write]
  cases env.commits <;> rfl

/-- The alarms of a new group take the `UUID`s after the first. -/
theorem Group.alarmID_toRealmEntity (group : Group) (u : UUIDs) :
    (group.toRealmEntity u).alarmList.map RealmAlarm.alarmID =
      (List.range group.alarmList.length).map fun i => u (i + 1) := by
  refine List.ext_getElem (by simp [Group.toRealmEntity]) fun i hi hi' => ?_
  simp [Group.toRealmEntity, Alarm.toRealmEntity]

/-- **What a save writes**: a row for the group, and a row for each of its
alarms, all of them new. -/
theorem Store.rows_addGroup {s : Store} {u : UUIDs} (hu : s.Fresh u) (group : Group) :
    (s.addGroup (group.toRealmEntity u)).groups.rows =
        s.groups.rows ++ [(group.toRealmEntity u).toRow] ∧
      (s.addGroup (group.toRealmEntity u)).alarms.rows =
        s.alarms.rows ++ (group.toRealmEntity u).alarmList := by
  have hkey : (group.toRealmEntity u).toRow.groupID ∉ s.groups.keys := hu.notMem_groups 0
  have hnodup : ((group.toRealmEntity u).alarmList.map RealmAlarm.alarmID).Nodup := by
    rw [Group.alarmID_toRealmEntity]
    exact List.nodup_range.map fun i j h => Nat.succ.inj (hu.1 h)
  have hfresh : ∀ a ∈ (group.toRealmEntity u).alarmList, a.alarmID ∉ s.alarms.keys := by
    intro a ha
    have hid := List.mem_map_of_mem (f := RealmAlarm.alarmID) ha
    rw [Group.alarmID_toRealmEntity] at hid
    obtain ⟨i, -, hi⟩ := List.mem_map.1 hid
    rw [← hi]
    exact hu.notMem_alarms (i + 1)
  constructor
  · rw [Store.groups_addGroup, Table.upsert_of_fresh hkey, Table.rows_append]
  · exact Table.rows_upsertAll_of_fresh hnodup hfresh

/-- The store without a group and the alarms that name it. -/
def Store.cascade (s : Store) (groupID : String) : Store :=
  (s.deleteGroup groupID).deleteAlarms ((s.alarmsOf groupID).map RealmAlarm.alarmID)

/-- Everything a call can do to the store. -/
inductive Call.Effect (env : Env) : Call → Store → Store → Prop
  /-- The call threw, or found nothing to work on. -/
  | unchanged (call : Call) (s : Store) : Effect env call s s
  | savedGroup (group : Group) (s : Store) :
      Effect env (.saveGroup group) s (s.addGroup (group.toRealmEntity env.uuidString))
  | removedGroup {group : Group} {s : Store} : group.groupID ∈ s.groups.keys →
      Effect env (.removeGroup group) s (s.cascade group.groupID)
  | updated {alarm : Alarm} {id : String} {s t : Store} : id ∈ s.groups.keys →
      s.appendAlarm id (alarm.toRealmEntity (env.uuidString 0)) = some t →
      Effect env (.update alarm id) s t
  | enabledGroup (group : Group) (isEnabled : Bool) (s : Store) :
      Effect env (.enableGroup group isEnabled) s (s.setGroupEnabled group.groupID isEnabled)
  | savedAlarm {alarm : Alarm} {s t : Store} :
      s.addAlarm (alarm.toRealmEntity (env.uuidString 0)) = some t →
      Effect env (.saveAlarm alarm) s t
  | enabledAlarm (alarm : Alarm) (isEnabled : Bool) (s : Store) :
      Effect env (.enableAlarm alarm isEnabled) s (s.setAlarmEnabled alarm.alarmID isEnabled)
  | removedAlarm (alarm : Alarm) (s : Store) :
      Effect env (.removeAlarm alarm) s (s.deleteAlarms [alarm.alarmID])

/-- **The machine does nothing else.** -/
theorem effect_of_step {s t : Store} {call : Call} {env : Env}
    (h : repository.step s (call, env) = some t) : call.Effect env s t := by
  cases call with
  | saveGroup group =>
    have hs : s.after ((GroupRepositoryImp.save env group s).map Prod.snd) = some t := h
    rw [GroupRepositoryImp.save_eq] at hs
    cases hc : env.commits with
    | false => rw [hc] at hs; cases hs; exact .unchanged _ _
    | true => rw [hc] at hs; cases hs; exact .savedGroup group s
  | removeGroup group =>
    have hs : s.after (GroupRepositoryImp.remove env group s) = some t := h
    rcases Store.after_write_ifFound hs with ⟨rfl, -⟩ | ⟨row, hf, ht⟩
    · exact .unchanged _ _
    · rw [Table.find?_key hf] at ht
      cases ht
      exact .removedGroup (Table.find?_keys hf)
  | update alarm id =>
    have hs : s.after (GroupRepositoryImp.update env alarm id s) = some t := h
    rcases Store.after_write_ifFound hs with ⟨rfl, -⟩ | ⟨row, hf, ht⟩
    · exact .unchanged _ _
    · rw [Table.find?_key hf] at ht
      exact .updated (Table.find?_keys hf) ht
  | enableGroup group isEnabled =>
    have hs : s.after (GroupRepositoryImp.enable env group isEnabled s) = some t := h
    rcases Store.after_write_ifFound hs with ⟨rfl, -⟩ | ⟨row, hf, ht⟩
    · exact .unchanged _ _
    · rw [Table.find?_key hf] at ht
      cases ht
      exact .enabledGroup group isEnabled s
  | saveAlarm alarm =>
    have hs : s.after (AlarmRepositoryImp.save env alarm s) = some t := h
    rcases Store.after_write hs with ⟨-, rfl⟩ | ⟨-, ht⟩
    · exact .unchanged _ _
    · exact .savedAlarm ht
  | enableAlarm alarm isEnabled =>
    have hs : s.after (AlarmRepositoryImp.enable env alarm isEnabled s) = some t := h
    rcases Store.after_write_ifFound hs with ⟨rfl, -⟩ | ⟨row, hf, ht⟩
    · exact .unchanged _ _
    · rw [Table.find?_key hf] at ht
      cases ht
      exact .enabledAlarm alarm isEnabled s
  | removeAlarm alarm =>
    have hs : s.after (AlarmRepositoryImp.remove env alarm s) = some t := h
    rcases Store.after_write_ifFound hs with ⟨rfl, -⟩ | ⟨row, hf, ht⟩
    · exact .unchanged _ _
    · rw [Table.find?_key hf] at ht
      cases ht
      exact .removedAlarm alarm s

theorem Store.isSome_appendAlarm {s : Store} {alarm : RealmAlarm} (groupID : String)
    (h : alarm.alarmID ∉ s.alarms.keys) : (s.appendAlarm groupID alarm).isSome := by
  rw [Store.appendAlarm, dif_neg h]
  rfl

theorem Store.isSome_addAlarm {s : Store} {alarm : RealmAlarm} (h : alarm.alarmID ∉ s.alarms.keys) :
    (s.addAlarm alarm).isSome := by
  rw [Store.addAlarm, dif_neg h]
  rfl

/-- **No call ever traps.**  The exception on a primary key in use cannot occur,
because the key of a new object is a fresh `UUID`. -/
theorem repository_step_isSome {s : Store} {e : Call × Env} (h : repository.enabled s e) :
    (repository.step s e).isSome := by
  obtain ⟨call, env⟩ := e
  have hfresh : env.uuidString 0 ∉ s.alarms.keys := Store.Fresh.notMem_alarms h 0
  cases call with
  | saveGroup group =>
    show (s.after ((GroupRepositoryImp.save env group s).map Prod.snd)).isSome
    rw [GroupRepositoryImp.save_eq]
    cases env.commits <;> rfl
  | removeGroup group =>
    show (s.after (GroupRepositoryImp.remove env group s)).isSome
    exact Store.isSome_after_write (Store.isSome_ifFound fun _ => rfl)
  | update alarm id =>
    show (s.after (GroupRepositoryImp.update env alarm id s)).isSome
    exact Store.isSome_after_write (Store.isSome_ifFound fun _ => Store.isSome_appendAlarm _ hfresh)
  | enableGroup group isEnabled =>
    show (s.after (GroupRepositoryImp.enable env group isEnabled s)).isSome
    exact Store.isSome_after_write (Store.isSome_ifFound fun _ => rfl)
  | saveAlarm alarm =>
    show (s.after (AlarmRepositoryImp.save env alarm s)).isSome
    exact Store.isSome_after_write (Store.isSome_addAlarm hfresh)
  | enableAlarm alarm isEnabled =>
    show (s.after (AlarmRepositoryImp.enable env alarm isEnabled s)).isSome
    exact Store.isSome_after_write (Store.isSome_ifFound fun _ => rfl)
  | removeAlarm alarm =>
    show (s.after (AlarmRepositoryImp.remove env alarm s)).isSome
    exact Store.isSome_after_write (Store.isSome_ifFound fun _ => rfl)

/-! ## A small store

One group with one alarm, and the calls that make it. -/

namespace Sample

/-- Strings of growing length, the first of length `k + 1`. -/
def drawn (k : ℕ) : UUIDs := fun n => String.ofList (List.replicate (k + n + 1) 'x')

theorem drawn_injective (k : ℕ) : Function.Injective (drawn k) := by
  intro m n h
  have hlen := congrArg String.length h
  simpa [drawn] using hlen

/-- Strings longer than every identifier of the store are fresh. -/
theorem fresh_drawn {s : Store} {k : ℕ} (h : ∀ id ∈ s.identifiers, id.length ≤ k) :
    s.Fresh (drawn k) := by
  refine ⟨drawn_injective k, fun n hn => ?_⟩
  have hlen := h _ hn
  simp only [drawn, String.length_ofList, List.length_replicate] at hlen
  omega

/-- A group the user just named. -/
def group : Group := { groupName := "Work" }

/-- An alarm for the group `"x"`. -/
def alarm : Alarm := { groupID := "x", groupName := "Work", time := 0, sound := "Default" }

/-- The store after saving `group`. -/
def grouped : Store where
  groups := ⟨[⟨"x", "Work", "", false, []⟩], by decide⟩
  alarms := ⟨[], by decide⟩
  linked := by decide

/-- The store after appending `alarm`. -/
def filed : Store where
  groups := ⟨[⟨"x", "Work", "", false, ["xx"]⟩], by decide⟩
  alarms := ⟨[⟨"xx", "x", "Work", 0, false, "Default", false, []⟩], by decide⟩
  linked := by decide

/-- The calls that make `filed`. -/
def calls : Trace Store (Call × Env) :=
  [((.saveGroup group, ⟨drawn 0, true⟩), grouped), ((.update alarm "x", ⟨drawn 1, true⟩), filed)]

theorem run_calls : repository.Run Store.empty calls :=
  .cons (fresh_drawn (by decide)) rfl (.cons (fresh_drawn (by decide)) rfl (.nil _))

theorem grouped_reachable : repository.Reachable Store.empty grouped := by
  obtain ⟨he, ht, -⟩ := Machine.run_cons_iff.1 run_calls
  exact (Machine.Reachable.refl _ _).step he ht

end Sample

end Alarma
