import Alarma.Services.Refinement

/-!
# The order of a group's alarms

`GroupRepositoryImp.update` appends an alarm to the list of a group and then sorts
the list by time, but the sorted view goes nowhere: the list keeps the order in
which alarms were added.

* `Filing` — the store with a record of the alarms that were added to each group
  and not removed, and the machine of the two calls that do so.
* `Filing.Kept` — every group that is read has its alarms in time order, and they
  are the alarms of the record.
* `kept_iff_in_time_order` — this holds after every call of a run precisely when
  alarms were added in time order.
-/

namespace Alarma

open Keyed

/-! ## Lists as they are read -/

/-- The alarms of a stored group, as they are read. -/
def Store.listOf (s : Store) (row : GroupRow) : List Alarm :=
  (s.linkedAlarms row).filterMap RealmAlarm.toModel

/-- Decoding keeps the identity. -/
theorem RealmAlarm.alarmID_toModel {row : RealmAlarm} {alarm : Alarm}
    (h : row.toModel = some alarm) : alarm.alarmID = row.alarmID := by
  obtain ⟨days, -, hrow⟩ := Option.bind_eq_some_iff.1 h
  cases hrow
  rfl

/-- Appending an alarm appends it to the list that is read, and to no other. -/
theorem Store.listOf_appendAlarm {s t : Store} {groupID : String} {alarm : Alarm}
    {uuidString : String} (h : s.appendAlarm groupID (alarm.toRealmEntity uuidString) = some t)
    {row : GroupRow} (hrow : row ∈ s.groups.rows) :
    t.listOf row = s.listOf row ∧
      t.listOf (row.link uuidString) = s.listOf row ++ [{ alarm with alarmID := uuidString }] := by
  obtain ⟨hsame, hnew⟩ := Store.linkedAlarms_appendAlarm h hrow
  refine ⟨by rw [Store.listOf, hsame, Store.listOf], ?_⟩
  have hlink : t.linkedAlarms (row.link uuidString) =
      s.linkedAlarms row ++ [alarm.toRealmEntity uuidString] := hnew
  rw [Store.listOf, hlink, List.filterMap_append, Store.listOf]
  simp

/-- Deleting alarms deletes them from the list that is read. -/
theorem Store.listOf_deleteAlarms (s : Store) (ids : List String) (row : GroupRow) :
    (s.deleteAlarms ids).listOf (row.unlink ids) =
      (s.listOf row).filter fun alarm => alarm.alarmID ∉ ids := by
  rw [Store.listOf, Store.linkedAlarms_deleteAlarms, Store.listOf, List.filter_filterMap,
    List.filterMap_filter]
  refine List.filterMap_congr fun a _ => ?_
  cases hmodel : a.toModel with
  | none => simp
  | some alarm =>
    rw [Option.filter_some, RealmAlarm.alarmID_toModel hmodel]

/-- The identities of the alarms that are read are keys of stored alarms. -/
theorem Store.mem_keys_of_listOf {s : Store} {row : GroupRow} {alarm : Alarm}
    (h : alarm ∈ s.listOf row) : alarm.alarmID ∈ s.alarms.keys := by
  obtain ⟨a, ha, hmodel⟩ := List.mem_filterMap.1 h
  rw [RealmAlarm.alarmID_toModel hmodel]
  exact Table.key_mem_keys (Store.mem_linkedAlarms ha).1

/-! ## The record -/

/-- The store, and the alarms that were added to each group and not removed. -/
structure Filing where
  store : Store
  /-- The alarms, by group. -/
  added : String → List Alarm

namespace Filing

/-- What a call that returns adds to the record and removes from it. -/
def record (s : Filing) (e : Call × Env) : String → List Alarm :=
  if e.2.commits then
    match e.1 with
    | .update alarm id =>
      if id ∈ s.store.groups.keys then
        Function.update s.added id (s.added id ++ [{ alarm with alarmID := e.2.uuidString 0 }])
      else s.added
    | .removeAlarm alarm => fun id => (s.added id).filter fun a => a.alarmID ≠ alarm.alarmID
    | _ => s.added
  else s.added

/-- The store, driven by the calls that add alarms to groups and remove alarms. -/
def machine : Machine Filing (Call × Env) where
  enabled := fun s e => s.store.Fresh e.2.uuidString ∧
    ((∃ alarm id, e.1 = .update alarm id) ∨ ∃ alarm, e.1 = .removeAlarm alarm)
  step := fun s e => (repository.step s.store e).map fun t => ⟨t, s.record e⟩

/-- The alarms of every group that is read are in time order, and are those that
were added to it and not removed. -/
def Kept (s : Filing) : Prop :=
  ∃ groups, GroupRepositoryImp.fetchAllGroups s.store = some groups ∧ ∀ g ∈ groups,
    g.alarmList.Pairwise (fun a b => a.time ≤ b.time) ∧ g.alarmList.Perm (s.added g.groupID)

/-- The condition: an alarm that is added is not earlier than an alarm of its group. -/
def InTimeOrder (s : Filing) (e : Call × Env) : Prop :=
  ∀ alarm id, e.1 = .update alarm id → e.2.commits = true →
    ∀ row ∈ s.store.groups.rows, row.groupID = id → ∀ a ∈ s.store.listOf row, a.time ≤ alarm.time

/-- The same, of the rows of the store. -/
theorem kept_iff_rows {s : Filing} (hs : s.store.Decodable) :
    s.Kept ↔ ∀ row ∈ s.store.groups.rows,
      (s.store.listOf row).Pairwise (fun a b => a.time ≤ b.time) ∧
        (s.store.listOf row).Perm (s.added row.groupID) := by
  constructor
  · rintro ⟨groups, hfetch, hkept⟩ row hrow
    rw [hs.fetchAllGroups_eq, Option.some_inj] at hfetch
    exact hkept _ (hfetch ▸ List.mem_filterMap.2 ⟨row, hrow, hs.toModel_eq row⟩)
  · intro hrows
    refine ⟨_, hs.fetchAllGroups_eq, fun g hg => ?_⟩
    obtain ⟨row, hrow, hmodel⟩ := List.mem_filterMap.1 hg
    rw [hs.toModel_eq row, Option.some_inj] at hmodel
    subst hmodel
    exact hrows row hrow

/-! ## The calls -/

theorem pairwise_concat {l : List Alarm} {alarm : Alarm}
    (h : l.Pairwise fun a b => a.time ≤ b.time) :
    (l ++ [alarm]).Pairwise (fun a b => a.time ≤ b.time) ↔ ∀ a ∈ l, a.time ≤ alarm.time := by
  simp [List.pairwise_append, h]

/-- **An alarm is added** to a stored group. -/
theorem Kept.update_iff {s : Filing} (hkept : s.Kept) (hdec : s.store.Decodable) {t : Store}
    {alarm : Alarm} {id : String} {env : Env} (hc : env.commits = true)
    (hid : id ∈ s.store.groups.keys) (hdec' : t.Decodable)
    (ht : s.store.appendAlarm id (alarm.toRealmEntity (env.uuidString 0)) = some t) :
    (⟨t, s.record (.update alarm id, env)⟩ : Filing).Kept ↔
      s.InTimeOrder (.update alarm id, env) := by
  have hrows := (kept_iff_rows hdec).1 hkept
  have hrecord : s.record (.update alarm id, env) =
      Function.update s.added id (s.added id ++ [{ alarm with alarmID := env.uuidString 0 }]) := by
    simp [record, hc, hid]
  have hstored := (Store.rows_appendAlarm ht).1
  rw [kept_iff_rows hdec', hrecord]
  constructor
  · intro h
    rintro _ _ ⟨rfl, rfl⟩ - row hrow rfl a ha
    have hmem : row.link (env.uuidString 0) ∈ t.groups.rows := by
      rw [hstored]
      exact List.mem_map.2 ⟨row, hrow, if_pos rfl⟩
    have hsorted := (h _ hmem).1
    rw [(Store.listOf_appendAlarm ht hrow).2, pairwise_concat (hrows row hrow).1] at hsorted
    exact hsorted a ha
  · intro h row hrow
    rw [hstored] at hrow
    obtain ⟨old, hold, rfl⟩ := List.mem_map.1 hrow
    obtain ⟨hsorted, hperm⟩ := hrows old hold
    obtain ⟨hother, hself⟩ := Store.listOf_appendAlarm ht hold
    by_cases hg : old.groupID = id
    · have hlink : (if old.groupID = id then
          old.link (alarm.toRealmEntity (env.uuidString 0)).alarmID else old) =
          old.link (env.uuidString 0) := if_pos hg
      rw [hlink, hself]
      refine ⟨(pairwise_concat hsorted).2 (h alarm id rfl hc old hold hg), ?_⟩
      simpa [hg] using hperm.append_right [{ alarm with alarmID := env.uuidString 0 }]
    · rw [if_neg hg, hother]
      refine ⟨hsorted, ?_⟩
      simpa [hg] using hperm

/-- **An alarm is removed** from every list, and the lists stay in order. -/
theorem Kept.remove {s : Filing} (hkept : s.Kept) (hdec : s.store.Decodable) {alarm : Alarm}
    {env : Env} (hc : env.commits = true) :
    (⟨s.store.deleteAlarms [alarm.alarmID], s.record (.removeAlarm alarm, env)⟩ : Filing).Kept := by
  have hrows := (kept_iff_rows hdec).1 hkept
  refine (kept_iff_rows (hdec.deleteAlarms _)).2 fun row hrow => ?_
  obtain ⟨old, hold, rfl⟩ := List.mem_map.1 hrow
  obtain ⟨hsorted, hperm⟩ := hrows old hold
  have hfilter : (fun a : Alarm => decide (a.alarmID ∉ [alarm.alarmID])) =
      fun a => decide (a.alarmID ≠ alarm.alarmID) := by
    funext a
    simp
  rw [Store.listOf_deleteAlarms, hfilter]
  refine ⟨hsorted.filter _, ?_⟩
  simpa [record, hc] using hperm.filter _

/-- Removing an alarm that is not stored removes nothing from the record of a stored
group. -/
theorem Kept.remove_of_notMem {s : Filing} (hkept : s.Kept) (hdec : s.store.Decodable)
    {alarm : Alarm} {env : Env} (hid : env.commits = true → alarm.alarmID ∉ s.store.alarms.keys) :
    (⟨s.store, s.record (.removeAlarm alarm, env)⟩ : Filing).Kept := by
  have hrows := (kept_iff_rows hdec).1 hkept
  refine (kept_iff_rows (s := ⟨s.store, s.record (.removeAlarm alarm, env)⟩) hdec).2
    fun row hrow => ?_
  obtain ⟨hsorted, hperm⟩ := hrows row hrow
  refine ⟨hsorted, ?_⟩
  have hrecord : s.record (.removeAlarm alarm, env) row.groupID = s.added row.groupID := by
    cases hc : env.commits with
    | false => simp [record, hc]
    | true =>
      simp only [record, hc, if_true]
      refine List.filter_eq_self.2 fun a ha => decide_eq_true fun heq => ?_
      exact hid hc (heq ▸ Store.mem_keys_of_listOf (hperm.mem_iff.2 ha))
  show (s.store.listOf row).Perm (s.record (.removeAlarm alarm, env) row.groupID)
  rw [hrecord]
  exact hperm

/-- `update` keeps the lists in order precisely when what it adds comes last. -/
theorem Kept.step_update_iff {s : Filing} (hkept : s.Kept) (hdec : s.store.Decodable) {u : Store}
    {alarm : Alarm} {id : String} {env : Env}
    (hu : repository.step s.store (.update alarm id, env) = some u) :
    (⟨u, s.record (.update alarm id, env)⟩ : Filing).Kept ↔
      s.InTimeOrder (.update alarm id, env) := by
  have hafter : s.store.after (GroupRepositoryImp.update env alarm id s.store) = some u := hu
  have hdec' : u.Decodable := hdec.effect (effect_of_step hu)
  rcases Store.after_write hafter with ⟨hc, rfl⟩ | ⟨hc, hblock⟩
  · -- the call threw
    refine iff_of_true ?_ fun _ _ _ hcommits => absurd hcommits (by simp [hc])
    simpa [record, hc] using hkept
  · cases hf : s.store.groups.find? id with
    | none =>
      have hid : id ∉ s.store.groups.keys := Table.find?_eq_none_iff.1 hf
      rw [hf] at hblock
      cases hblock
      refine iff_of_true ?_ ?_
      · simpa [record, hc, hid] using hkept
      · rintro _ _ ⟨rfl, rfl⟩ - row hrow rfl
        exact absurd (Table.key_mem_keys hrow) hid
    | some row =>
      rw [hf] at hblock
      have hkey := Table.find?_key hf
      have happend : s.store.appendAlarm row.groupID (alarm.toRealmEntity (env.uuidString 0)) =
          some u := hblock
      rw [hkey] at happend
      exact hkept.update_iff hdec hc (Table.find?_keys hf) hdec' happend

/-- `remove` keeps the lists in order. -/
theorem Kept.step_removeAlarm {s : Filing} (hkept : s.Kept) (hdec : s.store.Decodable) {u : Store}
    {alarm : Alarm} {env : Env}
    (hu : repository.step s.store (.removeAlarm alarm, env) = some u) :
    (⟨u, s.record (.removeAlarm alarm, env)⟩ : Filing).Kept := by
  have hafter : s.store.after (AlarmRepositoryImp.remove env alarm s.store) = some u := hu
  rcases Store.after_write hafter with ⟨hc, rfl⟩ | ⟨hc, hblock⟩
  · exact hkept.remove_of_notMem hdec fun hcommits => absurd hcommits (by simp [hc])
  · cases hf : s.store.alarms.find? alarm.alarmID with
    | none =>
      rw [hf] at hblock
      cases hblock
      exact hkept.remove_of_notMem hdec fun _ => Table.find?_eq_none_iff.1 hf
    | some row =>
      rw [hf] at hblock
      have hkey := Table.find?_key hf
      have hdelete : some (s.store.deleteAlarms [row.alarmID]) = some u := hblock
      rw [hkey] at hdelete
      cases hdelete
      exact hkept.remove hdec hc

/-- **One call** keeps the lists in order precisely when what it adds comes last. -/
theorem Kept.step_iff {s t : Filing} {e : Call × Env} (hkept : s.Kept) (hdec : s.store.Decodable)
    (he : machine.enabled s e) (ht : machine.step s e = some t) : t.Kept ↔ s.InTimeOrder e := by
  obtain ⟨call, env⟩ := e
  obtain ⟨u, hu, rfl⟩ := Option.map_eq_some_iff.1 ht
  rcases he.2 with ⟨alarm, id, hcall⟩ | ⟨alarm, hcall⟩
  · have hcall : call = .update alarm id := hcall
    subst hcall
    exact hkept.step_update_iff hdec hu
  · have hcall : call = .removeAlarm alarm := hcall
    subst hcall
    exact iff_of_true (hkept.step_removeAlarm hdec hu) fun _ _ h => nomatch h

/-- **When the lists are in time order.**  From any store the repositories make
whose lists are in time order, and over any run of calls that add alarms to groups
and remove alarms, with any of the writes failing: after every call each group that
`fetchAllGroups` returns has its alarms in time order, and they are those that were
added to it and not removed — precisely when every alarm that was added was not
earlier than the alarms its group had. -/
theorem kept_iff_in_time_order {s : Filing} (hs : repository.Reachable Store.empty s.store)
    (hkept : s.Kept) {tr : Trace Filing (Call × Env)} (hr : machine.Run s tr) :
    (∀ p ∈ tr, p.2.Kept) ↔ Machine.EachStep InTimeOrder s tr := by
  refine hr.forall_iff_eachStep (I := fun s => s.store.Decodable) ?_ ?_ (decodable_of_reachable hs)
    hkept
  · intro s e t hdec _ he ht _
    obtain ⟨u, hu, rfl⟩ := Option.map_eq_some_iff.1 ht
    exact hdec.effect (effect_of_step hu)
  · intro s e t hdec hkept he ht
    exact hkept.step_iff hdec he ht

/-! ## Two alarms -/

/-- The store with one group and no alarms. -/
def opened : Filing := ⟨Sample.grouped, fun _ => []⟩

theorem kept_opened : opened.Kept := by
  refine ⟨_, rfl, fun g hg => ?_⟩
  rw [List.mem_singleton.1 hg]
  exact ⟨List.Pairwise.nil, List.Perm.nil⟩

/-- The alarm of the sample at another time. -/
def alarmAt (time : Date) : Alarm := { Sample.alarm with time := time }

/-- **An alarm that is added late.**  The alarm at `10` is added before the alarm at
`5`, and the group has them in that order. -/
theorem later_alarm_first :
    ∃ tr, machine.Run opened tr ∧
      tr.map Prod.fst = [(.update (alarmAt 10) "x", ⟨Sample.drawn 1, true⟩),
        (.update (alarmAt 5) "x", ⟨Sample.drawn 2, true⟩)] ∧
      (∃ group, GroupRepositoryImp.fetchAllGroups (Trace.last opened tr).store = some [group] ∧
        group.alarmList.map Alarm.time = [10, 5]) ∧
      ¬ ∀ p ∈ tr, p.2.Kept := by
  refine ⟨[(_, _), (_, _)], .cons ⟨Sample.fresh_drawn (by decide), Or.inl ⟨_, _, rfl⟩⟩ rfl
    (.cons ⟨Sample.fresh_drawn (by decide), Or.inl ⟨_, _, rfl⟩⟩ rfl (.nil _)), rfl,
    ⟨_, rfl, rfl⟩, fun h => ?_⟩
  obtain ⟨groups, hfetch, hkept⟩ := h _ (List.mem_cons_of_mem _ List.mem_cons_self)
  cases hfetch
  have hsorted := (hkept _ List.mem_cons_self).1
  have hle : (10 : Date) ≤ 5 := List.rel_of_pairwise_cons hsorted List.mem_cons_self
  norm_num at hle

/-- Added in the order of their times, one of them removed again. -/
theorem kept_iff_in_time_order_opened :
    ∃ tr, machine.Run opened tr ∧
      tr.map Prod.fst = [(.update (alarmAt 5) "x", ⟨Sample.drawn 1, true⟩),
        (.update (alarmAt 10) "x", ⟨Sample.drawn 2, true⟩),
        (.removeAlarm { alarmAt 5 with alarmID := "xx" }, ⟨Sample.drawn 3, true⟩)] ∧
      ∀ p ∈ tr, p.2.Kept := by
  have hr : machine.Run opened [((.update (alarmAt 5) "x", ⟨Sample.drawn 1, true⟩), _),
      ((.update (alarmAt 10) "x", ⟨Sample.drawn 2, true⟩), _),
      ((.removeAlarm { alarmAt 5 with alarmID := "xx" }, ⟨Sample.drawn 3, true⟩), _)] :=
    .cons ⟨Sample.fresh_drawn (by decide), Or.inl ⟨_, _, rfl⟩⟩ rfl
      (.cons ⟨Sample.fresh_drawn (by decide), Or.inl ⟨_, _, rfl⟩⟩ rfl
        (.cons ⟨Sample.fresh_drawn (by decide), Or.inr ⟨_, rfl⟩⟩ rfl (.nil _)))
  refine ⟨_, hr, rfl, (kept_iff_in_time_order Sample.grouped_reachable kept_opened hr).2
    ⟨?_, ?_, fun _ _ h => (nomatch h), trivial⟩⟩
  · rintro _ _ ⟨rfl, rfl⟩ - row hrow - a ha
    rw [List.mem_singleton.1 hrow] at ha
    exact nomatch ha
  · rintro _ _ ⟨rfl, rfl⟩ - row hrow - a ha
    rw [List.mem_singleton.1 hrow] at ha
    have htime : a.time = 5 := congrArg Alarm.time (List.mem_singleton.1 ha)
    rw [htime]
    norm_num [alarmAt]

end Filing

end Alarma
