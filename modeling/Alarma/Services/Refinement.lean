import Alarma.Library.Catalogue
import Alarma.Services.Integrity

/-!
# The store as a catalogue

What the store is for, apart from how Realm keeps it: every group owns a list of
alarms.  `Store.catalogue` reads this off the tables, and the file shows that
the store with its two records of membership, its links and its unordered
deletes behaves as a catalogue does.

* `refines` — a coherent call changes the catalogue by one catalogue operation,
  `GroupRepositoryImp.remove` in particular drops the group with its alarms and
  nothing else.
* `groups_do_not_interfere` — no sequence of calls addressed to other groups
  changes what a group is or owns.
-/

namespace Alarma

open Keyed

/-- What there is to a group besides its alarms. -/
structure GroupHead where
  groupName : String
  interval : String
  isEnabled : Bool
  deriving DecidableEq, Repr

/-- The head of a stored group. -/
def GroupRow.head (row : GroupRow) : GroupHead := ⟨row.groupName, row.interval, row.isEnabled⟩

/-- The groups of the store, each with its alarms. -/
def Store.catalogue (s : Store) : Catalogue String GroupHead RealmAlarm := fun groupID =>
  (s.groups.find? groupID).map fun row => (row.head, s.linkedAlarms row)

theorem Store.catalogue_of_mem {s : Store} {row : GroupRow} (h : row ∈ s.groups.rows) :
    s.catalogue row.groupID = some (row.head, s.linkedAlarms row) := by
  rw [Store.catalogue, Table.find?_of_mem h]
  rfl

/-- A list is the identities of the alarms it links. -/
theorem Store.map_linkedAlarms {s : Store} {row : GroupRow} (h : row ∈ s.groups.rows) :
    (s.linkedAlarms row).map RealmAlarm.alarmID = row.alarmList := by
  have hkey : ∀ id ∈ row.alarmList, (s.alarms.find? id).map RealmAlarm.alarmID = some id := by
    intro id hid
    obtain ⟨a, ha, rfl⟩ := Table.mem_keys.1 (s.linked row h id hid)
    rw [Table.find?_of_mem ha]
    rfl
  rw [Store.linkedAlarms, List.map_filterMap, List.filterMap_congr hkey, List.filterMap_some]

theorem Store.mem_keys_of_catalogue {s : Store} {id : String}
    {entry : GroupHead × List RealmAlarm} (h : s.catalogue id = some entry) :
    id ∈ s.groups.keys := by
  obtain ⟨row, hrow, -⟩ := Option.map_eq_some_iff.1 h
  exact Table.find?_keys hrow

/-! ## How the writes change the catalogue -/

theorem Store.catalogue_addGroup {s : Store} {u : UUIDs} (hu : s.Fresh u) {group : Group}
    (h : group.alarmList = []) :
    (s.addGroup (group.toRealmEntity u)).catalogue =
      (Catalogue.Op.create (u 0) ⟨group.groupName, group.interval, group.isEnabled⟩).apply
        s.catalogue := by
  have hkey : (group.toRealmEntity u).toRow.groupID ∉ s.groups.keys := hu.notMem_groups 0
  obtain ⟨-, halarms⟩ := Store.addGroup_of_nil hu h
  funext id
  have hfind : (s.addGroup (group.toRealmEntity u)).groups.find? id =
      if u 0 = id then some ⟨u 0, group.groupName, group.interval, group.isEnabled, []⟩
      else s.groups.find? id := by
    rw [Store.groups_addGroup, Table.upsert_of_fresh hkey, Table.find?_append]
    simp [RealmGroup.toRow, Group.toRealmEntity, h]
  simp only [Store.catalogue, hfind, Catalogue.Op.apply, Store.linkedAlarms, halarms]
  by_cases hid : id = u 0
  · subst hid
    simp [GroupRow.head]
  · rw [if_neg (Ne.symm hid), if_neg hid]

/-- The alarms a list links, once some alarms are deleted. -/
theorem Store.linkedAlarms_deleteAlarms (s : Store) (ids : List String) (row : GroupRow) :
    (s.deleteAlarms ids).linkedAlarms (row.unlink ids) =
      (s.linkedAlarms row).filter fun a => a.alarmID ∉ ids := by
  have hfind : ∀ id, (s.alarms.removeAll ids).find? id =
      if id ∈ ids then none else s.alarms.find? id := fun id => Table.find?_removeAll _ _ _
  rw [Store.linkedAlarms, Store.linkedAlarms, GroupRow.alarmList_unlink, Store.alarms_deleteAlarms,
    List.filter_filterMap, List.filterMap_filter]
  refine List.filterMap_congr fun id _ => ?_
  rw [hfind]
  cases ha : s.alarms.find? id with
  | none => simp
  | some a =>
    rw [Option.filter_some, Table.find?_key ha]
    by_cases hid : id ∈ ids <;> simp [hid]

theorem Store.catalogue_deleteAlarms (s : Store) (ids : List String) :
    (s.deleteAlarms ids).catalogue =
      (Catalogue.Op.keepItems fun a : RealmAlarm => decide (a.alarmID ∉ ids)).apply
        s.catalogue := by
  funext id
  rw [Store.catalogue, Store.deleteAlarms, Table.find?_modify, ← Store.deleteAlarms]
  cases hf : s.groups.find? id with
  | none => simp [Catalogue.Op.apply, Store.catalogue, hf]
  | some row =>
    have hhead : (row.unlink ids).head = row.head := rfl
    simp only [Catalogue.Op.apply, Store.catalogue, hf, Option.map_some, hhead,
      s.linkedAlarms_deleteAlarms ids row]

/-- **The cascade drops the group with its alarms and nothing else**: no other
group's list loses a link. -/
theorem Store.Integrity.catalogue_cascade {s : Store} (hs : s.Integrity) (groupID : String) :
    (s.cascade groupID).catalogue = (Catalogue.Op.drop groupID).apply s.catalogue := by
  funext id
  rw [Store.cascade, Store.catalogue_deleteAlarms]
  simp only [Catalogue.Op.apply, Store.catalogue, Store.groups_deleteGroup, Table.find?_remove]
  by_cases hid : id = groupID
  · subst hid
    simp
  · rw [if_neg hid, if_neg hid]
    cases hf : s.groups.find? id with
    | none => rfl
    | some row =>
      have hrow := Table.find?_mem hf
      have hne : row.groupID ≠ groupID := fun hc => hid ((Table.find?_key hf).symm.trans hc)
      -- an alarm in another group's list names that group, so the cascade spares it
      have hspared : ∀ a ∈ s.linkedAlarms row,
          decide (a.alarmID ∉ (s.alarmsOf groupID).map RealmAlarm.alarmID) = true := fun a ha =>
        decide_eq_true (hs.notMem_of_other hrow hne _ (Store.mem_linkedAlarms ha).2)
      have hsame : (s.deleteGroup groupID).linkedAlarms row = s.linkedAlarms row := rfl
      simp only [Option.map_some, hsame, List.filter_eq_self.2 hspared]

/-- Rewriting the row of one group rewrites its entry. -/
theorem Store.catalogue_rewrite {s t : Store} {groupID : String} {f : GroupRow → GroupRow}
    {g : GroupHead × List RealmAlarm → GroupHead × List RealmAlarm}
    (hfind : ∀ id, t.groups.find? id =
      (s.groups.find? id).map fun row => if row.groupID = groupID then f row else row)
    (hhit : ∀ row ∈ s.groups.rows, row.groupID = groupID →
      ((f row).head, t.linkedAlarms (f row)) = g (row.head, s.linkedAlarms row))
    (hmiss : ∀ row ∈ s.groups.rows, t.linkedAlarms row = s.linkedAlarms row) (id : String) :
    t.catalogue id = if id = groupID then (s.catalogue id).map g else s.catalogue id := by
  rw [Store.catalogue, Store.catalogue, hfind]
  cases hf : s.groups.find? id with
  | none => split <;> rfl
  | some row =>
    have hrow := Table.find?_mem hf
    have hkey : row.groupID = id := Table.find?_key hf
    by_cases hid : id = groupID
    · have hgroup : row.groupID = groupID := hkey.trans hid
      rw [if_pos hid, Option.map_some, Option.map_some, Option.map_some, if_pos hgroup,
        hhit row hrow hgroup, Option.map_some]
    · have hgroup : row.groupID ≠ groupID := fun hc => hid (hkey.symm.trans hc)
      rw [if_neg hid, Option.map_some, Option.map_some, if_neg hgroup, hmiss row hrow]
      rfl

/-- Appending an alarm lengthens the list it is appended to: the links that were
there before still find the same alarms, and the new one finds the new alarm. -/
theorem Store.linkedAlarms_appendAlarm {s t : Store} {groupID : String} {alarm : RealmAlarm}
    (h : s.appendAlarm groupID alarm = some t) {row : GroupRow} (hrow : row ∈ s.groups.rows) :
    t.linkedAlarms row = s.linkedAlarms row ∧
      t.linkedAlarms (row.link alarm.alarmID) = s.linkedAlarms row ++ [alarm] := by
  rw [Store.appendAlarm] at h
  split at h
  · cases h
  · rename_i hfresh
    cases h
    have hold :
        row.alarmList.filterMap (s.alarms.append alarm hfresh).find? = s.linkedAlarms row := by
      refine List.filterMap_congr fun id hid => ?_
      have hne : alarm.alarmID ≠ id := fun hc => hfresh (hc ▸ s.linked row hrow id hid)
      rw [Table.find?_append, if_neg hne]
    have hnew : (s.alarms.append alarm hfresh).find? alarm.alarmID = some alarm := by
      rw [Table.find?_append, if_pos rfl]
    refine ⟨hold, ?_⟩
    simp [Store.linkedAlarms, List.filterMap_append, hold, hnew]

theorem Store.catalogue_appendAlarm {s t : Store} {groupID : String} {alarm : RealmAlarm}
    (h : s.appendAlarm groupID alarm = some t) :
    t.catalogue = (Catalogue.Op.push groupID alarm).apply s.catalogue := by
  have hfind : ∀ id, t.groups.find? id = (s.groups.find? id).map fun row =>
      if row.groupID = groupID then row.link alarm.alarmID else row := by
    rw [Store.appendAlarm] at h
    split at h
    · cases h
    · cases h
      intro id
      rw [Table.find?_modify]
  funext id
  refine Store.catalogue_rewrite hfind (fun row hrow _ => ?_)
    (fun row hrow => (Store.linkedAlarms_appendAlarm h hrow).1) id
  rw [(Store.linkedAlarms_appendAlarm h hrow).2]
  rfl

theorem Store.catalogue_setGroupEnabled (s : Store) (groupID : String) (b : Bool) :
    (s.setGroupEnabled groupID b).catalogue =
      (Catalogue.Op.setHead groupID fun head : GroupHead => { head with isEnabled := b }).apply
        s.catalogue := by
  funext id
  refine Store.catalogue_rewrite (f := fun row => { row with isEnabled := b }) (fun id => ?_)
    ?_ ?_ id
  · rw [Store.setGroupEnabled, Table.find?_modify]
  · exact fun row _ _ => rfl
  · exact fun row _ => rfl

theorem Store.catalogue_setAlarmEnabled (s : Store) (alarmID : String) (b : Bool) :
    (s.setAlarmEnabled alarmID b).catalogue =
      (Catalogue.Op.mapItems fun a : RealmAlarm =>
        if a.alarmID = alarmID then { a with isEnabled := b } else a).apply s.catalogue := by
  funext id
  have hlinked : ∀ row, (s.setAlarmEnabled alarmID b).linkedAlarms row =
      (s.linkedAlarms row).map fun a =>
        if a.alarmID = alarmID then { a with isEnabled := b } else a := by
    intro row
    rw [Store.linkedAlarms, Store.linkedAlarms, List.map_filterMap]
    refine List.filterMap_congr fun id _ => ?_
    rw [Store.setAlarmEnabled, Table.find?_modify]
  simp only [Store.catalogue, Store.groups_setAlarmEnabled, Catalogue.Op.apply, hlinked,
    Option.map_map]
  rfl

/-! ## The refinement -/

/-- What a coherent call means for the catalogue, when it commits and finds what
it works on. -/
def Call.op (env : Env) : Call → Catalogue.Op String GroupHead RealmAlarm
  | saveGroup group =>
    .create (env.uuidString 0) ⟨group.groupName, group.interval, group.isEnabled⟩
  | removeGroup group => .drop group.groupID
  | update alarm id => .push id (alarm.toRealmEntity (env.uuidString 0))
  | enableGroup group isEnabled =>
    .setHead group.groupID fun head => { head with isEnabled := isEnabled }
  | saveAlarm _ => .skip
  | enableAlarm alarm isEnabled =>
    .mapItems fun a => if a.alarmID = alarm.alarmID then { a with isEnabled := isEnabled } else a
  | removeAlarm alarm => .keepItems fun a => decide (a.alarmID ∉ [alarm.alarmID])

/-- **The store refines the catalogue.**  A coherent call leaves the catalogue
alone, or carries out the operation it means. -/
theorem Store.Integrity.refines {s t : Store} {call : Call} {env : Env} (hs : s.Integrity)
    (hu : s.Fresh env.uuidString) (hc : call.Coherent) (h : call.Effect env s t) :
    ∃ op, (op = .skip ∨ op = call.op env) ∧ t.catalogue = op.apply s.catalogue := by
  cases h with
  | unchanged => exact ⟨.skip, Or.inl rfl, rfl⟩
  | savedGroup group => exact ⟨_, Or.inr rfl, Store.catalogue_addGroup hu hc⟩
  | removedGroup _ => exact ⟨_, Or.inr rfl, hs.catalogue_cascade _⟩
  | updated _ ht => exact ⟨_, Or.inr rfl, Store.catalogue_appendAlarm ht⟩
  | enabledGroup group isEnabled => exact ⟨_, Or.inr rfl, s.catalogue_setGroupEnabled _ _⟩
  | savedAlarm => exact hc.elim
  | enabledAlarm alarm isEnabled => exact ⟨_, Or.inr rfl, s.catalogue_setAlarmEnabled _ _⟩
  | removedAlarm alarm => exact ⟨_, Or.inr rfl, s.catalogue_deleteAlarms _⟩

/-- The call is addressed to a group other than `h`, or to an alarm that is not
stored under `h`. -/
def Call.Elsewhere (h : GroupRow) (s : Store) : Call → Prop
  | saveGroup _ | saveAlarm _ => True
  | removeGroup group | enableGroup group _ => group.groupID ≠ h.groupID
  | update _ id => id ≠ h.groupID
  | enableAlarm alarm _ | removeAlarm alarm =>
    ∀ a ∈ s.alarmsOf h.groupID, a.alarmID ≠ alarm.alarmID

/-- A call addressed elsewhere means an operation that misses the group. -/
theorem Store.Integrity.misses {s : Store} {call : Call} {env : Env} (hs : s.Integrity)
    (hu : s.Fresh env.uuidString) {h row : GroupRow} (hrow : row ∈ s.groups.rows)
    (hid : row.groupID = h.groupID) (hc : call.Elsewhere h s) :
    (call.op env).Misses h.groupID s.catalogue := by
  have hentry : ∀ {head items}, s.catalogue h.groupID = some (head, items) →
      ∀ a ∈ items, a ∈ s.alarmsOf h.groupID := by
    intro head items hsome a ha
    rw [← hid, Store.catalogue_of_mem hrow] at hsome
    cases hsome
    rw [← hid]
    exact (hs.linkedAlarms_perm hrow).mem_iff.1 ha
  cases call with
  | saveGroup group =>
    intro heq
    exact hu.notMem_groups 0 (heq ▸ hid ▸ Table.key_mem_keys hrow)
  | removeGroup group => exact hc
  | update alarm id => exact hc
  | enableGroup group isEnabled => exact hc
  | saveAlarm alarm => trivial
  | enableAlarm alarm isEnabled =>
    intro head items hsome a ha
    exact if_neg (hc a (hentry hsome a ha))
  | removeAlarm alarm =>
    intro head items hsome a ha
    simpa using hc a (hentry hsome a ha)

/-- A run of calls addressed elsewhere leaves the group's catalogue entry. -/
theorem catalogue_run_elsewhere {s : Store} (hs : s.Integrity) {h : GroupRow}
    (hh : h ∈ s.groups.rows) {tr : Trace Store (Call × Env)}
    (hr : (coherentRepository.restrict fun s e => e.1.Elsewhere h s).Run s tr) :
    (Trace.last s tr).Integrity ∧
      (Trace.last s tr).catalogue h.groupID = s.catalogue h.groupID := by
  obtain ⟨tr', hr', hint, -, hlast⟩ := hr.simulate
    (R := fun s c => s.Integrity ∧ h.groupID ∈ s.groups.keys ∧ s.catalogue = c)
    (N := (Catalogue.machine String GroupHead RealmAlarm).restrict
      fun c op => op.Misses h.groupID c) (c := s.catalogue)
    (by
      rintro s e t c ⟨hs, hkey, rfl⟩ ⟨he, helse⟩ ht
      obtain ⟨row, hrow, hid⟩ := Table.mem_keys.1 hkey
      obtain ⟨op, hkind, hop⟩ := hs.refines he.1 he.2 (effect_of_step ht)
      have hmiss : op.Misses h.groupID s.catalogue := by
        rcases hkind with rfl | rfl
        · trivial
        · exact hs.misses he.1 hrow hid helse
      have hsame : t.catalogue h.groupID = s.catalogue h.groupID := by
        rw [hop, Catalogue.Op.apply_of_misses hmiss]
      exact Or.inr ⟨op, _, ⟨trivial, hmiss⟩, rfl, hs.step he ht,
        Store.mem_keys_of_catalogue (hsame.trans (hid ▸ Store.catalogue_of_mem hrow)), hop⟩)
    ⟨hs, Table.key_mem_keys hh, rfl⟩
  exact ⟨hint, by rw [hlast, Catalogue.machine_run_frame hr']⟩

/-- The catalogue entry of a stored group is the group. -/
theorem Store.row_of_catalogue {s t : Store} {h : GroupRow} (hh : h ∈ s.groups.rows)
    (heq : t.catalogue h.groupID = s.catalogue h.groupID) :
    h ∈ t.groups.rows ∧ t.linkedAlarms h = s.linkedAlarms h := by
  rw [Store.catalogue_of_mem hh, Store.catalogue, Option.map_eq_some_iff] at heq
  obtain ⟨row, hfind, hentry⟩ := heq
  obtain ⟨hhead, hlinked⟩ := Prod.mk.inj hentry
  have hrow := Table.find?_mem hfind
  have hlist : row.alarmList = h.alarmList := by
    rw [← Store.map_linkedAlarms hrow, hlinked, Store.map_linkedAlarms hh]
  have hsame : row = h := by
    obtain ⟨id, name, interval, isEnabled, list⟩ := row
    obtain ⟨id', name', interval', isEnabled', list'⟩ := h
    simp only [GroupRow.head, GroupHead.mk.injEq] at hhead hlist
    have hid : id = id' := Table.find?_key hfind
    simp [hid, hhead, hlist]
  rw [← hsame]
  exact ⟨hrow, hsame ▸ hlinked⟩

/-- **Groups do not interfere.**  In a reachable store with a group `h`: any run
of calls addressed elsewhere leaves the row of `h` with its list, the alarms on
the list in their order, and, up to order, what `fetchAllAlarms` returns for `h`;
and a `remove(group:)` returns when the write commits, and if it returns leaves
exactly the other groups with their lists and the alarms that name another group. -/
theorem groups_do_not_interfere {s : Store} (hs : coherentRepository.Reachable Store.empty s) :
    (∀ h ∈ s.groups.rows, ∀ tr : Trace Store (Call × Env),
      (coherentRepository.restrict fun s e => e.1.Elsewhere h s).Run s tr →
        h ∈ (Trace.last s tr).groups.rows ∧ (Trace.last s tr).toModel h = s.toModel h ∧
        ∀ g : Group, g.groupID = h.groupID → ∃ before after,
          AlarmRepositoryImp.fetchAllAlarms s g = some before ∧
          AlarmRepositoryImp.fetchAllAlarms (Trace.last s tr) g = some after ∧
          after.Perm before) ∧
    ∀ (env : Env) (g : Group),
      (env.commits = true → ∃ t, GroupRepositoryImp.remove env g s = .ok t) ∧
      ∀ t : Store, GroupRepositoryImp.remove env g s = .ok t →
        t.groups.rows.Perm (s.groups.rows.filter fun row => row.groupID ≠ g.groupID) ∧
        t.alarms.rows.Perm (s.alarms.rows.filter fun a => a.groupID ≠ g.groupID) := by
  have hint := integrity_of_reachable hs
  constructor
  · intro h hh tr hr
    obtain ⟨hint', hcat⟩ := catalogue_run_elsewhere hint hh hr
    obtain ⟨hh', hlinked⟩ := Store.row_of_catalogue hh hcat
    refine ⟨hh', ?_, fun g hg => ?_⟩
    · rw [Store.toModel, Store.toModel, hlinked]
    · refine ⟨_, _, hint.decodable.fetchAllAlarms_eq g, hint'.decodable.fetchAllAlarms_eq g, ?_⟩
      rw [hg]
      have hafter := hint'.linkedAlarms_perm hh'
      have hbefore := hint.linkedAlarms_perm hh
      exact (hafter.symm.trans (hlinked ▸ hbefore)).filterMap _
  · intro env g
    exact ⟨GroupRepositoryImp.remove_of_commits g s, fun t ht => hint.remove_perm ht⟩

/-- A second group comes and goes; the first one keeps its alarm.  Then the first one is
removed, and nothing is left. -/
theorem groups_do_not_interfere_filed :
    (∃ tr : Trace Store (Call × Env),
      tr.map (fun p => p.1.1) = [.saveGroup { groupName := "Home" },
        .removeGroup { groupID := "xxx", groupName := "Home" }] ∧
      ⟨"x", "Work", "", false, ["xx"]⟩ ∈ (Trace.last Sample.filed tr).groups.rows) ∧
    ∃ t, GroupRepositoryImp.remove ⟨Sample.drawn 2, true⟩ { groupID := "x", groupName := "Work" }
        Sample.filed = .ok t ∧ t.groups.rows = [] ∧ t.alarms.rows = [] := by
  let home : Store := {
    groups := ⟨[⟨"x", "Work", "", false, ["xx"]⟩, ⟨"xxx", "Home", "", false, []⟩], by decide⟩
    alarms := Sample.filed.alarms
    linked := by decide }
  let tr : Trace Store (Call × Env) :=
    [((.saveGroup { groupName := "Home" }, ⟨Sample.drawn 2, true⟩), home),
      ((.removeGroup { groupID := "xxx", groupName := "Home" }, ⟨Sample.drawn 3, true⟩),
        Sample.filed)]
  have hrun : (coherentRepository.restrict fun s e =>
      e.1.Elsewhere ⟨"x", "Work", "", false, ["xx"]⟩ s).Run Sample.filed tr :=
    .cons ⟨⟨Sample.fresh_drawn (by decide), rfl⟩, trivial⟩ rfl
      (.cons ⟨⟨Sample.fresh_drawn (by decide), trivial⟩, fun h => absurd h (by decide)⟩ rfl
        (.nil _))
  obtain ⟨hframe, hremove⟩ := groups_do_not_interfere Sample.filed_reachable
  refine ⟨⟨tr, rfl, (hframe _ (by decide) tr hrun).1⟩, ?_⟩
  obtain ⟨hreturns, hleaves⟩ := hremove ⟨Sample.drawn 2, true⟩
    { groupID := "x", groupName := "Work" }
  obtain ⟨t, ht⟩ := hreturns rfl
  obtain ⟨hgroups, halarms⟩ := hleaves t ht
  exact ⟨t, ht, List.perm_nil.1 hgroups, List.perm_nil.1 halarms⟩

end Alarma
