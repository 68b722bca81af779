import Alarma.Library.ListScreen

/-!
# Rows, objects and writes that fail

A table view counts its rows for itself, and a list screen has to keep the copy
its data source answers from at the same length, whatever the store does.

* `TableController.machine` — the events of a screen, the selection of rows, and
  changes of the store by others; nothing is asked of the store.
* `rows_match_objects` — the table view has a row for every object after every
  event, no handler uses an index that is out of range, and what makes a handler
  trap is the store.
* `Undone` — a handler whose write failed leaves the screen as it was;
  `not_undone_commitDelete`, `not_undone_didTapSwitch` — the handlers never do.
-/

/-- A list screen with the rest of its handlers. -/
structure TableController (Backend World Item View New : Type) extends
    ListController Backend World Item View New where
  /-- Whether the screen saves a new object itself, or leaves that to another. -/
  savesOnAdd : Bool
  /-- Whether selecting a row reads its object. -/
  readsOnSelect : Bool

/-- What the user, the table view and other screens do. -/
inductive TableEvent (Backend World New : Type) where
  | screen (event : ListEvent World New)
  | select (row : ℕ)
  /-- Something else writes to the store. -/
  | storeChanges (backend : Backend)

namespace TableController

variable {Backend World Item View New : Type} (C : TableController Backend World Item View New)

/-- The screen as a machine.  Writes draw on any environment. -/
def machine : Machine (ListScreen Backend Item View) (TableEvent Backend World New) where
  enabled := fun s e =>
    match e with
    | .screen event => (C.toListController.machine fun _ _ => True).enabled s event
    | .select row => s.isViewLoaded = true ∧ row < s.cells.length
    | .storeChanges _ => True
  step := fun s e =>
    match e with
    | .screen (.add world new) =>
      if C.savesOnAdd then (C.toListController.machine fun _ _ => True).step s (.add world new)
      else some s
    | .screen event => (C.toListController.machine fun _ _ => True).step s event
    | .select row => if C.readsOnSelect then (s.items[row]?).map fun _ => s else some s
    | .storeChanges backend => some { s with backend := backend }

/-- The indices a handler uses are in range, and the table view allows it to delete
its row. -/
def InRange (s : ListScreen Backend Item View) : TableEvent Backend World New → Prop
  | .screen (.tapSwitch _ row) | .screen (.dequeue row) | .select row => row < s.items.length
  | .screen (.delete _ row) => row < s.items.length ∧
      s.cells.length = (s.items.eraseIdx row).length + 1
  | _ => True

/-- A call of the store that a handler makes traps. -/
def StoreTraps (s : ListScreen Backend Item View) : TableEvent Backend World New → Prop
  | .screen .viewDidLoad | .screen .viewWillAppear => C.fetch s.backend = none
  | .screen (.add world new) => ∀ backend, C.add world new s.backend = some backend →
      C.fetch backend = none
  | .screen (.tapSwitch world row) => ∃ item isOn, s.items[row]? = some item ∧
      C.enable world item isOn s.backend = none
  | .screen (.delete world row) => ∃ item, s.items[row]? = some item ∧
      C.remove world item s.backend = none
  | _ => False

/-- The table view has a row for every object, and a deletion takes one of each. -/
structure RowsMatch (s : ListScreen Backend Item View) (e : TableEvent Backend World New)
    (t : ListScreen Backend Item View) : Prop where
  rows : t.cells.length = t.items.length
  delete : ∀ world row, e = .screen (.delete world row) →
    t.cells.length + 1 = s.cells.length ∧ t.items.length + 1 = s.items.length

variable {C}

theorem rows_refresh {s t : ListScreen Backend Item View} (ht : C.refresh s = some t) :
    t.cells.length = t.items.length := by
  obtain ⟨items, -, ht⟩ := Option.bind_eq_some_iff.1 ht
  cases ht
  exact List.length_replicate

/-- **One event.** -/
theorem rowsMatch_of_step {s t : ListScreen Backend Item View} {e : TableEvent Backend World New}
    (hs : s.cells.length = s.items.length) (ht : C.machine.step s e = some t) :
    RowsMatch s e t := by
  cases e with
  | screen event =>
    cases event with
    | viewDidLoad => exact ⟨rows_refresh ht, by simp⟩
    | viewWillAppear =>
      refine ⟨?_, by simp⟩
      simp only [machine, ListController.machine] at ht
      split at ht
      · exact rows_refresh ht
      · cases ht
        exact hs
    | add world new =>
      refine ⟨?_, by simp⟩
      simp only [machine, ListController.machine] at ht
      split at ht
      · obtain ⟨backend, -, ht⟩ := Option.bind_eq_some_iff.1 ht
        exact rows_refresh ht
      · cases ht
        exact hs
    | tapSwitch world row =>
      refine ⟨?_, by simp⟩
      obtain ⟨view, -, ht⟩ := Option.bind_eq_some_iff.1 ht
      obtain ⟨item, -, ht⟩ := Option.bind_eq_some_iff.1 ht
      obtain ⟨backend, -, ht⟩ := Option.bind_eq_some_iff.1 ht
      cases ht
      exact (List.length_set ..).trans hs
    | delete world row =>
      obtain ⟨item, hitem, ht⟩ := Option.bind_eq_some_iff.1 ht
      obtain ⟨backend, -, ht⟩ := Option.bind_eq_some_iff.1 ht
      split at ht
      case isFalse => cases ht
      case isTrue =>
        cases ht
        have hrow := (List.getElem?_eq_some_iff.1 hitem).1
        have hcells : (s.cells.eraseIdx row).length + 1 = s.cells.length := by
          rw [List.length_eraseIdx_of_lt (by omega)]
          omega
        have hitems : (s.items.eraseIdx row).length + 1 = s.items.length := by
          rw [List.length_eraseIdx_of_lt hrow]
          omega
        refine ⟨?_, fun _ _ _ => ⟨hcells, hitems⟩⟩
        show (s.cells.eraseIdx row).length = (s.items.eraseIdx row).length
        omega
    | dequeue row =>
      refine ⟨?_, by simp⟩
      obtain ⟨item, -, ht⟩ := Option.bind_eq_some_iff.1 ht
      cases ht
      exact (List.length_set ..).trans hs
    | scrollOff row =>
      refine ⟨?_, by simp⟩
      cases ht
      exact (List.length_set ..).trans hs
  | select row =>
    refine ⟨?_, by simp⟩
    simp only [machine] at ht
    split at ht
    · obtain ⟨item, -, rfl⟩ := Option.map_eq_some_iff.1 ht
      exact hs
    · cases ht
      exact hs
  | storeChanges backend =>
    cases ht
    exact ⟨hs, by simp⟩

/-- An index below the number of rows is in range. -/
theorem inRange_of_enabled {s : ListScreen Backend Item View} {e : TableEvent Backend World New}
    (hs : s.cells.length = s.items.length) (he : C.machine.enabled s e) : InRange s e := by
  cases e with
  | screen event =>
    cases event with
    | viewDidLoad => trivial
    | viewWillAppear => trivial
    | add world new => trivial
    | tapSwitch world row =>
      obtain ⟨-, -, view, hview⟩ := he
      have hrow := (List.getElem?_eq_some_iff.1 hview).1
      show row < s.items.length
      omega
    | delete world row =>
      have hrow : row < s.cells.length := he.2.2
      have herase := List.length_eraseIdx_of_lt (l := s.items) (i := row) (by omega)
      refine ⟨?_, ?_⟩ <;> omega
    | dequeue row =>
      have hrow : row < s.cells.length := he.2
      show row < s.items.length
      omega
    | scrollOff row => trivial
  | select row =>
    have hrow : row < s.cells.length := he.2
    show row < s.items.length
    omega
  | storeChanges backend => trivial

/-- When the indices are in range, it takes the store to trap. -/
theorem storeTraps_of_step {s : ListScreen Backend Item View} {e : TableEvent Backend World New}
    (he : C.machine.enabled s e) (hrange : InRange s e) (ht : C.machine.step s e = none) :
    C.StoreTraps s e := by
  have hrefresh : ∀ s : ListScreen Backend Item View, C.refresh s = none →
      C.fetch s.backend = none := by
    intro s ht
    cases hfetch : C.fetch s.backend with
    | none => rfl
    | some items =>
      rw [ListController.refresh, hfetch] at ht
      cases ht
  cases e with
  | screen event =>
    cases event with
    | viewDidLoad => exact hrefresh { s with isViewLoaded := true } ht
    | viewWillAppear =>
      simp only [machine, ListController.machine] at ht
      split at ht
      · exact hrefresh _ ht
      · cases ht
    | add world new =>
      intro backend hadd
      simp only [machine, ListController.machine] at ht
      split at ht
      · rw [hadd] at ht
        exact hrefresh _ ht
      · cases ht
    | tapSwitch world row =>
      obtain ⟨-, -, view, hview⟩ := he
      have hitem : s.items[row]? = some s.items[row] := List.getElem?_eq_getElem hrange
      refine ⟨_, C.isOn (C.turn (!C.isOn view) view), hitem, ?_⟩
      cases henable : C.enable world s.items[row] (C.isOn (C.turn (!C.isOn view) view))
          s.backend with
      | none => rfl
      | some backend =>
        have hstep : C.didTapSwitch world row s = none := ht
        simp [ListController.didTapSwitch, hview, hitem, henable] at hstep
    | delete world row =>
      obtain ⟨hrow, hlength⟩ := hrange
      have hitem : s.items[row]? = some s.items[row] := List.getElem?_eq_getElem hrow
      refine ⟨_, hitem, ?_⟩
      cases hremove : C.remove world s.items[row] s.backend with
      | none => rfl
      | some backend =>
        have hstep : C.commitDelete world row s = none := ht
        simp [ListController.commitDelete, hitem, hremove, hlength] at hstep
    | dequeue row =>
      have hitem : s.items[row]? = some s.items[row] := List.getElem?_eq_getElem hrange
      have hstep : C.cellForRow row s = none := ht
      rw [ListController.cellForRow, hitem] at hstep
      cases hstep
    | scrollOff row => cases ht
  | select row =>
    have hitem : s.items[row]? = some s.items[row] := List.getElem?_eq_getElem hrange
    simp only [machine] at ht
    split at ht
    · rw [hitem] at ht
      cases ht
    · cases ht
  | storeChanges backend => cases ht

/-- **Rows and objects.**  After every event of a run, whatever the store did, the
table view has a row for every object, and a deletion has taken one of each; any
event that may come next uses indices in range, and traps only where the store
does. -/
theorem rows_match_objects {b : Backend}
    {tr : Trace (ListScreen Backend Item View) (TableEvent Backend World New)}
    (hr : C.machine.Run (ListController.unloaded b) tr) :
    Machine.EachTransition RowsMatch (ListController.unloaded b) tr ∧
      ∀ e, C.machine.enabled (Trace.last (ListController.unloaded b) tr) e →
        InRange (Trace.last (ListController.unloaded b) tr) e ∧
          (C.machine.step (Trace.last (ListController.unloaded b) tr) e = none →
            C.StoreTraps (Trace.last (ListController.unloaded b) tr) e) := by
  have hlast := hr.invariant (I := fun s => s.cells.length = s.items.length)
    (fun hs _ ht => (rowsMatch_of_step hs ht).rows) rfl
  refine ⟨hr.eachTransition (I := fun s => s.cells.length = s.items.length)
    (fun hs _ ht => ?_) rfl, fun e he => ?_⟩
  · have hmatch := rowsMatch_of_step hs ht
    exact ⟨hmatch.rows, hmatch⟩
  · have hrange := inRange_of_enabled hlast he
    exact ⟨hrange, storeTraps_of_step he hrange⟩

end TableController

namespace ListController

variable {Backend World Item View New Key : Type} {C : ListController Backend World Item View New}

/-! ## Writes that fail -/

/-- The screen is as it was before an event on a row. -/
structure Undone (row : ℕ) (s t : ListScreen Backend Item View) : Prop where
  items : t.items = s.items
  rows : t.cells.length = s.cells.length
  cell : t.cells[row]? = s.cells[row]?

variable (C) in
/-- The handlers return, the store is what it was, and the screen is not. -/
structure NeverUndone (key : View → Key) (world : World) (s : ListScreen Backend Item View) :
    Prop where
  /-- A row is gone although its object is stored. -/
  commitDelete : ∀ row < s.items.length, ∃ t, C.commitDelete world row s = some t ∧
    t.backend = s.backend ∧ ¬ Undone row s t ∧ ¬ C.Mirrors key t
  /-- A switch shows a position that no stored object of that key has. -/
  didTapSwitch : ∀ row view, s.cells[row]? = some (some view) →
    ∃ t, C.didTapSwitch world row s = some t ∧ t.backend = s.backend ∧ ¬ Undone row s t ∧
      ∃ shown stored object, t.cells[row]? = some (some shown) ∧
        C.fetch t.backend = some stored ∧ object ∈ stored ∧
        key (C.render object) = key view ∧ C.isOn shown ≠ C.isOn (C.render object)

/-- **A deletion that fails** takes the row and the object of the copy all the same. -/
theorem not_undone_commitDelete {key : View → Key} {world : World}
    {s : ListScreen Backend Item View} (hin : C.InStep s) (hm : C.Mirrors key s)
    (hfails : ∀ item, C.remove world item s.backend = some s.backend) {row : ℕ}
    (hrow : row < s.items.length) :
    ∃ t, C.commitDelete world row s = some t ∧ t.backend = s.backend ∧ ¬ Undone row s t ∧
      ¬ C.Mirrors key t := by
  have hitem : s.items[row]? = some s.items[row] := List.getElem?_eq_getElem hrow
  have hrows := hin.rows
  have herase : (s.items.eraseIdx row).length + 1 = s.items.length := by
    rw [List.length_eraseIdx_of_lt hrow]
    omega
  have hlength : s.cells.length = (s.items.eraseIdx row).length + 1 := by omega
  refine ⟨{ s with items := s.items.eraseIdx row, cells := s.cells.eraseIdx row }, ?_, rfl, ?_, ?_⟩
  · simp [ListController.commitDelete, hitem, hfails, hlength]
  · intro h
    have hsame : (s.items.eraseIdx row).length = s.items.length := congrArg List.length h.items
    omega
  · -- the store has one object more than the copy
    rintro ⟨stored, hfetch, -, hkeys⟩
    obtain ⟨stored', hfetch', -, hkeys'⟩ := hm
    rw [hfetch'] at hfetch
    cases hfetch
    have hcopy : (s.items.eraseIdx row).length = stored.length := by simpa using hkeys.length_eq
    have hbefore : s.items.length = stored.length := by simpa using hkeys'.length_eq
    omega

/-- **A tap that fails** leaves the switch where the user put it. -/
theorem not_undone_didTapSwitch {key : View → Key} {world : World}
    {s : ListScreen Backend Item View} (hin : C.InStep s) (hm : C.Mirrors key s)
    (hturn : ∀ on view, C.isOn (C.turn on view) = on)
    (hfails : ∀ item on, C.enable world item on s.backend = some s.backend) {row : ℕ} {view : View}
    (hview : s.cells[row]? = some (some view)) :
    ∃ t, C.didTapSwitch world row s = some t ∧ t.backend = s.backend ∧ ¬ Undone row s t ∧
      ∃ shown stored object, t.cells[row]? = some (some shown) ∧
        C.fetch t.backend = some stored ∧ object ∈ stored ∧
        key (C.render object) = key view ∧ C.isOn shown ≠ C.isOn (C.render object) := by
  obtain ⟨item, hitem, hrender⟩ := Option.map_eq_some_iff.1 (hin.shown row view hview)
  have hrow : row < s.cells.length := (List.getElem?_eq_some_iff.1 hview).1
  have hflipped : C.isOn (C.turn (!C.isOn view) view) ≠ C.isOn view := by
    rw [hturn]
    cases C.isOn view <;> decide
  have hcell : (s.cells.set row (some (C.turn (!C.isOn view) view)))[row]? =
      some (some (C.turn (!C.isOn view) view)) := by
    rw [List.getElem?_set_self hrow]
  refine ⟨{ s with cells := s.cells.set row (some (C.turn (!C.isOn view) view)) }, ?_, rfl, ?_, ?_⟩
  · simp [ListController.didTapSwitch, hview, hitem, hfails]
  · intro h
    have hsame := hcell.symm.trans (h.cell.trans hview)
    exact hflipped (congrArg C.isOn (Option.some.inj (Option.some.inj hsame)))
  · obtain ⟨stored, hfetch, hrendered, -⟩ := hm
    obtain ⟨object, hobject, hsame⟩ := hrendered item (List.mem_of_getElem? hitem)
    refine ⟨_, stored, object, hcell, hfetch, hobject, ?_, ?_⟩
    · rw [hsame, hrender]
    · rw [hsame, hrender]
      exact hflipped

/-- **No failed write is undone.** -/
theorem neverUndone {key : View → Key} {world : World} {s : ListScreen Backend Item View}
    (hin : C.InStep s) (hm : C.Mirrors key s) (hturn : ∀ on view, C.isOn (C.turn on view) = on)
    (hremove : ∀ item, C.remove world item s.backend = some s.backend)
    (henable : ∀ item on, C.enable world item on s.backend = some s.backend) :
    C.NeverUndone key world s :=
  ⟨fun _ hrow => not_undone_commitDelete hin hm hremove hrow,
    fun _ _ hview => not_undone_didTapSwitch hin hm hturn henable hview⟩

end ListController
