import Alarma.Library.ListScreen

/-!
# List screens over one store

An app has several list screens over the same store, and shows one of them at a
time.  A screen that is covered keeps its copy, and the others write to the store
meanwhile.

* `TableCopy` — what a list screen keeps for itself; `TableCopy.on` puts it in
  front of a store.
* `ListController.appear` — a screen comes on screen, and its view is loaded if it
  has not been.
* `Tracks` — what is asked of the store: an object only goes when it is removed.
* `Listed` — the copy holds stored objects, each once; `Listed.step` says that the
  rows keep it whether or not their writes commit, and that no row traps.
* `mirrors_of_views` — a screen that is covered mirrors the store as long as the
  others leave what its cells show.
-/

/-- What a list screen keeps for itself. -/
structure TableCopy (Item View : Type) where
  items : List Item := []
  /-- The rows of the table view, with what the cell shows if there is one. -/
  cells : List (Option View) := []
  isViewLoaded : Bool := false
  deriving DecidableEq, Repr

/-- A copy in front of a store. -/
def TableCopy.on {Backend Item View : Type} (c : TableCopy Item View) (backend : Backend) :
    ListScreen Backend Item View := ⟨backend, c.items, c.cells, c.isViewLoaded⟩

/-- What a screen keeps for itself. -/
def ListScreen.copy {Backend Item View : Type} (s : ListScreen Backend Item View) :
    TableCopy Item View := ⟨s.items, s.cells, s.isViewLoaded⟩

@[simp] theorem ListScreen.copy_on {Backend Item View : Type} (s : ListScreen Backend Item View) :
    s.copy.on s.backend = s := rfl

@[simp] theorem TableCopy.backend_on {Backend Item View : Type} (c : TableCopy Item View)
    (b : Backend) : (c.on b).backend = b := rfl

@[simp] theorem TableCopy.items_on {Backend Item View : Type} (c : TableCopy Item View)
    (b : Backend) : (c.on b).items = c.items := rfl

/-- What the user and the table view do to a row. -/
inductive RowEvent (World : Type) where
  | tapSwitch (world : World) (row : ℕ)
  | delete (world : World) (row : ℕ)
  /-- A row comes on screen, and a cell is rendered for it. -/
  | dequeue (row : ℕ)
  | scrollOff (row : ℕ)
  deriving DecidableEq, Repr

/-- The event of the screen. -/
def RowEvent.toListEvent {World : Type} (New : Type) : RowEvent World → ListEvent World New
  | tapSwitch world row => .tapSwitch world row
  | delete world row => .delete world row
  | dequeue row => .dequeue row
  | scrollOff row => .scrollOff row

/-- The event is a tap on a switch. -/
def RowEvent.IsTap {World : Type} : RowEvent World → Prop
  | tapSwitch _ _ => True
  | _ => False

/-- What the environment contributes, if the event writes. -/
def RowEvent.world {World : Type} : RowEvent World → Option World
  | tapSwitch world _ => some world
  | delete world _ => some world
  | _ => none

theorem RowEvent.isTap_toListEvent {World : Type} (New : Type) (e : RowEvent World) :
    (e.toListEvent New).IsTap ↔ e.IsTap := by
  cases e <;> exact Iff.rfl

namespace ListController

variable {Backend World Item View New Key : Type} (C : ListController Backend World Item View New)

/-- The screen comes on screen: the view is loaded the first time, and then it
appears. -/
def appear (s : ListScreen Backend Item View) : Option (ListScreen Backend Item View) := do
  let s ← if s.isViewLoaded then some s else C.refresh { s with isViewLoaded := true }
  if C.refreshesOnAppear then C.refresh s else some s

/-- What is asked of the store, whether or not its writes commit: from stores that
are `Valid` and in environments that are `allowed`, reading gives the objects with
the stored `keys`, no write traps, and an object only goes when it is removed. -/
structure Tracks (key : Item → Key) (keys : Backend → List Key) (allowed : Backend → World → Prop)
    (Valid : Backend → Prop) : Prop where
  fetch : ∀ {b}, Valid b → ∃ stored, C.fetch b = some stored ∧ stored.map key = keys b
  nodup : ∀ {b}, Valid b → (keys b).Nodup
  /-- Removing an object leaves the others. -/
  remove : ∀ {b world}, Valid b → allowed b world → ∀ item, ∃ b', C.remove world item b = some b' ∧
    Valid b' ∧ ∀ k ∈ keys b, k ≠ key item → k ∈ keys b'
  /-- Switching an object leaves all. -/
  enable : ∀ {b world}, Valid b → allowed b world → ∀ item on,
    ∃ b', C.enable world item on b = some b' ∧ Valid b' ∧ ∀ k ∈ keys b, k ∈ keys b'

/-- The copy holds stored objects, each once, and every object has a row. -/
structure Listed (key : Item → Key) (keys : Backend → List Key)
    (s : ListScreen Backend Item View) : Prop where
  loaded : s.isViewLoaded = true
  rows : s.cells.length = s.items.length
  nodup : (s.items.map key).Nodup
  stored : ∀ item ∈ s.items, key item ∈ keys s.backend

variable {C} {key : Item → Key} {keys : Backend → List Key}

/-- A covered screen is still listed when the others removed none of its objects. -/
theorem Listed.on {b b' : Backend} {c : TableCopy Item View} (h : Listed key keys (c.on b))
    (hkept : ∀ k ∈ keys b, k ∈ keys b') : Listed key keys (c.on b') :=
  ⟨h.loaded, h.rows, h.nodup, fun item hitem => hkept _ (h.stored item hitem)⟩

/-- Setting one cell leaves the objects. -/
theorem Listed.setCell {s : ListScreen Backend Item View} (h : Listed key keys s) (row : ℕ)
    (cell : Option View) : Listed key keys { s with cells := s.cells.set row cell } :=
  ⟨h.loaded, (List.length_set ..).trans h.rows, h.nodup, h.stored⟩

/-- An object that was taken from the copy has taken its key along. -/
theorem Listed.ne_of_mem_eraseIdx {s : ListScreen Backend Item View} (h : Listed key keys s)
    {row : ℕ} {item : Item} (hitem : s.items[row]? = some item) {other : Item}
    (hother : other ∈ s.items.eraseIdx row) : key other ≠ key item := by
  obtain ⟨hrow, rfl⟩ := List.getElem?_eq_some_iff.1 hitem
  have hperm := (List.getElem_cons_eraseIdx_perm hrow).map key
  have hnodup := hperm.nodup_iff.2 h.nodup
  rw [List.map_cons, List.nodup_cons] at hnodup
  intro heq
  exact hnodup.1 (heq ▸ List.mem_map_of_mem hother)

section Handlers

variable {allowed : Backend → World → Prop} {Valid : Backend → Prop}
  (hC : C.Tracks key keys allowed Valid)
include hC

/-- A screen that reads the store is listed and shows what it read. -/
theorem Tracks.refresh {s : ListScreen Backend Item View} (hvalid : Valid s.backend)
    (hs : s.isViewLoaded = true) :
    ∃ t, C.refresh s = some t ∧ t.backend = s.backend ∧ Listed key keys t ∧ C.InStep t ∧
      C.fetch t.backend = some t.items := by
  obtain ⟨stored, hfetch, hkeys⟩ := hC.fetch hvalid
  have ht : C.refresh s = some
      { s with items := stored, cells := List.replicate stored.length none } := by
    simp [ListController.refresh, hfetch]
  obtain ⟨hin, hbackend, hread⟩ := refresh_spec hs ht
  refine ⟨_, ht, hbackend, ⟨hin.loaded, hin.rows, ?_, fun item hitem => ?_⟩, hin, hread⟩
  · show (stored.map key).Nodup
    rw [hkeys]
    exact hC.nodup hvalid
  · show key item ∈ keys s.backend
    rw [← hkeys]
    exact List.mem_map_of_mem hitem

/-- **Coming on screen** never traps and leaves the store; the screen has read the
store, unless it was loaded before and does not read it again. -/
theorem Tracks.appear {s : ListScreen Backend Item View} (hvalid : Valid s.backend)
    (hs : s.isViewLoaded = true → Listed key keys s) :
    ∃ t, C.appear s = some t ∧ t.backend = s.backend ∧ Listed key keys t ∧
      ((C.InStep t ∧ C.fetch t.backend = some t.items) ∨
        (t = s ∧ s.isViewLoaded = true ∧ C.refreshesOnAppear = false)) := by
  unfold ListController.appear
  cases hloaded : s.isViewLoaded with
  | true =>
    cases hrefreshes : C.refreshesOnAppear with
    | false => exact ⟨s, by simp, rfl, hs hloaded, Or.inr ⟨rfl, rfl, rfl⟩⟩
    | true =>
      obtain ⟨t, ht, hbackend, hlisted, hin, hread⟩ := hC.refresh hvalid hloaded
      exact ⟨t, by simp [ht], hbackend, hlisted, Or.inl ⟨hin, hread⟩⟩
  | false =>
    obtain ⟨t, ht, hbackend, hlisted, hin, hread⟩ :=
      hC.refresh (s := { s with isViewLoaded := true }) hvalid rfl
    cases hrefreshes : C.refreshesOnAppear with
    | false => exact ⟨t, by simp [ht], hbackend, hlisted, Or.inl ⟨hin, hread⟩⟩
    | true =>
      have hvalid' : Valid t.backend := hbackend ▸ hvalid
      obtain ⟨u, hu, hbackend', hlisted', hin', hread'⟩ := hC.refresh hvalid' hlisted.loaded
      exact ⟨u, by simp [ht, hu], hbackend'.trans hbackend, hlisted', Or.inl ⟨hin', hread'⟩⟩

/-- **A row** never traps, and keeps the copy listed; all it does to the store is
one removal or one switch of an object of the copy. -/
theorem Listed.step {s : ListScreen Backend Item View} {e : RowEvent World}
    (hs : Listed key keys s) (hvalid : Valid s.backend)
    (he : (C.machine allowed).enabled s (e.toListEvent New)) :
    ∃ t, (C.machine allowed).step s (e.toListEvent New) = some t ∧ Valid t.backend ∧
      Listed key keys t ∧
      ((e.world = none ∧ t.backend = s.backend) ∨
        ∃ world, e.world = some world ∧ allowed s.backend world ∧ ∃ item ∈ s.items,
          C.remove world item s.backend = some t.backend ∨
            ∃ on, C.enable world item on s.backend = some t.backend) := by
  have hrows := hs.rows
  cases e with
  | tapSwitch world row =>
    obtain ⟨-, hallowed, view, hview⟩ := he
    have hrow : row < s.items.length := by
      have hcell := (List.getElem?_eq_some_iff.1 hview).1
      omega
    have hitem : s.items[row]? = some s.items[row] := List.getElem?_eq_getElem hrow
    obtain ⟨b, henable, hvalid', hkept⟩ := hC.enable hvalid hallowed s.items[row]
      (C.isOn (C.turn (!C.isOn view) view))
    refine ⟨{ s with backend := b, cells := s.cells.set row (some (C.turn (!C.isOn view) view)) },
      ?_, hvalid', ?_, ?_⟩
    · simp [RowEvent.toListEvent, ListController.machine, ListController.didTapSwitch, hview,
        hitem, henable]
    · have hlisted := hs.setCell row (some (C.turn (!C.isOn view) view))
      exact ⟨hlisted.loaded, hlisted.rows, hlisted.nodup,
        fun item hitem => hkept _ (hs.stored item hitem)⟩
    · exact Or.inr ⟨world, rfl, hallowed, _, List.getElem_mem hrow, Or.inr ⟨_, henable⟩⟩
  | delete world row =>
    obtain ⟨-, hallowed, hlt⟩ := he
    have hrow : row < s.items.length := by omega
    have hitem : s.items[row]? = some s.items[row] := List.getElem?_eq_getElem hrow
    obtain ⟨b, hremove, hvalid', hkept⟩ := hC.remove hvalid hallowed s.items[row]
    have hitems : (s.items.eraseIdx row).length + 1 = s.items.length := by
      rw [List.length_eraseIdx_of_lt hrow]
      omega
    have hcells : (s.cells.eraseIdx row).length + 1 = s.cells.length := by
      rw [List.length_eraseIdx_of_lt hlt]
      omega
    have hlength : s.cells.length = (s.items.eraseIdx row).length + 1 := by omega
    refine ⟨{ s with
      backend := b
      items := s.items.eraseIdx row
      cells := s.cells.eraseIdx row }, ?_, hvalid', ⟨hs.loaded, ?_, ?_, ?_⟩, ?_⟩
    · simp [RowEvent.toListEvent, ListController.machine, ListController.commitDelete, hitem,
        hremove, hlength]
    · show (s.cells.eraseIdx row).length = (s.items.eraseIdx row).length
      omega
    · exact hs.nodup.sublist ((List.eraseIdx_sublist _ _).map key)
    · intro item hmem
      exact hkept _ (hs.stored item (List.mem_of_mem_eraseIdx hmem))
        (hs.ne_of_mem_eraseIdx hitem hmem)
    · exact Or.inr ⟨world, rfl, hallowed, _, List.getElem_mem hrow, Or.inl hremove⟩
  | dequeue row =>
    obtain ⟨-, hlt⟩ := he
    have hitem : s.items[row]? = some s.items[row] := List.getElem?_eq_getElem (by omega)
    refine ⟨{ s with cells := s.cells.set row (some (C.render s.items[row])) }, ?_, hvalid,
      hs.setCell row _, Or.inl ⟨rfl, rfl⟩⟩
    simp [RowEvent.toListEvent, ListController.machine, ListController.cellForRow, hitem]
  | scrollOff row => exact ⟨_, rfl, hvalid, hs.setCell row none, Or.inl ⟨rfl, rfl⟩⟩

end Handlers

/-- A row that is enabled stays so in environments that are allowed nevertheless. -/
theorem enabled_of_world {A B : Backend → World → Prop} {s : ListScreen Backend Item View}
    {e : RowEvent World} (he : (C.machine A).enabled s (e.toListEvent New))
    (h : ∀ world, e.world = some world → A s.backend world → B s.backend world) :
    (C.machine B).enabled s (e.toListEvent New) := by
  cases e with
  | tapSwitch world row => exact ⟨he.1, h world rfl he.2.1, he.2.2⟩
  | delete world row => exact ⟨he.1, h world rfl he.2.1, he.2.2⟩
  | dequeue row => exact he
  | scrollOff row => exact he

/-- Only a screen that is loaded has rows. -/
theorem loaded_of_enabled {A : Backend → World → Prop} {s : ListScreen Backend Item View}
    {e : RowEvent World} (he : (C.machine A).enabled s (e.toListEvent New)) :
    s.isViewLoaded = true := by
  cases e <;> exact he.1

/-! ## Screens that are covered -/

/-- A screen in step with its copy is so in front of any store. -/
theorem InStep.on {b : Backend} {c : TableCopy Item View} (h : C.InStep (c.on b)) (b' : Backend) :
    C.InStep (c.on b') :=
  ⟨h.loaded, h.rows, h.shown⟩

/-- **A covered screen mirrors the store** as long as the others leave what its
cells show. -/
theorem mirrors_of_views {viewKey : View → Key} {b b' : Backend} {stored stored' : List Item}
    (hfetch : C.fetch b = some stored) (hfetch' : C.fetch b' = some stored')
    (hviews : stored'.map C.render = stored.map C.render) {c : TableCopy Item View}
    (h : C.Mirrors viewKey (c.on b)) : C.Mirrors viewKey (c.on b') := by
  obtain ⟨read, hread, hrendered, hkeys⟩ := h
  have hsame : stored = read := Option.some.inj (hfetch.symm.trans hread)
  subst hsame
  refine ⟨stored', hfetch', fun item hitem => ?_, ?_⟩
  · obtain ⟨object, hobject, hrender⟩ := hrendered item hitem
    have hview : C.render object ∈ stored'.map C.render := by
      rw [hviews]
      exact List.mem_map_of_mem hobject
    obtain ⟨object', hobject', hrender'⟩ := List.mem_map.1 hview
    exact ⟨object', hobject', hrender'.trans hrender⟩
  · have hstored := congrArg (List.map viewKey) hviews
    rw [List.map_map, List.map_map] at hstored
    rw [hstored]
    exact hkeys

end ListController
