import Alarma.Library.Machine

/-!
# A table view over a store

A list screen keeps a copy of the objects it shows, and a table view whose cells
are rendered from the copy, each when it comes on screen.  Its handlers write to
the store and have to keep the copy up to date by hand.

* `ListController` — what a screen supplies: how it reads the store, what a cell
  shows, what its handlers write.
* `ListController.machine` — the events of the screen and its table view.
* `Lawful` — what is asked of the store: reading gives each key once, removing
  an object removes it, switching an object on or off switches it;
  `Lawful.of_views` reads the laws off what the cells show.
* `Mirrors` — the screen shows what is stored; `mirrors_iff_perm` says it with
  one permutation.
* `mirrors_iff_no_tap` — the handlers that refresh the copy or delete from it
  keep it a mirror, and the handler of the switch breaks it: the screen mirrors
  the store after every event precisely when no switch is tapped.
-/

/-- A list screen of objects `Item` kept in a store `Backend`, whose cells show a
`View` with a switch.  `World` is what the environment contributes to a write,
`New` what the user enters to add an object. -/
structure ListController (Backend World Item View New : Type) where
  fetch : Backend → Option (List Item)
  /-- What the cell of an object shows. -/
  render : Item → View
  /-- The position of the switch. -/
  isOn : View → Bool
  /-- Put the switch in a position. -/
  turn : Bool → View → View
  add : World → New → Backend → Option Backend
  remove : World → Item → Backend → Option Backend
  enable : World → Item → Bool → Backend → Option Backend
  /-- Whether the screen reads the store again whenever it appears. -/
  refreshesOnAppear : Bool

/-- The state of a list screen. -/
structure ListScreen (Backend Item View : Type) where
  backend : Backend
  items : List Item
  /-- The rows of the table view, with what the cell shows if there is one. -/
  cells : List (Option View)
  isViewLoaded : Bool

/-- What the user and the table view do. -/
inductive ListEvent (World New : Type) where
  | viewDidLoad
  | viewWillAppear
  | add (world : World) (new : New)
  | tapSwitch (world : World) (row : ℕ)
  | delete (world : World) (row : ℕ)
  /-- A row comes on screen, and a cell is rendered for it. -/
  | dequeue (row : ℕ)
  | scrollOff (row : ℕ)

/-- The event is a tap on a switch. -/
def ListEvent.IsTap {World New : Type} : ListEvent World New → Prop
  | tapSwitch _ _ => True
  | _ => False

namespace ListController

variable {Backend World Item View New Key : Type}

/-- The screen before its view is loaded. -/
def unloaded (backend : Backend) : ListScreen Backend Item View := ⟨backend, [], [], false⟩

variable (C : ListController Backend World Item View New)

/-! ## The handlers -/

/-- Read the store and reload the table view. -/
def refresh (s : ListScreen Backend Item View) : Option (ListScreen Backend Item View) := do
  let items ← C.fetch s.backend
  return { s with items := items, cells := List.replicate items.length none }

/-- Render the cell of a row; the subscript traps out of range. -/
def cellForRow (row : ℕ) (s : ListScreen Backend Item View) :
    Option (ListScreen Backend Item View) := do
  let item ← s.items[row]?
  return { s with cells := s.cells.set row (some (C.render item)) }

/-- The switch of a cell has been flipped: write its new position. -/
def didTapSwitch (world : World) (row : ℕ) (s : ListScreen Backend Item View) :
    Option (ListScreen Backend Item View) := do
  let view ← (s.cells[row]?).join
  let flipped := C.turn (!C.isOn view) view
  let item ← s.items[row]?
  let backend ← C.enable world item (C.isOn flipped) s.backend
  return { s with backend := backend, cells := s.cells.set row (some flipped) }

/-- Delete a row: take the object from the copy, remove it from the store, and
delete the row, which the table view only allows when the number of objects has
dropped by one. -/
def commitDelete (world : World) (row : ℕ) (s : ListScreen Backend Item View) :
    Option (ListScreen Backend Item View) := do
  let item ← s.items[row]?
  let backend ← C.remove world item s.backend
  if s.cells.length = (s.items.eraseIdx row).length + 1 then
    return { s with
      backend := backend
      items := s.items.eraseIdx row
      cells := s.cells.eraseIdx row }
  else none

/-- The screen as a machine.  `allowed` says what the environment may contribute
to a write. -/
def machine (allowed : Backend → World → Prop) :
    Machine (ListScreen Backend Item View) (ListEvent World New) where
  enabled := fun s e =>
    match e with
    | .viewDidLoad => s.isViewLoaded = false
    | .viewWillAppear => s.isViewLoaded = true
    | .add world _ => s.isViewLoaded = true ∧ allowed s.backend world
    | .tapSwitch world row => s.isViewLoaded = true ∧ allowed s.backend world ∧
        ∃ view, s.cells[row]? = some (some view)
    | .delete world row => s.isViewLoaded = true ∧ allowed s.backend world ∧ row < s.cells.length
    | .dequeue row | .scrollOff row => s.isViewLoaded = true ∧ row < s.cells.length
  step := fun s e =>
    match e with
    | .viewDidLoad => C.refresh { s with isViewLoaded := true }
    | .viewWillAppear => if C.refreshesOnAppear then C.refresh s else some s
    | .add world new => (C.add world new s.backend).bind fun backend =>
        C.refresh { s with backend := backend }
    | .tapSwitch world row => C.didTapSwitch world row s
    | .delete world row => C.commitDelete world row s
    | .dequeue row => C.cellForRow row s
    | .scrollOff row => some { s with cells := s.cells.set row none }

/-! ## What is asked of the store -/

/-- The laws of a store, for the environments that are `allowed` and from stores
that are `Valid`.  `key` is the identity of an object, which its cell shows. -/
structure Lawful (key : View → Key) [DecidableEq Key] (allowed : Backend → World → Prop)
    (Valid : Backend → Prop) : Prop where
  nodup : ∀ {b stored}, Valid b → C.fetch b = some stored →
    (stored.map (key ∘ C.render)).Nodup
  /-- A switch is where it was put. -/
  isOn_turn : ∀ on view, C.isOn (C.turn on view) = on
  add : ∀ {b b' world new}, Valid b → allowed b world → C.add world new b = some b' → Valid b'
  remove : ∀ {b b' world item stored}, Valid b → allowed b world → C.fetch b = some stored →
    C.remove world item b = some b' → Valid b' ∧ ∃ stored', C.fetch b' = some stored' ∧
      (stored'.map C.render).Perm
        ((stored.map C.render).filter fun view => key view ≠ key (C.render item))
  enable : ∀ {b b' world item on stored}, Valid b → allowed b world → C.fetch b = some stored →
    C.enable world item on b = some b' → Valid b' ∧ ∃ stored', C.fetch b' = some stored' ∧
      stored'.map C.render = (stored.map C.render).map fun view =>
        if key view = key (C.render item) then C.turn on view else view

variable {C} in
/-- **Laws read off the views.**  It is enough to know, of every valid store, that
reading it yields certain views, and how the writes change the views. -/
theorem Lawful.of_views {key : View → Key} [DecidableEq Key] {allowed : Backend → World → Prop}
    {Valid : Backend → Prop} (views : Backend → List View)
    (hfetch : ∀ {b}, Valid b → ∃ stored, C.fetch b = some stored ∧ stored.map C.render = views b)
    (hnodup : ∀ {b}, Valid b → ((views b).map key).Nodup)
    (hturn : ∀ on view, C.isOn (C.turn on view) = on)
    (hadd : ∀ {b b' world new}, Valid b → allowed b world → C.add world new b = some b' → Valid b')
    (hremove : ∀ {b b' world item}, Valid b → allowed b world → C.remove world item b = some b' →
      Valid b' ∧ (views b').Perm ((views b).filter fun view => key view ≠ key (C.render item)))
    (henable : ∀ {b b' world item on}, Valid b → allowed b world →
      C.enable world item on b = some b' → Valid b' ∧ views b' = (views b).map fun view =>
        if key view = key (C.render item) then C.turn on view else view) :
    C.Lawful key allowed Valid := by
  have hviews : ∀ {b stored}, Valid b → C.fetch b = some stored → stored.map C.render = views b := by
    intro b stored hb h
    obtain ⟨stored', h', heq⟩ := hfetch hb
    rw [h'] at h
    cases h
    exact heq
  refine ⟨?_, hturn, hadd, ?_, ?_⟩
  · intro b stored hb h
    rw [← List.map_map, hviews hb h]
    exact hnodup hb
  · intro b b' world item stored hb hallowed h hb'
    obtain ⟨hvalid, hperm⟩ := hremove hb hallowed hb'
    obtain ⟨stored', h', heq⟩ := hfetch hvalid
    refine ⟨hvalid, stored', h', ?_⟩
    rw [heq, hviews hb h]
    exact hperm
  · intro b b' world item on stored hb hallowed h hb'
    obtain ⟨hvalid, hswitched⟩ := henable hb hallowed hb'
    obtain ⟨stored', h', heq⟩ := hfetch hvalid
    refine ⟨hvalid, stored', h', ?_⟩
    rw [heq, hviews hb h]
    exact hswitched

/-! ## The mirror -/

/-- The screen shows what is stored: every object of the copy is rendered as a
stored object is, the one with the same key, and the keys of the copy are those
of the store. -/
def Mirrors (key : View → Key) (s : ListScreen Backend Item View) : Prop :=
  ∃ stored, C.fetch s.backend = some stored ∧
    (∀ item ∈ s.items, ∃ object ∈ stored, C.render object = C.render item) ∧
    (s.items.map (key ∘ C.render)).Perm (stored.map (key ∘ C.render))

/-- Where keys are unique, a mirror is a permutation. -/
theorem mirrors_iff_perm {key : View → Key} {s : ListScreen Backend Item View} {stored : List Item}
    (hfetch : C.fetch s.backend = some stored) (hnodup : (stored.map (key ∘ C.render)).Nodup) :
    C.Mirrors key s ↔ (s.items.map C.render).Perm (stored.map C.render) := by
  constructor
  · rintro ⟨stored', hfetch', hrendered, hkeys⟩
    rw [hfetch] at hfetch'
    cases hfetch'
    have hviews : (s.items.map C.render).Nodup := by
      refine List.Nodup.of_map key ?_
      rw [List.map_map]
      exact hkeys.nodup_iff.2 hnodup
    have hsub : s.items.map C.render ⊆ stored.map C.render := by
      intro view hview
      obtain ⟨item, hitem, rfl⟩ := List.mem_map.1 hview
      obtain ⟨object, hobject, hsame⟩ := hrendered item hitem
      exact List.mem_map.2 ⟨object, hobject, hsame⟩
    have hlength : stored.length = s.items.length := by
      simpa using hkeys.length_eq.symm
    refine (List.subperm_of_subset hviews hsub).perm_of_length_le ?_
    rw [List.length_map, List.length_map]
    omega
  · intro hperm
    refine ⟨stored, hfetch, fun item hitem => ?_, ?_⟩
    · exact List.mem_map.1 (hperm.mem_iff.1 (List.mem_map_of_mem hitem))
    · have hkeys := hperm.map key
      rwa [List.map_map, List.map_map] at hkeys

/-- What every event but a tap keeps: the table view has a row for every object,
and its cells show what the copy holds. -/
structure InStep (s : ListScreen Backend Item View) : Prop where
  loaded : s.isViewLoaded = true
  rows : s.cells.length = s.items.length
  shown : ∀ (row : ℕ) (view : View), s.cells[row]? = some (some view) →
    (s.items[row]?).map C.render = some view

variable {C}

/-- A screen that has just read the store is in step with it. -/
theorem refresh_spec {s t : ListScreen Backend Item View} (hs : s.isViewLoaded = true)
    (ht : C.refresh s = some t) :
    C.InStep t ∧ t.backend = s.backend ∧ C.fetch t.backend = some t.items := by
  obtain ⟨items, hfetch, ht⟩ := Option.bind_eq_some_iff.1 ht
  cases ht
  refine ⟨⟨hs, List.length_replicate, ?_⟩, rfl, hfetch⟩
  intro row view hcell
  rw [List.getElem?_replicate] at hcell
  split at hcell
  · cases hcell
  · cases hcell

theorem mirrors_of_fetch {key : View → Key} {s : ListScreen Backend Item View}
    (h : C.fetch s.backend = some s.items) : C.Mirrors key s :=
  ⟨s.items, h, fun item hitem => ⟨item, hitem, rfl⟩, List.Perm.refl _⟩

/-- Setting one cell leaves the others. -/
theorem InStep.setCell {s : ListScreen Backend Item View} (hs : C.InStep s) {row : ℕ}
    {cell : Option View} (hcell : ∀ view, cell = some view →
      (s.items[row]?).map C.render = some view) :
    C.InStep { s with cells := s.cells.set row cell } := by
  refine ⟨hs.loaded, ?_, ?_⟩
  · rw [List.length_set]
    exact hs.rows
  · intro i view hi
    rw [List.getElem?_set] at hi
    split at hi
    case isTrue heq =>
      subst heq
      split at hi
      · exact hcell view (Option.some.inj hi)
      · cases hi
    case isFalse => exact hs.shown i view hi

/-- Erasing a row of the table view together with its object. -/
theorem InStep.erase {s : ListScreen Backend Item View} (hs : C.InStep s) {row : ℕ}
    (hrow : row < s.items.length) (backend : Backend) :
    C.InStep { s with
      backend := backend
      items := s.items.eraseIdx row
      cells := s.cells.eraseIdx row } := by
  have hrows := hs.rows
  refine ⟨hs.loaded, ?_, ?_⟩
  · show (s.cells.eraseIdx row).length = (s.items.eraseIdx row).length
    rw [List.length_eraseIdx_of_lt (by omega), List.length_eraseIdx_of_lt hrow, hrows]
  · intro i view hi
    have hcell : (s.cells.eraseIdx row)[i]? = some (some view) := hi
    show ((s.items.eraseIdx row)[i]?).map C.render = some view
    by_cases hlt : i < row
    · rw [List.getElem?_eraseIdx_of_lt hlt] at hcell ⊢
      exact hs.shown i view hcell
    · rw [List.getElem?_eraseIdx_of_ge (by omega)] at hcell ⊢
      exact hs.shown (i + 1) view hcell

/-- Erasing a position of a list whose keys are unique erases the key. -/
theorem eraseIdx_perm_filter {key : View → Key} [DecidableEq Key] {views : List View}
    (hnodup : (views.map key).Nodup) {row : ℕ} {view : View} (h : views[row]? = some view) :
    (views.eraseIdx row).Perm (views.filter fun v => key v ≠ key view) := by
  obtain ⟨hrow, rfl⟩ := List.getElem?_eq_some_iff.1 h
  have hperm := List.getElem_cons_eraseIdx_perm hrow
  have hothers : ∀ v ∈ views.eraseIdx row, key v ≠ key views[row] := by
    have hkeys := (hperm.map key).nodup_iff.2 hnodup
    rw [List.map_cons, List.nodup_cons] at hkeys
    intro v hv heq
    exact hkeys.1 (heq ▸ List.mem_map_of_mem hv)
  have hfilter := hperm.filter fun v => decide (key v ≠ key views[row])
  rw [List.filter_cons_of_neg (by simp),
    List.filter_eq_self.2 fun v hv => decide_eq_true (hothers v hv)] at hfilter
  exact hfilter

/-! ## What the handlers do to the mirror -/

section Handlers

variable {key : View → Key} [DecidableEq Key] {allowed : Backend → World → Prop}
  {Valid : Backend → Prop} (hC : C.Lawful key allowed Valid)
include hC

/-- **A tap breaks the mirror**: the store has the new position of the switch,
and the copy the old one. -/
theorem not_mirrors_didTapSwitch {s t : ListScreen Backend Item View} {world : World} {row : ℕ}
    (hin : C.InStep s) (hvalid : Valid s.backend) (hallowed : allowed s.backend world)
    (hm : C.Mirrors key s) (ht : C.didTapSwitch world row s = some t) : ¬ C.Mirrors key t := by
  obtain ⟨view, hview, ht⟩ := Option.bind_eq_some_iff.1 ht
  obtain ⟨item, hitem, ht⟩ := Option.bind_eq_some_iff.1 ht
  obtain ⟨backend, henable, ht⟩ := Option.bind_eq_some_iff.1 ht
  cases ht
  have hrender : C.render item = view := by
    have hshown := hin.shown row view (Option.join_eq_some_iff.1 hview)
    rw [hitem] at hshown
    exact Option.some.inj hshown
  rw [hC.isOn_turn] at henable
  obtain ⟨stored, hfetch, -, -⟩ := hm
  obtain ⟨-, stored', hfetch', hviews⟩ := hC.enable hvalid hallowed hfetch henable
  rintro ⟨stored'', hfetch'', hrendered, -⟩
  rw [hfetch'] at hfetch''
  cases hfetch''
  obtain ⟨object, hobject, hsame⟩ := hrendered item (List.mem_of_getElem? hitem)
  have hmem : view ∈ stored'.map C.render := by
    rw [← hrender, ← hsame]
    exact List.mem_map_of_mem hobject
  rw [hviews, hrender] at hmem
  obtain ⟨old, -, hold⟩ := List.mem_map.1 hmem
  by_cases hkey : key old = key view
  · -- the stored object was switched, so it does not show the old position
    rw [if_pos hkey] at hold
    have hposition := hC.isOn_turn (!C.isOn view) old
    rw [hold] at hposition
    cases hon : C.isOn view <;> rw [hon] at hposition <;> cases hposition
  · rw [if_neg hkey] at hold
    exact hkey (congrArg key hold)

/-- **A deletion keeps the mirror.** -/
theorem commitDelete_spec {s t : ListScreen Backend Item View} {world : World} {row : ℕ}
    (hin : C.InStep s) (hvalid : Valid s.backend) (hallowed : allowed s.backend world)
    (hm : C.Mirrors key s) (ht : C.commitDelete world row s = some t) :
    C.InStep t ∧ Valid t.backend ∧ C.Mirrors key t := by
  obtain ⟨item, hitem, ht⟩ := Option.bind_eq_some_iff.1 ht
  obtain ⟨backend, hremove, ht⟩ := Option.bind_eq_some_iff.1 ht
  split at ht
  case isFalse => cases ht
  case isTrue hlength =>
    cases ht
    obtain ⟨stored, hfetch, -⟩ := id hm
    obtain ⟨hvalid', stored', hfetch', hperm⟩ := hC.remove hvalid hallowed hfetch hremove
    have hrow : row < s.items.length := (List.getElem?_eq_some_iff.1 hitem).1
    have hviews := (C.mirrors_iff_perm hfetch (hC.nodup hvalid hfetch)).1 hm
    have hkeys : ((s.items.map C.render).map key).Nodup := by
      have hnodup := hC.nodup hvalid hfetch
      rw [← List.map_map] at hnodup
      exact (hviews.map key).nodup_iff.2 hnodup
    have hview : (s.items.map C.render)[row]? = some (C.render item) := by
      rw [List.getElem?_map, hitem]
      rfl
    refine ⟨hin.erase hrow backend, hvalid', ?_⟩
    refine (C.mirrors_iff_perm hfetch' (hC.nodup hvalid' hfetch')).2 ?_
    calc ((s.items.eraseIdx row).map C.render).Perm ((s.items.map C.render).eraseIdx row) :=
          List.Perm.of_eq (List.eraseIdx_map _ _ _).symm
      List.Perm _ ((s.items.map C.render).filter fun v => key v ≠ key (C.render item)) :=
          eraseIdx_perm_filter hkeys hview
      List.Perm _ ((stored.map C.render).filter fun v => key v ≠ key (C.render item)) :=
          hviews.filter _
      List.Perm _ (stored'.map C.render) := hperm.symm

/-- **One event**: every event but a tap keeps the mirror and what it rests on,
and a tap breaks it. -/
theorem step_spec {s t : ListScreen Backend Item View} {e : ListEvent World New}
    (hin : C.InStep s) (hvalid : Valid s.backend) (hm : C.Mirrors key s)
    (he : (C.machine allowed).enabled s e) (ht : (C.machine allowed).step s e = some t) :
    (e.IsTap → ¬ C.Mirrors key t) ∧
      (¬ e.IsTap → (C.InStep t ∧ Valid t.backend) ∧ C.Mirrors key t) := by
  have hrefresh : ∀ {s : ListScreen Backend Item View}, s.isViewLoaded = true → Valid s.backend →
      C.refresh s = some t → (C.InStep t ∧ Valid t.backend) ∧ C.Mirrors key t := by
    intro s hs hvalid ht
    obtain ⟨hin, hbackend, hfetch⟩ := refresh_spec hs ht
    exact ⟨⟨hin, hbackend ▸ hvalid⟩, mirrors_of_fetch hfetch⟩
  cases e with
  | viewDidLoad =>
    have hloaded : s.isViewLoaded = false := he
    rw [hin.loaded] at hloaded
    cases hloaded
  | viewWillAppear =>
    refine ⟨False.elim, fun _ => ?_⟩
    simp only [machine] at ht
    split at ht
    · exact hrefresh hin.loaded hvalid ht
    · cases ht
      exact ⟨⟨hin, hvalid⟩, hm⟩
  | add world new =>
    refine ⟨False.elim, fun _ => ?_⟩
    obtain ⟨backend, hadd, ht⟩ := Option.bind_eq_some_iff.1 ht
    exact hrefresh (s := { s with backend := backend }) hin.loaded (hC.add hvalid he.2 hadd) ht
  | tapSwitch world row =>
    exact ⟨fun _ => not_mirrors_didTapSwitch hC hin hvalid he.2.1 hm ht,
      fun h => absurd trivial h⟩
  | delete world row =>
    refine ⟨False.elim, fun _ => ?_⟩
    obtain ⟨hin', hvalid', hm'⟩ := commitDelete_spec hC hin hvalid he.2.1 hm ht
    exact ⟨⟨hin', hvalid'⟩, hm'⟩
  | dequeue row =>
    refine ⟨False.elim, fun _ => ?_⟩
    obtain ⟨item, hitem, ht⟩ := Option.bind_eq_some_iff.1 ht
    cases ht
    refine ⟨⟨hin.setCell fun view hview => ?_, hvalid⟩, hm⟩
    rw [hitem]
    exact hview
  | scrollOff row =>
    refine ⟨False.elim, fun _ => ?_⟩
    cases ht
    refine ⟨⟨hin.setCell fun view hview => ?_, hvalid⟩, hm⟩
    cases hview

/-- **When the screen mirrors the store**: it does after every event of a run
precisely when no switch is tapped in the run. -/
theorem mirrors_iff_no_tap {b : Backend} (hb : Valid b)
    {tr : Trace (ListScreen Backend Item View) (ListEvent World New)}
    (hr : (C.machine allowed).Run (unloaded b) tr) :
    (∀ p ∈ tr, C.Mirrors key p.2) ↔ ∀ p ∈ tr, ¬ p.1.IsTap := by
  cases hr with
  | nil => simp
  | @cons _ t e tr he ht hr =>
    -- before the view is loaded, nothing else can happen
    have hfirst : e = .viewDidLoad := by
      cases e with
      | viewDidLoad => rfl
      | viewWillAppear => cases he
      | add => cases he.1
      | tapSwitch => cases he.1
      | delete => cases he.1
      | dequeue => cases he.1
      | scrollOff => cases he.1
    subst hfirst
    obtain ⟨hin, hbackend, hfetch⟩ := refresh_spec rfl ht
    have hvalid : Valid t.backend := hbackend ▸ hb
    have hm : C.Mirrors key t := mirrors_of_fetch hfetch
    have hload : ¬ (ListEvent.viewDidLoad : ListEvent World New).IsTap := id
    rw [List.forall_mem_cons, List.forall_mem_cons, and_iff_right hm, and_iff_right hload,
      hr.forall_iff_eachStep (I := fun s => C.InStep s ∧ Valid s.backend)
        (C := fun _ e => ¬ e.IsTap) ?_ ?_ ⟨hin, hvalid⟩ hm]
    · exact Machine.eachStep_event_iff
    · intro s e t hs hm he ht htap
      exact ((step_spec hC hs.1 hs.2 hm he ht).2 htap).1
    · intro s e t hs hm he ht
      obtain ⟨hbreaks, hkeeps⟩ := step_spec hC hs.1 hs.2 hm he ht
      exact ⟨fun hmt htap => hbreaks htap hmt, fun htap => (hkeeps htap).2⟩

end Handlers

end ListController
