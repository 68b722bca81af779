import Alarma.Library.Acyclic
import Alarma.Library.Machine
import Alarma.Parents.BaseCoordinator

/-!
# What removing a dependency tears down

`removeDependency` clears the argument's children recursively and then takes the
argument off the list it was called on, so the lists change while they are
walked.  On a graph of coordinators without cycles it does what it is meant to
do: it empties the lists of the argument and of everything below it, and no
other list but the one it was called on changes.

* `Child`, `Reaches`, `Below` — the graph, and the `BaseCoordinator`s that a
  coordinator reaches; coordinators may share children.
* `Calls` — the calls that the loop over the children of a coordinator makes;
  `removeDependency_of_ne_nil` is a call as this loop and what comes after it.
* `Shrinks` — no call adds anything to a list (`removeDependency_shrinks`).
* `removeDependency_returns` — a call returns when the calls below it end.
* `TornDown` — what a removal is to leave; `tornDown_clearChildren` is the loop over
  the children, `removeDependency_tornDown` the recursion.
* `machine` — the heaps that calls of the two methods can build;
  `removeDependency_tears_down` is the result for all of them.
-/

namespace Alarma
namespace Coordinators

/-! ## The graph of coordinators -/

/-- `d` is in the list that the `BaseCoordinator` `c` keeps. -/
def Child (h : Coordinators) (c d : ℕ) : Prop := h.isBase c = true ∧ d ∈ h.childCoordinators c

/-- A path of children leads from one coordinator to another. -/
def Reaches (h : Coordinators) : ℕ → ℕ → Prop := Relation.ReflTransGen h.Child

/-- `x` is a `BaseCoordinator` that `c` reaches. -/
def Below (h : Coordinators) (c x : ℕ) : Prop := h.isBase x = true ∧ h.Reaches c x

/-- No list has a coordinator twice. -/
def Unique (h : Coordinators) : Prop := ∀ x, (h.childCoordinators x).Nodup

/-- A coordinator reaches itself, and what its children reach. -/
theorem reaches_iff {h : Coordinators} {c x : ℕ} :
    h.Reaches c x ↔ c = x ∨ ∃ d, h.Child c d ∧ h.Reaches d x :=
  Relation.ReflTransGen.cases_head_iff

/-- Below a coordinator that is no `BaseCoordinator`, or has no children, there is
nothing to clear. -/
theorem Below.of_leaf {h : Coordinators} {c x : ℕ}
    (hleaf : ¬ (h.isBase c = true ∧ h.childCoordinators c ≠ [])) (hx : h.Below c x) :
    h.childCoordinators x = [] := by
  obtain ⟨hbase, hreach⟩ := hx
  rcases reaches_iff.1 hreach with rfl | ⟨d, hd, -⟩
  · by_contra hne
    exact hleaf ⟨hbase, hne⟩
  · exact absurd ⟨hd.1, List.ne_nil_of_mem hd.2⟩ hleaf

/-! ## The loop over the children -/

/-- The loop over the children of `c` calls `c.removeDependency(d)`. -/
def Calls (h : Coordinators) (c d : ℕ) : Prop :=
  h.isBase c = true ∧ d ∈ h.childCoordinators c ∧ d ≠ c

/-- The arguments of the loop, in order. -/
def callees (h : Coordinators) (c : ℕ) : List ℕ :=
  if h.isBase c = true then (h.childCoordinators c).filter fun child => child ≠ c else []

@[simp] theorem mem_callees {h : Coordinators} {c d : ℕ} : d ∈ h.callees c ↔ h.Calls c d := by
  unfold callees Calls
  by_cases hbase : h.isBase c = true <;> simp [hbase]

/-- The loop. -/
def clearChildren (fuel : ℕ) (c : ℕ) (ds : List ℕ) (h : Coordinators) : Option Coordinators :=
  ds.foldlM (fun h child => removeDependency fuel h c (some child)) h

@[simp] theorem clearChildren_nil (fuel c : ℕ) (h : Coordinators) :
    clearChildren fuel c [] h = some h := rfl

theorem clearChildren_cons (fuel c d : ℕ) (ds : List ℕ) (h : Coordinators) :
    clearChildren fuel c (d :: ds) h =
      (removeDependency fuel h c (some d)).bind (clearChildren fuel c ds) := by
  unfold clearChildren
  rw [List.foldlM_cons]
  rfl

/-- Nothing is removed from an empty list. -/
theorem removeDependency_of_nil {h : Coordinators} {p : ℕ} (hp : h.childCoordinators p = [])
    (fuel c : ℕ) : removeDependency (fuel + 1) h p (some c) = some h := by
  rw [removeDependency_succ, if_pos hp]

/-- A call runs the loop, and takes its argument off the list. -/
theorem removeDependency_of_ne_nil {h : Coordinators} {p : ℕ} (hp : h.childCoordinators p ≠ [])
    (fuel c : ℕ) :
    removeDependency (fuel + 1) h p (some c) = (clearChildren fuel c (h.callees c) h).map
      fun u => u.setChildren p ((u.childCoordinators p).erase c) := by
  rw [removeDependency_succ, if_neg hp]
  by_cases hbase : h.isBase c = true
  · by_cases hnil : h.childCoordinators c = []
    · simp [callees, hnil]
    · simp [callees, hbase, hnil, clearChildren]
  · simp [callees, hbase]

/-! ## Nothing is added -/

/-- `t` is `h` after some entries were taken off some lists. -/
structure Shrinks (h t : Coordinators) : Prop where
  count : t.count = h.count
  isBase : t.isBase = h.isBase
  sublist : ∀ x, (t.childCoordinators x).Sublist (h.childCoordinators x)

theorem Shrinks.refl (h : Coordinators) : h.Shrinks h := ⟨rfl, rfl, fun _ => List.Sublist.refl _⟩

theorem Shrinks.trans {h t u : Coordinators} (ht : h.Shrinks t) (hu : t.Shrinks u) : h.Shrinks u :=
  ⟨hu.count.trans ht.count, hu.isBase.trans ht.isBase, fun x => (hu.sublist x).trans (ht.sublist x)⟩

/-- Taking one coordinator off one list. -/
theorem shrinks_erase (h : Coordinators) (self c : ℕ) :
    h.Shrinks (h.setChildren self ((h.childCoordinators self).erase c)) := by
  refine ⟨rfl, rfl, fun x => ?_⟩
  by_cases hx : x = self
  · rw [hx, childCoordinators_setChildren_self]
    exact List.erase_sublist
  · rw [childCoordinators_setChildren_of_ne h _ hx]

/-- A loop whose calls add nothing adds nothing. -/
theorem shrinks_clearChildren {fuel c : ℕ}
    (hcall : ∀ {h t : Coordinators} {d : ℕ},
      removeDependency fuel h c (some d) = some t → h.Shrinks t)
    {ds : List ℕ} {h t : Coordinators} (ht : clearChildren fuel c ds h = some t) : h.Shrinks t := by
  induction ds generalizing h with
  | nil =>
    cases ht
    exact .refl _
  | cons d ds ih =>
    rw [clearChildren_cons] at ht
    obtain ⟨u, hu, ht⟩ := Option.bind_eq_some_iff.1 ht
    exact (hcall hu).trans (ih ht)

/-- **A removal adds nothing**, whatever it is called on. -/
theorem removeDependency_shrinks {fuel self : ℕ} {h t : Coordinators} {coordinator : Option ℕ}
    (ht : removeDependency fuel h self coordinator = some t) : h.Shrinks t := by
  induction fuel generalizing h t self coordinator with
  | zero => cases ht
  | succ fuel ih =>
    cases coordinator with
    | none =>
      rw [removeDependency] at ht
      cases ht
      exact .refl h
    | some c =>
      by_cases hself : h.childCoordinators self = []
      · rw [removeDependency_of_nil hself] at ht
        cases ht
        exact .refl h
      · rw [removeDependency_of_ne_nil hself] at ht
        obtain ⟨u, hu, rfl⟩ := Option.map_eq_some_iff.1 ht
        exact (shrinks_clearChildren ih hu).trans (shrinks_erase u self c)

theorem clearChildren_shrinks {fuel c : ℕ} {ds : List ℕ} {h t : Coordinators}
    (ht : clearChildren fuel c ds h = some t) : h.Shrinks t :=
  shrinks_clearChildren removeDependency_shrinks ht

/-- Shorter lists make fewer calls. -/
theorem Shrinks.calls {h t : Coordinators} (ht : h.Shrinks t) {a b : ℕ} (hab : t.Calls a b) :
    h.Calls a b :=
  ⟨ht.isBase ▸ hab.1, (ht.sublist a).subset hab.2.1, hab.2.2⟩

/-! ## Calls that return -/

/-- What one unit of fuel is enough for returns. -/
theorem returns_of_succ {f : ℕ → Option Coordinators} {t : Coordinators}
    (h : ∀ fuel, f (fuel + 1) = some t) : ∃ needed, ∀ fuel ≥ needed, f fuel = some t := by
  refine ⟨1, fun fuel hle => ?_⟩
  obtain ⟨fuel, rfl⟩ := Nat.exists_eq_add_of_le' hle
  exact h fuel

section Returns

variable {R : ℕ → ℕ → Prop}

/-- A loop returns if each of its calls does, whatever the heap. -/
theorem clearChildren_returns {c : ℕ} {ds : List ℕ}
    (hreturns : ∀ d ∈ ds, ∀ h : Coordinators, (∀ a b, h.Calls a b → R a b) →
      ∃ t needed, ∀ fuel ≥ needed, removeDependency fuel h c (some d) = some t)
    {h : Coordinators} (hwithin : ∀ a b, h.Calls a b → R a b) :
    ∃ t needed, ∀ fuel ≥ needed, clearChildren fuel c ds h = some t := by
  induction ds generalizing h with
  | nil => exact ⟨h, 0, fun _ _ => rfl⟩
  | cons d ds ih =>
    obtain ⟨hd, hrest⟩ := List.forall_mem_cons.1 hreturns
    obtain ⟨u, needed, hu⟩ := hd h hwithin
    have hshrinks : h.Shrinks u := removeDependency_shrinks (hu needed le_rfl)
    obtain ⟨t, needed', ht⟩ := ih hrest fun a b hab => hwithin a b (hshrinks.calls hab)
    refine ⟨t, max needed needed', fun fuel hle => ?_⟩
    rw [clearChildren_cons, hu fuel (le_trans (le_max_left _ _) hle), Option.bind_some]
    exact ht fuel (le_trans (le_max_right _ _) hle)

/-- **A call returns** if the calls below it end. -/
theorem removeDependency_returns {c : ℕ} (hc : Acc (fun d c => R c d) c) :
    ∀ (h : Coordinators) (p : ℕ), (∀ a b, h.Calls a b → R a b) →
      ∃ t needed, ∀ fuel ≥ needed, removeDependency fuel h p (some c) = some t := by
  induction hc with
  | intro c _ ih =>
    intro h p hwithin
    by_cases hp : h.childCoordinators p = []
    · exact ⟨h, returns_of_succ fun fuel => removeDependency_of_nil hp fuel c⟩
    · have hds : ∀ d ∈ h.callees c, R c d := fun d hd => hwithin c d (mem_callees.1 hd)
      obtain ⟨u, needed, hu⟩ := clearChildren_returns (R := R) (c := c)
        (fun d hd h hw => ih d (hds d hd) h c hw) hwithin
      refine ⟨u.setChildren p ((u.childCoordinators p).erase c), needed + 1, fun fuel hle => ?_⟩
      obtain ⟨fuel, rfl⟩ := Nat.exists_eq_add_of_le' (le_trans (Nat.le_add_left 1 needed) hle)
      rw [removeDependency_of_ne_nil hp, hu fuel (by omega), Option.map_some]

end Returns

/-! ## What a removal leaves -/

/-- `t` is `h` after the removal of `c` from the list of `p`. -/
structure TornDown (h : Coordinators) (p c : ℕ) (t : Coordinators) : Prop where
  /-- No coordinator is created, and nothing is added to a list. -/
  shrinks : h.Shrinks t
  /-- The list of `p` loses `c` and keeps its order. -/
  parent : t.childCoordinators p = (h.childCoordinators p).erase c
  /-- Everything below `c` is cleared. -/
  cleared : ∀ x, h.Below c x → t.childCoordinators x = []
  /-- The other lists stay. -/
  kept : ∀ x ≠ p, ¬ h.Below c x → t.childCoordinators x = h.childCoordinators x

/-- `t` is `h` after everything below the children of `c` was cleared, with `c`. -/
structure ChildrenTornDown (h : Coordinators) (c : ℕ) (ds : List ℕ) (t : Coordinators) : Prop where
  /-- No coordinator is created, and nothing is added to a list. -/
  shrinks : h.Shrinks t
  /-- The list of `c`. -/
  self : t.childCoordinators c = []
  /-- Everything below the children is cleared. -/
  cleared : ∀ x, (∃ d ∈ ds, h.Below d x) → t.childCoordinators x = []
  /-- The other lists stay. -/
  kept : ∀ x ≠ c, (¬ ∃ d ∈ ds, h.Below d x) → t.childCoordinators x = h.childCoordinators x

/-- `p.removeDependency(c)` returns, and leaves what it is meant to leave. -/
def Removes (h : Coordinators) (p c : ℕ) : Prop :=
  ∃ t, h.TornDown p c t ∧ ∃ needed, ∀ fuel ≥ needed, removeDependency fuel h p (some c) = some t

/-- After one child is torn down, what lies below another child is what lay below
it before, up to what was torn down. -/
theorem TornDown.below_iff {h t : Coordinators} {c d e x : ℕ} (ht : h.TornDown c d t)
    (hback : ¬ h.Reaches e c) :
    (t.Below e x ∨ h.Below d x) ↔ (h.Below e x ∨ h.Below d x) := by
  have hsub : ∀ a b, t.Child a b → h.Child a b := fun a b hab =>
    ⟨ht.shrinks.isBase ▸ hab.1, (ht.shrinks.sublist a).subset hab.2⟩
  constructor
  · rintro (⟨hbase, hreach⟩ | hd)
    · exact Or.inl ⟨ht.shrinks.isBase ▸ hbase, Relation.ReflTransGen.mono hsub _ _ hreach⟩
    · exact Or.inr hd
  · rintro (⟨hbase, hreach⟩ | hd)
    · -- on the way from `e`, only lists that stay
      have hkept : ∀ a b, h.Reaches e a → ¬ h.Reaches d a → h.Child a b → t.Child a b := by
        intro a b hea ha hab
        have hne : a ≠ c := fun hc => hback (hc ▸ hea)
        have hkept := ht.kept a hne fun hbelow => ha hbelow.2
        refine ⟨ht.shrinks.isBase ▸ hab.1, ?_⟩
        rw [hkept]
        exact hab.2
      rcases Graph.reaches_of_cut (fun a b ha hab => ha.tail hab) hkept hreach with hreach' | hd
      · exact Or.inl ⟨ht.shrinks.isBase ▸ hbase, hreach'⟩
      · exact Or.inr ⟨hbase, hd⟩
    · exact Or.inr hd

/-- The first child is torn down, and then the others. -/
theorem TornDown.cons {h u t : Coordinators} {c d : ℕ} {ds : List ℕ} (hu : h.TornDown c d u)
    (ht : u.ChildrenTornDown c ds t) (hback : ∀ e ∈ ds, ¬ h.Reaches e c) :
    h.ChildrenTornDown c (d :: ds) t := by
  -- what is cleared in the two parts is what lay below the children
  have hbelow : ∀ x, ((∃ e ∈ ds, u.Below e x) ∨ h.Below d x) ↔ ∃ e ∈ d :: ds, h.Below e x := by
    intro x
    have hiff : ∀ e ∈ ds, (u.Below e x ∨ h.Below d x) ↔ (h.Below e x ∨ h.Below d x) :=
      fun e he => hu.below_iff (hback e he)
    constructor
    · rintro (⟨e, he, hx⟩ | hx)
      · rcases (hiff e he).1 (Or.inl hx) with hx | hx
        · exact ⟨e, List.mem_cons_of_mem _ he, hx⟩
        · exact ⟨d, List.mem_cons_self, hx⟩
      · exact ⟨d, List.mem_cons_self, hx⟩
    · rintro ⟨e, he, hx⟩
      rcases List.mem_cons.1 he with rfl | he
      · exact Or.inr hx
      · rcases (hiff e he).2 (Or.inl hx) with hx | hx
        · exact Or.inl ⟨e, he, hx⟩
        · exact Or.inr hx
  refine ⟨hu.shrinks.trans ht.shrinks, ht.self, ?_, ?_⟩
  · intro x hx
    rcases (hbelow x).2 hx with hx | hx
    · exact ht.cleared x hx
    · exact List.sublist_nil.1 (hu.cleared x hx ▸ ht.shrinks.sublist x)
  · intro x hne hx
    have hnot := (hbelow x).not.2 hx
    rw [ht.kept x hne fun h => hnot (Or.inl h), hu.kept x hne fun h => hnot (Or.inr h)]

/-- What the loop leaves below `c`, and the entry of `c` itself taken off. -/
theorem ChildrenTornDown.tornDown {h u : Coordinators} {p c : ℕ}
    (hu : h.ChildrenTornDown c (h.childCoordinators c) u)
    (hbase : h.isBase c = true) (hback : ¬ h.Reaches c p) :
    h.TornDown p c (u.setChildren p ((u.childCoordinators p).erase c)) := by
  have hbelow : ∀ x, h.Below c x ↔
      h.isBase x = true ∧ (c = x ∨ ∃ d ∈ h.childCoordinators c, h.Below d x) := by
    intro x
    rw [Below, reaches_iff]
    constructor
    · rintro ⟨hx, rfl | ⟨d, hd, hreach⟩⟩
      · exact ⟨hx, Or.inl rfl⟩
      · exact ⟨hx, Or.inr ⟨d, hd.2, hx, hreach⟩⟩
    · rintro ⟨hx, rfl | ⟨d, hd, -, hreach⟩⟩
      · exact ⟨hx, Or.inl rfl⟩
      · exact ⟨hx, Or.inr ⟨d, ⟨hbase, hd⟩, hreach⟩⟩
  have hcleared : ∀ x, h.Below c x → u.childCoordinators x = [] := by
    intro x hx
    rcases ((hbelow x).1 hx).2 with rfl | hx
    · exact hu.self
    · exact hu.cleared x hx
  have hkept : ∀ x, ¬ h.Below c x → u.childCoordinators x = h.childCoordinators x := by
    intro x hx
    refine hu.kept x ?_ fun ⟨d, hd, hbelowd⟩ =>
      hx ((hbelow x).2 ⟨hbelowd.1, Or.inr ⟨d, hd, hbelowd⟩⟩)
    rintro rfl
    exact hx ⟨hbase, .refl⟩
  have hp : ∀ x, h.Below c x → x ≠ p := fun x hx hxp => hback (hxp ▸ hx.2)
  refine ⟨hu.shrinks.trans (shrinks_erase u p c), ?_, ?_, ?_⟩
  · rw [childCoordinators_setChildren_self, hkept p fun hx => hp p hx rfl]
  · intro x hx
    rw [childCoordinators_setChildren_of_ne u _ (hp x hx), hcleared x hx]
  · intro x hne hx
    rw [childCoordinators_setChildren_of_ne u _ hne, hkept x hx]

section Recursion

variable {R : ℕ → ℕ → Prop} (hR : Graph.Acyclic R)
include hR

/-- In a heap whose graph is part of a graph without cycles, no child leads back. -/
theorem not_reaches_back {h : Coordinators} (hwithin : ∀ a b, h.Child a b → R a b) {c d : ℕ}
    (hd : R c d) : ¬ h.Reaches d c := fun hback =>
  hR.not_reaches hd (Relation.ReflTransGen.mono hwithin _ _ hback)

/-- **The loop over the children.**  If its calls tear down what they are called on,
the loop tears down all the children of `c`. -/
theorem tornDown_clearChildren {fuel c : ℕ}
    (ih : ∀ {h t : Coordinators} {d : ℕ}, (∀ a b, h.Child a b → R a b) → h.Unique →
      ¬ h.Reaches d c → d ∈ h.childCoordinators c →
        removeDependency fuel h c (some d) = some t → h.TornDown c d t)
    {ds : List ℕ} (hds : ∀ d ∈ ds, R c d) {h t : Coordinators}
    (hwithin : ∀ a b, h.Child a b → R a b) (hunique : h.Unique)
    (hchildren : h.childCoordinators c = ds) (ht : clearChildren fuel c ds h = some t) :
    h.ChildrenTornDown c ds t := by
  induction ds generalizing h with
  | nil =>
    cases ht
    exact ⟨.refl _, hchildren, by simp, fun _ _ _ => rfl⟩
  | cons d ds ihds =>
    obtain ⟨hd, hrest⟩ := List.forall_mem_cons.1 hds
    rw [clearChildren_cons] at ht
    obtain ⟨u, hu, ht⟩ := Option.bind_eq_some_iff.1 ht
    have hmem : d ∈ h.childCoordinators c := by
      rw [hchildren]
      exact List.mem_cons_self
    have hdown := ih hwithin hunique (not_reaches_back hR hwithin hd) hmem hu
    have hwithin' : ∀ a b, u.Child a b → R a b := fun a b hab =>
      hwithin a b ⟨hdown.shrinks.isBase ▸ hab.1, (hdown.shrinks.sublist a).subset hab.2⟩
    have hunique' : u.Unique := fun x => (hunique x).sublist (hdown.shrinks.sublist x)
    have hchildren' : u.childCoordinators c = ds := by
      rw [hdown.parent, hchildren, List.erase_cons_head]
    exact hdown.cons (ihds hrest hwithin' hunique' hchildren' ht) fun e he =>
      not_reaches_back hR hwithin (hrest e he)

/-- **The recursion.**  In a heap whose graph is part of a graph without cycles, a
call that removes a child tears it down. -/
theorem removeDependency_tornDown {fuel : ℕ} {h t : Coordinators} {p c : ℕ}
    (hwithin : ∀ a b, h.Child a b → R a b) (hunique : h.Unique) (hback : ¬ h.Reaches c p)
    (hmem : c ∈ h.childCoordinators p) (ht : removeDependency fuel h p (some c) = some t) :
    h.TornDown p c t := by
  induction fuel generalizing h t p c with
  | zero => cases ht
  | succ fuel ih =>
    rw [removeDependency_of_ne_nil (List.ne_nil_of_mem hmem)] at ht
    obtain ⟨u, hu, rfl⟩ := Option.map_eq_some_iff.1 ht
    by_cases hbase : h.isBase c = true
    · have hds : ∀ d ∈ h.childCoordinators c, R c d := fun d hd => hwithin c d ⟨hbase, hd⟩
      -- a coordinator is not its own child, so the loop is over all of them
      have hcallees : h.callees c = h.childCoordinators c := by
        rw [callees, if_pos hbase]
        refine List.filter_eq_self.2 fun d hd => decide_eq_true ?_
        rintro rfl
        exact hR.irrefl d (hds d hd)
      rw [hcallees] at hu
      exact (tornDown_clearChildren hR ih hds hwithin hunique rfl hu).tornDown hbase hback
    · have hcallees : h.callees c = [] := if_neg hbase
      rw [hcallees] at hu
      cases hu
      refine ⟨shrinks_erase h p c, ?_, ?_, ?_⟩
      · rw [childCoordinators_setChildren_self]
      · intro x hx
        have hne : x ≠ p := fun hxp => hback (hxp ▸ hx.2)
        rw [childCoordinators_setChildren_of_ne h _ hne,
          Below.of_leaf (fun hleaf => hbase hleaf.1) hx]
      · intro x hne _
        exact childCoordinators_setChildren_of_ne h _ hne

end Recursion

/-! ## The heaps that calls build -/

/-- A new coordinator, number `count`, which is a `BaseCoordinator` or is not. -/
def createCoordinator (h : Coordinators) (isBase : Bool) : Coordinators :=
  { h.create with isBase := Function.update h.isBase h.count isBase }

/-- What the program does with its coordinators. -/
inductive Call where
  /-- An initialiser. -/
  | create (isBase : Bool)
  /-- `self.addDependency(coordinator)` -/
  | addDependency (self coordinator : ℕ)
  /-- `self.removeDependency(coordinator)`, which returns within the given fuel. -/
  | removeDependency (self : ℕ) (coordinator : Option ℕ) (fuel : ℕ)
  deriving DecidableEq, Repr

/-- The machine.  The methods are those of a `BaseCoordinator`. -/
def machine : Machine Coordinators Call where
  enabled := fun h e =>
    match e with
    | .create _ => True
    | .addDependency self coordinator =>
      self < h.count ∧ h.isBase self = true ∧ coordinator < h.count
    | .removeDependency self _ _ => self < h.count ∧ h.isBase self = true
  step := fun h e =>
    match e with
    | .create isBase => some (h.createCoordinator isBase)
    | .addDependency self coordinator => some (h.addDependency self coordinator)
    | .removeDependency self coordinator fuel => removeDependency fuel h self coordinator

/-- What holds of every heap that calls build. -/
structure WellFormed (h : Coordinators) : Prop where
  unique : h.Unique
  /-- Only coordinators that exist keep lists, and only `BaseCoordinator`s. -/
  owner : ∀ x, h.childCoordinators x ≠ [] → x < h.count ∧ h.isBase x = true

theorem wellFormed_root : root.WellFormed :=
  ⟨fun _ => List.nodup_nil, fun _ h => absurd rfl h⟩

/-- Taking entries off lists keeps the heap well formed. -/
theorem Shrinks.wellFormed {h t : Coordinators} (ht : h.Shrinks t) (hh : h.WellFormed) :
    t.WellFormed := by
  refine ⟨fun x => (hh.unique x).sublist (ht.sublist x), fun x hx => ?_⟩
  rw [ht.count, ht.isBase]
  refine hh.owner x fun hnil => hx ?_
  exact List.sublist_nil.1 (hnil ▸ ht.sublist x)

theorem WellFormed.createCoordinator {h : Coordinators} (hh : h.WellFormed) (isBase : Bool) :
    (h.createCoordinator isBase).WellFormed := by
  have hlists : ∀ x, (h.createCoordinator isBase).childCoordinators x = h.childCoordinators x := by
    intro x
    by_cases hx : x = h.count
    · have hnil : h.childCoordinators h.count = [] := by
        by_contra hne
        exact absurd (hh.owner _ hne).1 (Nat.lt_irrefl _)
      rw [hx, hnil]
      exact h.childCoordinators_create_new
    · exact h.childCoordinators_create_of_ne hx
  refine ⟨fun x => ?_, fun x hx => ?_⟩
  · rw [hlists]
    exact hh.unique x
  · rw [hlists] at hx
    obtain ⟨hlt, hbase⟩ := hh.owner x hx
    refine ⟨Nat.lt_succ_of_lt hlt, ?_⟩
    show Function.update h.isBase h.count isBase x = true
    rw [Function.update_of_ne (Nat.ne_of_lt hlt), hbase]

theorem WellFormed.addDependency {h : Coordinators} (hh : h.WellFormed) {self c : ℕ}
    (hself : self < h.count) (hbase : h.isBase self = true) :
    (h.addDependency self c).WellFormed := by
  by_cases hc : c ∈ h.childCoordinators self
  · rw [Coordinators.addDependency, if_pos hc]
    exact hh
  · rw [addDependency_of_notMem hc]
    constructor
    · intro x
      by_cases hx : x = self
      · rw [hx, childCoordinators_setChildren_self]
        refine List.nodup_append.2 ⟨hh.unique self, List.nodup_singleton c, ?_⟩
        intro a ha b hb hab
        rw [List.mem_singleton] at hb
        exact hc (hb ▸ hab ▸ ha)
      · rw [childCoordinators_setChildren_of_ne h _ hx]
        exact hh.unique x
    · intro x hx
      by_cases heq : x = self
      · rw [heq]
        exact ⟨hself, hbase⟩
      · rw [childCoordinators_setChildren_of_ne h _ heq] at hx
        exact hh.owner x hx

theorem wellFormed_of_reachable {h : Coordinators} (hr : machine.Reachable root h) :
    h.WellFormed := by
  refine hr.invariant (fun {s e t} hs he ht => ?_) wellFormed_root
  cases e with
  | create isBase =>
    cases ht
    exact hs.createCoordinator isBase
  | addDependency self c =>
    cases ht
    exact hs.addDependency he.1 he.2.1
  | removeDependency self c fuel => exact (removeDependency_shrinks ht).wellFormed hs

/-- Without cycles, the removal of a child returns and tears it down. -/
theorem WellFormed.removes {h : Coordinators} (hh : h.WellFormed)
    (hacyclic : Graph.Acyclic h.Child) {p c : ℕ} (hmem : c ∈ h.childCoordinators p) :
    h.Removes p c := by
  have hchild : h.Child p c := ⟨(hh.owner p (List.ne_nil_of_mem hmem)).2, hmem⟩
  have hwf := hacyclic.wellFounded (Set.finite_Iio h.count) fun a b hab =>
    (hh.owner a (List.ne_nil_of_mem hab.2)).1
  obtain ⟨t, needed, ht⟩ := removeDependency_returns (hwf.apply c) h p fun a b hab =>
    ⟨hab.1, hab.2.1⟩
  exact ⟨t, removeDependency_tornDown hacyclic (fun _ _ hab => hab) hh.unique
    (hacyclic.not_reaches hchild) hmem (ht needed le_rfl), needed, ht⟩

/-- **`removeDependency` tears down exactly the removed subtree.**  In every heap
that calls build, no list has a coordinator twice.  If the graph has no cycles,
then for every coordinator `p` and every `c` in its list the call
`p.removeDependency(c)` returns; the list of `p` loses `c` and keeps its order,
the lists of `c` and of every `BaseCoordinator` that `c` reaches are empty, and
every other list is what it was. -/
theorem removeDependency_tears_down {h : Coordinators} (hr : machine.Reachable root h) :
    h.Unique ∧ (Graph.Acyclic h.Child → ∀ p c, c ∈ h.childCoordinators p →
      ∃ t, (∃ needed, ∀ fuel ≥ needed, removeDependency fuel h p (some c) = some t) ∧
        t.childCoordinators p = (h.childCoordinators p).erase c ∧
        (∀ x, h.isBase x = true → h.Reaches c x → t.childCoordinators x = []) ∧
        ∀ x ≠ p, ¬ (h.isBase x = true ∧ h.Reaches c x) →
          t.childCoordinators x = h.childCoordinators x) := by
  have hh := wellFormed_of_reachable hr
  refine ⟨hh.unique, fun hacyclic p c hmem => ?_⟩
  obtain ⟨t, ht, hfuel⟩ := hh.removes hacyclic hmem
  exact ⟨t, hfuel, ht.parent, fun x hbase hreach => ht.cleared x ⟨hbase, hreach⟩, ht.kept⟩

/-! ## A shared child -/

/-- `1` and `2` are in the list of `0` and share the child `3`; the child `4` of
`3` is no `BaseCoordinator`. -/
def shared : Coordinators :=
  let created := (((root.createCoordinator true).createCoordinator true).createCoordinator
    true).createCoordinator false
  ((((created.addDependency 0 1).addDependency 0 2).addDependency 1 3).addDependency 2 3).addDependency
    3 4

theorem shared_reachable : machine.Reachable root shared :=
  ⟨[(.create true, _), (.create true, _), (.create true, _), (.create false, _),
    (.addDependency 0 1, _), (.addDependency 0 2, _), (.addDependency 1 3, _),
    (.addDependency 2 3, _), (.addDependency 3 4, _)],
    .cons trivial rfl (.cons trivial rfl (.cons trivial rfl (.cons trivial rfl
      (.cons ⟨by decide, rfl, by decide⟩ rfl (.cons ⟨by decide, rfl, by decide⟩ rfl
        (.cons ⟨by decide, rfl, by decide⟩ rfl (.cons ⟨by decide, rfl, by decide⟩ rfl
          (.cons ⟨by decide, rfl, by decide⟩ rfl (.nil _))))))))), rfl⟩

/-- One addition adds one edge. -/
theorem mem_addDependency {h : Coordinators} {self c x d : ℕ}
    (hd : d ∈ (h.addDependency self c).childCoordinators x) :
    d ∈ h.childCoordinators x ∨ (x = self ∧ d = c) := by
  by_cases hc : c ∈ h.childCoordinators self
  · rw [addDependency, if_pos hc] at hd
    exact Or.inl hd
  · rw [addDependency_of_notMem hc] at hd
    by_cases hx : x = self
    · rw [hx, childCoordinators_setChildren_self, List.mem_append, List.mem_singleton] at hd
      rw [hx]
      exact hd.imp_right fun hd => ⟨rfl, hd⟩
    · rw [childCoordinators_setChildren_of_ne h _ hx] at hd
      exact Or.inl hd

/-- An initialiser adds no edge. -/
theorem mem_createCoordinator {h : Coordinators} {isBase : Bool} {x d : ℕ}
    (hd : d ∈ (h.createCoordinator isBase).childCoordinators x) : d ∈ h.childCoordinators x := by
  have hlist : (h.createCoordinator isBase).childCoordinators x =
      h.create.childCoordinators x := rfl
  rw [hlist] at hd
  by_cases hx : x = h.count
  · rw [hx, childCoordinators_create_new] at hd
    exact absurd hd List.not_mem_nil
  · rwa [childCoordinators_create_of_ne h hx] at hd

/-- Its edges go from smaller to greater numbers. -/
theorem shared_acyclic : Graph.Acyclic shared.Child := by
  refine .of_lt id fun a b hab => ?_
  have hnone : ∀ x d, d ∉ root.childCoordinators x := fun _ _ => List.not_mem_nil
  rcases mem_addDependency hab.2 with hab | ⟨rfl, rfl⟩
  · rcases mem_addDependency hab with hab | ⟨rfl, rfl⟩
    · rcases mem_addDependency hab with hab | ⟨rfl, rfl⟩
      · rcases mem_addDependency hab with hab | ⟨rfl, rfl⟩
        · rcases mem_addDependency hab with hab | ⟨rfl, rfl⟩
          · have hroot := mem_createCoordinator (mem_createCoordinator (mem_createCoordinator
              (mem_createCoordinator hab)))
            exact absurd hroot (hnone _ _)
          · decide
        · decide
      · decide
    · decide
  · decide

/-- Removing `1` from the list of `0` empties the list of the shared child. -/
theorem removeDependency_tears_down_shared :
    ∃ t, (∃ needed, ∀ fuel ≥ needed, removeDependency fuel shared 0 (some 1) = some t) ∧
      t.childCoordinators 0 = [2] ∧ t.childCoordinators 1 = [] ∧ t.childCoordinators 3 = [] := by
  obtain ⟨t, hfuel, hparent, hcleared, -⟩ :=
    (removeDependency_tears_down shared_reachable).2 shared_acyclic 0 1 (by decide)
  have hreach : shared.Reaches 1 3 := .single ⟨rfl, by decide⟩
  exact ⟨t, hfuel, hparent.trans (by decide), hcleared 1 rfl .refl, hcleared 3 rfl hreach⟩

end Coordinators

end Alarma
