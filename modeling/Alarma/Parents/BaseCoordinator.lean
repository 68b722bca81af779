import Mathlib

/-!
# Coordinators and their children

A coordinator is an object: it has an identity, here a number, and a
`BaseCoordinator` keeps the list of the coordinators it has started.  The lists
are mutable and may share entries, so they live in a heap.

* `create`, `addDependency`, `removeDependency` — the constructor and the two
  methods.  `removeDependency` calls itself on the children of its argument
  while it changes the lists it walks; it takes fuel, and `none` means that the
  fuel ran out.
* `removeDependency_leaf` — removing a coordinator without children takes it off
  one list, and needs no more than one unit of fuel.
-/

namespace Alarma

/-- The coordinators created so far.  Their identities are the numbers below
`count`. -/
structure Coordinators where
  count : ℕ
  /-- Whether `as? BaseCoordinator` succeeds. -/
  isBase : ℕ → Bool
  childCoordinators : ℕ → List ℕ

namespace Coordinators

/-- A heap with one `BaseCoordinator`, number `0`. -/
def root : Coordinators := ⟨1, fun _ => true, fun _ => []⟩

/-- Assign the list of one coordinator. -/
def setChildren (h : Coordinators) (self : ℕ) (children : List ℕ) : Coordinators :=
  { h with childCoordinators := Function.update h.childCoordinators self children }

@[simp] theorem childCoordinators_setChildren_self (h : Coordinators) (self : ℕ)
    (children : List ℕ) : (h.setChildren self children).childCoordinators self = children :=
  Function.update_self ..

theorem childCoordinators_setChildren_of_ne (h : Coordinators) {self c : ℕ} (children : List ℕ)
    (hne : c ≠ self) : (h.setChildren self children).childCoordinators c = h.childCoordinators c :=
  Function.update_of_ne hne ..

/-- A new `BaseCoordinator`, number `count`, without children. -/
def create (h : Coordinators) : Coordinators where
  count := h.count + 1
  isBase := Function.update h.isBase h.count true
  childCoordinators := Function.update h.childCoordinators h.count []

@[simp] theorem childCoordinators_create_new (h : Coordinators) :
    h.create.childCoordinators h.count = [] :=
  Function.update_self ..

theorem childCoordinators_create_of_ne (h : Coordinators) {c : ℕ} (hne : c ≠ h.count) :
    h.create.childCoordinators c = h.childCoordinators c :=
  Function.update_of_ne hne ..

/-- `addDependency`: add only a unique object. -/
def addDependency (h : Coordinators) (self coordinator : ℕ) : Coordinators :=
  if coordinator ∈ h.childCoordinators self then h
  else h.setChildren self (h.childCoordinators self ++ [coordinator])

/-- `removeDependency`: clear the child-coordinators of the argument
recursively, then take the argument off the list. -/
def removeDependency : ℕ → Coordinators → ℕ → Option ℕ → Option Coordinators
  | 0, _, _, _ => none
  | _ + 1, h, _, none => some h
  | fuel + 1, h, self, some coordinator =>
    if h.childCoordinators self = [] then some h
    else do
      let h' ←
        if h.isBase coordinator ∧ h.childCoordinators coordinator ≠ [] then
          -- the children are those there were when the loop began
          ((h.childCoordinators coordinator).filter fun child => child ≠ coordinator).foldlM
            (fun h child => removeDependency fuel h coordinator (some child)) h
        else some h
      return h'.setChildren self ((h'.childCoordinators self).erase coordinator)

/-! ## What the methods do to a coordinator without children -/

theorem addDependency_of_notMem {h : Coordinators} {self c : ℕ}
    (hc : c ∉ h.childCoordinators self) :
    h.addDependency self c = h.setChildren self (h.childCoordinators self ++ [c]) :=
  if_neg hc

/-- One level of the recursion. -/
theorem removeDependency_succ (fuel : ℕ) (h : Coordinators) (self c : ℕ) :
    removeDependency (fuel + 1) h self (some c) =
      if h.childCoordinators self = [] then some h
      else
        (if h.isBase c = true ∧ h.childCoordinators c ≠ [] then
          ((h.childCoordinators c).filter fun child => child ≠ c).foldlM
            (fun h child => removeDependency fuel h c (some child)) h
        else some h).map fun u => u.setChildren self ((u.childCoordinators self).erase c) := by
  rw [removeDependency]
  by_cases hself : h.childCoordinators self = []
  · rw [if_pos hself, if_pos hself]
  · rw [if_neg hself, if_neg hself]
    by_cases hnode : h.isBase c = true ∧ h.childCoordinators c ≠ []
    · rw [if_pos hnode, if_pos hnode, Option.map_eq_bind]
      rfl
    · rw [if_neg hnode, if_neg hnode]
      rfl

/-- **Removing a leaf takes it off one list.** -/
theorem removeDependency_leaf {h : Coordinators} {c : ℕ} (hc : h.childCoordinators c = [])
    (fuel self : ℕ) :
    removeDependency (fuel + 1) h self (some c) =
      some (h.setChildren self ((h.childCoordinators self).erase c)) := by
  have hleaf : ¬ (h.isBase c = true ∧ h.childCoordinators c ≠ []) := fun hb => hb.2 hc
  rw [removeDependency_succ, if_neg hleaf, Option.map_some]
  by_cases hself : h.childCoordinators self = []
  · -- the early return leaves an empty list, and so would the removal
    have hsame : h.setChildren self [] = h := by
      rw [setChildren, ← hself, Function.update_eq_self]
    rw [if_pos hself, hself, List.erase_nil, hsame]
  · rw [if_neg hself]

end Coordinators

end Alarma
