import Alarma.Parents.RemoveDependency

/-!
# Removing a dependency from any graph

`addDependency` admits coordinators that are their own children, and longer
cycles.  `removeDependency` passes over the former, runs forever in the latter,
and clears the children of its argument before it looks for the argument in the
list.

* `removeDependency_frame` — a call that returns changes the list it is called on
  and those of the coordinators that its calls visit.
* `removeDependency_eq_none` — a call does not return when the calls below it do
  not end, because a list is shortened only after the call for its entry returned;
  `returns_iff` — that is when some path of them leads to a cycle.
* `safe_iff_harmless` — the arguments for which a call returns and leaves every
  list alone unless there is something to remove.
-/

namespace Alarma
namespace Coordinators

/-! ## What a call changes -/

/-- A chain of calls made by the loops leads from one coordinator to another. -/
def Visits (h : Coordinators) : ℕ → ℕ → Prop := Relation.ReflTransGen h.Calls

/-- Shorter lists make fewer of them. -/
theorem Shrinks.visits {h t : Coordinators} (ht : h.Shrinks t) {a b : ℕ} (hab : t.Visits a b) :
    h.Visits a b :=
  Relation.ReflTransGen.mono (fun _ _ hcd => ht.calls hcd) _ _ hab

/-- The loop keeps a list that none of its calls changes. -/
theorem clearChildren_frame {fuel c x : ℕ}
    (hframe : ∀ {h t : Coordinators} {d : ℕ}, removeDependency fuel h c (some d) = some t →
      ¬ h.Visits d x → t.childCoordinators x = h.childCoordinators x)
    {ds : List ℕ} {h t : Coordinators} (ht : clearChildren fuel c ds h = some t)
    (hx : ∀ d ∈ ds, ¬ h.Visits d x) : t.childCoordinators x = h.childCoordinators x := by
  induction ds generalizing h with
  | nil =>
    cases ht
    rfl
  | cons d ds ih =>
    rw [clearChildren_cons] at ht
    obtain ⟨u, hu, ht⟩ := Option.bind_eq_some_iff.1 ht
    obtain ⟨hd, hrest⟩ := List.forall_mem_cons.1 hx
    have hshrinks : h.Shrinks u := removeDependency_shrinks hu
    rw [ih ht fun e he hvisits => hrest e he (hshrinks.visits hvisits), hframe hu hd]

/-- **The frame.**  A call changes the list it is called on by taking its argument
off, and no other list that its calls do not visit. -/
theorem removeDependency_frame {fuel : ℕ} {h t : Coordinators} {p c x : ℕ}
    (ht : removeDependency fuel h p (some c) = some t) (hx : ¬ h.Visits c x) :
    t.childCoordinators x =
      if x = p then (h.childCoordinators x).erase c else h.childCoordinators x := by
  induction fuel generalizing h t p c with
  | zero => cases ht
  | succ fuel ih =>
    by_cases hp : h.childCoordinators p = []
    · rw [removeDependency_of_nil hp] at ht
      cases ht
      split
      · rename_i hxp
        rw [hxp, hp]
        rfl
      · rfl
    · rw [removeDependency_of_ne_nil hp] at ht
      obtain ⟨u, hu, rfl⟩ := Option.map_eq_some_iff.1 ht
      have hxc : x ≠ c := by
        rintro rfl
        exact hx .refl
      have hsame : u.childCoordinators x = h.childCoordinators x := by
        refine clearChildren_frame (fun {h t d} hd hnot => ?_) hu fun d hd hvisits => ?_
        · rw [ih hd hnot, if_neg hxc]
        · exact hx (.head (mem_callees.1 hd) hvisits)
      by_cases hxp : x = p
      · rw [if_pos hxp, ← hsame, hxp, childCoordinators_setChildren_self]
      · rw [if_neg hxp, ← hsame, childCoordinators_setChildren_of_ne u _ hxp]

/-- In a heap without repetitions, the argument is gone from the list. -/
theorem removeDependency_notMem {fuel : ℕ} {h t : Coordinators} (hh : h.Unique) {p c : ℕ}
    (ht : removeDependency fuel h p (some c) = some t) : c ∉ t.childCoordinators p := by
  cases fuel with
  | zero => cases ht
  | succ fuel =>
    by_cases hp : h.childCoordinators p = []
    · rw [removeDependency_of_nil hp] at ht
      cases ht
      simp [hp]
    · rw [removeDependency_of_ne_nil hp] at ht
      obtain ⟨u, hu, rfl⟩ := Option.map_eq_some_iff.1 ht
      have hnodup := (hh p).sublist ((clearChildren_shrinks hu).sublist p)
      rw [childCoordinators_setChildren_self]
      exact hnodup.not_mem_erase

/-- **The children go first**, whether or not the argument is in the list. -/
theorem childCoordinators_ne_of_calls {fuel : ℕ} {h t : Coordinators} (hh : h.Unique) {p c d : ℕ}
    (hp : h.childCoordinators p ≠ []) (hd : h.Calls c d)
    (ht : removeDependency fuel h p (some c) = some t) :
    t.childCoordinators c ≠ h.childCoordinators c := by
  cases fuel with
  | zero => cases ht
  | succ fuel =>
    rw [removeDependency_of_ne_nil hp] at ht
    obtain ⟨u, hu, rfl⟩ := Option.map_eq_some_iff.1 ht
    cases hcallees : h.callees c with
    | nil =>
      have hmem := mem_callees.2 hd
      rw [hcallees] at hmem
      cases hmem
    | cons e es =>
      have he : h.Calls c e := mem_callees.1 (hcallees ▸ List.mem_cons_self)
      rw [hcallees, clearChildren_cons] at hu
      obtain ⟨v, hv, hu⟩ := Option.bind_eq_some_iff.1 hu
      -- the first child is taken off the list of `c`, and nothing puts it back
      have hgone : e ∉ v.childCoordinators c := removeDependency_notMem hh hv
      have hshrinks := (clearChildren_shrinks hu).trans (shrinks_erase u p c)
      intro hsame
      have hmem := he.2.1
      rw [← hsame] at hmem
      exact hgone ((hshrinks.sublist c).subset hmem)

/-! ## Calls that do not return -/

/-- The calls that `c` leads to end. -/
def Ends (h : Coordinators) (c : ℕ) : Prop := Acc (fun b a => h.Calls a b) c

/-- A call whose calls end keeps those that do not. -/
theorem Ends.calls_kept {fuel : ℕ} {h t : Coordinators} {c d : ℕ} (hd : h.Ends d)
    (ht : removeDependency fuel h c (some d) = some t) {x y : ℕ} (hx : ¬ h.Ends x)
    (hy : ¬ h.Ends y) (hxy : h.Calls x y) : t.Calls x y := by
  have hshrinks : h.Shrinks t := removeDependency_shrinks ht
  have hlist := removeDependency_frame ht fun hvisits => hx (Graph.acc_of_reaches hd hvisits)
  refine ⟨hshrinks.isBase ▸ hxy.1, ?_, hxy.2.2⟩
  rw [hlist]
  split
  · -- only `d` is taken off the list of `c`, and `d` is not `y`
    have hne : y ≠ d := by
      rintro rfl
      exact hy hd
    exact (List.mem_erase_of_ne hne).2 hxy.2.1
  · exact hxy.2.1

theorem Ends.of_removeDependency {fuel : ℕ} {h t : Coordinators} {c d : ℕ} (hd : h.Ends d)
    (ht : removeDependency fuel h c (some d) = some t) {x : ℕ} (hx : t.Ends x) : h.Ends x :=
  Graph.acc_of_kept (fun _ _ => hd.calls_kept ht) hx

/-- **The loop does not return** from the first child whose calls do not end: the
calls before it have left the way into the cycle as it was. -/
theorem clearChildren_eq_none {fuel c : ℕ}
    (ih : ∀ {h : Coordinators} {d : ℕ}, h.childCoordinators c ≠ [] → ¬ h.Ends d →
      removeDependency fuel h c (some d) = none)
    {ds : List ℕ} {h : Coordinators} (hc : ¬ h.Ends c) {e : ℕ} (he : e ∈ ds) (hends : ¬ h.Ends e) :
    clearChildren fuel c ds h = none := by
  induction ds generalizing h with
  | nil => cases he
  | cons d ds ihds =>
    rw [clearChildren_cons]
    by_cases hd : h.Ends d
    · cases ht : removeDependency fuel h c (some d) with
      | none => rfl
      | some t =>
        have hmem : e ∈ ds := by
          rcases List.mem_cons.1 he with rfl | hmem
          · exact absurd hd hends
          · exact hmem
        exact ihds (fun ht' => hc (hd.of_removeDependency ht ht')) hmem
          fun ht' => hends (hd.of_removeDependency ht ht')
    · obtain ⟨b, -, hb⟩ := exists_not_acc_lt_of_not_acc hc
      rw [ih (List.ne_nil_of_mem hb.2.1) hd]
      rfl

/-- **A call does not return**, on whatever fuel, when its calls do not end. -/
theorem removeDependency_eq_none {h : Coordinators} {p c : ℕ} (hp : h.childCoordinators p ≠ [])
    (hc : ¬ h.Ends c) (fuel : ℕ) : removeDependency fuel h p (some c) = none := by
  induction fuel generalizing h p c with
  | zero => rfl
  | succ fuel ih =>
    obtain ⟨d, hd, hcalls⟩ := exists_not_acc_lt_of_not_acc hc
    rw [removeDependency_of_ne_nil hp, clearChildren_eq_none ih hc (mem_callees.2 hcalls) hd,
      Option.map_none]

/-! ## Any argument -/

/-- What is to hold of a call: it returns, and changes no list if its argument is
`nil` or not in the list. -/
def Safe (h : Coordinators) (p : ℕ) (coordinator : Option ℕ) : Prop :=
  ∃ t, (∃ needed, ∀ fuel ≥ needed, removeDependency fuel h p coordinator = some t) ∧
    ((∀ c, coordinator = some c → c ∉ h.childCoordinators p) →
      ∀ x, t.childCoordinators x = h.childCoordinators x)

/-- The condition on a call. -/
def Harmless (h : Coordinators) (p : ℕ) : Option ℕ → Prop
  | none => True
  | some c => h.childCoordinators p = [] ∨
      (c ∈ h.childCoordinators p ∧ ¬ Graph.LeadsToCycle h.Calls c) ∨
      (c ∉ h.childCoordinators p ∧ ∀ d, ¬ h.Calls c d)

/-- In a heap that calls build, they end unless they lead to a cycle. -/
theorem WellFormed.ends_iff {h : Coordinators} (hh : h.WellFormed) (c : ℕ) :
    h.Ends c ↔ ¬ Graph.LeadsToCycle h.Calls c :=
  Graph.acc_iff (Set.finite_Iio h.count)
    (fun a _ hab => (hh.owner a (List.ne_nil_of_mem hab.2.1)).1) c

/-- **When a call returns.** -/
theorem WellFormed.returns_iff {h : Coordinators} (hh : h.WellFormed) (p c : ℕ) :
    (∃ t needed, ∀ fuel ≥ needed, removeDependency fuel h p (some c) = some t) ↔
      h.childCoordinators p = [] ∨ ¬ Graph.LeadsToCycle h.Calls c := by
  rw [← hh.ends_iff]
  constructor
  · rintro ⟨t, needed, ht⟩
    by_contra hnot
    obtain ⟨hp, hc⟩ := not_or.1 hnot
    have hnone := removeDependency_eq_none hp hc needed
    rw [ht needed le_rfl] at hnone
    cases hnone
  · rintro (hp | hc)
    · exact ⟨h, returns_of_succ fun fuel => removeDependency_of_nil hp fuel c⟩
    · exact removeDependency_returns hc h p fun _ _ hab => hab

/-- A call on an argument that is not in the list, and leads to no calls, changes
nothing. -/
theorem removeDependency_of_notMem {h : Coordinators} {p c : ℕ} (hc : c ∉ h.childCoordinators p)
    (hcalls : ∀ d, ¬ h.Calls c d) (fuel : ℕ) :
    removeDependency (fuel + 1) h p (some c) = some h := by
  by_cases hp : h.childCoordinators p = []
  · exact removeDependency_of_nil hp fuel c
  · have hcallees : h.callees c = [] :=
      List.eq_nil_iff_forall_not_mem.2 fun d hd => hcalls d (mem_callees.1 hd)
    rw [removeDependency_of_ne_nil hp, hcallees, clearChildren_nil, Option.map_some,
      List.erase_of_not_mem hc, setChildren, Function.update_eq_self]

/-- **Which arguments are safe.**  In every heap that calls build, whatever `p` and
the argument are: `p.removeDependency(argument)` returns, and changes no list if the
argument is `nil` or not in the list of `p`, precisely when the argument is `nil`,
or `p` has no children, or the argument is a child of `p` from which no path leads
to a cycle of two or more coordinators, or it is not a child of `p` and has no
children but itself. -/
theorem safe_iff_harmless {h : Coordinators} (hr : machine.Reachable root h) (p : ℕ)
    (coordinator : Option ℕ) : h.Safe p coordinator ↔ h.Harmless p coordinator := by
  have hh := wellFormed_of_reachable hr
  cases coordinator with
  | none =>
    refine iff_of_true ⟨h, returns_of_succ fun fuel => ?_, fun _ _ => rfl⟩ trivial
    rw [removeDependency]
  | some c =>
    constructor
    · rintro ⟨t, ⟨needed, ht⟩, hsame⟩
      by_cases hp : h.childCoordinators p = []
      · exact Or.inl hp
      · by_cases hc : c ∈ h.childCoordinators p
        · have hreturns := (hh.returns_iff p c).1 ⟨t, needed, ht⟩
          exact Or.inr (Or.inl ⟨hc, hreturns.resolve_left hp⟩)
        · refine Or.inr (Or.inr ⟨hc, fun d hd => ?_⟩)
          have hlist := hsame (fun _ heq => Option.some_inj.1 heq ▸ hc) c
          exact childCoordinators_ne_of_calls hh.unique hp hd (ht needed le_rfl) hlist
    · rintro (hp | ⟨hc, hcycle⟩ | ⟨hc, hcalls⟩)
      · exact ⟨h, returns_of_succ fun fuel => removeDependency_of_nil hp fuel c, fun _ _ => rfl⟩
      · obtain ⟨t, ht⟩ := (hh.returns_iff p c).2 (Or.inr hcycle)
        exact ⟨t, ht, fun hnot => absurd hc (hnot c rfl)⟩
      · exact ⟨h, returns_of_succ fun fuel => removeDependency_of_notMem hc hcalls fuel,
          fun _ _ => rfl⟩

/-! ## A heap with cycles -/

/-- `1` is in the list of `0`, in its own list, and keeps `2`; `3` and `4` keep each
other. -/
def looped : Coordinators :=
  let created := (((root.createCoordinator true).createCoordinator true).createCoordinator
    true).createCoordinator true
  ((((created.addDependency 0 1).addDependency 1 1).addDependency 1 2).addDependency 3
    4).addDependency 4 3

theorem looped_reachable : machine.Reachable root looped :=
  ⟨[(.create true, _), (.create true, _), (.create true, _), (.create true, _),
    (.addDependency 0 1, _), (.addDependency 1 1, _), (.addDependency 1 2, _),
    (.addDependency 3 4, _), (.addDependency 4 3, _)],
    .cons trivial rfl (.cons trivial rfl (.cons trivial rfl (.cons trivial rfl
      (.cons ⟨by decide, rfl, by decide⟩ rfl (.cons ⟨by decide, rfl, by decide⟩ rfl
        (.cons ⟨by decide, rfl, by decide⟩ rfl (.cons ⟨by decide, rfl, by decide⟩ rfl
          (.cons ⟨by decide, rfl, by decide⟩ rfl (.nil _))))))))), rfl⟩

/-- `1` keeps itself, but leads to no longer cycle. -/
theorem safe_looped : looped.Safe 0 (some 1) := by
  refine (safe_iff_harmless looped_reachable 0 (some 1)).2 (Or.inr (Or.inl ⟨by decide, ?_⟩))
  have h2 : looped.Ends 2 := by
    refine ⟨_, fun d hd => ?_⟩
    exact absurd hd.2.1 List.not_mem_nil
  have h1 : looped.Ends 1 := by
    refine ⟨_, fun d hd => ?_⟩
    have hmem : d ∈ [1, 2] := hd.2.1
    have hne : d ≠ 1 := hd.2.2
    simp only [List.mem_cons, List.not_mem_nil, or_false] at hmem
    rw [hmem.resolve_left hne]
    exact h2
  exact ((wellFormed_of_reachable looped_reachable).ends_iff 1).1 h1

/-- `3.removeDependency(4)` never returns, and `3.removeDependency(1)` takes `2` off
the list of `1`, although `1` is not in the list of `3`. -/
theorem removeDependency_unsafe :
    machine.Reachable root looped ∧
      (∀ fuel, removeDependency fuel looped 3 (some 4) = none) ∧
      1 ∉ looped.childCoordinators 3 ∧ looped.childCoordinators 1 = [1, 2] ∧
      ∃ t, removeDependency 2 looped 3 (some 1) = some t ∧ t.childCoordinators 1 = [1] := by
  have h34 : looped.Calls 3 4 := ⟨rfl, by decide, by decide⟩
  have h43 : looped.Calls 4 3 := ⟨rfl, by decide, by decide⟩
  have hcycle : ¬ looped.Ends 4 := fun hends =>
    Graph.not_cycle_of_acc hends (.tail (.single h43) h34)
  refine ⟨looped_reachable, removeDependency_eq_none (by decide) hcycle, by decide, by decide, ?_⟩
  exact ⟨_, rfl, by decide⟩

end Coordinators
end Alarma
