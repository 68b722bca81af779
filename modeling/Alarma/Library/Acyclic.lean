import Mathlib

/-!
# Finite graphs without cycles

A directed graph is a relation, `R a b` for an edge from `a` to `b`; paths are
`Relation.ReflTransGen R`.

* `Acyclic` — no path of positive length ends where it began;
  `Acyclic.wellFounded` — in a graph that leaves finitely many nodes, the
  successors of a node come before it in a well-founded order.
* `LeadsToCycle` — some path from a node ends on a cycle; `acc_iff` — in such a
  graph, the nodes that do not are the accessible ones.
* `acc_of_kept` — what keeps the edges between the others keeps the others.
* `reaches_of_cut` — cutting the edges out of a set that is closed under
  successors makes nothing unreachable but what that set reaches.
-/

namespace Graph

variable {Node : Type*}

/-- No path of positive length ends where it began. -/
def Acyclic (R : Node → Node → Prop) : Prop := ∀ a, ¬ Relation.TransGen R a a

namespace Acyclic

variable {R : Node → Node → Prop}

/-- A graph whose edges go up some order has no cycles. -/
theorem of_lt (rank : Node → ℕ) (h : ∀ a b, R a b → rank a < rank b) : Acyclic R := by
  have hpath : ∀ {a b}, Relation.TransGen R a b → rank a < rank b := by
    intro a b hab
    induction hab with
    | single hab => exact h _ _ hab
    | tail _ hbc ih => exact ih.trans (h _ _ hbc)
  exact fun a ha => Nat.lt_irrefl _ (hpath ha)

/-- No node is its own successor. -/
theorem irrefl (hR : Acyclic R) (a : Node) : ¬ R a a := fun h => hR a (.single h)

/-- A successor does not lead back. -/
theorem not_reaches (hR : Acyclic R) {a b : Node} (h : R a b) : ¬ Relation.ReflTransGen R b a :=
  fun hback => hR a (.head' h hback)

/-- **Induction from the leaves.**  If only finitely many nodes have successors,
to be a successor is a well-founded relation. -/
theorem wellFounded (hR : Acyclic R) {s : Set Node} (hs : s.Finite) (hmem : ∀ a b, R a b → a ∈ s) :
    WellFounded fun b a => R a b := by
  have := hs.to_subtype
  -- inside the finite set, paths are a transitive irreflexive relation
  let path : s → s → Prop := fun b a => Relation.TransGen R a.1 b.1
  have : IsTrans s path := ⟨fun _ _ _ h h' => h'.trans h⟩
  have : Std.Irrefl path := ⟨fun a h => hR a.1 h⟩
  have hpath : WellFounded path := Finite.wellFounded_of_trans_of_irrefl path
  have hacc : ∀ a : s, Acc (fun b a => R a b) a.1 := by
    intro a
    induction a using hpath.induction with
    | _ a ih =>
      refine ⟨_, fun b hb => ?_⟩
      by_cases hmemb : b ∈ s
      · exact ih ⟨b, hmemb⟩ (.single hb)
      · exact ⟨_, fun c hc => absurd (hmem b c hc) hmemb⟩
  refine ⟨fun a => ?_⟩
  by_cases hmema : a ∈ s
  · exact hacc ⟨a, hmema⟩
  · exact ⟨_, fun b hb => absurd (hmem a b hb) hmema⟩

end Acyclic

/-! ## Paths into cycles -/

/-- Some path from the node ends on a cycle. -/
def LeadsToCycle (R : Node → Node → Prop) (a : Node) : Prop :=
  ∃ x, Relation.ReflTransGen R a x ∧ Relation.TransGen R x x

section Paths

variable {R R' : Node → Node → Prop}

/-- What an accessible node reaches is accessible. -/
theorem acc_of_reaches {a x : Node} (ha : Acc (fun b a => R a b) a)
    (h : Relation.ReflTransGen R a x) : Acc (fun b a => R a b) x := by
  induction h with
  | refl => exact ha
  | tail _ hbc ih => exact ih.inv hbc

/-- No accessible node is on a cycle. -/
theorem not_cycle_of_acc {a : Node} (ha : Acc (fun b a => R a b) a) :
    ¬ Relation.TransGen R a a := by
  induction ha with
  | intro a _ ih =>
    intro hcycle
    obtain ⟨b, hab, hba⟩ := Relation.TransGen.head'_iff.1 hcycle
    -- the cycle goes through the successor as well
    exact ih b hab (Relation.TransGen.tail' hba hab)

/-- **Accessible nodes.**  If only finitely many nodes have successors, the nodes
from which no path leads to a cycle are the accessible ones. -/
theorem acc_iff {s : Set Node} (hs : s.Finite) (hmem : ∀ a b, R a b → a ∈ s) (a : Node) :
    Acc (fun b a => R a b) a ↔ ¬ LeadsToCycle R a := by
  constructor
  · rintro ha ⟨x, hreach, hcycle⟩
    exact not_cycle_of_acc (acc_of_reaches ha hreach) hcycle
  · intro h
    -- only the edges out of nodes that `a` reaches count
    let S : Node → Node → Prop := fun b c => Relation.ReflTransGen R a b ∧ R b c
    have hS : Acyclic S := by
      intro x hcycle
      obtain ⟨y, hxy, -⟩ := Relation.TransGen.head'_iff.1 hcycle
      exact h ⟨x, hxy.1, Relation.TransGen.mono (fun _ _ hbc => hbc.2) _ _ hcycle⟩
    have hwf := hS.wellFounded hs fun b c hbc => hmem b c hbc.2
    have hacc : ∀ x, Relation.ReflTransGen R a x → Acc (fun b a => R a b) x := by
      intro x
      induction x using hwf.induction with
      | _ x ih => exact fun hx => ⟨_, fun y hxy => ih y ⟨hx, hxy⟩ (hx.tail hxy)⟩
    exact hacc a .refl

/-- If the edges between nodes that are not accessible are kept, then so are those
nodes. -/
theorem acc_of_kept
    (hkept : ∀ b c, ¬ Acc (fun c b => R b c) b → ¬ Acc (fun c b => R b c) c → R b c → R' b c)
    {a : Node} (ha : Acc (fun b a => R' a b) a) : Acc (fun b a => R a b) a := by
  induction ha with
  | intro a _ ih =>
    by_contra hnot
    obtain ⟨b, hb, hab⟩ := exists_not_acc_lt_of_not_acc hnot
    exact hb (ih b (hkept a b hnot hb hab))

end Paths

/-- **Cutting a closed set.**  Let `S` be closed under successors, and let `R'`
keep the edges of `R` out of every node on the way from `a` that is not in `S`.
What `R` reaches from `a`, `R'` reaches too, unless it is in `S`. -/
theorem reaches_of_cut {R R' : Node → Node → Prop} {S : Node → Prop}
    (hclosed : ∀ b c, S b → R b c → S c) {a x : Node}
    (hkept : ∀ b c, Relation.ReflTransGen R a b → ¬ S b → R b c → R' b c)
    (h : Relation.ReflTransGen R a x) : Relation.ReflTransGen R' a x ∨ S x := by
  induction h with
  | refl => exact Or.inl .refl
  | @tail b c hab hbc ih =>
    rcases ih with hreach | hb
    · by_cases hb : S b
      · exact Or.inr (hclosed b c hb hbc)
      · exact Or.inl (hreach.tail (hkept b c hab hb hbc))
    · exact Or.inr (hclosed b c hb hbc)

end Graph
