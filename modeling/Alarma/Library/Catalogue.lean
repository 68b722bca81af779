import Mathlib
import Alarma.Library.Machine

/-!
# Catalogues: owners and what they own

What a store of owners and owned things is for, with nothing of how it is kept:
a catalogue says, of every owner there is, its head and the list of its items,
in order.

* `Op` — the changes a catalogue admits; `Op.apply` carries one out.
* `Op.Misses` — the change is not addressed to an owner; `apply_of_misses` says
  that it leaves that owner's entry alone, and `machine_run_frame` that a whole
  run of such changes does.
-/

/-- Of every owner there is: its head and its items. -/
abbrev Catalogue (Owner Head Item : Type*) := Owner → Option (Head × List Item)

namespace Catalogue

variable {Owner Head Item : Type*}

/-- The changes a catalogue admits. -/
inductive Op (Owner Head Item : Type*) where
  | skip
  /-- A new owner, without items. -/
  | create (owner : Owner) (head : Head)
  /-- The owner goes, and its items with it. -/
  | drop (owner : Owner)
  | setHead (owner : Owner) (f : Head → Head)
  /-- The owner gets one more item, at the end. -/
  | push (owner : Owner) (item : Item)
  /-- Items are rewritten, whoever owns them. -/
  | mapItems (f : Item → Item)
  /-- Only the items that pass are kept, whoever owns them. -/
  | keepItems (p : Item → Bool)

variable [DecidableEq Owner]

/-- Carry out a change. -/
def Op.apply (c : Catalogue Owner Head Item) : Op Owner Head Item → Catalogue Owner Head Item
  | skip => c
  | create owner head => fun o => if o = owner then some (head, []) else c o
  | drop owner => fun o => if o = owner then none else c o
  | setHead owner f => fun o =>
    if o = owner then (c o).map fun entry => (f entry.1, entry.2) else c o
  | push owner item => fun o =>
    if o = owner then (c o).map fun entry => (entry.1, entry.2 ++ [item]) else c o
  | mapItems f => fun o => (c o).map fun entry => (entry.1, entry.2.map f)
  | keepItems p => fun o => (c o).map fun entry => (entry.1, entry.2.filter p)

/-- The change is not addressed to `owner`, nor to an item it owns in `c`. -/
def Op.Misses (owner : Owner) (c : Catalogue Owner Head Item) : Op Owner Head Item → Prop
  | skip => True
  | create o _ | drop o | setHead o _ | push o _ => o ≠ owner
  | mapItems f => ∀ head items, c owner = some (head, items) → ∀ x ∈ items, f x = x
  | keepItems p => ∀ head items, c owner = some (head, items) → ∀ x ∈ items, p x = true

/-- A change leaves the entry of an owner it misses alone. -/
theorem Op.apply_of_misses {owner : Owner} {c : Catalogue Owner Head Item}
    {op : Op Owner Head Item} (h : op.Misses owner c) : op.apply c owner = c owner := by
  cases op with
  | skip => rfl
  | create o head => exact if_neg (Ne.symm h)
  | drop o => exact if_neg (Ne.symm h)
  | setHead o f => exact if_neg (Ne.symm h)
  | push o item => exact if_neg (Ne.symm h)
  | mapItems f =>
    cases hc : c owner with
    | none => simp [Op.apply, hc]
    | some entry =>
      have hmap : entry.2.map f = entry.2 :=
        (List.map_congr_left (h entry.1 entry.2 hc)).trans (List.map_id' _)
      simp [Op.apply, hc, hmap]
  | keepItems p =>
    cases hc : c owner with
    | none => simp [Op.apply, hc]
    | some entry =>
      have hkeep : entry.2.filter p = entry.2 := List.filter_eq_self.2 (h entry.1 entry.2 hc)
      simp [Op.apply, hc, hkeep]

/-- A catalogue, driven by changes. -/
def machine (Owner Head Item : Type*) [DecidableEq Owner] :
    Machine (Catalogue Owner Head Item) (Op Owner Head Item) where
  enabled := fun _ _ => True
  step := fun c op => some (op.apply c)

/-- **A run of changes that miss an owner leaves its entry alone.** -/
theorem machine_run_frame {owner : Owner} {c : Catalogue Owner Head Item}
    {tr : Trace (Catalogue Owner Head Item) (Op Owner Head Item)}
    (h : ((machine Owner Head Item).restrict fun c op => op.Misses owner c).Run c tr) :
    Trace.last c tr owner = c owner := by
  have htrans : ∀ {c d e : Catalogue Owner Head Item},
      d owner = c owner → e owner = d owner → e owner = c owner := fun hd he => he.trans hd
  refine Machine.Run.frame (I := fun _ => True) (R := fun c d => d owner = c owner)
    (fun _ => rfl) htrans ?_ h trivial
  intro c op d _ hmiss hd
  cases hd
  exact ⟨trivial, Op.apply_of_misses hmiss.2⟩

end Catalogue
