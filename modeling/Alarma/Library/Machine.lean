import Mathlib

/-!
# Event-driven programs and their runs

A user interface or a store behind one is a state changed by events that the
outside world delivers in an order of its own choosing.  `Machine` is that
picture: which events may arrive in a state, and what the program does with
each of them — possibly trap.

* `Run` — a finite run, recorded as the events in order, each with the state it
  led to; `Trace.last` is the state a run ends in, `Reachable` its closure.
* `Run.invariant` — an invariant that every step preserves holds at the end of a
  run, and so after every event of it.
* `Run.frame` — what no step changes, no run changes.
* `restrict`, `EachStep` — the runs all of whose steps meet a condition on the
  event and the state it arrives in.
* `Run.forall_iff_eachStep` — the rule for an exact condition: when, step by
  step, a property survives precisely the events that meet the condition, it
  holds after every event of a run precisely when all its events do.
* `EachTransition` — a property of every step of a run; `Run.eachTransition` has it
  from an invariant, `Run.eachTransition_iff_eachStep` from an exact condition.
* `Run.simulate` — a run of one machine is matched by a run of another, when
  every step is matched or leaves the other machine where it is;
  `Run.simulate_eachStep` carries a condition along.
* `Followed` — a run is matched moment by moment; `Run.follow` has it from a
  correspondence between the two states that steps may extend, never change.
* `collect` — what the steps of a run contribute, in their order; `Run.collect` has
  what it amounts to at the end from what every step adds to it.
-/

/-- A program driven by events. -/
structure Machine (State Event : Type*) where
  /-- Which events the outside world may deliver in a state. -/
  enabled : State → Event → Prop
  /-- What the program does with an event; `none` when it traps. -/
  step : State → Event → Option State

/-- The events of a run in order, each with the state it led to. -/
abbrev Trace (State Event : Type*) := List (Event × State)

/-- The state at the end of a run that began in `s`. -/
def Trace.last {State Event : Type*} (s : State) : Trace State Event → State
  | [] => s
  | (_, t) :: tr => Trace.last t tr

namespace Machine

variable {State Event : Type*} {M : Machine State Event}

@[simp] theorem last_nil (s : State) : Trace.last s ([] : Trace State Event) = s := rfl

@[simp] theorem last_cons (s : State) (p : Event × State) (tr : Trace State Event) :
    Trace.last s (p :: tr) = Trace.last p.2 tr := rfl

@[simp] theorem last_append (s : State) (tr tr' : Trace State Event) :
    Trace.last s (tr ++ tr') = Trace.last (Trace.last s tr) tr' := by
  induction tr generalizing s with
  | nil => rfl
  | cons p tr ih => exact ih p.2

/-- The runs of a machine: every event was enabled when it arrived, and none of
them made the program trap. -/
inductive Run (M : Machine State Event) : State → Trace State Event → Prop
  | nil (s : State) : Run M s []
  | cons {s t : State} {e : Event} {tr : Trace State Event} :
      M.enabled s e → M.step s e = some t → Run M t tr → Run M s ((e, t) :: tr)

/-- `t` is the end of some run from `s`. -/
def Reachable (M : Machine State Event) (s t : State) : Prop :=
  ∃ tr, M.Run s tr ∧ Trace.last s tr = t

theorem run_cons_iff {s : State} {p : Event × State} {tr : Trace State Event} :
    M.Run s (p :: tr) ↔ M.enabled s p.1 ∧ M.step s p.1 = some p.2 ∧ M.Run p.2 tr := by
  constructor
  · rintro (_ | ⟨he, hs, hr⟩)
    exact ⟨he, hs, hr⟩
  · rintro ⟨he, hs, hr⟩
    exact .cons he hs hr

theorem run_append_iff {s : State} {tr tr' : Trace State Event} :
    M.Run s (tr ++ tr') ↔ M.Run s tr ∧ M.Run (Trace.last s tr) tr' := by
  induction tr generalizing s with
  | nil => exact ⟨fun h => ⟨.nil s, h⟩, fun h => h.2⟩
  | cons p tr ih => simp only [List.cons_append, run_cons_iff, ih, last_cons, and_assoc]

theorem Reachable.refl (M : Machine State Event) (s : State) : M.Reachable s s := ⟨[], .nil s, rfl⟩

/-- One more event. -/
theorem Reachable.step {s t u : State} {e : Event} (h : M.Reachable s t) (he : M.enabled t e)
    (hs : M.step t e = some u) : M.Reachable s u := by
  obtain ⟨tr, hr, rfl⟩ := h
  exact ⟨tr ++ [(e, u)], run_append_iff.2 ⟨hr, .cons he hs (.nil u)⟩, by simp⟩

/-- And a run. -/
theorem Reachable.run {s t : State} {tr : Trace State Event} (h : M.Reachable s t)
    (hr : M.Run t tr) : M.Reachable s (Trace.last t tr) := by
  obtain ⟨before, hbefore, rfl⟩ := h
  exact ⟨before ++ tr, run_append_iff.2 ⟨hbefore, hr⟩, last_append s before tr⟩

/-! ## Invariants and frames -/

/-- The events of a run keep an invariant that every step keeps. -/
theorem Run.invariant {I : State → Prop}
    (hstep : ∀ {s e t}, I s → M.enabled s e → M.step s e = some t → I t)
    {s : State} {tr : Trace State Event} (hr : M.Run s tr) (hs : I s) : I (Trace.last s tr) := by
  induction hr with
  | nil s => exact hs
  | cons he ht _ ih => exact ih (hstep hs he ht)

theorem Reachable.invariant {I : State → Prop}
    (hstep : ∀ {s e t}, I s → M.enabled s e → M.step s e = some t → I t)
    {s t : State} (h : M.Reachable s t) (hs : I s) : I t := by
  obtain ⟨tr, hr, rfl⟩ := h
  exact hr.invariant hstep hs

/-- **What no step changes, no run changes.**  `I` is an invariant the steps may
rely on, `R` relates the states before and after. -/
theorem Run.frame {I : State → Prop} {R : State → State → Prop} (hrefl : ∀ s, R s s)
    (htrans : ∀ {s t u}, R s t → R t u → R s u)
    (hstep : ∀ {s e t}, I s → M.enabled s e → M.step s e = some t → I t ∧ R s t)
    {s : State} {tr : Trace State Event} (hr : M.Run s tr) (hs : I s) : R s (Trace.last s tr) := by
  induction hr with
  | nil s => exact hrefl s
  | cons he ht _ ih =>
    obtain ⟨hi, hR⟩ := hstep hs he ht
    exact htrans hR (ih hi)

/-! ## Runs all of whose steps meet a condition -/

/-- The same program in a world that only delivers events meeting `C`. -/
def restrict (M : Machine State Event) (C : State → Event → Prop) : Machine State Event :=
  { M with enabled := fun s e => M.enabled s e ∧ C s e }

/-- Every event of the run met `C` in the state it arrived in. -/
def EachStep (C : State → Event → Prop) (s : State) : Trace State Event → Prop
  | [] => True
  | (e, t) :: tr => C s e ∧ EachStep C t tr

/-- A condition on the events alone is a condition on the list of events. -/
theorem eachStep_event_iff {C : Event → Prop} {s : State} {tr : Trace State Event} :
    EachStep (fun _ => C) s tr ↔ ∀ p ∈ tr, C p.1 := by
  induction tr generalizing s with
  | nil => simp [EachStep]
  | cons p tr ih => simp [EachStep, ih]

theorem restrict_run_iff {C : State → Event → Prop} {s : State} {tr : Trace State Event} :
    (M.restrict C).Run s tr ↔ M.Run s tr ∧ EachStep C s tr := by
  induction tr generalizing s with
  | nil => exact ⟨fun _ => ⟨.nil s, trivial⟩, fun _ => .nil s⟩
  | cons p tr ih =>
    rw [run_cons_iff, run_cons_iff, ih]
    simp only [restrict, EachStep]
    tauto

/-- **The rule for an exact condition.**  Suppose that, as long as `P` holds, an
event preserves `P` precisely when it meets `C`; `I` is an invariant of the
events that meet `C`.  Then `P` holds after every event of a run precisely when
every event of the run met `C`. -/
theorem Run.forall_iff_eachStep {I P : State → Prop} {C : State → Event → Prop}
    (hI : ∀ {s e t}, I s → P s → M.enabled s e → M.step s e = some t → C s e → I t)
    (hP : ∀ {s e t}, I s → P s → M.enabled s e → M.step s e = some t → (P t ↔ C s e))
    {s : State} {tr : Trace State Event} (hr : M.Run s tr) (hIs : I s) (hPs : P s) :
    (∀ p ∈ tr, P p.2) ↔ EachStep C s tr := by
  induction hr with
  | nil s => simp [EachStep]
  | @cons s t e tr he ht _ ih =>
    rw [List.forall_mem_cons, EachStep, hP hIs hPs he ht]
    -- the rest of the run only matters when this event met `C`, and then `P` holds at `t`
    refine and_congr_right fun hC => ?_
    exact ih (hI hIs hPs he ht hC) ((hP hIs hPs he ht).2 hC)

/-- Every step of the run, from a state by an event to a state, met `P`. -/
def EachTransition (P : State → Event → State → Prop) (s : State) : Trace State Event → Prop
  | [] => True
  | (e, t) :: tr => P s e t ∧ EachTransition P t tr

/-- Every step of a run meets what a step from a state of the invariant meets. -/
theorem Run.eachTransition {I : State → Prop} {P : State → Event → State → Prop}
    (hstep : ∀ {s e t}, I s → M.enabled s e → M.step s e = some t → I t ∧ P s e t)
    {s : State} {tr : Trace State Event} (hr : M.Run s tr) (hs : I s) : EachTransition P s tr := by
  induction hr with
  | nil s => trivial
  | cons he ht _ ih =>
    obtain ⟨hI, hP⟩ := hstep hs he ht
    exact ⟨hP, ih hI⟩

/-- **The rule for an exact condition, for steps.**  Suppose that a step meets `P`
precisely when its event meets `C`, and that `I` is an invariant of the events
that meet `C`.  Then every step of a run meets `P` precisely when every event of
the run met `C`. -/
theorem Run.eachTransition_iff_eachStep {I : State → Prop} {P : State → Event → State → Prop}
    {C : State → Event → Prop}
    (hI : ∀ {s e t}, I s → M.enabled s e → M.step s e = some t → C s e → I t)
    (hP : ∀ {s e t}, I s → M.enabled s e → M.step s e = some t → (P s e t ↔ C s e))
    {s : State} {tr : Trace State Event} (hr : M.Run s tr) (hIs : I s) :
    EachTransition P s tr ↔ EachStep C s tr := by
  induction hr with
  | nil s => exact Iff.rfl
  | @cons s t e tr he ht _ ih =>
    rw [EachTransition, EachStep, hP hIs he ht]
    exact and_congr_right fun hC => ih (hI hIs he ht hC)

/-! ## Simulation -/

/-- **Simulation under a condition.**  If a step of an event that meets `C` is matched by
one that meets `D`, the steps that match a run of such events meet `D`. -/
theorem Run.simulate_eachStep {State' Event' : Type*} {N : Machine State' Event'}
    {R : State → State' → Prop} {C : Event → Prop} {D : State' → Event' → Prop}
    (hstep : ∀ {s e t c}, R s c → M.enabled s e → M.step s e = some t →
      R t c ∨ ∃ e' d, N.enabled c e' ∧ N.step c e' = some d ∧ R t d ∧ (C e → D c e'))
    {s : State} {tr : Trace State Event} (hr : M.Run s tr) {c : State'} (hs : R s c) :
    ∃ tr', N.Run c tr' ∧ R (Trace.last s tr) (Trace.last c tr') ∧
      ((∀ p ∈ tr, C p.1) → EachStep D c tr') := by
  induction hr generalizing c with
  | nil s => exact ⟨[], .nil c, hs, fun _ => trivial⟩
  | @cons s t e tr he ht _ ih =>
    rcases hstep hs he ht with hsame | ⟨e', d, he', hd, hR, hD⟩
    · obtain ⟨tr', hr', hlast, heach⟩ := ih hsame
      exact ⟨tr', hr', hlast, fun hC => heach (List.forall_mem_cons.1 hC).2⟩
    · obtain ⟨tr', hr', hlast, heach⟩ := ih hR
      refine ⟨(e', d) :: tr', .cons he' hd hr', hlast, fun hC => ?_⟩
      obtain ⟨hfirst, hrest⟩ := List.forall_mem_cons.1 hC
      exact ⟨hD hfirst, heach hrest⟩

/-- **Simulation.**  If every step of `M` is matched by a step of `N`, or needs
none, every run of `M` is matched by a run of `N`. -/
theorem Run.simulate {State' Event' : Type*} {N : Machine State' Event'}
    {R : State → State' → Prop}
    (hstep : ∀ {s e t c}, R s c → M.enabled s e → M.step s e = some t →
      R t c ∨ ∃ e' d, N.enabled c e' ∧ N.step c e' = some d ∧ R t d)
    {s : State} {tr : Trace State Event} (hr : M.Run s tr) {c : State'} (hs : R s c) :
    ∃ tr', N.Run c tr' ∧ R (Trace.last s tr) (Trace.last c tr') := by
  obtain ⟨tr', hr', hlast, -⟩ := hr.simulate_eachStep (N := N) (R := R) (C := fun _ => True)
    (D := fun _ _ => True)
    (fun hR he ht => by
      rcases hstep hR he ht with hsame | ⟨e', d, he', hd, hR'⟩
      · exact Or.inl hsame
      · exact Or.inr ⟨e', d, he', hd, hR', fun _ => trivial⟩) hs
  exact ⟨tr', hr', hlast⟩

/-! ## Following a run -/

section Follow

variable {State' Event' : Type*} {N : Machine State' Event'}

/-- Every moment of a run from `s` is related to one of a run from `c`, in their order:
each step is matched by the steps up to the next such moment. -/
inductive Followed (N : Machine State' Event') (R : State → State' → Prop) :
    State → Trace State Event → State' → Trace State' Event' → Prop
  | nil {s : State} {c : State'} : R s c → Followed N R s [] c []
  | cons {s t : State} {e : Event} {tr : Trace State Event} {c : State'}
      {steps tr' : Trace State' Event'} :
      R s c → N.Run c steps → Followed N R t tr (Trace.last c steps) tr' →
      Followed N R s ((e, t) :: tr) c (steps ++ tr')

variable {R : State → State' → Prop} {s : State} {tr : Trace State Event} {c : State'}
  {tr' : Trace State' Event'}

/-- What follows a run is a run. -/
theorem Followed.run (h : Followed N R s tr c tr') : N.Run c tr' := by
  induction h with
  | nil => exact .nil _
  | cons _ hsteps _ ih => exact run_append_iff.2 ⟨hsteps, ih⟩

/-- The last moments are related. -/
theorem Followed.last (h : Followed N R s tr c tr') : R (Trace.last s tr) (Trace.last c tr') := by
  induction h with
  | nil hR => exact hR
  | cons _ _ _ ih =>
    rw [last_append]
    exact ih

end Follow

/-! ## Histories -/

/-- What the steps of a run contribute, in their order. -/
def collect {α : Type*} (f : State → Event → State → List α) (s : State) :
    Trace State Event → List α
  | [] => []
  | (e, t) :: tr => f s e t ++ collect f t tr

/-- Nothing is contributed precisely when no step contributes anything. -/
theorem collect_eq_nil_iff {α : Type*} {f : State → Event → State → List α} {s : State}
    {tr : Trace State Event} :
    collect f s tr = [] ↔ EachTransition (fun s e t => f s e t = []) s tr := by
  induction tr generalizing s with
  | nil => simp [collect, EachTransition]
  | cons p tr ih => simp [collect, EachTransition, ih]

/-- What is made of the contributions of a run is contributed by its steps. -/
theorem flatMap_collect {α β : Type*} (g : α → List β) (f : State → Event → State → List α)
    {s : State} {tr : Trace State Event} :
    (collect f s tr).flatMap g = collect (fun s e t => (f s e t).flatMap g) s tr := by
  induction tr generalizing s with
  | nil => rfl
  | cons p tr ih => rw [collect, collect, List.flatMap_append, ih]

/-- **The rule for histories.**  If every step keeps a relation between the state and
what has been contributed before it, up to its own contribution, every run does. -/
theorem Run.collect {I : State → Prop} {α : Type*} {R : State → List α → Prop}
    {f : State → Event → State → List α}
    (hstep : ∀ {s e t l}, I s → M.enabled s e → M.step s e = some t → R s l →
      I t ∧ R t (l ++ f s e t))
    {s : State} {tr : Trace State Event} (hr : M.Run s tr) (hs : I s) {l : List α} (hl : R s l) :
    R (Trace.last s tr) (l ++ Machine.collect f s tr) := by
  induction hr generalizing l with
  | nil s =>
    rw [Machine.collect, List.append_nil]
    exact hl
  | @cons s t e tr he ht _ ih =>
    obtain ⟨hI, hR⟩ := hstep hs he ht hl
    rw [Machine.collect, ← List.append_assoc]
    exact ih hI hR

end Machine
