import Alarma.Router.RouterImp

/-!
# A router whose completions call it back

A completion may push and pop on the router that runs it.  `runCompletion(for:)`
calls the closure first and removes the entry of the dictionary afterwards, so
while a completion is running its entry is still there.

* `ActiveRouter` — the router in the middle of its calls: which completions are
  running, innermost first, and which controllers each of their loops has yet to
  visit.  Outside the completions only the router's own code runs, so a state
  between two events is one in which some completion runs, or none.
* `machine` — a push, a pop, a pop to the root, by whichever code is running, and
  the return of the innermost completion, with what the router then does.
* `run_returns` — completions that do not call back leave what `runCompletions`
  computes.
* `safe_iff_eachStep` — what is to hold of re-entrant completions holds after
  every event of a run precisely when its events are `Orderly`.
-/

namespace Alarma

namespace RouterImp

/-- The first of the controllers that has a completion. -/
def due (controllers : List UIViewController) (r : RouterImp ℕ) : Option UIViewController :=
  controllers.find? fun c => (r.completions c).isSome

theorem mem_of_due {controllers : List UIViewController} {r : RouterImp ℕ} {c : UIViewController}
    (h : r.due controllers = some c) : c ∈ controllers := List.mem_of_find?_eq_some h

theorem completions_of_due {controllers : List UIViewController} {r : RouterImp ℕ}
    {c : UIViewController} (h : r.due controllers = some c) : ∃ k, r.completions c = some k := by
  rw [due, List.find?_eq_some_iff_append] at h
  exact Option.isSome_iff_exists.1 h.1

/-- An entry that a removal leaves is not that of the controller. -/
theorem completions_removeValue_iff {c d : UIViewController} {r : RouterImp ℕ} {k : ℕ} :
    (r.removeValue c).completions d = some k ↔ d ≠ c ∧ r.completions d = some k := by
  by_cases hd : d = c <;> simp [removeValue, hd]

end RouterImp

/-- A completion that is running.  Completions are told apart by the number they
were registered under. -/
structure Frame where
  /-- The controller it was run for. -/
  controller : UIViewController
  completion : ℕ
  /-- The controllers that the loop has yet to visit when it returns. -/
  rest : List UIViewController
  deriving DecidableEq, Repr

/-- A completion that was run. -/
structure Execution where
  completion : ℕ
  /-- The controller it was run for. -/
  controller : UIViewController
  /-- Whether that controller was on the stack. -/
  onStack : Bool
  deriving DecidableEq, Repr

/-- A router in the middle of its calls. -/
structure ActiveRouter where
  router : RouterImp ℕ
  /-- The completions that are running, the innermost first. -/
  frames : List Frame
  /-- How many completions were registered. -/
  issued : ℕ
  /-- What the last push of a controller registered. -/
  registered : UIViewController → Option ℕ
  /-- The completions that were run, in order. -/
  ran : List Execution

/-- What happens, between two moments in which the router's own code is running. -/
inductive ReentrantCall where
  /-- `push(_:animated:completion:)`, with a new completion or without one. -/
  | push (controller : UIViewController) (registers : Bool)
  /-- `popModule(animated:)` -/
  | popModule
  /-- `popToRootModule(animated:)` -/
  | popToRootModule
  /-- The innermost completion returns. -/
  | completionReturns
  deriving DecidableEq, Repr

namespace ActiveRouter

/-- A new router on a stack. -/
def opened (stack : List UIViewController) : ActiveRouter :=
  ⟨.new stack, [], 0, fun _ => none, []⟩

/-- The completions that were run. -/
def executed (s : ActiveRouter) : List ℕ := s.ran.map Execution.completion

/-- Go on with `controllers.forEach { runCompletion(for: $0) }` up to the first
completion that is called. -/
def visit : List UIViewController → ActiveRouter → ActiveRouter
  | [], s => s
  | c :: cs, s =>
    match s.router.completions c with
    | none => visit cs s
    | some completion => { s with
        frames := ⟨c, completion, cs⟩ :: s.frames
        ran := s.ran ++ [⟨completion, c, decide (c ∈ s.router.viewControllers)⟩] }

/-- The machine.  A completion may be followed by any of the calls before it
returns. -/
def machine (listed : List UIViewController → List UIViewController) :
    Machine ActiveRouter ReentrantCall where
  enabled := fun _ e =>
    match e with
    | .push controller _ => controller.isNavigationController = false
    | _ => True
  step := fun s e =>
    match e with
    | .push controller registers =>
      let completion := if registers then some s.issued else none
      (s.router.push (some controller) completion).map fun r => { s with
        router := r
        issued := if registers then s.issued + 1 else s.issued
        registered := Function.update s.registered controller completion }
    | .popModule =>
      match s.router.popViewController with
      | none => some s
      | some (controller, r) => some (visit [controller] { s with router := r })
    | .popToRootModule =>
      let popped := s.router.popToRootViewController listed
      some (visit popped.1 { s with router := popped.2 })
    | .completionReturns =>
      match s.frames with
      | [] => none
      | f :: fs => some (visit f.rest { s with
          router := s.router.removeValue f.controller
          frames := fs })

/-- What is to hold of re-entrant completions. -/
structure Safe (s : ActiveRouter) : Prop where
  /-- No completion is run twice. -/
  once : s.executed.Nodup
  /-- No completion is run for a controller on the stack. -/
  offStack : ∀ x ∈ s.ran, x.onStack = false
  /-- The completion that the last push of a controller on the stack registered is
  registered. -/
  kept : ∀ c ∈ s.router.viewControllers, ∀ k, s.registered c = some k →
    s.router.completions c = some k

/-- The entry of the controller is a completion that is running. -/
def Stale (r : RouterImp ℕ) (frames : List Frame) (c : UIViewController) : Prop :=
  ∃ f ∈ frames, f.controller = c ∧ r.completions c = some f.completion

/-- The condition on an event: a pop finds no controller whose entry is a completion
that is running, and a completion returns neither while its controller is back on
the stack with a new completion, nor into a loop whose next controller is back on
the stack, or has a completion that is running. -/
def Orderly (listed : List UIViewController → List UIViewController) (s : ActiveRouter) :
    ReentrantCall → Prop
  | .push _ _ => True
  | .popModule => ∀ c r, s.router.popViewController = some (c, r) → ¬ Stale s.router s.frames c
  | .popToRootModule => ∀ c, s.router.due (s.router.popToRootViewController listed).1 = some c →
      ¬ Stale s.router s.frames c
  | .completionReturns => ∀ f fs, s.frames = f :: fs →
      (f.controller ∈ s.router.viewControllers → s.registered f.controller = none) ∧
      ∀ c, (s.router.removeValue f.controller).due f.rest = some c →
        c ∉ s.router.viewControllers ∧ ¬ Stale s.router fs c

/-- What every event keeps. -/
structure Valid (s : ActiveRouter) : Prop where
  alive : s.router.rootController ≠ none
  nodup : s.router.viewControllers.Nodup
  /-- An entry that was run is still running. -/
  running : ∀ c k, s.router.completions c = some k → k ∈ s.executed →
    ∃ f ∈ s.frames, f.controller = c ∧ f.completion = k
  /-- What is running was run. -/
  logged : ∀ f ∈ s.frames, f.completion ∈ s.executed
  /-- No completion is registered for two controllers. -/
  apart : ∀ c d k, s.router.completions c = some k → s.router.completions d = some k → c = d
  /-- The completions in the dictionary were registered. -/
  keysIssued : ∀ c k, s.router.completions c = some k → k < s.issued
  /-- The completions that were run were registered. -/
  ranIssued : ∀ k ∈ s.executed, k < s.issued

theorem valid_opened {stack : List UIViewController} (hstack : stack.Nodup) :
    (opened stack).Valid where
  alive := Option.some_ne_none _
  nodup := hstack
  running := fun _ _ h => nomatch h
  logged := fun _ h => nomatch h
  apart := fun _ _ _ h => nomatch h
  keysIssued := fun _ _ h => nomatch h
  ranIssued := fun _ h => nomatch h

theorem safe_opened (stack : List UIViewController) : (opened stack).Safe :=
  ⟨List.nodup_nil, (fun _ h => nomatch h), fun _ _ _ h => nomatch h⟩

/-! ## Visiting controllers -/

/-- The entry of a controller is called. -/
def called (s : ActiveRouter) (c : UIViewController) (k : ℕ) (rest : List UIViewController) :
    ActiveRouter :=
  { s with
    frames := ⟨c, k, rest⟩ :: s.frames
    ran := s.ran ++ [⟨k, c, decide (c ∈ s.router.viewControllers)⟩] }

@[simp] theorem executed_called (s : ActiveRouter) (c : UIViewController) (k : ℕ)
    (rest : List UIViewController) : (s.called c k rest).executed = s.executed ++ [k] := by
  simp [executed, called]

theorem mem_executed_called {s : ActiveRouter} {c : UIViewController} {k j : ℕ}
    {rest : List UIViewController} :
    j ∈ (s.called c k rest).executed ↔ j ∈ s.executed ∨ j = k := by
  simp

/-- The loop calls the completion that is due, or ends. -/
theorem visit_cases (cs : List UIViewController) (s : ActiveRouter) :
    (s.router.due cs = none ∧ visit cs s = s) ∨
      ∃ c k rest, s.router.due cs = some c ∧ s.router.completions c = some k ∧
        visit cs s = s.called c k rest := by
  induction cs with
  | nil => exact Or.inl ⟨rfl, rfl⟩
  | cons c cs ih =>
    cases h : s.router.completions c with
    | none =>
      have hdue : s.router.due (c :: cs) = s.router.due cs := by
        simp [RouterImp.due, h]
      have hvisit : visit (c :: cs) s = visit cs s := by
        rw [visit, h]
      rw [hdue, hvisit]
      exact ih
    | some k =>
      refine Or.inr ⟨c, k, cs, ?_, h, ?_⟩
      · simp [RouterImp.due, h]
      · rw [visit, h]
        rfl

/-- The entry of a controller has been run before precisely when it is running now. -/
theorem Valid.stale_iff {s : ActiveRouter} (hs : s.Valid) {c : UIViewController} {k : ℕ}
    (hk : s.router.completions c = some k) : Stale s.router s.frames c ↔ k ∈ s.executed := by
  constructor
  · rintro ⟨f, hf, -, hentry⟩
    rw [hk, Option.some_inj] at hentry
    exact hentry ▸ hs.logged f hf
  · intro hmem
    obtain ⟨f, hf, hctrl, hcompl⟩ := hs.running c k hk hmem
    exact ⟨f, hf, hctrl, hcompl ▸ hk⟩

theorem Valid.called {s : ActiveRouter} (hs : s.Valid) {c : UIViewController} {k : ℕ}
    (hk : s.router.completions c = some k) (rest : List UIViewController) :
    (s.called c k rest).Valid := by
  refine ⟨hs.alive, hs.nodup, ?_, ?_, hs.apart, hs.keysIssued, ?_⟩
  · intro d j hj hmem
    rcases mem_executed_called.1 hmem with hmem | rfl
    · obtain ⟨f, hf, hctrl, hcompl⟩ := hs.running d j hj hmem
      exact ⟨f, List.mem_cons_of_mem _ hf, hctrl, hcompl⟩
    · exact ⟨_, List.mem_cons_self, hs.apart c d j hk hj, rfl⟩
  · intro f hf
    rw [mem_executed_called]
    rcases List.mem_cons.1 hf with rfl | hf
    · exact Or.inr rfl
    · exact Or.inl (hs.logged f hf)
  · intro j hj
    rcases mem_executed_called.1 hj with hj | rfl
    · exact hs.ranIssued j hj
    · exact hs.keysIssued c j hk

/-- It may be called unless it was run before, or its controller is on the stack. -/
theorem safe_called_iff {s : ActiveRouter} {c : UIViewController} {k : ℕ}
    {rest : List UIViewController} :
    (s.called c k rest).Safe ↔ s.Safe ∧ c ∉ s.router.viewControllers ∧ k ∉ s.executed := by
  constructor
  · rintro ⟨honce, hoff, hkept⟩
    rw [executed_called] at honce
    obtain ⟨hnodup, -, hnew⟩ := List.nodup_append.1 honce
    have hlast := hoff _ (List.mem_append_right _ (List.mem_singleton_self _))
    refine ⟨⟨hnodup, fun x hx => hoff x (List.mem_append_left _ hx), hkept⟩,
      of_decide_eq_false hlast, fun hmem => ?_⟩
    exact hnew k hmem k (List.mem_singleton_self k) rfl
  · rintro ⟨⟨honce, hoff, hkept⟩, hstack, hnew⟩
    refine ⟨?_, ?_, hkept⟩
    · rw [executed_called]
      refine List.nodup_append.2 ⟨honce, List.nodup_singleton k, ?_⟩
      intro a ha b hb hab
      rw [List.mem_singleton] at hb
      exact hnew (hb ▸ hab ▸ ha)
    · intro x hx
      rcases List.mem_append.1 hx with hx | hx
      · exact hoff x hx
      · rw [List.mem_singleton.1 hx]
        exact decide_eq_false hstack

/-- **What a loop adds.**  It keeps what every event keeps, and what is to hold of
the completions precisely when the completion it calls is not one that is running,
and its controller is not on the stack. -/
theorem Valid.visit {s : ActiveRouter} (hs : s.Valid) (cs : List UIViewController) :
    (visit cs s).Valid ∧ ((visit cs s).Safe ↔ s.Safe ∧ ∀ c, s.router.due cs = some c →
      c ∉ s.router.viewControllers ∧ ¬ Stale s.router s.frames c) := by
  rcases visit_cases cs s with ⟨hnone, hsame⟩ | ⟨c, k, rest, hdue, hk, hcall⟩
  · rw [hsame, hnone]
    exact ⟨hs, ⟨fun h => ⟨h, fun _ h => nomatch h⟩, And.left⟩⟩
  · have hforall : (∀ d, s.router.due cs = some d →
        d ∉ s.router.viewControllers ∧ ¬ Stale s.router s.frames d) ↔
        c ∉ s.router.viewControllers ∧ k ∉ s.executed := by
      rw [hdue, ← hs.stale_iff hk]
      exact ⟨fun h => h c rfl, fun h d hd => Option.some_inj.1 hd ▸ h⟩
    rw [hcall, hforall]
    exact ⟨hs.called hk rest, safe_called_iff⟩

/-- **Completions that do not call back.**  When every completion that the loop
calls returns at once, the loop does what `runCompletions` computes. -/
theorem run_returns (listed : List UIViewController → List UIViewController)
    (cs : List UIViewController) (s : ActiveRouter) :
    ∃ tr, (machine listed).Run (visit cs s) tr ∧ (∀ p ∈ tr, p.1 = .completionReturns) ∧
      (Trace.last (visit cs s) tr).frames = s.frames ∧
      (Trace.last (visit cs s) tr).router = (s.router.runCompletions cs).2 ∧
      (Trace.last (visit cs s) tr).executed = s.executed ++ (s.router.runCompletions cs).1 := by
  induction cs generalizing s with
  | nil => exact ⟨[], .nil s, (fun _ h => nomatch h), rfl, rfl, (List.append_nil _).symm⟩
  | cons c cs ih =>
    cases h : s.router.completions c with
    | none =>
      have hvisit : visit (c :: cs) s = visit cs s := by
        rw [visit, h]
      have hrun : s.router.runCompletions (c :: cs) = s.router.runCompletions cs := by
        simp [RouterImp.runCompletions, RouterImp.runCompletion, h]
      rw [hvisit, hrun]
      exact ih s
    | some k =>
      let returned : ActiveRouter := { s.called c k cs with
        router := s.router.removeValue c
        frames := s.frames }
      have hvisit : visit (c :: cs) s = s.called c k cs := by
        rw [visit, h]
        rfl
      have hrun : s.router.runCompletions (c :: cs) =
          (k :: (returned.router.runCompletions cs).1, (returned.router.runCompletions cs).2) := by
        simp [RouterImp.runCompletions, RouterImp.runCompletion, h, returned]
      have hreturned : returned.executed = s.executed ++ [k] := by
        simp [executed, returned, called]
      obtain ⟨tr, hr, hevents, hframes, hrouter, hexecuted⟩ := ih returned
      rw [hvisit, hrun]
      refine ⟨(.completionReturns, visit cs returned) :: tr, .cons trivial rfl hr, ?_, hframes,
        hrouter, ?_⟩
      · exact List.forall_mem_cons.2 ⟨rfl, hevents⟩
      · rw [Machine.last_cons, hexecuted, hreturned, List.append_assoc]
        rfl

/-! ## The events -/

/-- Controllers that leave the stack leave everything else as it is. -/
theorem Valid.shrink {s : ActiveRouter} (hs : s.Valid) {rest : List UIViewController}
    (hrest : rest.Sublist s.router.viewControllers) :
    let t : ActiveRouter := { s with router := { s.router with rootController := some rest } }
    t.Valid ∧ (s.Safe → t.Safe) :=
  ⟨⟨Option.some_ne_none _, hs.nodup.sublist hrest, hs.running, hs.logged, hs.apart, hs.keysIssued,
      hs.ranIssued⟩,
    fun h => ⟨h.once, h.offStack, fun c hc => h.kept c (hrest.subset hc)⟩⟩

/-- A push without a completion leaves the dictionary as it is. -/
theorem Valid.push_none {s : ActiveRouter} (hs : s.Valid) {r : RouterImp ℕ}
    {c : UIViewController} (hnew : c ∉ s.router.viewControllers)
    (hroot : r.rootController = some (c :: s.router.viewControllers))
    (hkeys : r.completions = s.router.completions) (registered : UIViewController → Option ℕ) :
    ({ s with router := r, registered := registered } : ActiveRouter).Valid := by
  obtain ⟨halive, hnodup⟩ := RouterImp.nodup_of_push hs.nodup hnew hroot
  refine ⟨halive, hnodup, ?_, hs.logged, ?_, ?_, hs.ranIssued⟩
  · simp only [hkeys]
    exact hs.running
  · simp only [hkeys]
    exact hs.apart
  · simp only [hkeys]
    exact hs.keysIssued

/-- A push with a completion registers one that is new. -/
theorem Valid.push_some {s : ActiveRouter} (hs : s.Valid) {r : RouterImp ℕ}
    {c : UIViewController} (hnew : c ∉ s.router.viewControllers)
    (hroot : r.rootController = some (c :: s.router.viewControllers))
    (hself : r.completions c = some s.issued)
    (hother : ∀ d, d ≠ c → r.completions d = s.router.completions d)
    (registered : UIViewController → Option ℕ) :
    ({ s with router := r, issued := s.issued + 1, registered := registered } :
      ActiveRouter).Valid := by
  -- the new completion is no earlier one
  have hentry : ∀ d k, r.completions d = some k →
      (d = c ∧ k = s.issued) ∨ (d ≠ c ∧ s.router.completions d = some k ∧ k < s.issued) := by
    intro d k hk
    by_cases hd : d = c
    · rw [hd, hself, Option.some_inj] at hk
      exact Or.inl ⟨hd, hk.symm⟩
    · rw [hother d hd] at hk
      exact Or.inr ⟨hd, hk, hs.keysIssued d k hk⟩
  obtain ⟨halive, hnodup⟩ := RouterImp.nodup_of_push hs.nodup hnew hroot
  refine ⟨halive, hnodup, ?_, hs.logged, ?_, ?_, ?_⟩
  · intro d k hk hmem
    rcases hentry d k hk with ⟨-, rfl⟩ | ⟨-, hold, -⟩
    · exact absurd (hs.ranIssued _ hmem) (Nat.lt_irrefl _)
    · exact hs.running d k hold hmem
  · intro d e k hd he
    rcases hentry d k hd with ⟨rfl, rfl⟩ | ⟨-, hold, hlt⟩
    · rcases hentry e _ he with ⟨rfl, -⟩ | ⟨-, -, hlt⟩
      · rfl
      · exact absurd hlt (Nat.lt_irrefl _)
    · rcases hentry e k he with ⟨-, rfl⟩ | ⟨-, hold', -⟩
      · exact absurd hlt (Nat.lt_irrefl _)
      · exact hs.apart d e k hold hold'
  · intro d k hk
    rcases hentry d k hk with ⟨-, rfl⟩ | ⟨-, -, hlt⟩
    · exact Nat.lt_succ_self _
    · exact Nat.lt_succ_of_lt hlt
  · exact fun k hk => Nat.lt_succ_of_lt (hs.ranIssued k hk)

/-- What the controllers on the stack have registered stays registered, and so does
what the push registers. -/
theorem Safe.kept_push {s : ActiveRouter} (h : s.Safe) {r : RouterImp ℕ} {c : UIViewController}
    (hnew : c ∉ s.router.viewControllers)
    (hroot : r.rootController = some (c :: s.router.viewControllers)) {completion : Option ℕ}
    (hself : r.completions c = completion.or (s.router.completions c))
    (hother : ∀ d, d ≠ c → r.completions d = s.router.completions d) :
    ∀ d ∈ r.viewControllers, ∀ k, Function.update s.registered c completion d = some k →
      r.completions d = some k := by
  intro d hd k hk
  rw [RouterImp.viewControllers_of_eq hroot] at hd
  rcases List.mem_cons.1 hd with rfl | hmem
  · rw [Function.update_self] at hk
    rw [hself, hk]
    rfl
  · have hdc : d ≠ c := by
      rintro rfl
      exact hnew hmem
    rw [Function.update_of_ne hdc] at hk
    rw [hother d hdc]
    exact h.kept d hmem k hk

/-- A push registers a new completion, or none. -/
theorem Valid.push {s t : ActiveRouter} (hs : s.Valid) {c : UIViewController} {registers : Bool}
    {listed : List UIViewController → List UIViewController}
    (hc : c.isNavigationController = false)
    (ht : (machine listed).step s (.push c registers) = some t) : t.Valid ∧ (s.Safe → t.Safe) := by
  obtain ⟨r, hr, rfl⟩ := Option.map_eq_some_iff.1 ht
  obtain ⟨hnew, hroot, hself, hother⟩ := RouterImp.push_eq hc hr
  rw [RouterImp.rootController_eq hs.alive] at hroot
  have hkept := fun h : s.Safe => h.kept_push hnew hroot hself hother
  cases registers with
  | false =>
    have hkeys : r.completions = s.router.completions := by
      funext d
      by_cases hd : d = c
      · rw [hd, hself]
        rfl
      · exact hother d hd
    exact ⟨hs.push_none hnew hroot hkeys _, fun h => ⟨h.once, h.offStack, hkept h⟩⟩
  | true => exact ⟨hs.push_some hnew hroot hself hother _, fun h => ⟨h.once, h.offStack, hkept h⟩⟩

theorem Valid.popModule {s t : ActiveRouter} (hs : s.Valid) (hsafe : s.Safe)
    {listed : List UIViewController → List UIViewController}
    (ht : (machine listed).step s .popModule = some t) :
    t.Valid ∧ (t.Safe ↔ Orderly listed s .popModule) := by
  simp only [machine] at ht
  split at ht
  · rename_i hpop
    cases ht
    refine ⟨hs, iff_of_true hsafe fun c r h => ?_⟩
    rw [hpop] at h
    cases h
  · rename_i c r hpop
    cases ht
    obtain ⟨rest, hstack, rfl⟩ := RouterImp.popViewController_eq hpop
    have hsub : rest.Sublist s.router.viewControllers := hstack ▸ List.sublist_cons_self c rest
    have hnew : c ∉ rest := (List.nodup_cons.1 (hstack ▸ hs.nodup)).1
    obtain ⟨hvalid, hkeeps⟩ := hs.shrink hsub
    obtain ⟨hvisited, hiff⟩ := hvalid.visit [c]
    refine ⟨hvisited, hiff.trans ⟨?_, ?_⟩⟩
    · rintro ⟨-, hdue⟩ d r h
      rw [hpop] at h
      cases h
      intro hstale
      obtain ⟨f, -, -, hentry⟩ := id hstale
      refine (hdue c ?_).2 hstale
      simp [RouterImp.due, hentry]
    · intro hfresh
      refine ⟨hkeeps hsafe, fun d hd => ?_⟩
      have hdc : d = c := List.mem_singleton.1 (RouterImp.mem_of_due hd)
      rw [hdc]
      exact ⟨hnew, hfresh c _ hpop⟩

theorem Valid.popToRootModule {s t : ActiveRouter} (hs : s.Valid) (hsafe : s.Safe)
    {listed : List UIViewController → List UIViewController} (hlisted : ∀ l, (listed l).Perm l)
    (ht : (machine listed).step s .popToRootModule = some t) :
    t.Valid ∧ (t.Safe ↔ Orderly listed s .popToRootModule) := by
  have hpop := RouterImp.popToRootViewController_eq listed (RouterImp.rootController_eq hs.alive)
  cases ht
  simp only [Orderly, hpop]
  have hsplit : s.router.viewControllers.dropLast ++ s.router.viewControllers.getLast?.toList =
      s.router.viewControllers := by
    cases s.router.viewControllers using List.reverseRecOn with
    | nil => rfl
    | append_singleton l c => simp
  have hnodup := hs.nodup
  rw [← hsplit] at hnodup
  have hsub : s.router.viewControllers.getLast?.toList.Sublist s.router.viewControllers := by
    conv_rhs => rw [← hsplit]
    exact List.sublist_append_right _ _
  obtain ⟨hvalid, hkeeps⟩ := hs.shrink hsub
  obtain ⟨hvisited, hiff⟩ := hvalid.visit (listed s.router.viewControllers.dropLast)
  refine ⟨hvisited, hiff.trans ⟨fun h c hc => (h.2 c hc).2, fun h => ?_⟩⟩
  refine ⟨hkeeps hsafe, fun c hc => ?_⟩
  have hmem : c ∈ s.router.viewControllers.dropLast :=
    (hlisted _).mem_iff.1 (RouterImp.mem_of_due hc)
  exact ⟨List.disjoint_of_nodup_append hnodup hmem, h c hc⟩

/-- The innermost completion returns, and its entry is removed. -/
theorem Valid.returned {s : ActiveRouter} (hs : s.Valid) {f : Frame} {fs : List Frame}
    (hframes : s.frames = f :: fs) :
    ({ s with router := s.router.removeValue f.controller, frames := fs } :
      ActiveRouter).Valid := by
  refine ⟨hs.alive, hs.nodup, ?_, ?_, ?_, ?_, hs.ranIssued⟩
  · intro c k hk hmem
    obtain ⟨hne, hold⟩ := RouterImp.completions_removeValue_iff.1 hk
    obtain ⟨g, hg, hctrl, hcompl⟩ := hs.running c k hold hmem
    rw [hframes] at hg
    rcases List.mem_cons.1 hg with rfl | hg
    · exact absurd hctrl.symm hne
    · exact ⟨g, hg, hctrl, hcompl⟩
  · intro g hg
    refine hs.logged g ?_
    rw [hframes]
    exact List.mem_cons_of_mem _ hg
  · intro c d k hc hd
    exact hs.apart c d k (RouterImp.completions_removeValue_iff.1 hc).2
      (RouterImp.completions_removeValue_iff.1 hd).2
  · exact fun c k hk => hs.keysIssued c k (RouterImp.completions_removeValue_iff.1 hk).2

/-- Its entry may be removed unless it is that of a later push. -/
theorem Safe.returned_iff {s : ActiveRouter} (hsafe : s.Safe) (f : Frame) (fs : List Frame) :
    ({ s with router := s.router.removeValue f.controller, frames := fs } : ActiveRouter).Safe ↔
      (f.controller ∈ s.router.viewControllers → s.registered f.controller = none) := by
  constructor
  · intro h hmem
    by_contra hsome
    obtain ⟨k, hk⟩ := Option.ne_none_iff_exists'.1 hsome
    have hentry := h.kept f.controller hmem k hk
    exact (RouterImp.completions_removeValue_iff.1 hentry).1 rfl
  · intro h
    refine ⟨hsafe.once, hsafe.offStack, fun c hc k hk => ?_⟩
    refine RouterImp.completions_removeValue_iff.2 ⟨?_, hsafe.kept c hc k hk⟩
    rintro rfl
    rw [h hc] at hk
    cases hk

theorem Valid.completionReturns {s t : ActiveRouter} (hs : s.Valid) (hsafe : s.Safe)
    {listed : List UIViewController → List UIViewController}
    (ht : (machine listed).step s .completionReturns = some t) :
    t.Valid ∧ (t.Safe ↔ Orderly listed s .completionReturns) := by
  simp only [machine] at ht
  split at ht
  · cases ht
  · rename_i f fs hframes
    cases ht
    -- what is due next is not the controller whose completion returned
    have hstale : ∀ c, (s.router.removeValue f.controller).due f.rest = some c →
        (Stale (s.router.removeValue f.controller) fs c ↔ Stale s.router fs c) := by
      intro c hc
      obtain ⟨k, hk⟩ := RouterImp.completions_of_due hc
      have hne := (RouterImp.completions_removeValue_iff.1 hk).1
      simp [Stale, RouterImp.completions_removeValue_iff, hne]
    obtain ⟨hvisited, hiff⟩ := (hs.returned hframes).visit f.rest
    refine ⟨hvisited, hiff.trans ⟨?_, ?_⟩⟩
    · rintro ⟨h, hdue⟩ g gs hg
      rw [hframes] at hg
      cases hg
      exact ⟨(hsafe.returned_iff f fs).1 h, fun c hc =>
        ⟨(hdue c hc).1, fun hold => (hdue c hc).2 ((hstale c hc).2 hold)⟩⟩
    · intro h
      obtain ⟨hback, hnext⟩ := h f fs hframes
      exact ⟨(hsafe.returned_iff f fs).2 hback, fun c hc =>
        ⟨(hnext c hc).1, fun hold => (hnext c hc).2 ((hstale c hc).1 hold)⟩⟩

/-- **One event.** -/
theorem Valid.step {listed : List UIViewController → List UIViewController}
    (hlisted : ∀ l, (listed l).Perm l) {s t : ActiveRouter} (hs : s.Valid) (hsafe : s.Safe)
    {e : ReentrantCall} (he : (machine listed).enabled s e)
    (ht : (machine listed).step s e = some t) : t.Valid ∧ (t.Safe ↔ Orderly listed s e) := by
  cases e with
  | push c registers =>
    obtain ⟨hvalid, hkeeps⟩ := hs.push he ht
    exact ⟨hvalid, iff_of_true (hkeeps hsafe) trivial⟩
  | popModule => exact hs.popModule hsafe ht
  | popToRootModule => exact hs.popToRootModule hsafe hlisted ht
  | completionReturns => exact hs.completionReturns hsafe ht

/-- **Re-entrant completions.**  Take a router on any stack without repetitions, and
any run in which completions may call the router back, nested to any depth; UIKit
may list the controllers that a pop to the root removes in any order.  After every
event no completion has been run twice, none was run for a controller on the stack,
and what the last push of a controller on the stack registered is registered —
precisely when every event of the run was orderly. -/
theorem safe_iff_eachStep {listed : List UIViewController → List UIViewController}
    (hlisted : ∀ l, (listed l).Perm l) {stack : List UIViewController} (hstack : stack.Nodup)
    {tr : Trace ActiveRouter ReentrantCall} (hr : (machine listed).Run (opened stack) tr) :
    (∀ p ∈ tr, p.2.Safe) ↔ Machine.EachStep (Orderly listed) (opened stack) tr :=
  hr.forall_iff_eachStep (I := Valid)
    (fun hs hsafe he ht _ => (hs.step hlisted hsafe he ht).1)
    (fun hs hsafe he ht => (hs.step hlisted hsafe he ht).2) (valid_opened hstack)
    (safe_opened stack)

/-! ## Runs -/

/-- **Every part fails.**  A completion that pushes its controller again, with a new
completion, loses that one when it returns.  One that pushes its controller again
without, and pops it, is run twice.  One that pushes a controller which the pop to
the root has removed as well has its completion run on the stack. -/
theorem reentrant_completions_unsafe :
    let a : UIViewController := ⟨1, false⟩
    let b : UIViewController := ⟨2, false⟩
    (∃ tr, (machine id).Run (opened [⟨0, false⟩]) tr ∧
      tr.map Prod.fst = [.push a true, .popModule, .push a true, .completionReturns] ∧
      let t := Trace.last (opened [⟨0, false⟩]) tr
      t.frames = [] ∧ a ∈ t.router.viewControllers ∧ t.registered a = some 1 ∧
        t.router.completions a = none ∧ ¬ t.Safe) ∧
    (∃ tr, (machine id).Run (opened [⟨0, false⟩]) tr ∧
      tr.map Prod.fst = [.push a true, .popModule, .push a false, .popModule] ∧
      (Trace.last (opened [⟨0, false⟩]) tr).executed = [0, 0]) ∧
    ∃ tr, (machine id).Run (opened [⟨0, false⟩]) tr ∧
      tr.map Prod.fst = [.push a true, .push b true, .popToRootModule, .push a false,
        .completionReturns] ∧
      (Trace.last (opened [⟨0, false⟩]) tr).ran = [⟨1, b, false⟩, ⟨0, a, true⟩] := by
  intro a b
  refine ⟨⟨[(.push a true, _), (.popModule, _), (.push a true, _), (.completionReturns, _)],
      .cons rfl rfl (.cons trivial rfl (.cons rfl rfl (.cons trivial rfl (.nil _)))), rfl, rfl,
      List.mem_cons_self, rfl, rfl, fun h => ?_⟩,
    ⟨[(.push a true, _), (.popModule, _), (.push a false, _), (.popModule, _)],
      .cons rfl rfl (.cons trivial rfl (.cons rfl rfl (.cons trivial rfl (.nil _)))), rfl, rfl⟩,
    ⟨[(.push a true, _), (.push b true, _), (.popToRootModule, _), (.push a false, _),
        (.completionReturns, _)],
      .cons rfl rfl (.cons rfl rfl (.cons trivial rfl (.cons rfl rfl (.cons trivial rfl
        (.nil _))))), rfl, rfl⟩⟩
  exact nomatch h.kept a List.mem_cons_self 1 rfl

/-- A completion that pushes its controller again, without a new completion. -/
theorem safe_pushed_again :
    ∃ tr, (machine id).Run (opened [⟨0, false⟩]) tr ∧
      tr.map Prod.fst = [.push ⟨1, false⟩ true, .popModule, .push ⟨1, false⟩ false,
        .completionReturns] ∧ ∀ p ∈ tr, p.2.Safe := by
  have hr : (machine id).Run (opened [⟨0, false⟩])
      [(.push ⟨1, false⟩ true, _), (.popModule, _), (.push ⟨1, false⟩ false, _),
        (.completionReturns, _)] :=
    .cons rfl rfl (.cons trivial rfl (.cons rfl rfl (.cons trivial rfl (.nil _))))
  refine ⟨_, hr, rfl, (safe_iff_eachStep List.Perm.refl (List.nodup_singleton _) hr).2 ?_⟩
  refine ⟨trivial, fun c r _ => ?_, trivial, fun f fs h => ?_, trivial⟩
  · rintro ⟨f, hf, -⟩
    exact nomatch hf
  · cases h
    exact ⟨fun _ => rfl, fun c h => nomatch h⟩

end ActiveRouter

end Alarma
