import Alarma.Library.Machine
import Alarma.Parents.BaseCoordinator

/-!
# The application coordinator

`ApplicationCoordinator.start(with:)` runs the flow that three global flags ask
for, and the closure a flow calls when it is finished raises the flag of that
flow, starts again, and lets go of the finished coordinator.  The platform calls
`start(with:)` at launch and on every remote notification.

* `ApplicationCoordinator.machine` — the machine whose events are these calls;
  `Effect` says what an event does, `effect_of_step` that it does nothing else
  and `machine_step_isSome` that it always does it.
* `launch_gating` — the flags are raised in order and never lowered, every event
  starts the flow `configure` names, and that flow's flag is not raised yet.
* `owns_flow_on_screen_iff` — the coordinator owns exactly the flow on screen
  after every event, as long as it is started no more than once: nothing lets go
  of the flow that a second start replaces.
-/

namespace Alarma

/-! ## Flags and flows -/

/-- The global flags, in the order they are meant to be raised. -/
structure Flags where
  /-- The user has signed in. -/
  isAuthorized : Bool := false
  /-- The user has seen the tutorial. -/
  onboardingWasShown : Bool := false
  /-- The user has been asked about notifications. -/
  notificationsAllowed : Bool := false
  deriving DecidableEq, Repr

/-- The flows the application can be in. -/
inductive LaunchInstructor where
  | main | auth | onboarding | notificationsInfo
  deriving DecidableEq, Repr

namespace LaunchInstructor

/-- The flow the flags ask for. -/
def configure (flags : Flags) : LaunchInstructor :=
  match flags.onboardingWasShown, flags.isAuthorized, flags.notificationsAllowed with
  | _, false, _ => .auth
  | false, true, false => .onboarding
  | false, true, true => .onboarding
  | true, true, false => .notificationsInfo
  | true, true, true => .main

/-- The flag that says a flow is over; the main flow has none. -/
def flag (flags : Flags) : LaunchInstructor → Bool
  | main => false
  | auth => flags.isAuthorized
  | onboarding => flags.onboardingWasShown
  | notificationsInfo => flags.notificationsAllowed

/-- What the `finishFlow` closure of a flow does to the flags. -/
def raise (flags : Flags) : LaunchInstructor → Flags
  | main => flags
  | auth => { flags with isAuthorized := true }
  | onboarding => { flags with onboardingWasShown := true }
  | notificationsInfo => { flags with notificationsAllowed := true }

/-- The flags that were raised before a flow was started. -/
def Preceded (flags : Flags) : LaunchInstructor → Prop
  | auth => True
  | onboarding => flags.isAuthorized = true
  | notificationsInfo => flags.isAuthorized = true ∧ flags.onboardingWasShown = true
  | main => flags.isAuthorized = true ∧ flags.onboardingWasShown = true ∧
      flags.notificationsAllowed = true

/-- The flow that is started is not over, and the flows before it are. -/
theorem configure_spec (flags : Flags) :
    (configure flags).flag flags = false ∧ (configure flags).Preceded flags := by
  obtain ⟨isAuthorized, onboardingWasShown, notificationsAllowed⟩ := flags
  cases isAuthorized <;> cases onboardingWasShown <;> cases notificationsAllowed <;>
    simp [configure, flag, Preceded]

end LaunchInstructor

namespace Flags

/-- A flag is only raised after the one before it. -/
def Ordered (flags : Flags) : Prop :=
  (flags.notificationsAllowed = true → flags.onboardingWasShown = true) ∧
    (flags.onboardingWasShown = true → flags.isAuthorized = true)

/-- Every flag that is up stays up. -/
def Le (flags flags' : Flags) : Prop :=
  (flags.isAuthorized = true → flags'.isAuthorized = true) ∧
    (flags.onboardingWasShown = true → flags'.onboardingWasShown = true) ∧
      (flags.notificationsAllowed = true → flags'.notificationsAllowed = true)

theorem Le.refl (flags : Flags) : flags.Le flags := ⟨id, id, id⟩

theorem le_raise (flags : Flags) (flow : LaunchInstructor) : flags.Le (flow.raise flags) := by
  cases flow <;> simp [Le, LaunchInstructor.raise]

/-- What preceded a flow still does when more flags are up. -/
theorem Le.preceded {flags flags' : Flags} (h : flags.Le flags') {flow : LaunchInstructor}
    (hp : flow.Preceded flags) : flow.Preceded flags' := by
  obtain ⟨ha, ho, hn⟩ := h
  cases flow with
  | auth => trivial
  | onboarding => exact ha hp
  | notificationsInfo => exact ⟨ha hp.1, ho hp.2⟩
  | main => exact ⟨ha hp.1, ho hp.2.1, hn hp.2.2⟩

/-- Raising the flag of a flow in its turn keeps the order. -/
theorem Ordered.raise {flags : Flags} (h : flags.Ordered) {flow : LaunchInstructor}
    (hp : flow.Preceded flags) : (flow.raise flags).Ordered := by
  obtain ⟨hn, ho⟩ := h
  cases flow with
  | main => exact ⟨hn, ho⟩
  | auth => exact ⟨hn, fun _ => rfl⟩
  | onboarding => exact ⟨fun _ => rfl, fun _ => hp⟩
  | notificationsInfo => exact ⟨fun _ => hp.2, ho⟩

end Flags

/-! ## The coordinator -/

/-- The link a notification may carry; `start(with:)` does not look at it. -/
inductive DeepLinkOption where
  | onboarding | groups | settings | login | terms | signUp
  | group (groupID : Option String)
  deriving DecidableEq, Repr

/-- The application coordinator, number `0` of the coordinators, with what it
works on. -/
structure ApplicationCoordinator where
  flags : Flags
  coordinators : Coordinators
  /-- The flows of the coordinators numbered from `1`, in the order they were
  started. -/
  flows : List LaunchInstructor
  /-- The coordinator whose view was last set as the root module of the router. -/
  rootModule : Option ℕ

namespace ApplicationCoordinator

/-- Its `childCoordinators`. -/
def childCoordinators (a : ApplicationCoordinator) : List ℕ := a.coordinators.childCoordinators 0

/-- The flow a coordinator runs. -/
def flow (a : ApplicationCoordinator) : ℕ → Option LaunchInstructor
  | 0 => none
  | c + 1 => a.flows[c]?

/-- Before the launch. -/
def initial : ApplicationCoordinator := ⟨{}, Coordinators.root, [], none⟩

/-- The body of the `run…Flow` methods: make a coordinator, add it, and set the
root module to its view. -/
def runFlow (flow : LaunchInstructor) (a : ApplicationCoordinator) : ApplicationCoordinator where
  flags := a.flags
  coordinators := a.coordinators.create.addDependency 0 a.coordinators.count
  flows := a.flows ++ [flow]
  rootModule := some a.coordinators.count

/-- `runAuthFlow`: the view is set by `AuthCoordinator.start`. -/
def runAuthFlow : ApplicationCoordinator → ApplicationCoordinator := runFlow .auth

/-- `runOnboardingFlow`: the view is set by `OnboardingCoordinator.start`. -/
def runOnboardingFlow : ApplicationCoordinator → ApplicationCoordinator := runFlow .onboarding

/-- `runNotificationsInfoFlow`: the view is set by
`NotificationsInfoCoordinator.start`. -/
def runNotificationsInfoFlow : ApplicationCoordinator → ApplicationCoordinator :=
  runFlow .notificationsInfo

/-- `runMainFlow`: the view is set before the tab bar coordinator starts. -/
def runMainFlow : ApplicationCoordinator → ApplicationCoordinator := runFlow .main

/-- `start(with:)`. -/
def start (_option : Option DeepLinkOption) (a : ApplicationCoordinator) : ApplicationCoordinator :=
  match LaunchInstructor.configure a.flags with
  | .onboarding => a.runOnboardingFlow
  | .auth => a.runAuthFlow
  | .main => a.runMainFlow
  | .notificationsInfo => a.runNotificationsInfoFlow

/-- The `finishFlow` closure of the coordinator `c`, which runs `flow`: raise the
flag, start again, remove the dependency. -/
def finishFlow (c : ℕ) (flow : LaunchInstructor) (a : ApplicationCoordinator) :
    Option ApplicationCoordinator := do
  let a := start none { a with flags := flow.raise a.flags }
  let coordinators ← a.coordinators.removeDependency a.coordinators.count 0 (some c)
  return { a with coordinators := coordinators }

/-- What the platform and the screens call. -/
inductive Event where
  /-- `start(with:)`, at launch and on a remote notification. -/
  | start (option : Option DeepLinkOption)
  | finishFlow (coordinator : ℕ)
  deriving DecidableEq, Repr

/-- The machine.  A coordinator can call its `finishFlow` while it is retained,
whether or not it is the one on screen; the tab bar coordinator has none. -/
def machine : Machine ApplicationCoordinator Event where
  enabled := fun a e =>
    match e with
    | .start _ => True
    | .finishFlow c => c ∈ a.childCoordinators ∧ a.flow c ≠ some .main
  step := fun a e =>
    match e with
    | .start option => some (a.start option)
    | .finishFlow c => (a.flow c).bind fun flow => a.finishFlow c flow

/-! ## What an event does -/

theorem start_eq (option : Option DeepLinkOption) (a : ApplicationCoordinator) :
    a.start option = a.runFlow (LaunchInstructor.configure a.flags) := by
  unfold start
  cases LaunchInstructor.configure a.flags <;> rfl

/-- The coordinators are numbered, and those the application coordinator retains
were started after the flags before their flow were raised. -/
structure Valid (a : ApplicationCoordinator) : Prop where
  /-- Numbers go by the order of creation. -/
  count : a.coordinators.count = a.flows.length + 1
  /-- The started coordinators have no children of their own. -/
  leaf : ∀ c ≠ 0, a.coordinators.childCoordinators c = []
  nodup : a.childCoordinators.Nodup
  /-- Retained coordinators have been started, in their turn. -/
  preceded : ∀ c ∈ a.childCoordinators, ∃ flow, a.flow c = some flow ∧ flow.Preceded a.flags
  ordered : a.flags.Ordered

/-- A retained coordinator has a number below `count`. -/
theorem Valid.lt_count {a : ApplicationCoordinator} (ha : a.Valid) {c : ℕ}
    (hc : c ∈ a.childCoordinators) : 0 < c ∧ c < a.coordinators.count := by
  obtain ⟨flow, hflow, -⟩ := ha.preceded c hc
  cases c with
  | zero => exact absurd hflow (by simp [ApplicationCoordinator.flow])
  | succ c =>
    have hlt : c < a.flows.length := (List.getElem?_eq_some_iff.1 hflow).1
    have hcount := ha.count
    omega

theorem valid_initial : initial.Valid := by
  refine ⟨rfl, fun _ _ => rfl, List.nodup_nil, ?_, ?_⟩
  · intro c hc
    exact absurd hc (by simp [initial, childCoordinators, Coordinators.root])
  · exact ⟨fun h => absurd h (by decide), fun h => absurd h (by decide)⟩

/-- `t` is `s` after one more flow was started under the given flags, with the
given coordinators retained. -/
structure Launches (s t : ApplicationCoordinator) (flags : Flags) (children : List ℕ) : Prop where
  flags_eq : t.flags = flags
  flows : t.flows = s.flows ++ [LaunchInstructor.configure flags]
  /-- Its coordinator has the next number, and the screen. -/
  rootModule : t.rootModule = some s.coordinators.count
  count : t.coordinators.count = s.coordinators.count + 1
  leaf : ∀ c ≠ 0, c ≠ s.coordinators.count →
    t.coordinators.childCoordinators c = s.coordinators.childCoordinators c
  new : t.coordinators.childCoordinators s.coordinators.count = []
  children_eq : t.childCoordinators = children

/-- Everything an event can do. -/
inductive Effect (s t : ApplicationCoordinator) : Event → Prop
  | started (option : Option DeepLinkOption) :
      Launches s t s.flags (s.childCoordinators ++ [s.coordinators.count]) →
      Effect s t (.start option)
  | finished {c : ℕ} {flow : LaunchInstructor} : s.flow c = some flow →
      Launches s t (flow.raise s.flags)
        ((s.childCoordinators ++ [s.coordinators.count]).erase c) →
      Effect s t (.finishFlow c)

theorem launches_runFlow {a : ApplicationCoordinator} (ha : a.Valid) (flags : Flags) :
    Launches a ({ a with flags := flags }.runFlow (LaunchInstructor.configure flags)) flags
      (a.childCoordinators ++ [a.coordinators.count]) := by
  have hzero : 0 ≠ a.coordinators.count := by
    have hcount := ha.count
    omega
  have hlist : a.coordinators.create.childCoordinators 0 = a.childCoordinators :=
    a.coordinators.childCoordinators_create_of_ne hzero
  have hnew : a.coordinators.count ∉ a.coordinators.create.childCoordinators 0 := by
    rw [hlist]
    intro hmem
    have hlt := (ha.lt_count hmem).2
    omega
  have hadd := Coordinators.addDependency_of_notMem hnew
  refine ⟨rfl, rfl, rfl, ?_, ?_, ?_, ?_⟩
  · show (a.coordinators.create.addDependency 0 a.coordinators.count).count = _
    rw [hadd]
    rfl
  · intro c hc hne
    show (a.coordinators.create.addDependency 0 a.coordinators.count).childCoordinators c = _
    rw [hadd, Coordinators.childCoordinators_setChildren_of_ne _ _ hc]
    exact a.coordinators.childCoordinators_create_of_ne hne
  · show (a.coordinators.create.addDependency 0 a.coordinators.count).childCoordinators _ = _
    rw [hadd, Coordinators.childCoordinators_setChildren_of_ne _ _ (Ne.symm hzero)]
    exact a.coordinators.childCoordinators_create_new
  · show (a.coordinators.create.addDependency 0 a.coordinators.count).childCoordinators 0 = _
    rw [hadd, Coordinators.childCoordinators_setChildren_self, hlist]

/-- Finishing a retained flow launches the next one and lets go of it. -/
theorem finishFlow_eq {a : ApplicationCoordinator} (ha : a.Valid) {c : ℕ}
    (hc : c ∈ a.childCoordinators) (flow : LaunchInstructor) :
    ∃ t, a.finishFlow c flow = some t ∧ Launches a t (flow.raise a.flags)
      ((a.childCoordinators ++ [a.coordinators.count]).erase c) := by
  obtain ⟨hpos, hlt⟩ := ha.lt_count hc
  have hl := launches_runFlow ha (flow.raise a.flags)
  generalize hs : { a with flags := flow.raise a.flags }.runFlow
    (LaunchInstructor.configure (flow.raise a.flags)) = s at hl
  have hstart : start none { a with flags := flow.raise a.flags } = s := by rw [start_eq, ← hs]
  have hcount : s.coordinators.count = a.coordinators.count + 1 := hl.count
  have hleaf : s.coordinators.childCoordinators c = [] := by
    rw [hl.leaf c (by omega) (by omega)]
    exact ha.leaf c (by omega)
  have hremove := Coordinators.removeDependency_leaf hleaf a.coordinators.count 0
  generalize hh : s.coordinators.setChildren 0 ((s.coordinators.childCoordinators 0).erase c) = h
    at hremove
  refine ⟨{ s with coordinators := h }, ?_, ?_⟩
  · rw [finishFlow, hstart, hcount, hremove]
    rfl
  · subst hh
    refine ⟨hl.flags_eq, hl.flows, hl.rootModule, hl.count, ?_, ?_, ?_⟩
    · intro d hd hne
      rw [← hl.leaf d hd hne]
      exact Coordinators.childCoordinators_setChildren_of_ne _ _ hd
    · rw [← hl.new]
      exact Coordinators.childCoordinators_setChildren_of_ne _ _ (by omega)
    · rw [← hl.children_eq]
      exact Coordinators.childCoordinators_setChildren_self _ _ _

/-- **An event does nothing else.** -/
theorem effect_of_step {s t : ApplicationCoordinator} {e : Event} (hs : s.Valid)
    (he : machine.enabled s e) (ht : machine.step s e = some t) : Effect s t e := by
  cases e with
  | start option =>
    have hstart : s.runFlow (LaunchInstructor.configure s.flags) = t := by
      rw [← start_eq option]
      exact Option.some.inj ht
    rw [← hstart]
    exact .started option (launches_runFlow hs s.flags)
  | finishFlow c =>
    obtain ⟨flow, hflow, -⟩ := hs.preceded c he.1
    obtain ⟨t', ht', hl⟩ := finishFlow_eq hs he.1 flow
    have hstep : s.finishFlow c flow = some t := by
      have hbind : (s.flow c).bind (fun flow => s.finishFlow c flow) = some t := ht
      rwa [hflow] at hbind
    rw [ht'] at hstep
    cases hstep
    exact .finished hflow hl

/-- No event traps, and none runs out of fuel. -/
theorem machine_step_isSome {s : ApplicationCoordinator} {e : Event} (hs : s.Valid)
    (he : machine.enabled s e) : (machine.step s e).isSome := by
  cases e with
  | start option => rfl
  | finishFlow c =>
    obtain ⟨flow, hflow, -⟩ := hs.preceded c he.1
    obtain ⟨t, ht, -⟩ := finishFlow_eq hs he.1 flow
    show ((s.flow c).bind fun flow => s.finishFlow c flow).isSome
    rw [hflow, Option.bind_some, ht]
    rfl

/-! ## The invariant -/

/-- Launching one more flow keeps the invariant. -/
theorem Launches.valid {s t : ApplicationCoordinator} {flags : Flags} {children : List ℕ}
    (h : Launches s t flags children) (hs : s.Valid) (hle : s.flags.Le flags)
    (hordered : flags.Ordered)
    (hsub : children.Sublist (s.childCoordinators ++ [s.coordinators.count])) : t.Valid := by
  have hcount := hs.count
  have hnodup : (s.childCoordinators ++ [s.coordinators.count]).Nodup := by
    refine List.nodup_append.2 ⟨hs.nodup, List.nodup_singleton _, ?_⟩
    intro c hc d hd
    rw [List.mem_singleton] at hd
    have hlt := (hs.lt_count hc).2
    omega
  refine ⟨?_, ?_, ?_, ?_, ?_⟩
  · rw [h.count, h.flows, hcount, List.length_append, List.length_singleton]
  · intro c hc
    by_cases hne : c = s.coordinators.count
    · rw [hne]
      exact h.new
    · rw [h.leaf c hc hne]
      exact hs.leaf c hc
  · rw [h.children_eq]
    exact hnodup.sublist hsub
  · intro c hc
    rw [h.children_eq] at hc
    rw [h.flags_eq]
    rcases List.mem_append.1 (hsub.subset hc) with hold | hnew
    · obtain ⟨flow, hflow, hp⟩ := hs.preceded c hold
      refine ⟨flow, ?_, hle.preceded hp⟩
      cases c with
      | zero => exact hflow
      | succ c =>
        have hlt : c < s.flows.length := (List.getElem?_eq_some_iff.1 hflow).1
        show t.flows[c]? = some flow
        rw [h.flows, List.getElem?_append_left hlt]
        exact hflow
    · rw [List.mem_singleton] at hnew
      refine ⟨_, ?_, (LaunchInstructor.configure_spec flags).2⟩
      rw [hnew, hcount]
      show t.flows[s.flows.length]? = _
      rw [h.flows, List.getElem?_concat_length]
  · rw [h.flags_eq]
    exact hordered

/-- What an event launches it launches under flags that were raised in turn. -/
theorem Effect.flags {s t : ApplicationCoordinator} {e : Event} (hs : s.Valid)
    (he : machine.enabled s e) (h : Effect s t e) : s.flags.Le t.flags ∧ t.flags.Ordered := by
  cases h with
  | started option hl =>
    rw [hl.flags_eq]
    exact ⟨Flags.Le.refl _, hs.ordered⟩
  | @finished c flow hflow hl =>
    obtain ⟨flow', hflow', hp⟩ := hs.preceded c he.1
    rw [hflow] at hflow'
    cases hflow'
    rw [hl.flags_eq]
    exact ⟨s.flags.le_raise flow, hs.ordered.raise hp⟩

theorem Valid.step {s t : ApplicationCoordinator} {e : Event} (hs : s.Valid)
    (he : machine.enabled s e) (ht : machine.step s e = some t) : t.Valid := by
  have heffect := effect_of_step hs he ht
  obtain ⟨hle, hordered⟩ := heffect.flags hs he
  cases heffect with
  | started option hl =>
    rw [hl.flags_eq] at hle hordered
    exact hl.valid hs hle hordered (List.Sublist.refl _)
  | finished hflow hl =>
    rw [hl.flags_eq] at hle hordered
    exact hl.valid hs hle hordered List.erase_sublist

theorem valid_of_reachable {s : ApplicationCoordinator} (h : machine.Reachable initial s) :
    s.Valid :=
  h.invariant (fun hs he ht => hs.step he ht) valid_initial

/-! ## Launch gating -/

/-- **Launch gating.**  Whatever event arrives after any run: the flags stay in
order and none is lowered; exactly one flow is started, and it is the one
`configure` names for the flags as they are then; it is not over yet, and if it
is the main flow all flags are up. -/
theorem launch_gating {s t : ApplicationCoordinator} {e : Event}
    (h : machine.Reachable initial s) (he : machine.enabled s e)
    (ht : machine.step s e = some t) :
    (t.flags.Ordered ∧ s.flags.Le t.flags) ∧
      ∃ flow, t.flows = s.flows ++ [flow] ∧ flow = LaunchInstructor.configure t.flags ∧
        flow.flag t.flags = false ∧
        (flow = .main → t.flags = ⟨true, true, true⟩) := by
  have hs := valid_of_reachable h
  have heffect := effect_of_step hs he ht
  obtain ⟨hle, hordered⟩ := heffect.flags hs he
  obtain ⟨hflag, hpreceded⟩ := LaunchInstructor.configure_spec t.flags
  have hflows : t.flows = s.flows ++ [LaunchInstructor.configure t.flags] := by
    cases heffect with
    | started option hl => rw [hl.flags_eq, hl.flows]
    | finished hflow hl => rw [hl.flags_eq, hl.flows]
  refine ⟨⟨hordered, hle⟩, _, hflows, rfl, hflag, fun hmain => ?_⟩
  rw [hmain] at hpreceded
  rcases hflags : t.flags with ⟨isAuthorized, onboardingWasShown, notificationsAllowed⟩
  rw [hflags] at hpreceded
  obtain ⟨rfl, rfl, rfl⟩ := hpreceded
  rfl

/-- A first launch, and then the end of the sign-in flow it started. -/
theorem launch_gating_sample :
    ∃ s t, machine.step initial (.start none) = some s ∧
      machine.step s (.finishFlow 1) = some t ∧ s.flags.Le t.flags := by
  have hfirst : machine.Reachable initial (initial.start none) :=
    (Machine.Reachable.refl _ _).step (e := .start none) trivial rfl
  have henabled : machine.enabled (initial.start none) (.finishFlow 1) := by
    constructor
    · exact List.mem_cons_self
    · exact fun h => absurd h (by decide)
  obtain ⟨t, ht⟩ := Option.isSome_iff_exists.1
    (machine_step_isSome (valid_of_reachable hfirst) henabled)
  exact ⟨_, t, rfl, ht, (launch_gating hfirst henabled ht).1.2⟩

/-! ## What the coordinator owns -/

/-- The one retained coordinator is the one on screen. -/
def Owns (a : ApplicationCoordinator) : Prop :=
  ∃ c, a.rootModule = some c ∧ a.childCoordinators = [c]

/-- As long as the coordinator owns the flow on screen, the end of that flow
keeps it so, and a start does not. -/
theorem owns_step_iff {s t : ApplicationCoordinator} {e : Event} (hs : s.Valid) (ho : s.Owns)
    (he : machine.enabled s e) (ht : machine.step s e = some t) :
    t.Owns ↔ ¬ ∃ option, e = .start option := by
  obtain ⟨c, -, hchildren⟩ := ho
  cases effect_of_step hs he ht with
  | started option hl =>
    refine iff_of_false ?_ (not_not_intro ⟨option, rfl⟩)
    rintro ⟨d, -, hd⟩
    rw [hl.children_eq, hchildren] at hd
    exact absurd (congrArg List.length hd) (by simp)
  | @finished d flow hflow hl =>
    refine iff_of_true ⟨s.coordinators.count, hl.rootModule, ?_⟩ (by simp)
    have hmem := he.1
    rw [hchildren, List.mem_singleton] at hmem
    rw [hl.children_eq, hchildren, hmem]
    simp

/-- The launch itself. -/
theorem owns_launch {t : ApplicationCoordinator} {e : Event} (he : machine.enabled initial e)
    (ht : machine.step initial e = some t) : t.Owns := by
  cases effect_of_step valid_initial he ht with
  | started option hl => exact ⟨_, hl.rootModule, hl.children_eq⟩
  | finished hflow hl => exact absurd he.1 (List.not_mem_nil)

/-- **When the coordinator owns the flow on screen**: after every event of a run
the list holds exactly the coordinator whose view was set last, if and only if
the run has no start but its first event. -/
theorem owns_flow_on_screen_iff {tr : Trace ApplicationCoordinator Event}
    (hr : machine.Run initial tr) :
    (∀ p ∈ tr, p.2.Owns) ↔ ∀ p ∈ tr.tail, ¬ ∃ option, p.1 = .start option := by
  cases hr with
  | nil => simp
  | @cons _ t e tr he ht hr =>
    have hvalid := valid_initial.step he ht
    have howns := owns_launch he ht
    rw [List.forall_mem_cons, and_iff_right howns, List.tail_cons]
    rw [hr.forall_iff_eachStep (I := Valid) (C := fun _ e => ¬ ∃ option, e = .start option)
      (fun hs _ he ht _ => hs.step he ht) owns_step_iff hvalid howns]
    exact Machine.eachStep_event_iff

/-- A notification that arrives while the sign-in flow is on screen starts
another one, and both coordinators are retained. -/
theorem owns_two_flows :
    ∃ s t, machine.Run initial [(.start none, s), (.start (some .groups), t)] ∧
      t.childCoordinators = [1, 2] ∧ t.rootModule = some 2 ∧ ¬ t.Owns := by
  refine ⟨_, _, .cons trivial rfl (.cons trivial rfl (.nil _)), rfl, rfl, ?_⟩
  rintro ⟨c, -, hc⟩
  have hlength : 2 = 1 := congrArg List.length hc
  omega

/-- One launch. -/
theorem owns_flow_on_screen_iff_sample :
    ∃ t, machine.Run initial [(.start none, t)] ∧ ∀ p ∈ [(Event.start none, t)], p.2.Owns := by
  have hr : machine.Run initial [(.start none, initial.start none)] :=
    .cons trivial rfl (.nil _)
  exact ⟨_, hr, (owns_flow_on_screen_iff hr).2 (by simp)⟩

end ApplicationCoordinator

end Alarma
