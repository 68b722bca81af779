import Alarma.Application.LaunchFlows

/-!
# Runs of the launch flows

The launch flows over whole runs that begin before the launch, in whatever order the
notifications, the buttons and the completions of the settings app arrive.

* `refines_coordinator` — the coordinator does what the application coordinator alone
  can do, with the same links in the same order; `retains_one_per_start` counts what it
  retains.
* `screen_follows_flags` — what is on screen belongs to one retained coordinator, of the
  flow that the flags ask for, and no event traps.
* `launched_once_in_turn` — after one start the flows are run once each, in order, and
  the tab bar stays.
* `settings_completion` — what a late completion of the settings app does.
* `buttons_reach_tabbar` — no state is a dead end.
-/

namespace Alarma

namespace LaunchInstructor

/-- The flows up to a flow, in their order. -/
def upTo : LaunchInstructor → List LaunchInstructor
  | auth => [.auth]
  | onboarding => [.auth, .onboarding]
  | notificationsInfo => [.auth, .onboarding, .notificationsInfo]
  | main => [.auth, .onboarding, .notificationsInfo, .main]

/-- How many flows have to finish before the main flow. -/
def remaining : LaunchInstructor → ℕ
  | auth => 3
  | onboarding => 2
  | notificationsInfo => 1
  | main => 0

/-- The flow that the flags ask for finishes: the next one is a later one. -/
theorem remaining_raise_lt {flags : Flags} (hmain : configure flags ≠ .main) :
    (configure ((configure flags).raise flags)).remaining < (configure flags).remaining := by
  obtain ⟨isAuthorized, onboardingWasShown, notificationsAllowed⟩ := flags
  cases isAuthorized <;> cases onboardingWasShown <;> cases notificationsAllowed <;>
    simp [configure, raise, remaining] at hmain ⊢

/-- When the flags are raised in order, it is the next one. -/
theorem upTo_raise {flags : Flags} (hordered : flags.Ordered) (hmain : configure flags ≠ .main) :
    (configure ((configure flags).raise flags)).upTo =
      (configure flags).upTo ++ [configure ((configure flags).raise flags)] := by
  obtain ⟨isAuthorized, onboardingWasShown, notificationsAllowed⟩ := flags
  cases isAuthorized <;> cases onboardingWasShown <;> cases notificationsAllowed <;>
    simp [Flags.Ordered, configure, raise, upTo] at hordered hmain ⊢

end LaunchInstructor

namespace ApplicationCoordinator

/-- The link of a start. -/
def Event.link : Event → Option (Option DeepLinkOption)
  | start option => some option
  | finishFlow _ => none

end ApplicationCoordinator

namespace LaunchFlows

/-- The link of a notification. -/
def Event.link : Event → Option (Option DeepLinkOption)
  | start dict => some (DeepLinkOption.build dict)
  | _ => none

/-! ## One step -/

/-- A flow is on screen. -/
def Launched (s : LaunchFlows) : Prop := ∃ place c, s.Shows place c

/-- Before the launch only the launch can happen. -/
theorem start_of_enabled_initial {e : Event} (he : machine.enabled initial e) :
    ∃ dict, e = .start dict := by
  cases e with
  | start dict => exact ⟨dict, rfl⟩
  | press button =>
    obtain ⟨k, controller, hvisible, -⟩ := he
    cases hvisible
  | back => exact absurd (show 1 < 0 from he) (by decide)
  | opened k => exact absurd he List.not_mem_nil

/-- **No event traps**, before the launch or after. -/
theorem step_effect {s : LaunchFlows} (hs : s = initial ∨ s.Launched) {e : Event}
    (he : machine.enabled s e) : ∃ t c, machine.step s e = some t ∧ Effect s c e t := by
  rcases hs with rfl | ⟨place, c, hs⟩
  · obtain ⟨dict, rfl⟩ := start_of_enabled_initial he
    obtain ⟨hcoordinator, hshows⟩ := wired_initial.start (DeepLinkOption.build dict)
    exact ⟨_, 0, rfl, .starts hcoordinator hshows⟩
  · obtain ⟨t, ht, heffect⟩ := hs.step he
    exact ⟨t, c, ht, heffect⟩

theorem effect_of_step {s t : LaunchFlows} (hs : s = initial ∨ s.Launched) {e : Event}
    (he : machine.enabled s e) (ht : machine.step s e = some t) : ∃ c, Effect s c e t := by
  obtain ⟨t', c, ht', heffect⟩ := step_effect hs he
  rw [ht] at ht'
  cases ht'
  exact ⟨c, heffect⟩

theorem launched_of_step {s t : LaunchFlows} (hs : s = initial ∨ s.Launched) {e : Event}
    (he : machine.enabled s e) (ht : machine.step s e = some t) : t.Launched := by
  obtain ⟨c, heffect⟩ := effect_of_step hs he ht
  exact heffect.shows

theorem launched_of_run {s : LaunchFlows} {tr : Trace LaunchFlows Event} (hr : machine.Run s tr)
    (hs : s = initial ∨ s.Launched) : Trace.last s tr = initial ∨ (Trace.last s tr).Launched :=
  hr.invariant (I := fun s => s = initial ∨ s.Launched)
    (fun hs he ht => Or.inr (launched_of_step hs he ht)) hs

/-- After the first event of a run a flow is on screen. -/
theorem launched {tr : Trace LaunchFlows Event} (hr : machine.Run initial tr) (hne : tr ≠ []) :
    (Trace.last initial tr).Launched := by
  cases hr with
  | nil => exact absurd rfl hne
  | cons he ht hr =>
    exact hr.invariant (I := Launched)
      (fun hs he ht => launched_of_step (Or.inr hs) he ht) (launched_of_step (Or.inl rfl) he ht)

/-! ## The application coordinator -/

/-- An event is an event of the application coordinator, with its link, or leaves the
application coordinator as it is. -/
theorem Effect.coordinator_step {s t : LaunchFlows} {c : ℕ} {e : Event} (h : Effect s c e t) :
    (e.link = none ∧ t.coordinator = s.coordinator) ∨
      ∃ e', ApplicationCoordinator.machine.enabled s.coordinator e' ∧
        ApplicationCoordinator.machine.step s.coordinator e' = some t.coordinator ∧
        e'.link = e.link := by
  have hlink : (∀ dict, e ≠ .start dict) → e.link = none := by
    intro hne
    cases e with
    | start dict => exact absurd rfl (hne dict)
    | _ => rfl
  cases h with
  | starts hcoordinator _ =>
    refine Or.inr ⟨.start _, trivial, ?_, rfl⟩
    rw [hcoordinator]
    rfl
  | @finishes _ _ o flow hne ho hflow hmain _ hfinish _ _ =>
    refine Or.inr ⟨.finishFlow o, ⟨ho, ?_⟩, ?_, (hlink hne).symm⟩
    · rw [hflow]
      simpa using hmain
    · simp only [ApplicationCoordinator.machine, hflow, Option.bind_some, hfinish]
  | moves hne _ hcoordinator _ => exact Or.inl ⟨hlink hne, hcoordinator⟩

/-- Every run is matched by a run of the application coordinator. -/
theorem coordinator_run {s : LaunchFlows} {tr : Trace LaunchFlows Event} (hr : machine.Run s tr)
    (hs : s = initial ∨ s.Launched) :
    ∃ tr', ApplicationCoordinator.machine.Run s.coordinator tr' ∧
      Trace.last s.coordinator tr' = (Trace.last s tr).coordinator ∧
      (tr'.filterMap fun p => p.1.link) = tr.filterMap fun p => p.1.link := by
  induction hr with
  | nil s => exact ⟨[], .nil _, rfl, rfl⟩
  | @cons s t e tr he ht _ ih =>
    obtain ⟨c, heffect⟩ := effect_of_step hs he ht
    obtain ⟨tr', hr', hlast, hlinks⟩ := ih (Or.inr heffect.shows)
    rcases heffect.coordinator_step with ⟨hlink, hsame⟩ | ⟨e', he', ht', hlink⟩
    · rw [hsame] at hr' hlast
      refine ⟨tr', hr', hlast, ?_⟩
      rw [hlinks, List.filterMap_cons, hlink]
    · refine ⟨(e', t.coordinator) :: tr', .cons he' ht' hr', hlast, ?_⟩
      rw [List.filterMap_cons, List.filterMap_cons, hlink, hlinks]

/-- **The launch flows refine the application coordinator.**  In every run, whatever the
buttons and the completions do between the notifications, the application coordinator
goes through a run of its own, started with the links of the notifications, in their
order. -/
theorem refines_coordinator {tr : Trace LaunchFlows Event} (hr : machine.Run initial tr) :
    ∃ tr', ApplicationCoordinator.machine.Run .initial tr' ∧
      Trace.last .initial tr' = (Trace.last initial tr).coordinator ∧
      (tr'.filterMap fun p => p.1.link) = tr.filterMap fun p => p.1.link :=
  coordinator_run hr (Or.inl rfl)

/-- A run of the application coordinator behind one start and a button. -/
theorem refines_coordinator_sample :
    ∃ tr tr', machine.Run initial tr ∧ tr.map Prod.fst = [.start none, .press .loginButtonTapped] ∧
      ApplicationCoordinator.machine.Run .initial tr' ∧
      (tr'.filterMap fun p => p.1.link) = [none] := by
  have hr : machine.Run initial [(.start none, _), (.press .loginButtonTapped, _)] :=
    .cons trivial rfl (.cons ⟨_, _, rfl, rfl⟩ rfl (.nil _))
  obtain ⟨tr', hr', -, hlinks⟩ := refines_coordinator hr
  exact ⟨_, tr', hr, rfl, hr', hlinks⟩

/-! ## What is on screen -/

/-- The numbers of the view controllers on the stack are those of views of one flow. -/
theorem Shows.of_mem {s : LaunchFlows} {place : LaunchPlace} {c : ℕ} (h : s.Shows place c)
    {v : UIViewController} (hv : v ∈ s.router.viewControllers) :
    ∃ screen, s.controllers[v.id]? = some ⟨screen, c⟩ ∧ screen.flow = place.top.flow := by
  have hmem := List.mem_map_of_mem (f := fun v : UIViewController => s.controllers[v.id]?) hv
  rw [h.stack] at hmem
  obtain ⟨screen, hscreen, hget⟩ := List.mem_map.1 hmem
  exact ⟨screen, hget.symm, LaunchPlace.flow_of_mem hscreen⟩

theorem Shows.length_viewControllers {s : LaunchFlows} {place : LaunchPlace} {c : ℕ}
    (h : s.Shows place c) : s.router.viewControllers.length = place.screens.length := by
  have hstack := congrArg List.length h.stack
  rwa [List.length_map, List.length_map] at hstack

/-- **The screen follows the flags.**  After every event of every run the coordinator
whose view was set last is retained and runs the flow that the flags ask for, every view
of the stack is a view of that flow and calls back that coordinator, one or two views
are on the stack, and no event that can arrive traps. -/
theorem screen_follows_flags {tr : Trace LaunchFlows Event} (hr : machine.Run initial tr)
    (hne : tr ≠ []) :
    (∃ c flow, (Trace.last initial tr).coordinator.rootModule = some c ∧
      (Trace.last initial tr).retained c ∧
      (Trace.last initial tr).coordinator.flow c = some flow ∧
      LaunchInstructor.configure (Trace.last initial tr).coordinator.flags = flow ∧
      ∀ v ∈ (Trace.last initial tr).router.viewControllers, ∃ screen : FlowScreen,
        (Trace.last initial tr).controllers[v.id]? = some ⟨screen, c⟩ ∧ screen.flow = flow) ∧
    (0 < (Trace.last initial tr).router.viewControllers.length ∧
      (Trace.last initial tr).router.viewControllers.length ≤ 2) ∧
    ∀ e, machine.enabled (Trace.last initial tr) e →
      (machine.step (Trace.last initial tr) e).isSome := by
  obtain ⟨place, c, hs⟩ := launched hr hne
  refine ⟨⟨c, place.top.flow, hs.rootModule, hs.owned, hs.flow, hs.configure,
    fun v hv => hs.of_mem hv⟩, ?_, fun e he => ?_⟩
  · rw [hs.length_viewControllers]
    cases place <;> decide
  · obtain ⟨t, ht, -⟩ := hs.step he
    rw [ht]
    rfl

/-- The sign-up view over the sign-in view. -/
theorem screen_follows_flags_sample :
    ∃ s, machine.Reachable initial s ∧ s.router.viewControllers.length = 2 ∧
      ∃ c flow, s.coordinator.rootModule = some c ∧ s.coordinator.flow c = some flow ∧
        LaunchInstructor.configure s.coordinator.flags = flow := by
  have hr : machine.Run initial [(.start none, _), (.press .signUpButtonTapped, _)] :=
    .cons trivial rfl (.cons ⟨_, _, rfl, rfl⟩ rfl (.nil _))
  obtain ⟨⟨c, flow, hroot, -, hflow, hconfigure, -⟩, -⟩ := screen_follows_flags hr (by simp)
  exact ⟨_, ⟨_, hr, rfl⟩, rfl, c, flow, hroot, hflow, hconfigure⟩

/-! ## One start -/

/-- The flows have been run in turn: the coordinator on screen is the only one that is
retained, and no flow was skipped or run twice. -/
structure InTurn (s : LaunchFlows) (place : LaunchPlace) (c : ℕ) : Prop extends
    Shows s place c where
  children : s.coordinator.childCoordinators = [c]
  flows : s.coordinator.flows = (LaunchInstructor.configure s.coordinator.flags).upTo

/-- The launch begins with the sign-in flow. -/
theorem inTurn_launch {s : LaunchFlows} {dict : Option (String → Option AnyObject)}
    (hs : machine.step initial (.start dict) = some s) : ∃ place c, s.InTurn place c := by
  obtain ⟨hcoordinator, hshows⟩ := wired_initial.start (DeepLinkOption.build dict)
  have hstart : initial.start (DeepLinkOption.build dict) = s := Option.some.inj hs
  rw [hstart] at hcoordinator hshows
  refine ⟨_, _, hshows, ?_, ?_⟩
  · rw [hcoordinator]
    rfl
  · rw [hcoordinator]
    rfl

/-- The only retained coordinator finishes, or nothing is started. -/
theorem InTurn.step {s t : LaunchFlows} {place : LaunchPlace} {c : ℕ} (hs : s.InTurn place c)
    {e : Event} (he : machine.enabled s e) (ht : machine.step s e = some t)
    (hone : e.link = none) : ∃ place c, t.InTurn place c := by
  obtain ⟨t', ht', heffect⟩ := hs.toShows.step he
  rw [ht] at ht'
  cases ht'
  cases heffect with
  | starts _ _ => cases hone
  | @finishes _ _ o flow _ ho hflow hmain _ _ hl hshows =>
    -- the coordinator that finishes is the one on screen
    have hoc : o = c := by
      rw [retained, hs.children] at ho
      exact List.mem_singleton.1 ho
    subst hoc
    rw [hs.toShows.flow] at hflow
    obtain rfl := Option.some.inj hflow
    rw [← hs.configure] at hmain
    refine ⟨_, _, hshows, ?_, ?_⟩
    · rw [hl.children_eq, hs.children]
      simp
    · rw [hl.flows, hl.flags_eq, hs.flows, ← hs.configure]
      exact (LaunchInstructor.upTo_raise hs.valid.ordered hmain).symm
  | moves _ hshows hcoordinator _ =>
    refine ⟨_, _, hshows, ?_, ?_⟩
    · rw [hcoordinator, hs.children]
    · rw [hcoordinator, hs.flows]

/-- On the tab bar only the settings app can still complete, to no effect. -/
theorem InTurn.tabbar_stays {s t : LaunchFlows} {place : LaunchPlace} {c : ℕ}
    (hs : s.InTurn place c) (hmain : place.top.flow = .main) {e : Event}
    (he : machine.enabled s e) (ht : machine.step s e = some t) (hone : e.link = none) :
    t.coordinator = s.coordinator ∧ t.router = s.router := by
  have htabbar : place = .tabbar := by cases place <;> first | rfl | cases hmain
  subst htabbar
  cases e with
  | start dict => cases hone
  | press button =>
    obtain ⟨k, controller, hvisible, hscreen⟩ := he
    obtain ⟨k', hvisible', -⟩ := hs.toShows.visible_eq
    rw [hvisible'] at hvisible
    cases hvisible
    cases button <;> cases hscreen
  | back =>
    have hlength : 1 < s.router.viewControllers.length := he
    rw [hs.toShows.length_viewControllers] at hlength
    exact absurd hlength (by decide)
  | opened k =>
    obtain ⟨t', o, ht', -, -, hflow, -, hgone⟩ := hs.toShows.opened he
    rw [ht] at ht'
    cases ht'
    have ho : ¬ s.retained o := by
      intro ho
      rw [retained, hs.children, List.mem_singleton] at ho
      rw [ho, hs.toShows.flow] at hflow
      cases hflow
    rw [hgone ho]
    exact ⟨rfl, rfl⟩

/-- **One launch runs every flow once, in turn.**  When no notification arrives after the
launch, then after every run the flows started so far are those up to the flow that the
flags ask for, each once and in order; the coordinator on screen is the only one that
is retained; and once that is the main flow no event changes the coordinators or the
screen, a completion of the settings app included. -/
theorem launched_once_in_turn {dict : Option (String → Option AnyObject)} {s : LaunchFlows}
    {tr : Trace LaunchFlows Event} (hr : machine.Run initial ((.start dict, s) :: tr))
    (hone : ∀ p ∈ tr, p.1.link = none) :
    (Trace.last s tr).coordinator.flows =
        (LaunchInstructor.configure (Trace.last s tr).coordinator.flags).upTo ∧
      (∃ c, (Trace.last s tr).coordinator.rootModule = some c ∧
        (Trace.last s tr).coordinator.childCoordinators = [c]) ∧
      (LaunchInstructor.configure (Trace.last s tr).coordinator.flags = .main →
        ∀ e t, machine.enabled (Trace.last s tr) e → e.link = none →
          machine.step (Trace.last s tr) e = some t →
          t.coordinator = (Trace.last s tr).coordinator ∧
            t.router = (Trace.last s tr).router) := by
  obtain ⟨-, ht, hr⟩ := Machine.run_cons_iff.1 hr
  have hrestrict : (machine.restrict fun _ e => e.link = none).Run s tr :=
    Machine.restrict_run_iff.2 ⟨hr, Machine.eachStep_event_iff.2 hone⟩
  obtain ⟨place, c, hs⟩ := hrestrict.invariant (I := fun s => ∃ place c, s.InTurn place c)
    (fun ⟨_, _, hs⟩ he ht => hs.step he.1 ht he.2) (inTurn_launch ht)
  refine ⟨hs.flows, ⟨c, hs.rootModule, hs.children⟩, fun hmain e t he hlink ht => ?_⟩
  rw [hs.configure] at hmain
  exact hs.tabbar_stays hmain he ht hlink

/-- The settings app completes after the flow is over. -/
theorem launched_once_in_turn_sample :
    ∃ s tr, machine.Run initial ((.start none, s) :: tr) ∧
      (Trace.last s tr).coordinator.flows = [.auth, .onboarding, .notificationsInfo, .main] ∧
      (Trace.last s tr).opening = [3] := by
  have hr : machine.Run initial [(.start none, _), (.press .loginButtonTapped, _),
      (.press .startButtonTapped, _), (.press .denyButtonPressed, _),
      (.press (.goToSettingsButtonPressed true), _), (.back, _), (.press .allowButtonPressed, _)] :=
    .cons trivial rfl (.cons ⟨_, _, rfl, rfl⟩ rfl (.cons ⟨_, _, rfl, rfl⟩ rfl
      (.cons ⟨_, _, rfl, rfl⟩ rfl (.cons ⟨_, _, rfl, rfl⟩ rfl (.cons (show 1 < 2 by decide) rfl
        (.cons ⟨_, _, rfl, rfl⟩ rfl (.nil _)))))))
  exact ⟨_, _, hr, (launched_once_in_turn hr (by simp [Event.link])).1, rfl⟩

/-! ## The settings app -/

/-- The last flag is raised after the others. -/
theorem Shows.raise_notificationsInfo {s : LaunchFlows} {place : LaunchPlace} {c o : ℕ}
    (h : s.Shows place c) (ho : s.retained o)
    (hflow : s.coordinator.flow o = some .notificationsInfo) :
    LaunchInstructor.notificationsInfo.raise s.coordinator.flags = ⟨true, true, true⟩ := by
  obtain ⟨flow, hflow', hpreceded⟩ := h.valid.preceded o ho
  rw [hflow] at hflow'
  obtain rfl := Option.some.inj hflow'
  obtain ⟨hauthorized, hshown⟩ := hpreceded
  rw [LaunchInstructor.raise, hauthorized, hshown]

/-- **A completion of the settings app.**  It belongs to a notification flow, maybe one
that was replaced long ago.  If that flow's coordinator is still retained, the completion
raises the last flag, starts the main flow — once more, if it was running — and lets go
of the coordinator; otherwise it changes neither the coordinators nor the screen. -/
theorem settings_completion {tr : Trace LaunchFlows Event} {k : ℕ} (hr : machine.Run initial tr)
    (he : machine.enabled (Trace.last initial tr) (.opened k)) :
    ∃ t o, machine.step (Trace.last initial tr) (.opened k) = some t ∧
      (Trace.last initial tr).controllers[k]? = some ⟨.notificationsDenied, o⟩ ∧
      ((Trace.last initial tr).retained o →
        t.coordinator.flags = ⟨true, true, true⟩ ∧
        t.coordinator.flows = (Trace.last initial tr).coordinator.flows ++ [.main] ∧
        t.Shows .tabbar (Trace.last initial tr).coordinator.coordinators.count ∧
        ¬ t.retained o) ∧
      (¬ (Trace.last initial tr).retained o →
        t.coordinator = (Trace.last initial tr).coordinator ∧
        t.router = (Trace.last initial tr).router) := by
  have hlaunched := launched_of_run hr (Or.inl rfl)
  generalize Trace.last initial tr = s at he hlaunched ⊢
  rcases hlaunched with rfl | ⟨place, c, hs⟩
  · exact absurd he List.not_mem_nil
  obtain ⟨t, o, ht, -, hget, hflow, hfinish, hgone⟩ := hs.opened he
  refine ⟨t, o, ht, hget, fun ho => ?_, fun ho => ?_⟩
  · obtain ⟨hl, hshows⟩ := hfinish ho
    have hflags := hs.raise_notificationsInfo ho hflow
    rw [hflags] at hl hshows
    refine ⟨hl.flags_eq, hl.flows, hshows, ?_⟩
    rw [retained, hl.children_eq, List.erase_append_left _ ho, List.mem_append,
      List.mem_singleton, not_or]
    exact ⟨hs.valid.nodup.not_mem_erase, (hs.valid.lt_count ho).2.ne⟩
  · rw [hgone ho]
    exact ⟨rfl, rfl⟩

/-- A notification arrives while the settings app is being opened: the views of the first
notification flow are gone, but its coordinator is not. -/
theorem settings_completion_run :
    ∃ tr, machine.Run initial tr ∧
      tr.map Prod.fst = [.start none, .press .loginButtonTapped, .press .startButtonTapped,
        .press .denyButtonPressed, .press (.goToSettingsButtonPressed true), .start none,
        .press .allowButtonPressed] ∧
      (Trace.last initial tr).opening = [3] ∧
      (Trace.last initial tr).coordinator.flows =
        [.auth, .onboarding, .notificationsInfo, .notificationsInfo, .main] ∧
      (Trace.last initial tr).controllers[3]? = some ⟨.notificationsDenied, 3⟩ ∧
      (Trace.last initial tr).retained 3 := by
  have hr : machine.Run initial [(.start none, _), (.press .loginButtonTapped, _),
      (.press .startButtonTapped, _), (.press .denyButtonPressed, _),
      (.press (.goToSettingsButtonPressed true), _), (.start none, _),
      (.press .allowButtonPressed, _)] :=
    .cons trivial rfl (.cons ⟨_, _, rfl, rfl⟩ rfl (.cons ⟨_, _, rfl, rfl⟩ rfl
      (.cons ⟨_, _, rfl, rfl⟩ rfl (.cons ⟨_, _, rfl, rfl⟩ rfl (.cons trivial rfl
        (.cons ⟨_, _, rfl, rfl⟩ rfl (.nil _)))))))
  exact ⟨_, hr, rfl, rfl, rfl, rfl, List.mem_cons_self⟩

/-- The completion then starts a second main flow. -/
theorem settings_completion_twice :
    ∃ tr t, machine.Run initial tr ∧
      machine.step (Trace.last initial tr) (.opened 3) = some t ∧
      t.coordinator.flows =
        [.auth, .onboarding, .notificationsInfo, .notificationsInfo, .main, .main] := by
  obtain ⟨tr, hr, -, hopening, hflows, hget, howned⟩ := settings_completion_run
  have he : machine.enabled (Trace.last initial tr) (.opened 3) := by
    show 3 ∈ (Trace.last initial tr).opening
    rw [hopening]
    exact List.mem_singleton_self 3
  obtain ⟨t, o, ht, hget', hretained, -⟩ := settings_completion hr he
  rw [hget] at hget'
  cases hget'
  obtain ⟨-, hmain, -, -⟩ := hretained howned
  refine ⟨tr, t, hr, ht, ?_⟩
  rw [hmain, hflows]
  rfl

/-! ## No dead end -/

/-- A button of the view on top can be tapped. -/
theorem Shows.enabled_press {s : LaunchFlows} {place : LaunchPlace} {c : ℕ} (h : s.Shows place c)
    {button : Button} (hbutton : place.top = button.screen) :
    machine.enabled s (.press button) := by
  obtain ⟨k, hvisible, -⟩ := h.visible_eq
  exact ⟨k, _, hvisible, hbutton⟩

/-- The user's own doing. -/
def Event.ByUser : Event → Prop
  | press _ => True
  | back => True
  | start _ => False
  | opened _ => False

/-- From every view but the tab bar and the last one a button finishes the flow. -/
theorem Shows.finishes_by_button {s : LaunchFlows} {place : LaunchPlace} {c : ℕ}
    (h : s.Shows place c) (hmain : place.top.flow ≠ .main)
    (hdenied : place ≠ .notificationsDenied) :
    ∃ button t, machine.enabled s (.press button) ∧ machine.step s (.press button) = some t ∧
      t.Shows (LaunchPlace.root (LaunchInstructor.configure
        (place.top.flow.raise s.coordinator.flags))) s.coordinator.coordinators.count := by
  obtain ⟨k, hvisible, -⟩ := h.visible_eq
  have hfinish : ∀ button : Button, place.top = button.screen →
      s.press k c button = s.callFinishFlow c →
      ∃ button t, machine.enabled s (.press button) ∧ machine.step s (.press button) = some t ∧
        t.Shows (LaunchPlace.root (LaunchInstructor.configure
          (place.top.flow.raise s.coordinator.flags))) s.coordinator.coordinators.count := by
    intro button hbutton hpress
    have hstep : machine.step s (.press button) = s.callFinishFlow c := by
      simp only [machine, hvisible, Option.bind_some, hpress]
    obtain ⟨t, ht, -, hshows⟩ := h.finishes hmain hstep
    exact ⟨button, t, h.enabled_press hbutton, ht, hshows⟩
  cases place with
  | login => exact hfinish .loginButtonTapped rfl rfl
  | signUp => exact hfinish .signUpButtonPressed rfl rfl
  | onboarding => exact hfinish .startButtonTapped rfl rfl
  | notificationsPermission => exact hfinish .allowButtonPressed rfl rfl
  | notificationsDenied => exact absurd rfl hdenied
  | tabbar => exact absurd rfl hmain

/-- As many buttons as there are flows left reach the tab bar. -/
theorem Shows.reaches_tabbar {s : LaunchFlows} {place : LaunchPlace} {c : ℕ}
    (h : s.Shows place c) (hdenied : place ≠ .notificationsDenied) :
    ∃ tr, machine.Run s tr ∧ (∀ p ∈ tr, p.1.ByUser) ∧ tr.length ≤ place.top.flow.remaining ∧
      ∃ c', (Trace.last s tr).Shows .tabbar c' := by
  -- induction on the number of flows left: the one on screen is over after one button
  generalize hn : place.top.flow.remaining = n
  induction n using Nat.strong_induction_on generalizing s place c with
  | _ n ih =>
    by_cases hmain : place.top.flow = .main
    · have htabbar : place = .tabbar := by cases place <;> first | rfl | cases hmain
      subst htabbar
      exact ⟨[], .nil s, by simp, Nat.zero_le _, c, h⟩
    · obtain ⟨button, t, he, ht, hshows⟩ := h.finishes_by_button hmain hdenied
      have hflow : LaunchInstructor.configure s.coordinator.flags ≠ .main := by
        rw [h.configure]
        exact hmain
      have hlt := LaunchInstructor.remaining_raise_lt hflow
      rw [h.configure, hn] at hlt
      have hroot : ∀ flow, LaunchPlace.root flow ≠ .notificationsDenied := by
        intro flow
        cases flow <;> simp [LaunchPlace.root]
      obtain ⟨tr, hr, huser, hlength, hlast⟩ := ih _ hlt hshows (hroot _)
        (by rw [LaunchPlace.flow_root])
      refine ⟨(.press button, t) :: tr, .cons he ht hr, ?_, ?_, hlast⟩
      · rintro p (_ | ⟨_, hp⟩)
        · trivial
        · exact huser p hp
      · rw [List.length_cons]
        omega

/-- **No dead end.**  From every state that a run has led to, at most three buttons reach
the tab bar, whatever has been replaced and whatever is still being opened. -/
theorem buttons_reach_tabbar {tr : Trace LaunchFlows Event} (hr : machine.Run initial tr)
    (hne : tr ≠ []) :
    ∃ tr', machine.Run (Trace.last initial tr) tr' ∧ (∀ p ∈ tr', p.1.ByUser) ∧ tr'.length ≤ 3 ∧
      ∃ c, (Trace.last (Trace.last initial tr) tr').Shows .tabbar c := by
  obtain ⟨place, c, hs⟩ := launched hr hne
  by_cases hdenied : place = .notificationsDenied
  · -- back to the view before, which has a button that finishes the flow
    subst hdenied
    have he : machine.enabled (Trace.last initial tr) .back := by
      show 1 < (Trace.last initial tr).router.viewControllers.length
      rw [hs.length_viewControllers]
      decide
    obtain ⟨v, r, hpop, hshows⟩ := hs.pop .notificationsPermission rfl
      (by simp [LaunchPlace.screens]) rfl
    obtain ⟨tr', hr', huser, hlength, hlast⟩ := (hshows r rfl).reaches_tabbar (by simp)
    have ht : machine.step (Trace.last initial tr) .back =
        some { Trace.last initial tr with router := r } := by
      simp only [machine, hpop, Option.map_some]
    refine ⟨(.back, _) :: tr', .cons he ht hr', ?_, ?_, hlast⟩
    · rintro p (_ | ⟨_, hp⟩)
      · trivial
      · exact huser p hp
    · have hone : tr'.length ≤ 1 := hlength
      rw [List.length_cons]
      omega
  · obtain ⟨tr', hr', huser, hlength, hlast⟩ := hs.reaches_tabbar hdenied
    refine ⟨tr', hr', huser, hlength.trans ?_, hlast⟩
    cases place <;> decide

/-- A notification after the sign-in, with the settings app being opened: from there the
tab bar is reached. -/
theorem buttons_reach_tabbar_sample :
    ∃ tr tr', machine.Run initial tr ∧ machine.Run (Trace.last initial tr) tr' ∧
      tr'.length ≤ 3 ∧ (Trace.last initial tr).opening = [3] ∧
      ∃ c, (Trace.last (Trace.last initial tr) tr').Shows .tabbar c := by
  obtain ⟨tr, hr, hevents, hopening, -⟩ := settings_completion_run
  have hne : tr ≠ [] := by
    rintro rfl
    cases hevents
  obtain ⟨tr', hr', -, hlength, htabbar⟩ := buttons_reach_tabbar hr hne
  exact ⟨tr, tr', hr, hr', hlength, hopening, htabbar⟩

end LaunchFlows

end Alarma
