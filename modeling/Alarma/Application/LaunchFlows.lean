import Alarma.Application.ApplicationCoordinator
import Alarma.Router.RouterImp

/-!
# The launch flows

The flows before the main one, with their screens: `AuthCoordinator`,
`OnboardingCoordinator` and `NotificationsInfoCoordinator` put their views on the one
router of the window, and the closures of the views capture their coordinator weakly,
so that they do nothing once `ApplicationCoordinator` has let go of it.  The settings
app is opened asynchronously, and its completion keeps the view that asked for it.

* `LaunchFlows.machine` — remote notifications, the buttons, the back button, and the
  completions of the settings app.
* `LaunchPlace` — what is on screen; `Shows` says how the router, the coordinator and
  the flags agree on it.
* `Effect` — everything an event can do; `Shows.step` that every event does it.
-/

namespace Alarma

/-! ## Links -/

/-- A value of the dictionary of a notification, as far as it is looked at. -/
inductive AnyObject where
  /-- It `as? String`. -/
  | string (value : String)
  /-- It is something else. -/
  | other
  deriving DecidableEq, Repr

/-- `as? String`. -/
def AnyObject.asString : AnyObject → Option String
  | string value => some value
  | other => none

namespace DeepLinkOption

/-- `build(with:)`, from the dictionary of a notification. -/
def build (dict : Option (String → Option AnyObject)) : Option DeepLinkOption := do
  let id ← (dict.bind fun dict => dict "launch_id").bind AnyObject.asString
  let groupID := (dict.bind fun dict => dict "group_id").bind AnyObject.asString
  match id with
  | "onboarding" => some .onboarding
  | "groups" => some .groups
  | "group" => some (.group groupID)
  | "settings" => some .settings
  | "login" => some .login
  | "terms" => some .terms
  | "signUp" => some .signUp
  | _ => none

end DeepLinkOption

/-! ## The views -/

/-- The views the flows show. -/
inductive FlowScreen where
  /-- `LoginController` -/
  | login
  /-- `SignUpController` -/
  | signUp
  /-- `OnboardingController` -/
  | onboarding
  /-- `NotificationsPermissionViewController` -/
  | notificationsPermission
  /-- `NotificationsDeniedViewController` -/
  | notificationsDenied
  /-- `TabbarController` -/
  | tabbar
  deriving DecidableEq, Repr

/-- The flow a view belongs to. -/
def FlowScreen.flow : FlowScreen → LaunchInstructor
  | login => .auth
  | signUp => .auth
  | onboarding => .onboarding
  | notificationsPermission => .notificationsInfo
  | notificationsDenied => .notificationsInfo
  | tabbar => .main

/-- A view controller with the coordinator that its closures capture. -/
structure FlowController where
  screen : FlowScreen
  /-- The coordinator, by number. -/
  coordinator : ℕ
  deriving DecidableEq, Repr

/-- The application in its launch flows. -/
structure LaunchFlows where
  /-- The application coordinator and the coordinators it has started. -/
  coordinator : ApplicationCoordinator
  /-- The router of the window. -/
  router : RouterImp Unit
  /-- The view controllers created so far, by number. -/
  controllers : List FlowController
  /-- The view controllers whose call of `open` has not completed. -/
  opening : List ℕ

namespace LaunchFlows

/-- Before the launch. -/
def initial : LaunchFlows := ⟨.initial, .new [], [], []⟩

/-- A factory makes a view controller, which gets the next number. -/
def make (screen : FlowScreen) (c : ℕ) (s : LaunchFlows) : LaunchFlows :=
  { s with controllers := s.controllers ++ [⟨screen, c⟩] }

/-- `router.setRootModule`, with a new view controller. -/
def setRootModule (screen : FlowScreen) (c : ℕ) (s : LaunchFlows) : LaunchFlows :=
  { s.make screen c with router := s.router.setRootModule (some ⟨s.controllers.length, false⟩) }

/-- `router.push`, with a new view controller. -/
def push (screen : FlowScreen) (c : ℕ) (s : LaunchFlows) : Option LaunchFlows := do
  let router ← s.router.push (some ⟨s.controllers.length, false⟩) none
  return { s.make screen c with router := router }

/-- `AuthCoordinator.showLogin`, which is its `start`. -/
def showLogin (c : ℕ) : LaunchFlows → LaunchFlows := setRootModule .login c

/-- `AuthCoordinator.showSignUp`. -/
def showSignUp (c : ℕ) : LaunchFlows → Option LaunchFlows := push .signUp c

/-- `OnboardingCoordinator.showOnboarding`, which is its `start`. -/
def showOnboarding (c : ℕ) : LaunchFlows → LaunchFlows := setRootModule .onboarding c

/-- `NotificationsInfoCoordinator.showNotificationsPermissionScreen`, which is its
`start`. -/
def showNotificationsPermissionScreen (c : ℕ) : LaunchFlows → LaunchFlows :=
  setRootModule .notificationsPermission c

/-- `NotificationsInfoCoordinator.showNotificationsDeniedScreen`. -/
def showNotificationsDeniedScreen (c : ℕ) : LaunchFlows → Option LaunchFlows :=
  push .notificationsDenied c

/-- The view that a flow begins with. -/
def begin (flow : LaunchInstructor) (c : ℕ) (s : LaunchFlows) : LaunchFlows :=
  match flow with
  | .auth => s.showLogin c
  | .onboarding => s.showOnboarding c
  | .notificationsInfo => s.showNotificationsPermissionScreen c
  | .main => s.setRootModule .tabbar c

/-- `start(with:)`, with the view of the flow it starts. -/
def start (option : Option DeepLinkOption) (s : LaunchFlows) : LaunchFlows :=
  begin (LaunchInstructor.configure s.coordinator.flags) s.coordinator.coordinators.count
    { s with coordinator := s.coordinator.start option }

/-- The `finishFlow` closure of the coordinator `c`, as
`ApplicationCoordinator.finishFlow` has it, with the view of the next flow. -/
def finishFlow (c : ℕ) (flow : LaunchInstructor) (s : LaunchFlows) : Option LaunchFlows := do
  let flags := flow.raise s.coordinator.flags
  let s := start none { s with coordinator := { s.coordinator with flags := flags } }
  let coordinators ← s.coordinator.coordinators.removeDependency s.coordinator.coordinators.count 0
    (some c)
  return { s with coordinator := { s.coordinator with coordinators := coordinators } }

/-- `self?.` in a closure of the coordinator `c`: the application coordinator has not
let go of it. -/
def retained (c : ℕ) (s : LaunchFlows) : Prop := c ∈ s.coordinator.childCoordinators

instance (c : ℕ) (s : LaunchFlows) : Decidable (s.retained c) := by
  unfold retained
  infer_instance

/-- `self?.finishFlow?()`; the tab bar coordinator has none. -/
def callFinishFlow (c : ℕ) (s : LaunchFlows) : Option LaunchFlows :=
  if s.retained c then
    match s.coordinator.flow c with
    | some .main => some s
    | some flow => s.finishFlow c flow
    | none => some s
  else some s

/-- The view controller on top of the stack, with its number. -/
def visible (s : LaunchFlows) : Option (ℕ × FlowController) := do
  let top ← s.router.viewControllers.head?
  let controller ← s.controllers[top.id]?
  return (top.id, controller)

/-- The buttons of the views. -/
inductive Button where
  /-- `LoginController.loginButtonTapped` -/
  | loginButtonTapped
  /-- `LoginController.signUpButtonTapped` -/
  | signUpButtonTapped
  /-- `SignUpController.signUpButtonPressed` -/
  | signUpButtonPressed
  /-- `SignUpController.cancelButtonPressed` -/
  | cancelButtonPressed
  /-- `OnboardingController.startButtonTapped` -/
  | startButtonTapped
  /-- `NotificationsPermissionViewController.allowButtonPressed` -/
  | allowButtonPressed
  /-- `NotificationsPermissionViewController.denyButtonPressed` -/
  | denyButtonPressed
  /-- `NotificationsDeniedViewController.goToSettingsButtonPressed`, with what
  `canOpenURL` returns. -/
  | goToSettingsButtonPressed (canOpenURL : Bool)
  deriving DecidableEq, Repr

/-- The view of a button. -/
def Button.screen : Button → FlowScreen
  | loginButtonTapped => .login
  | signUpButtonTapped => .login
  | signUpButtonPressed => .signUp
  | cancelButtonPressed => .signUp
  | startButtonTapped => .onboarding
  | allowButtonPressed => .notificationsPermission
  | denyButtonPressed => .notificationsPermission
  | goToSettingsButtonPressed _ => .notificationsDenied

/-- What a button does, on the view controller `k` of the coordinator `c`. -/
def press (k c : ℕ) (button : Button) (s : LaunchFlows) : Option LaunchFlows :=
  match button with
  | .loginButtonTapped => s.callFinishFlow c
  | .signUpButtonTapped => if s.retained c then s.showSignUp c else some s
  | .signUpButtonPressed => s.callFinishFlow c
  | .cancelButtonPressed =>
    if s.retained c then some { s with router := s.router.popModule.2 } else some s
  | .startButtonTapped => s.callFinishFlow c
  | .allowButtonPressed => s.callFinishFlow c
  | .denyButtonPressed => if s.retained c then s.showNotificationsDeniedScreen c else some s
  | .goToSettingsButtonPressed canOpenURL =>
    if canOpenURL then some { s with opening := k :: s.opening } else some s

/-- What the platform and the user do. -/
inductive Event where
  /-- The launch, or a remote notification, with its dictionary. -/
  | start (dict : Option (String → Option AnyObject))
  /-- A button of the view on screen. -/
  | press (button : Button)
  /-- The back button of the navigation bar. -/
  | back
  /-- The settings app has been opened for a view controller. -/
  | opened (controller : ℕ)

/-- The machine. -/
def machine : Machine LaunchFlows Event where
  enabled := fun s e =>
    match e with
    | .start _ => True
    | .press button => ∃ k controller, s.visible = some (k, controller) ∧
        controller.screen = button.screen
    | .back => 1 < s.router.viewControllers.length
    | .opened k => k ∈ s.opening
  step := fun s e =>
    match e with
    | .start dict => some (s.start (DeepLinkOption.build dict))
    | .press button => s.visible.bind fun top => s.press top.1 top.2.coordinator button
    | .back => s.router.popViewController.map fun popped => { s with router := popped.2 }
    | .opened k =>
      match s.controllers[k]? with
      | some controller =>
        callFinishFlow controller.coordinator { s with opening := s.opening.erase k }
      | none => some s

/-! ## What is on screen -/

/-- The stacks of the flows, by the view on top. -/
inductive LaunchPlace where
  | login | signUp | onboarding | notificationsPermission | notificationsDenied | tabbar
  deriving DecidableEq, Repr

namespace LaunchPlace

/-- The stack, the top first. -/
def screens : LaunchPlace → List FlowScreen
  | login => [.login]
  | signUp => [.signUp, .login]
  | onboarding => [.onboarding]
  | notificationsPermission => [.notificationsPermission]
  | notificationsDenied => [.notificationsDenied, .notificationsPermission]
  | tabbar => [.tabbar]

/-- The top. -/
def top : LaunchPlace → FlowScreen
  | login => .login
  | signUp => .signUp
  | onboarding => .onboarding
  | notificationsPermission => .notificationsPermission
  | notificationsDenied => .notificationsDenied
  | tabbar => .tabbar

/-- Where a flow begins. -/
def root : LaunchInstructor → LaunchPlace
  | .auth => login
  | .onboarding => onboarding
  | .notificationsInfo => notificationsPermission
  | .main => tabbar

/-- All the views of a stack belong to one flow. -/
theorem flow_of_mem {place : LaunchPlace} {screen : FlowScreen} (h : screen ∈ place.screens) :
    screen.flow = place.top.flow := by
  cases place <;> simp [screens] at h <;> grind [FlowScreen.flow, top]

theorem flow_root (flow : LaunchInstructor) : (root flow).top.flow = flow := by
  cases flow <;> rfl

theorem screens_root (flow : LaunchInstructor) : (root flow).screens = [(root flow).top] := by
  cases flow <;> rfl

end LaunchPlace

/-- What holds of the parts whatever is on screen. -/
structure Wired (s : LaunchFlows) : Prop where
  valid : s.coordinator.Valid
  alive : s.router.rootController ≠ none
  /-- The settings app is opened for the views of notification flows. -/
  opening : ∀ k ∈ s.opening, ∃ o, s.controllers[k]? = some ⟨.notificationsDenied, o⟩ ∧
    s.coordinator.flow o = some .notificationsInfo

/-- The router, the coordinator and the flags agree on what is on screen: views of one
coordinator, which is retained, and runs the flow that the flags ask for. -/
structure Shows (s : LaunchFlows) (place : LaunchPlace) (c : ℕ) : Prop extends Wired s where
  /-- The coordinator whose view was set last. -/
  rootModule : s.coordinator.rootModule = some c
  owned : s.retained c
  flow : s.coordinator.flow c = some place.top.flow
  /-- The flow that the flags ask for. -/
  configure : LaunchInstructor.configure s.coordinator.flags = place.top.flow
  stack : s.router.viewControllers.map (fun v => s.controllers[v.id]?) =
    place.screens.map fun screen => some ⟨screen, c⟩

theorem wired_initial : initial.Wired :=
  ⟨ApplicationCoordinator.valid_initial, Option.some_ne_none _,
    fun _ hk => absurd hk List.not_mem_nil⟩

/-- A view that has a number keeps it. -/
theorem getElem?_make {s : LaunchFlows} {k : ℕ} {controller : FlowController}
    (h : s.controllers[k]? = some controller) (screen : FlowScreen) (c : ℕ) :
    (s.make screen c).controllers[k]? = some controller := by
  have hlt := (List.getElem?_eq_some_iff.1 h).1
  show (s.controllers ++ [⟨screen, c⟩])[k]? = some controller
  rw [List.getElem?_append_left hlt, h]

/-- The top of the stack is visible. -/
theorem Shows.visible_eq {s : LaunchFlows} {place : LaunchPlace} {c : ℕ} (h : s.Shows place c) :
    ∃ k, s.visible = some (k, ⟨place.top, c⟩) ∧ s.controllers[k]? = some ⟨place.top, c⟩ := by
  have hstack := h.stack
  obtain ⟨rest, hscreens⟩ : ∃ rest, place.screens = place.top :: rest := by
    cases place <;> exact ⟨_, rfl⟩
  rw [hscreens, List.map_cons] at hstack
  cases hviews : s.router.viewControllers with
  | nil =>
    rw [hviews] at hstack
    cases hstack
  | cons v views =>
    rw [hviews, List.map_cons] at hstack
    have htop := (List.cons.inj hstack).1
    refine ⟨v.id, ?_, htop⟩
    simp only [visible, hviews, List.head?_cons, Option.bind_eq_bind, Option.bind_some, htop]
    rfl

/-! ## Launching a flow -/

theorem begin_eq (flow : LaunchInstructor) (c : ℕ) (s : LaunchFlows) :
    s.begin flow c = s.setRootModule (LaunchPlace.root flow).top c := by
  cases flow <;> rfl

@[simp] theorem coordinator_begin (flow : LaunchInstructor) (c : ℕ) (s : LaunchFlows) :
    (s.begin flow c).coordinator = s.coordinator := by
  rw [begin_eq]
  rfl

/-- The flow that is launched next is on screen. -/
theorem shows_of_launches {s t : LaunchFlows} (hs : s.Wired) {flags : Flags} {children : List ℕ}
    (hl : ApplicationCoordinator.Launches s.coordinator t.coordinator flags children)
    (hmem : s.coordinator.coordinators.count ∈ children) (hvalid : t.coordinator.Valid)
    (hparts : t = { s.setRootModule (LaunchPlace.root (LaunchInstructor.configure flags)).top
      s.coordinator.coordinators.count with coordinator := t.coordinator }) :
    t.Shows (LaunchPlace.root (LaunchInstructor.configure flags))
      s.coordinator.coordinators.count := by
  have hcontrollers : t.controllers = s.controllers ++
      [⟨(LaunchPlace.root (LaunchInstructor.configure flags)).top,
        s.coordinator.coordinators.count⟩] := by rw [hparts]; rfl
  have hrouter : t.router = s.router.setRootModule (some ⟨s.controllers.length, false⟩) := by
    rw [hparts]
    rfl
  have hopening : t.opening = s.opening := by rw [hparts]; rfl
  obtain ⟨stack, hstack⟩ := Option.ne_none_iff_exists'.1 hs.alive
  have hroot : t.router.rootController = some [⟨s.controllers.length, false⟩] := by
    rw [hrouter]
    simp [RouterImp.setRootModule, RouterImp.setViewControllers, hstack]
  have hflow : ∀ {o : ℕ} {flow : LaunchInstructor}, s.coordinator.flow o = some flow →
      t.coordinator.flow o = some flow := by
    intro o flow ho
    cases o with
    | zero => cases ho
    | succ o =>
      have hlt := (List.getElem?_eq_some_iff.1 ho).1
      show t.coordinator.flows[o]? = some flow
      rw [hl.flows, List.getElem?_append_left hlt]
      exact ho
  refine ⟨⟨hvalid, ?_, fun k hk => ?_⟩, hl.rootModule, ?_, ?_, ?_, ?_⟩
  · rw [hroot]
    exact Option.some_ne_none _
  · rw [hopening] at hk
    obtain ⟨o, hk', ho⟩ := hs.opening k hk
    refine ⟨o, ?_, hflow ho⟩
    rw [hcontrollers, List.getElem?_append_left (List.getElem?_eq_some_iff.1 hk').1, hk']
  · rw [retained, hl.children_eq]
    exact hmem
  · rw [hs.valid.count]
    show t.coordinator.flows[s.coordinator.flows.length]? = _
    rw [hl.flows, List.getElem?_concat_length, LaunchPlace.flow_root]
  · rw [hl.flags_eq, LaunchPlace.flow_root]
  · rw [RouterImp.viewControllers_of_eq hroot, LaunchPlace.screens_root, hcontrollers]
    simp

/-- `start(with:)` puts the flow that the flags ask for on screen. -/
theorem Wired.start {s : LaunchFlows} (hs : s.Wired) (option : Option DeepLinkOption) :
    (s.start option).coordinator = s.coordinator.start option ∧
      (s.start option).Shows
        (LaunchPlace.root (LaunchInstructor.configure s.coordinator.flags))
        s.coordinator.coordinators.count := by
  have hcoordinator : (s.start option).coordinator = s.coordinator.start option := by
    simp [LaunchFlows.start]
  have hl := ApplicationCoordinator.launches_runFlow hs.valid s.coordinator.flags
  have hstart := ApplicationCoordinator.start_eq option s.coordinator
  have hvalid := hs.valid.step (e := .start option) trivial rfl
  rw [← hstart, ← hcoordinator] at hl
  refine ⟨hcoordinator, shows_of_launches hs hl ?_ ?_ ?_⟩
  · exact List.mem_append_right _ (List.mem_singleton_self _)
  · rw [hcoordinator]
    exact hvalid
  · rw [hcoordinator, LaunchFlows.start, begin_eq]
    rfl

/-- A retained coordinator that finishes launches the next flow. -/
theorem Wired.finishFlow {s : LaunchFlows} (hs : s.Wired) {o : ℕ} {flow : LaunchInstructor}
    (ho : s.retained o) (hflow : s.coordinator.flow o = some flow) (hmain : flow ≠ .main) :
    ∃ t, s.finishFlow o flow = some t ∧ s.coordinator.finishFlow o flow = some t.coordinator ∧
      ApplicationCoordinator.Launches s.coordinator t.coordinator
        (flow.raise s.coordinator.flags)
        ((s.coordinator.childCoordinators ++ [s.coordinator.coordinators.count]).erase o) ∧
      t.Shows (LaunchPlace.root (LaunchInstructor.configure (flow.raise s.coordinator.flags)))
        s.coordinator.coordinators.count := by
  obtain ⟨a, ha, hl⟩ := ApplicationCoordinator.finishFlow_eq hs.valid ho flow
  have hvalid := hs.valid.step (t := a) (e := .finishFlow o)
    ⟨ho, by rw [hflow]; simpa using hmain⟩
    (by simp only [ApplicationCoordinator.machine, hflow, Option.bind_some, ha])
  have hlt := hs.valid.lt_count ho
  have hmem : s.coordinator.coordinators.count ∈
      (s.coordinator.childCoordinators ++ [s.coordinator.coordinators.count]).erase o := by
    refine (List.mem_erase_of_ne (by omega)).2 ?_
    exact List.mem_append_right _ (List.mem_singleton_self _)
  -- the router and the views are as after `start`, and the coordinator as it says
  generalize hraised : ({ s with coordinator := { s.coordinator with
    flags := flow.raise s.coordinator.flags } } : LaunchFlows) = r
  have hstart : (r.start none).coordinator = r.coordinator.start none := by
    simp [LaunchFlows.start]
  obtain ⟨coordinators, hremove, hreturn⟩ := Option.bind_eq_some_iff.1 ha
  have hraised' : r.coordinator = { s.coordinator with
    flags := flow.raise s.coordinator.flags } := by rw [← hraised]
  rw [← hraised', ← hstart] at hremove hreturn
  have hreturn' : { (r.start none).coordinator with coordinators := coordinators } = a :=
    Option.some.inj hreturn
  refine ⟨{ r.start none with coordinator := a }, ?_, ha, hl, ?_⟩
  · rw [LaunchFlows.finishFlow, hraised]
    refine Option.bind_eq_some_iff.2 ⟨coordinators, hremove, ?_⟩
    rw [← hreturn']
    rfl
  · refine shows_of_launches hs hl hmem hvalid ?_
    rw [LaunchFlows.start, begin_eq, ← hraised]
    rfl

/-- A closure of a coordinator that is no longer retained does nothing. -/
theorem Wired.callFinishFlow {s : LaunchFlows} (hs : s.Wired) {o : ℕ} {flow : LaunchInstructor}
    (hflow : s.coordinator.flow o = some flow) (hmain : flow ≠ .main) :
    ∃ t, s.callFinishFlow o = some t ∧ ((¬ s.retained o ∧ t = s) ∨
      (s.retained o ∧ s.coordinator.finishFlow o flow = some t.coordinator ∧
        ApplicationCoordinator.Launches s.coordinator t.coordinator
          (flow.raise s.coordinator.flags)
          ((s.coordinator.childCoordinators ++ [s.coordinator.coordinators.count]).erase o) ∧
        t.Shows (LaunchPlace.root (LaunchInstructor.configure (flow.raise s.coordinator.flags)))
          s.coordinator.coordinators.count)) := by
  unfold LaunchFlows.callFinishFlow
  by_cases ho : s.retained o
  · obtain ⟨t, ht, hcoordinator, hl, hshows⟩ := hs.finishFlow ho hflow hmain
    refine ⟨t, ?_, Or.inr ⟨ho, hcoordinator, hl, hshows⟩⟩
    rw [if_pos ho, hflow]
    cases flow with
    | main => exact absurd rfl hmain
    | _ => exact ht
  · exact ⟨s, if_neg ho, Or.inl ⟨ho, rfl⟩⟩

/-! ## Moving within a flow -/

/-- A pushed view is a new one. -/
theorem Shows.notMem {s : LaunchFlows} {place : LaunchPlace} {c : ℕ} (h : s.Shows place c) :
    (⟨s.controllers.length, false⟩ : UIViewController) ∉ s.router.viewControllers := by
  intro hmem
  have hsome := List.mem_map_of_mem (f := fun v : UIViewController => s.controllers[v.id]?) hmem
  rw [h.stack] at hsome
  obtain ⟨screen, -, hget⟩ := List.mem_map.1 hsome
  simp at hget

/-- A view of the same flow is pushed. -/
theorem Shows.push {s : LaunchFlows} {place place' : LaunchPlace} {c : ℕ} (h : s.Shows place c)
    (hscreens : place'.screens = place'.top :: place.screens)
    (hflow : place'.top.flow = place.top.flow) :
    ∃ t, s.push place'.top c = some t ∧ t.Shows place' c ∧ t.coordinator = s.coordinator := by
  have hroot := RouterImp.rootController_eq h.alive
  generalize hv : (⟨s.controllers.length, false⟩ : UIViewController) = v
  have hnew : v ∉ s.router.viewControllers := hv ▸ h.notMem
  have hpush : s.router.push (some v) none =
      some { s.router with rootController := some (v :: s.router.viewControllers) } := by
    have hnot : ¬ v.isNavigationController = true := by simp [← hv]
    simp only [RouterImp.push, RouterImp.pushViewController, if_neg hnot, if_neg hnew, hroot,
      Option.map_some]
  refine ⟨_, Option.bind_eq_some_iff.2 ⟨_, by rw [hv]; exact hpush, rfl⟩, ⟨⟨h.valid,
    Option.some_ne_none _, fun k hk => ?_⟩, h.rootModule, h.owned, ?_, ?_, ?_⟩, rfl⟩
  · obtain ⟨o, hk', ho⟩ := h.opening k hk
    exact ⟨o, getElem?_make hk' _ _, ho⟩
  · rw [hflow]
    exact h.flow
  · rw [hflow]
    exact h.configure
  · rw [hscreens, List.map_cons, ← h.stack]
    show ((s.controllers ++ [⟨place'.top, c⟩])[v.id]? :: _) = _
    rw [← hv, List.getElem?_concat_length]
    refine congrArg _ (List.map_congr_left fun w hw => ?_)
    have hsome := List.mem_map_of_mem (f := fun v : UIViewController => s.controllers[v.id]?) hw
    rw [h.stack] at hsome
    obtain ⟨screen, -, hget⟩ := List.mem_map.1 hsome
    rw [← hget]
    exact getElem?_make hget.symm _ _

/-- The top view is popped. -/
theorem Shows.pop {s : LaunchFlows} {place : LaunchPlace} {c : ℕ} (h : s.Shows place c)
    (place' : LaunchPlace) (hscreens : place.screens = place.top :: place'.screens)
    (hrest : place'.screens ≠ []) (hflow : place'.top.flow = place.top.flow) :
    ∃ v r, s.router.popViewController = some (v, r) ∧
      ∀ r' : RouterImp Unit, r'.rootController = r.rootController →
        Shows { s with router := r' } place' c := by
  have hroot := RouterImp.rootController_eq h.alive
  have hstack := h.stack
  rw [hscreens, List.map_cons] at hstack
  cases hviews : s.router.viewControllers with
  | nil =>
    rw [hviews] at hstack
    cases hstack
  | cons v views =>
    rw [hviews, List.map_cons] at hstack
    have htail := (List.cons.inj hstack).2
    cases views with
    | nil => exact absurd (List.map_eq_nil_iff.1 htail.symm) hrest
    | cons w views =>
      rw [hviews] at hroot
      refine ⟨v, { s.router with rootController := some (w :: views) }, ?_, fun r' hr' => ?_⟩
      · rw [RouterImp.popViewController, hroot]
      · refine ⟨⟨h.valid, ?_, h.opening⟩, h.rootModule, h.owned, ?_, ?_, ?_⟩
        · show r'.rootController ≠ none
          rw [hr']
          exact Option.some_ne_none _
        · rw [hflow]
          exact h.flow
        · rw [hflow]
          exact h.configure
        · show r'.viewControllers.map _ = _
          rw [RouterImp.viewControllers_of_eq hr']
          exact htail

/-! ## What an event does -/

/-- Everything an event can do while the coordinator `c` is on screen. -/
inductive Effect (s : LaunchFlows) (c : ℕ) : Event → LaunchFlows → Prop
  /-- A flow is started. -/
  | starts {dict : Option (String → Option AnyObject)} {t : LaunchFlows} :
      t.coordinator = s.coordinator.start (DeepLinkOption.build dict) →
      t.Shows (LaunchPlace.root (LaunchInstructor.configure s.coordinator.flags))
        s.coordinator.coordinators.count →
      Effect s c (.start dict) t
  /-- A coordinator finishes: the one on screen at a button, any of a notification
  flow when the settings app has been opened. -/
  | finishes {e : Event} {t : LaunchFlows} {o : ℕ} {flow : LaunchInstructor} :
      (∀ dict, e ≠ .start dict) → s.retained o → s.coordinator.flow o = some flow →
      flow ≠ .main → (o = c ∨ (flow = .notificationsInfo ∧ ∃ k, e = .opened k)) →
      s.coordinator.finishFlow o flow = some t.coordinator →
      ApplicationCoordinator.Launches s.coordinator t.coordinator (flow.raise s.coordinator.flags)
        ((s.coordinator.childCoordinators ++ [s.coordinator.coordinators.count]).erase o) →
      t.Shows (LaunchPlace.root (LaunchInstructor.configure (flow.raise s.coordinator.flags)))
        s.coordinator.coordinators.count →
      Effect s c e t
  /-- The coordinators stay; a completion of the settings app leaves the screen too. -/
  | moves {e : Event} {t : LaunchFlows} {place : LaunchPlace} : (∀ dict, e ≠ .start dict) →
      t.Shows place c → t.coordinator = s.coordinator →
      (∀ k, e = .opened k → t.router = s.router) → Effect s c e t

/-- The settings app has been opened for a view. -/
theorem Shows.opened {s : LaunchFlows} {place : LaunchPlace} {c k : ℕ} (h : s.Shows place c)
    (hk : k ∈ s.opening) :
    ∃ t o, machine.step s (.opened k) = some t ∧ Effect s c (.opened k) t ∧
      s.controllers[k]? = some ⟨.notificationsDenied, o⟩ ∧
      s.coordinator.flow o = some .notificationsInfo ∧
      (s.retained o →
        ApplicationCoordinator.Launches s.coordinator t.coordinator
          (LaunchInstructor.notificationsInfo.raise s.coordinator.flags)
          ((s.coordinator.childCoordinators ++ [s.coordinator.coordinators.count]).erase o) ∧
        t.Shows (LaunchPlace.root (LaunchInstructor.configure
          (LaunchInstructor.notificationsInfo.raise s.coordinator.flags)))
          s.coordinator.coordinators.count) ∧
      (¬ s.retained o → t = { s with opening := s.opening.erase k }) := by
  obtain ⟨o, hget, hflow⟩ := h.opening k hk
  have hopening : ∀ k' ∈ s.opening.erase k, ∃ o, s.controllers[k']? =
      some ⟨.notificationsDenied, o⟩ ∧ s.coordinator.flow o = some .notificationsInfo :=
    fun k' hk' => h.opening k' (List.mem_of_mem_erase hk')
  have hwired : Wired { s with opening := s.opening.erase k } := ⟨h.valid, h.alive, hopening⟩
  have hstep : machine.step s (.opened k) =
      callFinishFlow o { s with opening := s.opening.erase k } := by
    simp only [machine, hget]
  obtain ⟨t, ht, ⟨hgone, hsame⟩ | ⟨howned, hfinish, hl, hshows⟩⟩ :=
    hwired.callFinishFlow hflow (by simp)
  · refine ⟨t, o, hstep.trans ht, ?_, hget, hflow, fun howned => absurd howned hgone,
      fun _ => hsame⟩
    subst hsame
    have hshows : Shows { s with opening := s.opening.erase k } place c :=
      ⟨hwired, h.rootModule, h.owned, h.flow, h.configure, h.stack⟩
    exact .moves (by simp) hshows rfl fun _ _ => rfl
  · refine ⟨t, o, hstep.trans ht, ?_, hget, hflow, fun _ => ⟨hl, hshows⟩,
      fun hgone => absurd howned hgone⟩
    exact .finishes (by simp) howned hflow (by simp) (Or.inr ⟨rfl, k, rfl⟩) hfinish hl hshows

/-- A button that calls `finishFlow`. -/
theorem Shows.finishes {s : LaunchFlows} {place : LaunchPlace} {c : ℕ} (h : s.Shows place c)
    (hmain : place.top.flow ≠ .main) {button : Button}
    (hstep : machine.step s (.press button) = s.callFinishFlow c) :
    ∃ t, machine.step s (.press button) = some t ∧ Effect s c (.press button) t ∧
      t.Shows (LaunchPlace.root (LaunchInstructor.configure
        (place.top.flow.raise s.coordinator.flags))) s.coordinator.coordinators.count := by
  obtain ⟨t, ht, ⟨hgone, -⟩ | ⟨howned, hfinish, hl, hshows⟩⟩ := h.callFinishFlow h.flow hmain
  · exact absurd h.owned hgone
  · exact ⟨t, hstep.trans ht,
      .finishes (by simp) howned h.flow hmain (Or.inl rfl) hfinish hl hshows, hshows⟩

/-- A button that pushes a view of the same flow. -/
theorem Shows.pushes {s : LaunchFlows} {place : LaunchPlace} {c : ℕ} (h : s.Shows place c)
    (place' : LaunchPlace) (hscreens : place'.screens = place'.top :: place.screens)
    (hflow : place'.top.flow = place.top.flow) {button : Button}
    (hstep : machine.step s (.press button) =
      if s.retained c then s.push place'.top c else some s) :
    ∃ t, machine.step s (.press button) = some t ∧ Effect s c (.press button) t := by
  obtain ⟨t, ht, hshows, hcoordinator⟩ := h.push hscreens hflow
  refine ⟨t, ?_, .moves (by simp) hshows hcoordinator (by simp)⟩
  rw [hstep, if_pos h.owned, ht]

/-- **A button of the view on screen** never traps. -/
theorem Shows.press {s : LaunchFlows} {place : LaunchPlace} {c : ℕ} (h : s.Shows place c)
    {button : Button} (hbutton : place.top = button.screen) :
    ∃ t, machine.step s (.press button) = some t ∧ Effect s c (.press button) t := by
  obtain ⟨k, hvisible, hk⟩ := h.visible_eq
  have hstep : machine.step s (.press button) = s.press k c button := by
    simp only [machine, hvisible, Option.bind_some]
  cases button with
  | loginButtonTapped =>
    have hmain : place.top.flow ≠ .main := by rw [hbutton]; decide
    obtain ⟨t, ht, heffect, -⟩ := h.finishes hmain hstep
    exact ⟨t, ht, heffect⟩
  | signUpButtonTapped =>
    cases place <;> cases hbutton
    exact h.pushes .signUp rfl rfl hstep
  | signUpButtonPressed =>
    have hmain : place.top.flow ≠ .main := by rw [hbutton]; decide
    obtain ⟨t, ht, heffect, -⟩ := h.finishes hmain hstep
    exact ⟨t, ht, heffect⟩
  | cancelButtonPressed =>
    cases place <;> cases hbutton
    obtain ⟨v, r, hpop, hshows⟩ := h.pop .login rfl (by simp [LaunchPlace.screens]) rfl
    have hpopped : s.router.popModule.2 = r.removeValue v := by
      simp only [RouterImp.popModule, hpop, RouterImp.runCompletion_eq]
    refine ⟨{ s with router := s.router.popModule.2 }, ?_,
      .moves (by simp) (hshows _ ?_) rfl (by simp)⟩
    · rw [hstep, LaunchFlows.press, if_pos h.owned]
    · rw [hpopped]
      rfl
  | startButtonTapped =>
    have hmain : place.top.flow ≠ .main := by rw [hbutton]; decide
    obtain ⟨t, ht, heffect, -⟩ := h.finishes hmain hstep
    exact ⟨t, ht, heffect⟩
  | allowButtonPressed =>
    have hmain : place.top.flow ≠ .main := by rw [hbutton]; decide
    obtain ⟨t, ht, heffect, -⟩ := h.finishes hmain hstep
    exact ⟨t, ht, heffect⟩
  | denyButtonPressed =>
    cases place <;> cases hbutton
    exact h.pushes .notificationsDenied rfl rfl hstep
  | goToSettingsButtonPressed canOpenURL =>
    have hopening : ∀ k' ∈ k :: s.opening, ∃ o, s.controllers[k']? =
        some ⟨.notificationsDenied, o⟩ ∧ s.coordinator.flow o = some .notificationsInfo := by
      intro k' hk'
      rcases List.mem_cons.1 hk' with rfl | hold
      · rw [hbutton] at hk
        exact ⟨c, hk, by rw [h.flow, hbutton]; rfl⟩
      · exact h.opening k' hold
    cases canOpenURL with
    | true =>
      have hshows : Shows { s with opening := k :: s.opening } place c :=
        ⟨⟨h.valid, h.alive, hopening⟩, h.rootModule, h.owned, h.flow, h.configure, h.stack⟩
      exact ⟨{ s with opening := k :: s.opening }, hstep, .moves (by simp) hshows rfl (by simp)⟩
    | false => exact ⟨s, hstep, .moves (by simp) h rfl (by simp)⟩

/-- **The back button** never traps. -/
theorem Shows.back {s : LaunchFlows} {place : LaunchPlace} {c : ℕ} (h : s.Shows place c)
    (he : machine.enabled s .back) :
    ∃ t, machine.step s .back = some t ∧ Effect s c .back t := by
  have hlength : 1 < place.screens.length := by
    have hstack := congrArg List.length h.stack
    rw [List.length_map, List.length_map] at hstack
    rw [← hstack]
    exact he
  have hback : ∀ place' : LaunchPlace, place.screens = place.top :: place'.screens →
      place'.screens ≠ [] → place'.top.flow = place.top.flow →
      ∃ t, machine.step s .back = some t ∧ Effect s c .back t := by
    intro place' hscreens hrest hflow
    obtain ⟨v, r, hpop, hshows⟩ := h.pop place' hscreens hrest hflow
    refine ⟨{ s with router := r }, ?_, .moves (by simp) (hshows r rfl) rfl (by simp)⟩
    simp only [machine, hpop, Option.map_some]
  cases place with
  | login => simp [LaunchPlace.screens] at hlength
  | signUp => exact hback .login rfl (by simp [LaunchPlace.screens]) rfl
  | onboarding => simp [LaunchPlace.screens] at hlength
  | notificationsPermission => simp [LaunchPlace.screens] at hlength
  | notificationsDenied =>
    exact hback .notificationsPermission rfl (by simp [LaunchPlace.screens]) rfl
  | tabbar => simp [LaunchPlace.screens] at hlength

/-- **No event traps.** -/
theorem Shows.step {s : LaunchFlows} {place : LaunchPlace} {c : ℕ} (h : s.Shows place c)
    {e : Event} (he : machine.enabled s e) :
    ∃ t, machine.step s e = some t ∧ Effect s c e t := by
  cases e with
  | start dict =>
    obtain ⟨hcoordinator, hshows⟩ := h.toWired.start (DeepLinkOption.build dict)
    exact ⟨_, rfl, .starts hcoordinator hshows⟩
  | press button =>
    obtain ⟨k, controller, hvisible, hscreen⟩ := he
    obtain ⟨k', hvisible', -⟩ := h.visible_eq
    rw [hvisible'] at hvisible
    cases hvisible
    exact h.press hscreen
  | back => exact h.back he
  | opened k =>
    obtain ⟨t, -, ht, heffect, -⟩ := h.opened he
    exact ⟨t, ht, heffect⟩

/-- After every event a flow is on screen. -/
theorem Effect.shows {s t : LaunchFlows} {c : ℕ} {e : Event} (h : Effect s c e t) :
    ∃ place c', t.Shows place c' := by
  cases h with
  | starts _ hshows => exact ⟨_, _, hshows⟩
  | finishes _ _ _ _ _ _ _ hshows => exact ⟨_, _, hshows⟩
  | moves _ hshows => exact ⟨_, _, hshows⟩

end LaunchFlows

end Alarma
