import Alarma.Parents.BaseCoordinator
import Alarma.Router.RouterImp

/-!
# The tabs

`TabbarCoordinator` starts the coordinator of a tab the first time the tab is
selected; what it asks is whether the navigation controller of the tab is empty.
The first tab is started by `startFlow` as well.  When the selected tab is selected again,
UIKit pops its navigation controller to the root.

* `start`, `runGroupFlow`, `runSettingsFlow`, `startFlow`, `didSelect` — the
  methods of the coordinator and of the tab bar, which calls its closures.
* `machine` — selecting tabs, calls of the routers of the coordinators that were
  started, and going back in a tab.
* `Effect` — what an event starts, and what it keeps.
* `flows_started_once` — the flow of a tab is started exactly once if the tab is the first
  or has been selected, and not at all otherwise; the coordinator retains exactly the
  coordinators of the tabs that show something; and a tab that is selected again keeps its
  root.
-/

namespace Alarma

/-- The tabs, each with a navigation controller of its own. -/
inductive Tab where
  | home | settings
  deriving DecidableEq, Repr

/-- The tabs in the order of the tab bar. -/
def Tab.all : List Tab := [.home, .settings]

/-- What the closures of the tab bar run. -/
inductive TabFlow where
  /-- `runGroupFlow` -/
  | group
  /-- `runSettingsFlow` -/
  | settings
  deriving DecidableEq, Repr

/-- The flow that belongs in a tab. -/
def Tab.flow : Tab → TabFlow
  | home => .group
  | settings => .settings

/-- The coordinator of a flow, and its router. -/
structure StartedFlow (Completion : Type) where
  /-- A `GroupCoordinator` or a `SettingsCoordinator`. -/
  flow : TabFlow
  /-- The navigation controller its router was made for. -/
  navController : Tab
  completions : UIViewController → Option Completion

/-- The coordinator, number `0` of the coordinators, with its tab bar. -/
structure TabbarCoordinator (Completion : Type) where
  /-- The stacks of the navigation controllers, the top first. -/
  viewControllers : Tab → List UIViewController
  selectedIndex : ℕ
  /-- The closure the tab bar calls when the flow starts. -/
  onViewDidLoad : Option TabFlow
  /-- The closure it calls when the first tab is selected. -/
  onGroupFlowSelect : Option TabFlow
  /-- The closure it calls when the second tab is selected. -/
  onSettingsFlowSelect : Option TabFlow
  coordinators : Coordinators
  /-- The flows of the coordinators numbered from `1`, in the order they were
  created. -/
  flows : List (StartedFlow Completion)

namespace RouterImp

variable {Completion : Type}

/-- One call of a router; what the completions do that it runs are further calls. -/
def perform (listed : List UIViewController → List UIViewController) (r : RouterImp Completion) :
    RouterCall Completion → Option (RouterImp Completion)
  | .push module completion => r.push module completion
  | .popModule => some r.popModule.2
  | .popToRootModule => some (r.popToRootModule listed).2
  | .setRootModule module => some (r.setRootModule module)

/-- Running completions leaves the stack alone. -/
theorem viewControllers_runCompletions (controllers : List UIViewController)
    (r : RouterImp Completion) :
    (r.runCompletions controllers).2.viewControllers = r.viewControllers := by
  induction controllers generalizing r with
  | nil => rfl
  | cons c controllers ih =>
    rw [runCompletions, runCompletion_eq, ih]
    rfl

/-- **No call empties the stack.** -/
theorem perform_ne_nil {listed : List UIViewController → List UIViewController}
    {r t : RouterImp Completion} {call : RouterCall Completion} (hr : r.viewControllers ≠ [])
    (ht : r.perform listed call = some t) : t.viewControllers ≠ [] := by
  obtain ⟨stack, hroot⟩ : ∃ stack, r.rootController = some stack := by
    refine Option.ne_none_iff_exists'.1 fun hnone => hr ?_
    rw [viewControllers, hnone]
    rfl
  have hstack := viewControllers_of_eq hroot
  cases call with
  | push module completion =>
    cases module with
    | none =>
      cases ht
      exact hr
    | some c =>
      cases hc : c.isNavigationController with
      | true =>
        simp only [perform, push, hc, if_true] at ht
        cases ht
        exact hr
      | false =>
        obtain ⟨-, hpushed, -⟩ := push_eq hc ht
        rw [viewControllers, hpushed, hroot]
        exact List.cons_ne_nil c stack
  | popModule =>
    cases ht
    rw [popModule, popViewController, hroot]
    rcases stack with _ | ⟨c, _ | ⟨d, rest⟩⟩
    · exact hr
    · exact hr
    · show (runCompletion c { r with rootController := some (d :: rest) }).2.viewControllers ≠ []
      rw [runCompletion_eq]
      exact List.cons_ne_nil d rest
  | popToRootModule =>
    cases ht
    rw [popToRootModule, popToRootViewController_eq listed hroot, viewControllers_runCompletions]
    cases stack using List.reverseRecOn with
    | nil => exact absurd hstack hr
    | append_singleton l c =>
      rw [List.getLast?_append]
      exact List.cons_ne_nil c []
  | setRootModule module =>
    cases ht
    cases module with
    | none => exact hr
    | some c =>
      rw [setRootModule, setViewControllers, viewControllers, hroot]
      exact List.cons_ne_nil c []

end RouterImp

namespace TabbarCoordinator

variable {Completion : Type}

/-- `CoordinatorFactoryImp.makeTabbarCoordinator`. -/
def makeTabbarCoordinator : TabbarCoordinator Completion where
  viewControllers := fun _ => []
  selectedIndex := 0
  onViewDidLoad := none
  onGroupFlowSelect := none
  onSettingsFlowSelect := none
  coordinators := Coordinators.root
  flows := []

/-- Give the navigation controller of a tab another stack. -/
def setStack (navController : Tab) (stack : List UIViewController)
    (c : TabbarCoordinator Completion) : TabbarCoordinator Completion :=
  { c with viewControllers := Function.update c.viewControllers navController stack }

/-- Create the coordinator of a flow, retain it, and start it.  Its `start` gives
its router the module that its factory makes as root. -/
def runFlow (flow : TabFlow) (module : UIViewController) (navController : Tab)
    (c : TabbarCoordinator Completion) : TabbarCoordinator Completion :=
  if c.viewControllers navController = [] then
    let router : RouterImp Completion := .new (c.viewControllers navController)
    let created : TabbarCoordinator Completion := { c with
      coordinators := c.coordinators.create.addDependency 0 c.coordinators.count
      flows := c.flows ++ [⟨flow, navController, router.completions⟩] }
    created.setStack navController (router.setRootModule (some module)).viewControllers
  else c

/-- The closure of `runGroupFlow`. -/
def runGroupFlow (module : UIViewController) (navController : Tab)
    (c : TabbarCoordinator Completion) : TabbarCoordinator Completion :=
  c.runFlow .group module navController

/-- The closure of `runSettingsFlow`. -/
def runSettingsFlow (module : UIViewController) (navController : Tab)
    (c : TabbarCoordinator Completion) : TabbarCoordinator Completion :=
  c.runFlow .settings module navController

/-- Call a closure, if it is installed. -/
def call (closure : Option TabFlow) (module : UIViewController) (navController : Tab)
    (c : TabbarCoordinator Completion) : TabbarCoordinator Completion :=
  match closure with
  | none => c
  | some .group => c.runGroupFlow module navController
  | some .settings => c.runSettingsFlow module navController

/-- `TabbarController.startFlow`. -/
def startFlow (module : UIViewController) (c : TabbarCoordinator Completion) :
    TabbarCoordinator Completion :=
  match Tab.all.head? with
  | none => c
  | some controller => { c.call c.onViewDidLoad module controller with selectedIndex := 0 }

/-- `TabbarCoordinator.start`. -/
def start (module : UIViewController) (c : TabbarCoordinator Completion) :
    TabbarCoordinator Completion :=
  let c := { c with onViewDidLoad := some .group }.startFlow module
  { c with onGroupFlowSelect := some .group, onSettingsFlowSelect := some .settings }

/-- `tabBarController(_:didSelect:)`; `none` is the trap on an index that is out of
range. -/
def didSelect (module : UIViewController) (c : TabbarCoordinator Completion) :
    Option (TabbarCoordinator Completion) := do
  let controller ← Tab.all[c.selectedIndex]?
  if c.selectedIndex = 0 then return c.call c.onGroupFlowSelect module controller
  else if c.selectedIndex = 1 then return c.call c.onSettingsFlowSelect module controller
  else return c

/-- What happens to the tab bar and inside the tabs. -/
inductive Event (Completion : Type) where
  /-- The user selects a tab; the module is what the factory would make. -/
  | select (index : ℕ) (module : UIViewController)
  /-- A call of the router of a coordinator, by its position in `flows`. -/
  | router (position : ℕ) (call : RouterCall Completion)
  /-- The user goes back by some screens. -/
  | back (navController : Tab) (screens : ℕ)

/-- UIKit pops the navigation controller of a tab to its root. -/
def popToRoot (navController : Tab) (c : TabbarCoordinator Completion) :
    TabbarCoordinator Completion :=
  c.setStack navController (c.viewControllers navController).getLast?.toList

/-- The machine.  UIKit pops to the root when the tab that is selected is selected again. -/
def machine (listed : List UIViewController → List UIViewController) :
    Machine (TabbarCoordinator Completion) (Event Completion) where
  enabled := fun c e =>
    match e with
    | .select index _ => index < Tab.all.length
    | .router position _ => position < c.flows.length
    | .back navController screens => screens < (c.viewControllers navController).length
  step := fun c e =>
    match e with
    | .select index module => do
      let t ← { c with selectedIndex := index }.didSelect module
      let controller ← Tab.all[index]?
      return if index = c.selectedIndex then t.popToRoot controller else t
    | .router position call => do
      let f ← c.flows[position]?
      let router := ⟨some (c.viewControllers f.navController), f.completions⟩
      let r ← RouterImp.perform listed router call
      let f' := { f with completions := r.completions }
      return { c with flows := c.flows.set position f' }.setStack f.navController r.viewControllers
    | .back navController screens =>
      some (c.setStack navController ((c.viewControllers navController).drop screens))

/-! ## What holds of the tabs -/

/-- The flow of the coordinator with a number. -/
def coordinator (c : TabbarCoordinator Completion) : ℕ → Option (StartedFlow Completion)
  | 0 => none
  | k + 1 => c.flows[k]?

/-- Each tab's flow was started at most once, and is retained. -/
structure StartedOnce (c : TabbarCoordinator Completion) : Prop where
  /-- At most one coordinator of each kind was ever created. -/
  atMostOne : ∀ flow, (c.flows.map StartedFlow.flow).count flow ≤ 1
  nodup : (c.coordinators.childCoordinators 0).Nodup
  /-- Those that are retained are those of the tabs that show something. -/
  retained : ∀ k, k ∈ c.coordinators.childCoordinators 0 ↔
    ∃ f, c.coordinator k = some f ∧ c.viewControllers f.navController ≠ []
  /-- A tab that shows something shows its own flow. -/
  shown : ∀ tab, c.viewControllers tab ≠ [] →
    ∃ k f, c.coordinator k = some f ∧ f.navController = tab ∧ f.flow = tab.flow

/-- The event selects a tab. -/
def Event.Selects : Event Completion → Tab → Prop
  | select index _, tab => Tab.all[index]? = some tab
  | _, _ => False

/-- Everything an event can do. -/
inductive Effect (c t : TabbarCoordinator Completion) : Event Completion → Prop
  /-- Selecting a tab that shows nothing starts its flow, and no other. -/
  | starts {index : ℕ} {module : UIViewController} {tab : Tab} : Tab.all[index]? = some tab →
      c.viewControllers tab = [] → t.selectedIndex = index →
      t.flows = c.flows ++ [⟨tab.flow, tab, fun _ => none⟩] →
      t.coordinators = c.coordinators.create.addDependency 0 c.coordinators.count →
      t.viewControllers = Function.update c.viewControllers tab [module] →
      Effect c t (.select index module)
  /-- Selecting another one starts nothing: it comes on screen as it was, or, if it was
  there already, pops to its root. -/
  | again {index : ℕ} {module : UIViewController} {tab : Tab} : Tab.all[index]? = some tab →
      c.viewControllers tab ≠ [] →
      t = (if index = c.selectedIndex then { c with selectedIndex := index }.popToRoot tab
        else { c with selectedIndex := index }) →
      Effect c t (.select index module)
  /-- Inside a tab nothing is started, and no tab is emptied. -/
  | inside {e : Event Completion} : (∀ tab, ¬ e.Selects tab) →
      t.flows.map StartedFlow.flow = c.flows.map StartedFlow.flow →
      t.coordinators = c.coordinators → t.selectedIndex = c.selectedIndex →
      (∀ tab, t.viewControllers tab = [] ↔ c.viewControllers tab = []) → Effect c t e

/-- What every event keeps, whatever is installed. -/
structure Valid (c : TabbarCoordinator Completion) : Prop where
  /-- A flow runs in its own tab. -/
  flow : ∀ f ∈ c.flows, f.flow = f.navController.flow
  /-- No two flows run in one tab. -/
  distinct : (c.flows.map StartedFlow.navController).Nodup
  /-- The tabs that show something are those in which a flow was started. -/
  shown : ∀ tab, c.viewControllers tab ≠ [] ↔ tab ∈ c.flows.map StartedFlow.navController
  /-- Every other coordinator is that of a flow. -/
  count : c.coordinators.count = c.flows.length + 1
  /-- All of them are retained. -/
  children : c.coordinators.childCoordinators 0 = (List.range c.flows.length).map Nat.succ

/-- The closures that `start` has installed. -/
structure Wired (c : TabbarCoordinator Completion) : Prop where
  group : c.onGroupFlowSelect = some .group
  settings : c.onSettingsFlowSelect = some .settings

theorem valid_makeTabbarCoordinator :
    (makeTabbarCoordinator : TabbarCoordinator Completion).Valid where
  flow := fun _ h => nomatch h
  distinct := List.nodup_nil
  shown := fun _ => ⟨fun h => absurd rfl h, fun h => nomatch h⟩
  count := rfl
  children := rfl

/-- Flows are told apart by their tabs. -/
theorem Tab.flow_injective : Function.Injective Tab.flow := by
  intro a b h
  cases a <;> cases b <;> first | rfl | cases h

theorem Valid.mem_children {c : TabbarCoordinator Completion} (hc : c.Valid) {k : ℕ} :
    k ∈ c.coordinators.childCoordinators 0 ↔ ∃ f, c.coordinator k = some f := by
  rw [hc.children, List.mem_map]
  constructor
  · rintro ⟨i, hi, rfl⟩
    exact ⟨_, List.getElem?_eq_getElem (List.mem_range.1 hi)⟩
  · rintro ⟨f, hf⟩
    cases k with
    | zero => cases hf
    | succ i => exact ⟨i, List.mem_range.2 (List.getElem?_eq_some_iff.1 hf).1, rfl⟩

theorem mem_flows_of_coordinator {c : TabbarCoordinator Completion} {k : ℕ}
    {f : StartedFlow Completion} (h : c.coordinator k = some f) : f ∈ c.flows := by
  cases k with
  | zero => cases h
  | succ i => exact List.mem_of_getElem? h

/-- What every event keeps is enough. -/
theorem Valid.startedOnce {c : TabbarCoordinator Completion} (hc : c.Valid) : c.StartedOnce where
  atMostOne := by
    have hflows : c.flows.map StartedFlow.flow =
        (c.flows.map StartedFlow.navController).map Tab.flow := by
      rw [List.map_map]
      exact List.map_congr_left hc.flow
    rw [hflows]
    exact List.nodup_iff_count_le_one.1 (hc.distinct.map Tab.flow_injective)
  nodup := by
    rw [hc.children]
    exact List.nodup_range.map Nat.succ_injective
  retained := by
    intro k
    rw [hc.mem_children]
    constructor
    · rintro ⟨f, hf⟩
      have hmem := mem_flows_of_coordinator hf
      exact ⟨f, hf, (hc.shown _).2 (List.mem_map_of_mem hmem)⟩
    · rintro ⟨f, hf, -⟩
      exact ⟨f, hf⟩
  shown := by
    intro tab htab
    obtain ⟨f, hmem, hnav⟩ := List.mem_map.1 ((hc.shown tab).1 htab)
    obtain ⟨i, hi⟩ := List.mem_iff_getElem?.1 hmem
    exact ⟨i + 1, f, hi, hnav, hnav ▸ hc.flow f hmem⟩

/-! ## The events -/

@[simp] theorem viewControllers_setStack_self (c : TabbarCoordinator Completion) (tab : Tab)
    (stack : List UIViewController) : (c.setStack tab stack).viewControllers tab = stack :=
  Function.update_self ..

theorem viewControllers_setStack_of_ne (c : TabbarCoordinator Completion) {tab other : Tab}
    (hne : other ≠ tab) (stack : List UIViewController) :
    (c.setStack tab stack).viewControllers other = c.viewControllers other :=
  Function.update_of_ne hne _ _

/-- A stack that is not empty leaves the other tabs, and does not empty this one. -/
theorem viewControllers_setStack_ne_nil (c : TabbarCoordinator Completion) {tab other : Tab}
    {stack : List UIViewController} (hstack : stack ≠ []) :
    (c.setStack tab stack).viewControllers other ≠ [] ↔
      other = tab ∨ c.viewControllers other ≠ [] := by
  by_cases hne : other = tab
  · simp [hne, hstack]
  · simp [hne, viewControllers_setStack_of_ne]

theorem runFlow_of_ne_nil {c : TabbarCoordinator Completion} {tab : Tab}
    (h : c.viewControllers tab ≠ []) (flow : TabFlow) (module : UIViewController) :
    c.runFlow flow module tab = c := if_neg h

/-- An empty tab is given the coordinator of its flow, and a root. -/
theorem runFlow_of_nil {c : TabbarCoordinator Completion} {tab : Tab}
    (h : c.viewControllers tab = []) (flow : TabFlow) (module : UIViewController) :
    c.runFlow flow module tab = { c with
      coordinators := c.coordinators.create.addDependency 0 c.coordinators.count
      flows := c.flows ++ [⟨flow, tab, fun _ => none⟩]
      viewControllers := Function.update c.viewControllers tab [module] } := by
  rw [runFlow, if_pos h]
  rfl

/-- The coordinator that is retained is the last in the list. -/
theorem Valid.addDependency {c : TabbarCoordinator Completion} (hc : c.Valid) :
    let coordinators := c.coordinators.create.addDependency 0 c.coordinators.count
    coordinators.count = c.flows.length + 1 + 1 ∧
      coordinators.childCoordinators 0 = (List.range (c.flows.length + 1)).map Nat.succ := by
  have hzero : 0 ≠ c.coordinators.count := by
    rw [hc.count]
    omega
  have hold : c.coordinators.create.childCoordinators 0 =
      (List.range c.flows.length).map Nat.succ := by
    rw [Coordinators.childCoordinators_create_of_ne _ hzero, hc.children]
  have hnotMem : c.coordinators.count ∉ c.coordinators.create.childCoordinators 0 := by
    rw [hold, hc.count]
    simp
  intro coordinators
  have hadd : coordinators = _ := Coordinators.addDependency_of_notMem hnotMem
  rw [hadd]
  constructor
  · show c.coordinators.count + 1 = _
    rw [hc.count]
  · rw [Coordinators.childCoordinators_setChildren_self, hold, hc.count, List.range_succ,
      List.map_append]
    rfl

/-- **Starting a flow.**  The coordinator of the flow is retained, and the closures of the
tab bar stay installed. -/
theorem Valid.runFlow {c : TabbarCoordinator Completion} (hc : c.Valid) (module : UIViewController)
    (tab : Tab) : (c.runFlow tab.flow module tab).Valid ∧
      (c.runFlow tab.flow module tab).onGroupFlowSelect = c.onGroupFlowSelect ∧
      (c.runFlow tab.flow module tab).onSettingsFlowSelect = c.onSettingsFlowSelect := by
  by_cases hempty : c.viewControllers tab = []
  · have hnew : tab ∉ c.flows.map StartedFlow.navController := fun h => (hc.shown tab).2 h hempty
    have hshows : ∀ other, Function.update c.viewControllers tab [module] other ≠ [] ↔
        other = tab ∨ c.viewControllers other ≠ [] := fun other =>
      c.viewControllers_setStack_ne_nil (List.cons_ne_nil module [])
    obtain ⟨hcount, hchildren⟩ := hc.addDependency
    rw [runFlow_of_nil hempty]
    refine ⟨⟨?_, ?_, ?_, ?_, ?_⟩, rfl, rfl⟩
    · intro f hf
      rcases List.mem_append.1 hf with hf | hf
      · exact hc.flow f hf
      · rw [List.mem_singleton.1 hf]
    · simp only [List.map_append, List.map_cons, List.map_nil]
      refine List.nodup_append.2 ⟨hc.distinct, List.nodup_singleton tab, ?_⟩
      intro a ha b hb hab
      rw [List.mem_singleton] at hb
      exact hnew (hb ▸ hab ▸ ha)
    · intro other
      rw [hshows, hc.shown, List.map_append, List.mem_append, or_comm]
      simp
    · simp only [List.length_append, List.length_singleton]
      exact hcount
    · simp only [List.length_append, List.length_singleton]
      exact hchildren
  · rw [runFlow_of_ne_nil hempty]
    exact ⟨hc, rfl, rfl⟩

/-- Selecting a tab runs the flow that belongs in it. -/
theorem didSelect_eq {c : TabbarCoordinator Completion} (hc : c.Wired) {tab : Tab}
    (htab : Tab.all[c.selectedIndex]? = some tab) (module : UIViewController) :
    c.didSelect module = some (c.runFlow tab.flow module tab) := by
  rcases hindex : c.selectedIndex with _ | _ | index
  · rw [hindex] at htab
    cases htab
    simp only [didSelect, hindex, hc.group]
    rfl
  · rw [hindex] at htab
    cases htab
    simp only [didSelect, hindex, hc.settings]
    rfl
  · rw [hindex] at htab
    cases htab

/-- Screens that change inside a tab that shows something. -/
theorem Valid.setStack {c : TabbarCoordinator Completion} (hc : c.Valid) {tab : Tab}
    {stack : List UIViewController} (hshows : c.viewControllers tab ≠ []) (hstack : stack ≠ []) :
    (c.setStack tab stack).Valid ∧
      ∀ other, (c.setStack tab stack).viewControllers other = [] ↔
        c.viewControllers other = [] := by
  have hiff : ∀ other, (c.setStack tab stack).viewControllers other ≠ [] ↔
      c.viewControllers other ≠ [] := by
    intro other
    rw [c.viewControllers_setStack_ne_nil hstack, or_iff_right_iff_imp]
    rintro rfl
    exact hshows
  exact ⟨⟨hc.flow, hc.distinct, fun other => (hiff other).trans (hc.shown other), hc.count,
    hc.children⟩, fun other => not_iff_not.1 (hiff other)⟩

/-- A router that changes its completions stays where it is. -/
theorem map_set_completions {c : TabbarCoordinator Completion} {position : ℕ}
    {f : StartedFlow Completion} (hf : c.flows[position]? = some f)
    (completions : UIViewController → Option Completion) {α : Type}
    {g : StartedFlow Completion → α} (hg : g { f with completions := completions } = g f) :
    (c.flows.set position { f with completions := completions }).map g = c.flows.map g := by
  obtain ⟨hlt, hget⟩ := List.getElem?_eq_some_iff.1 hf
  have hlt' : position < (c.flows.map g).length := by
    rw [List.length_map]
    exact hlt
  have hsame : g f = (c.flows.map g)[position] := by
    rw [List.getElem_map, hget]
  rw [List.map_set, hg, hsame, List.set_getElem_self]

/-- A router keeps its flow and its tab. -/
theorem Valid.setCompletions {c : TabbarCoordinator Completion} (hc : c.Valid) {position : ℕ}
    {f : StartedFlow Completion} (hf : c.flows[position]? = some f)
    (completions : UIViewController → Option Completion) :
    { c with flows := c.flows.set position { f with completions := completions } }.Valid := by
  have hmap := map_set_completions hf completions (g := StartedFlow.navController) rfl
  refine ⟨?_, ?_, ?_, ?_, ?_⟩
  · intro g hg
    rcases List.mem_or_eq_of_mem_set hg with hg | rfl
    · exact hc.flow g hg
    · exact hc.flow f (List.mem_of_getElem? hf)
  · rw [hmap]
    exact hc.distinct
  · intro tab
    rw [hmap]
    exact hc.shown tab
  · rw [List.length_set]
    exact hc.count
  · rw [List.length_set]
    exact hc.children

/-- A navigation controller that shows its root alone stays as it is. -/
theorem popToRoot_of_root {c : TabbarCoordinator Completion} {tab : Tab} {module : UIViewController}
    (h : c.viewControllers tab = [module]) : c.popToRoot tab = c := by
  have hstack : Function.update c.viewControllers tab [module] = c.viewControllers := by
    rw [← h, Function.update_eq_self]
  rw [popToRoot, h]
  show { c with viewControllers := Function.update c.viewControllers tab [module] } = c
  rw [hstack]

/-- What a selection comes to. -/
theorem step_select {listed : List UIViewController → List UIViewController}
    {c : TabbarCoordinator Completion} (hw : c.Wired) {index : ℕ} {tab : Tab}
    (htab : Tab.all[index]? = some tab) (module : UIViewController) :
    (machine listed).step c (.select index module) =
      let t := { c with selectedIndex := index }.runFlow tab.flow module tab
      some (if index = c.selectedIndex then t.popToRoot tab else t) := by
  have hselected : ({ c with selectedIndex := index } : TabbarCoordinator Completion).Wired :=
    ⟨hw.group, hw.settings⟩
  simp only [machine, didSelect_eq hselected htab, htab]
  rfl

/-- **Selecting a tab** starts its flow if the tab is empty, and nothing otherwise. -/
theorem Valid.select {listed : List UIViewController → List UIViewController}
    {c t : TabbarCoordinator Completion} (hc : c.Valid) (hw : c.Wired) {index : ℕ} {tab : Tab}
    (htab : Tab.all[index]? = some tab) {module : UIViewController}
    (ht : (machine listed).step c (.select index module) = some t) :
    t.Valid ∧ t.Wired ∧ Effect c t (.select index module) := by
  let selected : TabbarCoordinator Completion := { c with selectedIndex := index }
  have hselected : selected.Valid := ⟨hc.flow, hc.distinct, hc.shown, hc.count, hc.children⟩
  obtain ⟨hvalid, hgroup, hsettings⟩ := hselected.runFlow module tab
  have ht := Option.some.inj ((step_select hw htab module).symm.trans ht)
  by_cases hempty : c.viewControllers tab = []
  · -- the flow has just given the tab its root, so there is nothing to pop
    have hroot : (selected.runFlow tab.flow module tab).viewControllers tab = [module] := by
      rw [runFlow_of_nil (c := selected) hempty]
      exact Function.update_self ..
    have hstarted : t = selected.runFlow tab.flow module tab := by
      rw [← ht]
      exact ite_eq_right_iff.2 fun _ => popToRoot_of_root hroot
    rw [hstarted]
    refine ⟨hvalid, ⟨hgroup.trans hw.group, hsettings.trans hw.settings⟩, ?_⟩
    rw [runFlow_of_nil (c := selected) hempty]
    exact .starts htab hempty rfl rfl rfl rfl
  · have hsame : selected.runFlow tab.flow module tab = selected :=
      runFlow_of_ne_nil (c := selected) hempty _ _
    have hagain : t = if index = c.selectedIndex then selected.popToRoot tab else selected := by
      rw [← ht, hsame]
    have hroot : (c.viewControllers tab).getLast?.toList ≠ [] := by
      rw [List.getLast?_eq_getLast_of_ne_nil hempty]
      exact List.cons_ne_nil _ _
    have hpopped : (selected.popToRoot tab).Valid :=
      (Valid.setStack (c := selected) hselected hempty hroot).1
    have htValid : t.Valid ∧ t.Wired := by
      rw [hagain]
      split
      · exact ⟨hpopped, hw.group, hw.settings⟩
      · exact ⟨hselected, hw.group, hw.settings⟩
    exact ⟨htValid.1, htValid.2, .again htab hempty hagain⟩

/-- **One event.** -/
theorem Valid.step {listed : List UIViewController → List UIViewController}
    {c t : TabbarCoordinator Completion} (hc : c.Valid) (hw : c.Wired) {e : Event Completion}
    (he : (machine listed).enabled c e) (ht : (machine listed).step c e = some t) :
    t.Valid ∧ t.Wired ∧ Effect c t e := by
  cases e with
  | select index module => exact hc.select hw (List.getElem?_eq_getElem he) ht
  | router position call =>
    obtain ⟨f, hf, ht⟩ := Option.bind_eq_some_iff.1 ht
    obtain ⟨r, hr, ht⟩ := Option.bind_eq_some_iff.1 ht
    cases ht
    have hshows : c.viewControllers f.navController ≠ [] :=
      (hc.shown _).2 (List.mem_map_of_mem (List.mem_of_getElem? hf))
    have hstack := RouterImp.perform_ne_nil (r := ⟨some _, f.completions⟩) hshows hr
    obtain ⟨hvalid, hiff⟩ := (hc.setCompletions hf r.completions).setStack hshows hstack
    refine ⟨hvalid, ⟨hw.group, hw.settings⟩, .inside (fun _ h => h) ?_ rfl rfl hiff⟩
    exact map_set_completions hf r.completions rfl
  | back tab screens =>
    cases ht
    have hlt : screens < (c.viewControllers tab).length := he
    have hshows : c.viewControllers tab ≠ [] := List.ne_nil_of_length_pos (by omega)
    have hstack : (c.viewControllers tab).drop screens ≠ [] :=
      List.ne_nil_of_length_pos (by rw [List.length_drop]; omega)
    obtain ⟨hvalid, hiff⟩ := hc.setStack hshows hstack
    exact ⟨hvalid, ⟨hw.group, hw.settings⟩, .inside (fun _ h => h) rfl rfl rfl hiff⟩

/-- The tab bar as it is after `start`. -/
theorem valid_start (module : UIViewController) :
    (start module (makeTabbarCoordinator : TabbarCoordinator Completion)).Valid ∧
      (start module (makeTabbarCoordinator : TabbarCoordinator Completion)).Wired := by
  have hmade : { (makeTabbarCoordinator : TabbarCoordinator Completion) with
      onViewDidLoad := some .group }.Valid := by
    have h : (makeTabbarCoordinator : TabbarCoordinator Completion).Valid :=
      valid_makeTabbarCoordinator
    exact ⟨h.flow, h.distinct, h.shown, h.count, h.children⟩
  have h := (hmade.runFlow module .home).1
  exact ⟨⟨h.flow, h.distinct, h.shown, h.count, h.children⟩, rfl, rfl⟩

/-! ## Over a run -/

/-- **The flows that an event starts**: that of a tab that it selects. -/
theorem Effect.mem_flows {c t : TabbarCoordinator Completion} (hc : c.Valid) {e : Event Completion}
    (h : Effect c t e) (tab : Tab) :
    tab.flow ∈ t.flows.map StartedFlow.flow ↔
      tab.flow ∈ c.flows.map StartedFlow.flow ∨ e.Selects tab := by
  cases h with
  | @starts index module selected htab hempty _ hflows =>
    rw [hflows, List.map_append, List.mem_append]
    refine or_congr_right ?_
    show tab.flow ∈ [selected.flow] ↔ Tab.all[index]? = some tab
    rw [List.mem_singleton, htab, Option.some_inj, Tab.flow_injective.eq_iff, eq_comm]
  | @again index module selected htab hshows ht =>
    have hflows : t.flows = c.flows := by
      rw [ht]
      split <;> rfl
    rw [hflows, iff_self_or]
    intro hselects
    obtain rfl : selected = tab := Option.some.inj (htab.symm.trans hselects)
    -- its flow has been started, as the tab shows something
    obtain ⟨f, hf, hnav⟩ := List.mem_map.1 ((hc.shown selected).1 hshows)
    exact List.mem_map.2 ⟨f, hf, hnav ▸ hc.flow f hf⟩
  | inside hselects hflows _ _ _ =>
    rw [hflows, iff_self_or]
    exact fun h => absurd h (hselects tab)

/-- **The flows that a run starts** are those of the tabs that it selects. -/
theorem mem_flows_last {listed : List UIViewController → List UIViewController}
    {c : TabbarCoordinator Completion}
    {tr : Trace (TabbarCoordinator Completion) (Event Completion)} (hr : (machine listed).Run c tr)
    (hc : c.Valid) (hw : c.Wired) (tab : Tab) :
    tab.flow ∈ (Trace.last c tr).flows.map StartedFlow.flow ↔
      tab.flow ∈ c.flows.map StartedFlow.flow ∨ ∃ p ∈ tr, p.1.Selects tab := by
  induction hr with
  | nil => simp
  | @cons c t e tr he ht _ ih =>
    obtain ⟨hvalid, hwired, heffect⟩ := hc.step hw he ht
    rw [Machine.last_cons, ih hvalid hwired, heffect.mem_flows hc, or_assoc,
      List.exists_mem_cons_iff]

/-- **Each tab's flow is started exactly once.**  `start` starts the flow of the first tab.
After every event of a run of selections, calls of the routers and ways back, at most one
coordinator of each kind has been created and the coordinator retains exactly those of the
tabs that show something.  Selecting an empty tab starts its flow; one that was started
keeps what it shows, or its root if it was on screen already.  So at the end the flow of a
tab has been started if the tab is the first or was selected in the run, and then once. -/
theorem flows_started_once {listed : List UIViewController → List UIViewController}
    (module : UIViewController) {tr : Trace (TabbarCoordinator Completion) (Event Completion)}
    (hr : (machine listed).Run (start module makeTabbarCoordinator) tr) :
    let c := start module (makeTabbarCoordinator : TabbarCoordinator Completion)
    (c.StartedOnce ∧ c.flows = [⟨.group, .home, fun _ => none⟩] ∧
        c.viewControllers .home = [module] ∧ c.viewControllers .settings = []) ∧
      Machine.EachTransition (fun c e t => t.StartedOnce ∧ Effect c t e) c tr ∧
      ∀ tab, ((Trace.last c tr).flows.map StartedFlow.flow).count tab.flow ≤ 1 ∧
        (tab.flow ∈ (Trace.last c tr).flows.map StartedFlow.flow ↔
          tab = .home ∨ ∃ p ∈ tr, p.1.Selects tab) := by
  obtain ⟨hvalid, hwired⟩ := @valid_start Completion module
  have hstep : ∀ {c : TabbarCoordinator Completion} {e : Event Completion} {t},
      c.Valid ∧ c.Wired → (machine listed).enabled c e → (machine listed).step c e = some t →
      (t.Valid ∧ t.Wired) ∧ t.StartedOnce ∧ Effect c t e := by
    intro c e t hc he ht
    obtain ⟨hvalid, hwired, heffect⟩ := hc.1.step hc.2 he ht
    exact ⟨⟨hvalid, hwired⟩, hvalid.startedOnce, heffect⟩
  refine ⟨⟨hvalid.startedOnce, rfl, rfl, rfl⟩, hr.eachTransition hstep ⟨hvalid, hwired⟩, ?_⟩
  intro tab
  have hlast := hr.invariant (I := fun c => c.Valid ∧ c.Wired) (fun hc he ht => (hstep hc he ht).1)
    ⟨hvalid, hwired⟩
  refine ⟨hlast.1.startedOnce.atMostOne tab.flow, ?_⟩
  rw [mem_flows_last hr hvalid hwired]
  refine or_congr_left ?_
  show tab.flow ∈ [Tab.home.flow] ↔ tab = .home
  rw [List.mem_singleton, Tab.flow_injective.eq_iff]

/-- The user opens the second tab, and the settings flow is created.  Then a screen is
pushed in the first one, which is selected twice: the second time it pops to its root.  The
two coordinators that there are by then are the only ones. -/
theorem flows_started_once_switching :
    ∃ tr, (machine id).Run (start ⟨1, false⟩ (makeTabbarCoordinator : TabbarCoordinator ℕ)) tr ∧
      tr.map Prod.fst = [.select 1 ⟨2, false⟩, .router 0 (.push (some ⟨3, false⟩) none),
        .select 0 ⟨4, false⟩, .select 0 ⟨5, false⟩] ∧
      tr.map (fun p => p.2.flows.map StartedFlow.flow) = List.replicate 4 [.group, .settings] ∧
      tr.map (fun p => (p.2.viewControllers .home, p.2.viewControllers .settings)) =
        [([⟨1, false⟩], [⟨2, false⟩]), ([⟨3, false⟩, ⟨1, false⟩], [⟨2, false⟩]),
          ([⟨3, false⟩, ⟨1, false⟩], [⟨2, false⟩]), ([⟨1, false⟩], [⟨2, false⟩])] ∧
      Machine.EachTransition (fun c e t => t.StartedOnce ∧ Effect c t e)
        (start ⟨1, false⟩ makeTabbarCoordinator) tr := by
  have hr : (machine id).Run (start ⟨1, false⟩ (makeTabbarCoordinator : TabbarCoordinator ℕ))
      [(.select 1 ⟨2, false⟩, _), (.router 0 (.push (some ⟨3, false⟩) none), _),
        (.select 0 ⟨4, false⟩, _), (.select 0 ⟨5, false⟩, _)] :=
    .cons (Nat.lt_succ_self 1) rfl (.cons (Nat.succ_pos 1) rfl (.cons (Nat.succ_pos 1) rfl
      (.cons (Nat.succ_pos 1) rfl (.nil _))))
  exact ⟨_, hr, rfl, rfl, rfl, (flows_started_once ⟨1, false⟩ hr).2.1⟩

end TabbarCoordinator

end Alarma
