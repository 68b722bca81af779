import Alarma.Application.Installation

/-!
# The tab bar of an installation

`Installation` keeps of the tab bar its selected tab and the screens of the groups tab.
The code has a `TabbarCoordinator` there, whose tabs start coordinators of their own the
first time they are selected, routers, and navigation controllers with view controllers
on their stacks.  Here the two are held against each other, at every moment.

* `Navigated` — what an event of the groups tab does to the stack: it pushes one screen,
  pops one, or leaves it.
* `MainTabs.machine` — the events of the tab bar that is on screen.
* `TabbarCoordinator.Shows` — the code's tab bar has a tab selected and shows a stack of
  screens, on the view controllers that the factories have made so far.
* `MainTabs.followed` — the calls that the code makes then, from its `start` on, are a run
  of `TabbarCoordinator.machine` that shows the model at every moment.
* `tabs_on_screen` — so it is with the tab bar of any life.
-/

namespace Alarma

/-! ## The stack of the groups tab -/

/-- What happens to the stack of screens of a tab. -/
inductive Navigated (screens : List Screen) : List Screen → Prop
  | stays : Navigated screens screens
  | push (screen : Screen) : Navigated screens (screen :: screens)
  | popModule {screen next : Screen} {rest : List Screen} :
      screens = screen :: next :: rest → Navigated screens (next :: rest)

theorem GroupCoordinator.navigated_popModule (c : GroupCoordinator) :
    Navigated c.viewControllers c.popModule.viewControllers := by
  unfold GroupCoordinator.popModule
  split
  · rename_i screen next rest hstack
    exact .popModule hstack
  · exact .stays

namespace GroupsTab

variable {setReminder : SetReminder} {t u : GroupsTab}

theorem viewControllers_onList {handle : ListScreen Store Group GroupViewModel →
    Option (ListScreen Store Group GroupViewModel)} (h : t.onList handle = some u) :
    u.coordinator.viewControllers = t.coordinator.viewControllers := by
  obtain ⟨s, -, hs⟩ := Option.bind_eq_some_iff.1 h
  cases hs
  rfl

theorem viewControllers_onDetail {handle : ListScreen Store Alarm AlarmViewModel →
    Option (ListScreen Store Alarm AlarmViewModel)} (h : t.onDetail handle = some u) :
    u.coordinator.viewControllers = t.coordinator.viewControllers := by
  unfold onDetail at h
  split at h
  · cases h
    rfl
  · obtain ⟨s, -, hs⟩ := Option.bind_eq_some_iff.1 h
    cases hs
    rfl

/-- A screen that comes on screen leaves the stack. -/
theorem viewControllers_appear (h : t.appear = some u) :
    u.coordinator.viewControllers = t.coordinator.viewControllers := by
  unfold appear at h
  split at h
  · exact viewControllers_onList h
  · exact viewControllers_onDetail h
  · cases h
    rfl

/-- A group that is saved has its screen pushed. -/
theorem navigated_saveAction {text : Option String} {env : Env}
    (h : t.saveAction text env = some u) :
    Navigated t.coordinator.viewControllers u.coordinator.viewControllers := by
  unfold saveAction at h
  split at h
  · cases h
  · rw [viewControllers_onList h]
    exact .stays
  · obtain ⟨refreshed, hrefreshed, h⟩ := Option.bind_eq_some_iff.1 h
    obtain ⟨group, -, h⟩ := Option.bind_eq_some_iff.1 h
    have hstack := viewControllers_appear h
    rw [hstack]
    show Navigated _ (.groupDetail group :: refreshed.coordinator.viewControllers)
    rw [viewControllers_onList hrefreshed]
    exact .push _

/-- An alarm that is created pops its screen, unless no group is selected. -/
theorem navigated_onAlarmCreated {alarm : Alarm} {env : Env}
    (h : t.onAlarmCreated setReminder alarm env = some u) :
    Navigated t.coordinator.viewControllers u.coordinator.viewControllers := by
  obtain ⟨coordinator, hcoordinator, h⟩ := Option.bind_eq_some_iff.1 h
  rw [viewControllers_appear h]
  show Navigated _ coordinator.viewControllers
  unfold GroupCoordinator.onAlarmCreated at hcoordinator
  split at hcoordinator
  · cases hcoordinator
    exact .stays
  · obtain ⟨device, -, hpopped⟩ := Option.bind_eq_some_iff.1 hcoordinator
    cases hpopped
    exact GroupCoordinator.navigated_popModule { t.coordinator with device := device }

/-- The creation flow finishes without a group, and pushes nothing. -/
theorem viewControllers_onHideButtonTap (h : t.onHideButtonTap = some u) :
    u.coordinator.viewControllers = t.coordinator.viewControllers := by
  obtain ⟨coordinator, hcoordinator, h⟩ := Option.bind_eq_some_iff.1 h
  rw [viewControllers_appear h]
  obtain ⟨k, -, hfinish⟩ := Option.bind_eq_some_iff.1 hcoordinator
  obtain ⟨coordinators, -, hfinished⟩ := Option.bind_eq_some_iff.1 hfinish
  cases hfinished
  rfl

/-- **What an event does to the stack**: at most one screen is pushed or popped. -/
theorem navigated_of_step {e : Event} (h : (machine setReminder).step t e = some u) :
    Navigated t.coordinator.viewControllers u.coordinator.viewControllers := by
  simp only [machine] at h
  split at h
  · rw [viewControllers_onList h]
    exact .stays
  · rw [viewControllers_onDetail h]
    exact .stays
  · obtain ⟨group, -, h⟩ := Option.bind_eq_some_iff.1 h
    rw [viewControllers_appear h]
    exact .push _
  · exact navigated_saveAction h
  · rw [viewControllers_appear h]
    exact .push _
  · exact navigated_onAlarmCreated h
  · rw [viewControllers_appear h]
    exact GroupCoordinator.navigated_popModule t.coordinator
  · rw [viewControllers_onHideButtonTap h]
    exact .stays
  · cases h
    exact .stays

/-- Selecting the tab again leaves its root. -/
theorem viewControllers_popToRoot (h : t.popToRoot = some u) :
    u.coordinator.viewControllers = t.coordinator.viewControllers.getLast?.toList :=
  viewControllers_appear h

end GroupsTab

/-! ## The tab bar that is on screen -/

namespace MainTabs

/-- What happens to the tab bar. -/
inductive Event where
  | select (tab : Tab)
  | groups (event : GroupsTab.Event)

/-- The machine, while the flows of the application stay where they are. -/
def machine (setReminder : SetReminder) : Machine MainTabs Event where
  enabled := fun m e =>
    match e with
    | .select _ => m.groups.coordinator.presented = none
    | .groups event => m.selected = .home ∧ (GroupsTab.machine setReminder).enabled m.groups event
  step := fun m e =>
    match e with
    | .select tab => m.select tab
    | .groups event => ((GroupsTab.machine setReminder).step m.groups event).map fun groups =>
        { m with groups := groups }

/-- What a selection does to the selected tab, and to the stack of the groups tab. -/
theorem select_eq {m m' : MainTabs} {tab : Tab} (h : m.select tab = some m') :
    m'.selected = tab ∧ m'.groups.coordinator.viewControllers =
      if tab = .home ∧ m.selected = .home then
        m.groups.coordinator.viewControllers.getLast?.toList
      else m.groups.coordinator.viewControllers := by
  obtain ⟨groups, selected⟩ := m
  cases tab with
  | settings =>
    cases h
    exact ⟨rfl, rfl⟩
  | home =>
    cases selected with
    | home =>
      obtain ⟨u, hu, rfl⟩ := Option.map_eq_some_iff.1 h
      exact ⟨rfl, GroupsTab.viewControllers_popToRoot hu⟩
    | settings =>
      obtain ⟨u, hu, rfl⟩ := Option.map_eq_some_iff.1 h
      exact ⟨rfl, GroupsTab.viewControllers_appear hu⟩

end MainTabs

/-! ## What the view controllers show -/

/-- What the factories make for the tabs. -/
inductive TabModule where
  | groups (screen : Screen)
  /-- By `makeSettingsOutput`. -/
  | settings

/-- The screen of a view controller; they are numbered as they are made. -/
def shownBy (made : List TabModule) (controller : UIViewController) : Option TabModule :=
  made[controller.id]?

/-- The one that is made next. -/
def nextModule (made : List TabModule) : UIViewController := ⟨made.length, false⟩

theorem shownBy_nextModule (made : List TabModule) (module : TabModule) :
    shownBy (made ++ [module]) (nextModule made) = some module := List.getElem?_concat_length

/-- What has been made shows what it did. -/
theorem map_shownBy {made made' : List TabModule} (h : made <+: made')
    {stack : List UIViewController} {l : List TabModule}
    (hstack : stack.map (shownBy made) = l.map some) :
    stack.map (shownBy made') = l.map some := by
  rw [← hstack]
  refine List.map_congr_left fun controller hmem => ?_
  have hshown : shownBy made controller ∈ l.map some := hstack ▸ List.mem_map_of_mem hmem
  obtain ⟨module, -, hmodule⟩ := List.mem_map.1 hshown
  rw [← hmodule]
  obtain ⟨more, rfl⟩ := h
  have hlt : controller.id < made.length := (List.getElem?_eq_some_iff.1 hmodule.symm).1
  rw [hmodule]
  exact List.getElem?_append_left hlt

/-- Whatever is on the stack was made before. -/
theorem nextModule_notMem {made : List TabModule} {stack : List UIViewController}
    {shown : List TabModule} (hstack : stack.map (shownBy made) = shown.map some) :
    nextModule made ∉ stack := by
  intro hmem
  have hshown : shownBy made (nextModule made) ∈ shown.map some :=
    hstack ▸ List.mem_map_of_mem hmem
  obtain ⟨module, -, hmodule⟩ := List.mem_map.1 hshown
  exact absurd (List.getElem?_eq_some_iff.1 hmodule.symm).1 (lt_irrefl _)

namespace TabbarCoordinator

variable {Completion : Type} {listed : List UIViewController → List UIViewController}

/-- The tab bar of the code has a tab selected and shows the screens of the groups tab; the
settings tab shows its screen once it has been selected. -/
structure Shows (made : List TabModule) (tab : Tab) (screens : List Screen)
    (c : TabbarCoordinator Completion) : Prop where
  valid : c.Valid
  wired : c.Wired
  selected : Tab.all[c.selectedIndex]? = some tab
  groups : (c.viewControllers .home).map (shownBy made) = (screens.map .groups).map some
  settings : (c.viewControllers .settings).map (shownBy made) = [some .settings] ∨
    c.viewControllers .settings = [] ∧ tab = .home
  /-- The router of the groups tab was made first, and keeps no completion. -/
  router : c.flows[0]? = some ⟨.group, .home, fun _ => none⟩

variable {made : List TabModule} {tab : Tab} {screens : List Screen}
  {c : TabbarCoordinator Completion}

theorem Shows.mono {made' : List TabModule} (h : made <+: made') (hc : c.Shows made tab screens) :
    c.Shows made' tab screens :=
  ⟨hc.valid, hc.wired, hc.selected, map_shownBy h hc.groups,
    hc.settings.imp_left (map_shownBy (l := [.settings]) h), hc.router⟩

/-- The groups tab has been started. -/
theorem Shows.ne_nil (hc : c.Shows made tab screens) : c.viewControllers .home ≠ [] :=
  (hc.valid.shown .home).2 (List.mem_map.2 ⟨_, List.mem_of_getElem? hc.router, rfl⟩)

/-- Another stack in the groups tab. -/
theorem Shows.setStack (hc : c.Shows made tab screens) {stack : List UIViewController}
    {screens' : List Screen} (hne : stack ≠ [])
    (hstack : stack.map (shownBy made) = (screens'.map .groups).map some) :
    (c.setStack .home stack).Shows made tab screens' where
  valid := (hc.valid.setStack hc.ne_nil hne).1
  wired := ⟨hc.wired.group, hc.wired.settings⟩
  selected := hc.selected
  groups := by
    rw [viewControllers_setStack_self]
    exact hstack
  settings := by
    rw [viewControllers_setStack_of_ne c (by decide) stack]
    exact hc.settings
  router := hc.router

/-- A call of the router of the groups tab that keeps its completions. -/
theorem Shows.step_router (hc : c.Shows made tab screens) {call : RouterCall Completion}
    {stack : List UIViewController}
    (hcall : RouterImp.perform listed ⟨some (c.viewControllers .home), fun _ => none⟩ call =
      some ⟨some stack, fun _ => none⟩) :
    (machine listed).enabled c (.router 0 call) ∧
      (machine listed).step c (.router 0 call) = some (c.setStack .home stack) := by
  obtain ⟨hlt, hget⟩ := List.getElem?_eq_some_iff.1 hc.router
  have hflows : c.flows.set 0 ⟨.group, .home, fun _ => none⟩ = c.flows := by
    rw [← hget, List.set_getElem_self]
  refine ⟨hlt, ?_⟩
  simp only [machine, hc.router, Option.bind_eq_bind, Option.bind_some, hcall, hflows]
  rfl

/-- **A push** shows the screen that was made for it. -/
theorem Shows.push (hc : c.Shows made tab screens) (screen : Screen) :
    ∃ t, (machine listed).enabled c (.router 0 (.push (some (nextModule made)) none)) ∧
      (machine listed).step c (.router 0 (.push (some (nextModule made)) none)) = some t ∧
      t.Shows (made ++ [.groups screen]) tab (screen :: screens) := by
  have hnew : nextModule made ∉ c.viewControllers .home := nextModule_notMem hc.groups
  have hpush : RouterImp.perform listed ⟨some (c.viewControllers .home), fun _ => none⟩
      (.push (some (nextModule made)) (none : Option Completion)) =
        some ⟨some (nextModule made :: c.viewControllers .home), fun _ => none⟩ :=
    if_neg hnew
  obtain ⟨henabled, hstep⟩ := hc.step_router hpush
  have hmono := hc.mono (List.prefix_append made [.groups screen])
  refine ⟨_, henabled, hstep, hmono.setStack (List.cons_ne_nil _ _) ?_⟩
  rw [List.map_cons, shownBy_nextModule, hmono.groups]
  rfl

/-- **A pop** shows the screen below. -/
theorem Shows.popModule {screen next : Screen} {rest : List Screen}
    (hc : c.Shows made tab (screen :: next :: rest)) :
    ∃ t, (machine listed).enabled c (.router 0 .popModule) ∧
      (machine listed).step c (.router 0 .popModule) = some t ∧
      t.Shows made tab (next :: rest) := by
  have hgroups := hc.groups
  obtain ⟨controller, below, hstack, -, hbelow⟩ := List.map_eq_cons_iff.1 hgroups
  obtain ⟨second, lower, rfl, -, -⟩ := List.map_eq_cons_iff.1 hbelow
  have hpop : RouterImp.perform listed ⟨some (c.viewControllers .home), fun _ => none⟩
      (.popModule : RouterCall Completion) = some ⟨some (second :: lower), fun _ => none⟩ := by
    rw [hstack]
    rfl
  obtain ⟨henabled, hstep⟩ := hc.step_router hpop
  exact ⟨_, henabled, hstep, hc.setStack (List.cons_ne_nil _ _) hbelow⟩

theorem all_idxOf (tab : Tab) : Tab.all[Tab.all.idxOf tab]? = some tab := by
  cases tab <;> rfl

theorem idxOf_of_all {index : ℕ} (h : Tab.all[index]? = some tab) : Tab.all.idxOf tab = index := by
  rcases index with _ | _ | index <;> cases h <;> rfl

/-- A tab that shows something comes on screen. -/
theorem Shows.comes (hc : c.Shows made tab screens) {selected : Tab}
    (hshows : c.viewControllers selected ≠ []) :
    ({ c with selectedIndex := Tab.all.idxOf selected } : TabbarCoordinator Completion).Shows made
      selected screens where
  valid := ⟨hc.valid.flow, hc.valid.distinct, hc.valid.shown, hc.valid.count, hc.valid.children⟩
  wired := ⟨hc.wired.group, hc.wired.settings⟩
  selected := all_idxOf selected
  groups := hc.groups
  settings := by
    rcases hc.settings with hsettings | ⟨hempty, -⟩
    · exact Or.inl hsettings
    · refine Or.inr ⟨hempty, ?_⟩
      cases selected with
      | home => rfl
      | settings => exact absurd hempty hshows
  router := hc.router

/-- So does the root of the tab on screen. -/
theorem Shows.popToRoot (hc : c.Shows made tab screens) :
    (c.popToRoot tab).Shows made tab
      (if tab = .home then screens.getLast?.toList else screens) := by
  cases tab with
  | home =>
    have hroot : (c.viewControllers .home).getLast?.toList ≠ [] := by
      rw [List.getLast?_eq_getLast_of_ne_nil hc.ne_nil]
      exact List.cons_ne_nil _ _
    rw [if_pos rfl]
    refine hc.setStack hroot ?_
    have hlast := congrArg (fun stack => stack.getLast?.toList) hc.groups
    simpa only [List.getLast?_map, Option.toList_map] using hlast
  | settings =>
    rcases hc.settings with hsettings | ⟨-, hhome⟩
    · obtain ⟨controller, hstack, -⟩ := List.map_eq_singleton_iff.1 hsettings
      rw [popToRoot_of_root hstack]
      exact hc
    · cases hhome

/-- **A selection** makes the settings screen if there is none. -/
theorem Shows.select (hc : c.Shows made tab screens) (selected : Tab) :
    ∃ made' t, made <+: made' ∧
      (machine listed).enabled c (.select (Tab.all.idxOf selected) (nextModule made)) ∧
      (machine listed).step c (.select (Tab.all.idxOf selected) (nextModule made)) = some t ∧
      t.Shows made' selected
        (if selected = .home ∧ tab = .home then screens.getLast?.toList else screens) := by
  have htab := all_idxOf selected
  have henabled : Tab.all.idxOf selected < Tab.all.length := (List.getElem?_eq_some_iff.1 htab).1
  obtain ⟨t, hstep⟩ : ∃ t, (machine listed).step c
      (.select (Tab.all.idxOf selected) (nextModule made)) = some t :=
    ⟨_, step_select hc.wired htab (nextModule made)⟩
  obtain ⟨hvalid, hwired, heffect⟩ := hc.valid.select hc.wired htab hstep
  cases heffect with
  | @starts _ _ started hstarted hempty hindex hflows _ hviews =>
    obtain rfl : selected = started := Option.some.inj (htab.symm.trans hstarted)
    -- the groups tab shows something already
    cases selected with
    | home => exact absurd hempty hc.ne_nil
    | settings =>
      have hmono := hc.mono (List.prefix_append made [.settings])
      refine ⟨made ++ [.settings], t, List.prefix_append .., henabled, hstep, hvalid, hwired, ?_,
        ?_, Or.inl ?_, ?_⟩
      · rw [hindex]
        rfl
      · rw [hviews, Function.update_of_ne (by decide)]
        exact hmono.groups
      · rw [hviews, Function.update_self, List.map_singleton, shownBy_nextModule]
      · rw [hflows, List.getElem?_append_left (List.getElem?_eq_some_iff.1 hc.router).1]
        exact hc.router
  | @again _ _ again hagain hshows ht =>
    obtain rfl : selected = again := Option.some.inj (htab.symm.trans hagain)
    refine ⟨made, t, List.prefix_rfl, henabled, hstep, ?_⟩
    have hcomes := hc.comes hshows
    by_cases hsame : Tab.all.idxOf selected = c.selectedIndex
    · have htabs : selected = tab := by
        rw [← idxOf_of_all hc.selected] at hsame
        cases selected <;> cases tab <;> first | rfl | cases hsame
      subst htabs
      rw [ht, if_pos hsame]
      simpa using hcomes.popToRoot
    · have hother : ¬ (selected = .home ∧ tab = .home) := by
        rintro ⟨rfl, rfl⟩
        exact hsame (idxOf_of_all hc.selected)
      rw [ht, if_neg hsame, if_neg hother]
      exact hcomes
  | inside hselects => exact absurd htab (hselects selected)

/-- **What the groups tab does to its stack**, a call of its router does.  The back button
leaves the stack that a pop leaves: the router keeps no completion to run. -/
theorem Shows.navigated (hc : c.Shows made tab screens) {screens' : List Screen}
    (h : Navigated screens screens') :
    ∃ made' steps, made <+: made' ∧ (machine listed).Run c steps ∧
      (Trace.last c steps).Shows made' tab screens' := by
  cases h with
  | stays => exact ⟨made, [], List.prefix_rfl, .nil c, hc⟩
  | push screen =>
    obtain ⟨t, henabled, hstep, ht⟩ := hc.push screen
    exact ⟨_, [(_, t)], List.prefix_append .., .cons henabled hstep (.nil t), ht⟩
  | popModule hstack =>
    subst hstack
    obtain ⟨t, henabled, hstep, ht⟩ := hc.popModule
    exact ⟨made, [(_, t)], List.prefix_rfl, .cons henabled hstep (.nil t), ht⟩

end TabbarCoordinator

/-! ## At every moment -/

section

variable {Completion : Type} {setReminder : SetReminder}

/-- The tab bar of the code shows the one of the model. -/
def MainTabs.ShownBy (made : List TabModule) (m : MainTabs) (c : TabbarCoordinator Completion) :
    Prop :=
  c.Shows made m.selected m.groups.coordinator.viewControllers

/-- One event. -/
theorem MainTabs.ShownBy.step {listed : List UIViewController → List UIViewController}
    {made : List TabModule} {m m' : MainTabs} {e : MainTabs.Event}
    {c : TabbarCoordinator Completion} (hc : m.ShownBy made c)
    (hm' : (machine setReminder).step m e = some m') :
    ∃ made' steps, made <+: made' ∧ (TabbarCoordinator.machine listed).Run c steps ∧
      m'.ShownBy made' (Trace.last c steps) := by
  cases e with
  | select tab =>
    obtain ⟨hselected, hstack⟩ := MainTabs.select_eq hm'
    obtain ⟨made', t, hmade, henabled, hstep, ht⟩ := TabbarCoordinator.Shows.select hc tab
    refine ⟨made', [(_, t)], hmade, .cons henabled hstep (.nil t), ?_⟩
    rw [MainTabs.ShownBy, hselected, hstack]
    exact ht
  | groups event =>
    obtain ⟨groups, hgroups, rfl⟩ := Option.map_eq_some_iff.1 hm'
    exact TabbarCoordinator.Shows.navigated hc (GroupsTab.navigated_of_step hgroups)

end

namespace Installation

variable {setReminder : SetReminder}

/-- The tab bar was started on what the last flow found, and has come to where it is by its
own events. -/
def Opened (setReminder : SetReminder) (a : Installation) : Prop :=
  ∀ m ∈ a.tabs, ∃ groups tr, GroupsTab.start a.found = some groups ∧
    (MainTabs.machine setReminder).Run ⟨groups, .home⟩ tr ∧
    Trace.last (⟨groups, .home⟩ : MainTabs) tr = m

/-- Without a tab bar there is nothing to say. -/
theorem opened_of_none {a : Installation} (h : a.tabs = none) : a.Opened setReminder := by
  intro m hm
  rw [h] at hm
  cases hm

/-- One more event of the tab bar. -/
theorem Opened.event {a : Installation} (ha : a.Opened setReminder) {m m' : MainTabs}
    (hm : a.tabs = some m) {e : MainTabs.Event} (he : (MainTabs.machine setReminder).enabled m e)
    (hm' : (MainTabs.machine setReminder).step m e = some m') :
    ({ a with tabs := some m' } : Installation).Opened setReminder := by
  intro m'' hm''
  cases hm''
  obtain ⟨groups, tr, hstart, hr, rfl⟩ := ha m hm
  exact ⟨groups, tr ++ [(e, m')], hstart, Machine.run_append_iff.2 ⟨hr, .cons he hm' (.nil m')⟩,
    Machine.last_append ..⟩

/-- A flow that starts makes a new tab bar, or none. -/
theorem opened_begin {a b : Installation} {flow : LaunchInstructor} (h : a.begin flow = some b) :
    b.Opened setReminder := by
  cases flow with
  | main =>
    obtain ⟨groups, hstart, rfl⟩ := Option.map_eq_some_iff.1 h
    rintro m hm
    cases hm
    exact ⟨groups, [], hstart, .nil _, rfl⟩
  | auth =>
    cases h
    exact opened_of_none rfl
  | onboarding =>
    cases h
    exact opened_of_none rfl
  | notificationsInfo =>
    cases h
    exact opened_of_none rfl

/-- Whatever flows are started. -/
theorem Opened.foldlM {flows : List LaunchInstructor} {a b : Installation}
    (ha : a.Opened setReminder) (h : flows.foldlM begin a = some b) : b.Opened setReminder := by
  induction flows generalizing a with
  | nil =>
    cases h
    exact ha
  | cons flow flows ih =>
    obtain ⟨next, hnext, h⟩ := Option.bind_eq_some_iff.1 h
    exact ih (opened_begin hnext) h

/-- **One event** leaves the tab bar, starts another, or is one of its own. -/
theorem Opened.step {a b : Installation} (ha : a.Opened setReminder) {e : Event}
    (he : (machine setReminder).enabled a e) (hb : (machine setReminder).step a e = some b) :
    b.Opened setReminder := by
  cases e with
  | launch event =>
    obtain ⟨launch, -, hb⟩ := Option.bind_eq_some_iff.1 hb
    exact Opened.foldlM (a := { a with launch := launch }) ha hb
  | select tab =>
    obtain ⟨m, hm, hb⟩ := Option.bind_eq_some_iff.1 hb
    obtain ⟨m', hm', hb⟩ := Option.bind_eq_some_iff.1 hb
    cases hb
    have hmodal : m.groups.coordinator.presented = none := by
      simpa [isPresenting, hm] using he.2
    exact ha.event hm (e := .select tab) hmodal hm'
  | groups event =>
    obtain ⟨m, hm, hselected, henabled⟩ := he
    obtain ⟨m', hm', hb⟩ := Option.bind_eq_some_iff.1 hb
    obtain rfl : m' = m := Option.some.inj (hm'.symm.trans hm)
    obtain ⟨groups, hgroups, hb⟩ := Option.bind_eq_some_iff.1 hb
    cases hb
    exact ha.event hm (e := .groups event) ⟨hselected, henabled⟩ (Option.map_eq_some_iff.2
      ⟨groups, hgroups, rfl⟩)
  | cutOff date env =>
    obtain ⟨m, -, hb⟩ := Option.bind_eq_some_iff.1 hb
    obtain ⟨device, -, hb⟩ := Option.bind_eq_some_iff.1 hb
    cases hb
    exact opened_of_none rfl
  | terminate =>
    cases hb
    exact opened_of_none rfl

end Installation

end Alarma
