import Alarma.Application.LaunchRuns
import Alarma.Flows.GroupsTabRuns
import Alarma.Flows.TabbarCoordinator

/-!
# The life of an installation

The launch flows, the tab bar and the groups tab as one program, over one Realm file
and one event store.  Every main flow has a tab bar of its own, which starts with a new
list of groups; the process can end between any two events, and between the two writes of
the save button, and be launched again.  Of the application only the Realm file and the
event store survive that: the flags are globals of the process.

* `Installation.machine` — the events of the launch flows, of the tab bar and of the
  groups tab, and the ends of the process.
* `Valid.step` — no event traps that comes back from `setReminder`, the tab bar is there
  when the flags ask for it, and only the groups tab writes.
* `life_never_traps`, `life_refines_catalogue` — so over whole lives.
* `save_ends_process` — with the helper that the app makes, the save button is the end of
  the process, and no reminder is ever set.
* `relaunch_lists_groups` — what has been written is listed after the next launch.
-/

namespace Alarma

namespace GroupsTab

/-- The process ends in the save button, after `update` and before a reminder is set:
what is on the device then. -/
def cutOff (date : Date) (env : Env) (t : GroupsTab) : Option Device :=
  match t.screen with
  | some (.alarmCreation group) =>
    match Device.updateCall t.coordinator.selectedGroup
        (AlarmCreationController.alarm group date) with
    | none => some t.coordinator.device
    | some call => t.coordinator.device.write env call
  | _ => some t.coordinator.device

/-- The user selects the tab that is selected already: UIKit pops its navigation
controller to the root. -/
def popToRoot (t : GroupsTab) : Option GroupsTab :=
  appear { t with
    coordinator := { t.coordinator with
      viewControllers := t.coordinator.viewControllers.getLast?.toList }
    groupDetails := [] }

end GroupsTab

/-- The tab bar on screen.  The settings tab keeps nothing. -/
structure MainTabs where
  groups : GroupsTab
  selected : Tab

/-- `didSelect`: the first tab has been started, and its screen appears again. -/
def MainTabs.select (tab : Tab) (m : MainTabs) : Option MainTabs :=
  match tab, m.selected with
  | .settings, _ => some { m with selected := .settings }
  | .home, .home => m.groups.popToRoot.map fun groups => ⟨groups, .home⟩
  | .home, .settings => m.groups.appear.map fun groups => ⟨groups, .home⟩

/-- The application on a device. -/
structure Installation where
  launch : LaunchFlows
  /-- The Realm file and the event store as the last flow to be started found them. -/
  found : Device
  /-- The tab bar, if the flow on screen is the main one. -/
  tabs : Option MainTabs

namespace Installation

/-- Before the first launch. -/
def onDevice (device : Device) : Installation := ⟨.initial, device, none⟩

/-- The Realm file and the event store. -/
def device (a : Installation) : Device :=
  (a.tabs.map fun m => m.groups.coordinator.device).getD a.found

/-- The coordinator of a flow starts: that of the main flow with the list of groups. -/
def begin (a : Installation) (flow : LaunchInstructor) : Option Installation :=
  match flow with
  | .main => (GroupsTab.start a.device).map fun groups =>
      { a with found := a.device, tabs := some ⟨groups, .home⟩ }
  | _ => some { a with found := a.device, tabs := none }

/-- The launch flows have gone on, and may have started a flow. -/
def enter (launch : LaunchFlows) (a : Installation) : Option Installation :=
  (launch.coordinator.flows.drop a.launch.coordinator.flows.length).foldlM begin
    { a with launch := launch }

/-- A modal screen is over the tab bar. -/
def isPresenting (a : Installation) : Bool :=
  a.tabs.any fun m => m.groups.coordinator.presented.isSome

/-- What the platform and the user do. -/
inductive Event where
  | launch (event : LaunchFlows.Event)
  | select (tab : Tab)
  | groups (event : GroupsTab.Event)
  /-- The process ends in the save button of the alarm screen, between the write and the
  reminder: it is killed there, or its stack overflows in `setReminder`. -/
  | cutOff (date : Date) (env : Env)
  /-- The process ends between two events. -/
  | terminate

/-- The machine.  What UIKit makes of a flow that is started while a modal screen is over
the tab bar is left open. -/
def machine (setReminder : SetReminder) : Machine Installation Event where
  enabled := fun a e =>
    match e with
    | .launch event => LaunchFlows.machine.enabled a.launch event ∧ a.isPresenting = false
    | .select _ => a.tabs.isSome ∧ a.isPresenting = false
    | .groups event => ∃ m ∈ a.tabs, m.selected = .home ∧
        (GroupsTab.machine setReminder).enabled m.groups event
    | .cutOff date env => ∃ m ∈ a.tabs, m.selected = .home ∧
        (GroupsTab.machine setReminder).enabled m.groups (.saveAlarmButtonClicked date env)
    | .terminate => True
  step := fun a e =>
    match e with
    | .launch event => (LaunchFlows.machine.step a.launch event).bind fun launch => a.enter launch
    | .select tab => do
      let m ← a.tabs
      let m ← m.select tab
      return { a with tabs := some m }
    | .groups event => do
      let m ← a.tabs
      let groups ← (GroupsTab.machine setReminder).step m.groups event
      return { a with tabs := some { m with groups := groups } }
    | .cutOff date env => do
      let m ← a.tabs
      let device ← m.groups.cutOff date env
      return onDevice device
    | .terminate => some (onDevice a.device)

/-! ## One step -/

variable {setReminder : SetReminder}

/-- What holds at every moment of a life. -/
structure Valid (a : Installation) : Prop where
  launch : a.launch = .initial ∨ a.launch.Launched
  /-- The tab bar is there when the flags ask for it. -/
  main : a.tabs.isSome ↔ LaunchInstructor.configure a.launch.coordinator.flags = .main
  groups : ∀ m ∈ a.tabs, m.groups.Valid
  integrity : a.device.store.Integrity

theorem valid_onDevice {device : Device} (hs : device.store.Integrity) :
    (onDevice device).Valid where
  launch := Or.inl rfl
  main := by simp [onDevice, LaunchFlows.initial, ApplicationCoordinator.initial,
    LaunchInstructor.configure]
  groups := fun _ hm => nomatch hm
  integrity := hs

theorem Valid.coordinator {a : Installation} (ha : a.Valid) : a.launch.coordinator.Valid := by
  rcases ha.launch with hinitial | ⟨place, c, hshows⟩
  · rw [hinitial]
    exact ApplicationCoordinator.valid_initial
  · exact hshows.valid

/-- The tab bar has just been made. -/
def Fresh (a : Installation) : Prop :=
  ∀ m ∈ a.tabs, GroupsTab.start a.device = some m.groups ∧ m.selected = .home

/-- What an event of the launch flows starts is the flow that the flags then ask for. -/
theorem flows_of_launch {s t : LaunchFlows} {c : ℕ} {e : LaunchFlows.Event}
    (hs : s.coordinator.Valid) (h : LaunchFlows.Effect s c e t) :
    t.coordinator = s.coordinator ∨ t.coordinator.flows =
      s.coordinator.flows ++ [LaunchInstructor.configure t.coordinator.flags] := by
  cases h with
  | starts hcoordinator _ =>
    have hl := ApplicationCoordinator.launches_runFlow hs s.coordinator.flags
    rw [← ApplicationCoordinator.start_eq, ← hcoordinator] at hl
    rw [hl.flags_eq]
    exact Or.inr hl.flows
  | finishes _ _ _ _ _ _ hl _ =>
    rw [hl.flags_eq]
    exact Or.inr hl.flows
  | moves _ _ hsame _ => exact Or.inl hsame

/-- A flow starts on a coherent Realm file. -/
theorem begin_spec {a : Installation} (hs : a.device.store.Integrity) (flow : LaunchInstructor) :
    ∃ b, a.begin flow = some b ∧ b.launch = a.launch ∧ b.device = a.device ∧ b.Fresh ∧
      (b.tabs.isSome ↔ flow = .main) ∧ ∀ m ∈ b.tabs, m.groups.Valid := by
  cases flow with
  | main =>
    obtain ⟨groups, hstart, hshows, hcoordinator, -⟩ := GroupsTab.start_spec hs
    have hdevice : groups.coordinator.device = a.device := by
      rw [hcoordinator]
      rfl
    refine ⟨{ a with found := a.device, tabs := some ⟨groups, .home⟩ }, ?_, rfl, hdevice, ?_, ?_,
      ?_⟩
    · simp [begin, hstart]
    · rintro m hm
      cases hm
      refine ⟨?_, rfl⟩
      show GroupsTab.start groups.coordinator.device = some groups
      rw [hdevice, hstart]
    · simp
    · rintro m hm
      cases hm
      exact hshows.valid_of_start
  | _ =>
    refine ⟨{ a with found := a.device, tabs := none }, rfl, rfl, rfl, ?_, by simp, ?_⟩
    · rintro m hm
      cases hm
    · rintro m hm
      cases hm

/-- The launch flows go on: nothing is written, and a tab bar that is new is as it was
made. -/
theorem Valid.enter {a : Installation} (ha : a.Valid) {launch : LaunchFlows} {c : ℕ}
    {e : LaunchFlows.Event} (heffect : LaunchFlows.Effect a.launch c e launch) :
    ∃ b, a.enter launch = some b ∧ b.Valid ∧ b.launch = launch ∧ b.device = a.device ∧
      (a.Fresh → b.Fresh) := by
  have hlaunched : launch.Launched := heffect.shows
  rcases flows_of_launch ha.coordinator heffect with hsame | hflows
  · refine ⟨{ a with launch := launch }, ?_, ⟨Or.inr hlaunched, ?_, ha.groups, ha.integrity⟩, rfl,
      rfl, id⟩
    · rw [Installation.enter, hsame, List.drop_length]
      rfl
    · rw [hsame]
      exact ha.main
  · obtain ⟨b, hbegin, hlaunch, hdevice, hfresh, hmain, hgroups⟩ := begin_spec
      (a := { a with launch := launch }) ha.integrity
      (LaunchInstructor.configure launch.coordinator.flags)
    refine ⟨b, ?_, ⟨Or.inr ?_, ?_, hgroups, ?_⟩, hlaunch, hdevice, fun _ => hfresh⟩
    · rw [Installation.enter, hflows, List.drop_left]
      simpa using hbegin
    · rw [hlaunch]
      exact hlaunched
    · rw [hlaunch]
      exact hmain
    · rw [hdevice]
      exact ha.integrity

/-! ## The tab bar and the groups tab -/

/-- The root of the navigation controller comes on screen. -/
theorem valid_popToRoot {t : GroupsTab} (h : t.Valid) (hmodal : t.coordinator.presented = none) :
    ∃ u, t.popToRoot = some u ∧ u.Valid ∧ u.coordinator.device = t.coordinator.device := by
  obtain ⟨place, hshows, -⟩ := h
  have hroot : t.coordinator.viewControllers.getLast?.toList = [.groupsList] := by
    rw [hshows.viewControllers]
    cases place <;> rfl
  have hlist : GroupsTab.Shows { t with
      coordinator := { t.coordinator with
        viewControllers := t.coordinator.viewControllers.getLast?.toList }
      groupDetails := [] } .groupsList := by
    have hvalid := hshows.coordinator
    refine ⟨⟨?_, hvalid.retained, hvalid.leaf, hvalid.count⟩, hroot, ?_,
      by simp [GroupsTab.Place.group], by simp [GroupsTab.Place.group], hshows.integrity,
      hshows.groupsList, rfl, by simp [GroupsTab.Place.group]⟩
    · show GroupCoordinator.Stacked t.coordinator.viewControllers.getLast?.toList
      rw [hroot]
      exact .list
    · show t.coordinator.presented.isSome = false
      rw [hmodal]
      rfl
  obtain ⟨u, happear, hu, hcoordinator, -⟩ := hlist.appear
  exact ⟨u, happear, hu.valid_of_start, by rw [hcoordinator]⟩

/-- The screen of the tab comes on screen again. -/
theorem valid_appear {t : GroupsTab} (h : t.Valid) :
    ∃ u, t.appear = some u ∧ u.Valid ∧ u.coordinator.device = t.coordinator.device := by
  obtain ⟨place, hshows, hloaded⟩ := h
  obtain ⟨u, happear, hu, hcoordinator, -, hread⟩ := hshows.appear
  refine ⟨u, happear, ⟨place, hu, fun hmodal => ?_⟩, by rw [hcoordinator]⟩
  cases place with
  | groupDetail g =>
    obtain ⟨d, hd, hin, -⟩ := hread
    intro d' hd'
    rw [hd, List.mem_singleton] at hd'
    rw [hd']
    exact hin.loaded
  | groupsList =>
    have hsame : u = t := hread
    rw [hsame]
    exact hloaded hmodal
  | groupCreate g => cases hmodal
  | alarmCreation g =>
    have hsame : u = t := hread
    rw [hsame]
    exact hloaded hmodal

/-- Selecting a tab writes nothing. -/
theorem select_spec {m : MainTabs} (hm : m.groups.Valid)
    (hmodal : m.groups.coordinator.presented = none) (tab : Tab) :
    ∃ m', m.select tab = some m' ∧ m'.groups.Valid ∧
      m'.groups.coordinator.device = m.groups.coordinator.device := by
  obtain ⟨groups, selected⟩ := m
  cases tab with
  | settings => exact ⟨⟨groups, .settings⟩, rfl, hm, rfl⟩
  | home =>
    cases selected with
    | home =>
      obtain ⟨u, hu, hvalid, hdevice⟩ := valid_popToRoot hm hmodal
      exact ⟨⟨u, .home⟩, by simp [MainTabs.select, hu], hvalid, hdevice⟩
    | settings =>
      obtain ⟨u, hu, hvalid, hdevice⟩ := valid_appear hm
      exact ⟨⟨u, .home⟩, by simp [MainTabs.select, hu], hvalid, hdevice⟩

/-- On the alarm screen the process ends after an attempt at the update of its group. -/
theorem cutOff_spec {t : GroupsTab} (h : t.Valid) {date : Date} {env : Env}
    (he : (GroupsTab.machine setReminder).enabled t (.saveAlarmButtonClicked date env)) :
    ∃ g store, t.screen = some (.alarmCreation g) ∧ g.groupID ∈ t.store.groups.keys ∧
      Draws t.store env ∧
      (Call.update (AlarmCreationController.alarm g date) g.groupID).attempt env t.store =
        some store ∧
      t.cutOff date env = some { t.coordinator.device with store := store } := by
  obtain ⟨place, hshows, -⟩ := h
  have hscreen := hshows.screen_eq
  cases place with
  | alarmCreation g =>
    have hdraws : Draws t.store env := by
      simpa [GroupsTab.machine, hscreen, GroupsTab.Place.screen] using he
    obtain ⟨store, hattempt, -⟩ := hshows.integrity.attempt hdraws
      (.update (AlarmCreationController.alarm g date) g.groupID) rfl
    refine ⟨g, store, hscreen, hshows.stored g rfl, hdraws, hattempt, ?_⟩
    simp only [GroupsTab.cutOff, hscreen, GroupsTab.Place.screen, hshows.selected g rfl,
      Device.updateCall, Option.map_some]
    exact Device.write_eq hattempt
  | _ => simp [GroupsTab.machine, hscreen, GroupsTab.Place.screen] at he

/-! ## Any event -/

/-- The event comes back from `setReminder`, if it calls it. -/
def Returns (setReminder : SetReminder) (a : Installation) : Event → Prop
  | .groups event => ∀ m ∈ a.tabs, m.groups.Returns setReminder event
  | _ => True

/-- What an event does to the device: nothing, or, with all flags raised, what the
groups tab does with it, as far as it comes. -/
inductive OnDevice (setReminder : SetReminder) (a b : Installation) : Event → Prop
  /-- Nothing is written. -/
  | keeps {e : Event} : b.device = a.device → OnDevice setReminder a b e
  /-- The groups tab handles it. -/
  | groups {event : GroupsTab.Event} {t u : GroupsTab} :
      a.launch.coordinator.flags = ⟨true, true, true⟩ →
      t.coordinator.device = a.device → u.coordinator.device = b.device →
      GroupsTab.OnDevice setReminder t event u → OnDevice setReminder a b (.groups event)
  /-- The save button, up to the reminder. -/
  | cutOff {date : Date} {env : Env} {g : Group} :
      a.launch.coordinator.flags = ⟨true, true, true⟩ → Draws a.device.store env →
      g.groupID ∈ a.device.store.groups.keys →
      (Call.update (AlarmCreationController.alarm g date) g.groupID).attempt env a.device.store =
        some b.device.store →
      (∃ m ∈ a.tabs, m.groups.screen = some (.alarmCreation g)) →
      b.device.eventStore = a.device.eventStore → OnDevice setReminder a b (.cutOff date env)

theorem flags_of_main {flags : Flags} (h : LaunchInstructor.configure flags = .main) :
    flags = ⟨true, true, true⟩ := by
  obtain ⟨isAuthorized, onboardingWasShown, notificationsAllowed⟩ := flags
  cases isAuthorized <;> cases onboardingWasShown <;> cases notificationsAllowed <;>
    first | rfl | cases h

/-- The end of the process in the save button. -/
theorem Valid.cutOff_step {a : Installation} (ha : a.Valid) {date : Date} {env : Env}
    (he : (machine setReminder).enabled a (.cutOff date env)) :
    ∃ m g store, a.tabs = some m ∧ m.groups.screen = some (.alarmCreation g) ∧
      g.groupID ∈ a.device.store.groups.keys ∧ Draws a.device.store env ∧
      (Call.update (AlarmCreationController.alarm g date) g.groupID).attempt env
        a.device.store = some store ∧
      (machine setReminder).step a (.cutOff date env) =
        some (onDevice { a.device with store := store }) := by
  obtain ⟨launch, found, tabs⟩ := a
  obtain ⟨m, rfl, -, henabled⟩ := he
  obtain ⟨g, store, hscreen, hstored, hdraws, hattempt, hcut⟩ :=
    cutOff_spec (ha.groups m rfl) henabled
  refine ⟨m, g, store, rfl, hscreen, hstored, hdraws, hattempt, ?_⟩
  simp only [machine, hcut, Option.bind_eq_bind, Option.bind_some]
  rfl

/-- **One event**, whatever it is: if it comes back it does not trap, and only the groups
tab writes. -/
theorem Valid.step {a : Installation} (ha : a.Valid) {e : Event}
    (he : (machine setReminder).enabled a e) (hreturns : a.Returns setReminder e) :
    ∃ b, (machine setReminder).step a e = some b ∧ b.Valid ∧ OnDevice setReminder a b e := by
  obtain ⟨launch, found, tabs⟩ := a
  cases e with
  | launch event =>
    obtain ⟨t, c, ht, heffect⟩ := LaunchFlows.step_effect ha.launch he.1
    obtain ⟨b, hb, hvalid, -, hdevice, -⟩ := ha.enter heffect
    refine ⟨b, ?_, hvalid, .keeps hdevice⟩
    simp only [machine, ht, Option.bind_some]
    exact hb
  | select tab =>
    obtain ⟨hsome, hmodal⟩ := he
    obtain ⟨m, rfl⟩ := Option.isSome_iff_exists.1 hsome
    have hpresented : m.groups.coordinator.presented = none := by
      simpa [isPresenting] using hmodal
    obtain ⟨m', hm', hgroups, hdevice⟩ := select_spec (ha.groups m rfl) hpresented tab
    refine ⟨⟨launch, found, some m'⟩, ?_, ⟨ha.launch, ha.main, ?_, ?_⟩, .keeps hdevice⟩
    · simp [machine, hm']
    · rintro m'' hm''
      cases hm''
      exact hgroups
    · show m'.groups.coordinator.device.store.Integrity
      rw [hdevice]
      exact ha.integrity
  | groups event =>
    obtain ⟨m, rfl, -, henabled⟩ := he
    obtain ⟨u, hu⟩ := (ha.groups m rfl).step henabled (hreturns m rfl)
    refine ⟨⟨launch, found, some { m with groups := u }⟩, ?_, ⟨ha.launch, ha.main, ?_, ?_⟩,
      .groups (flags_of_main (ha.main.1 rfl)) rfl rfl hu.onDevice⟩
    · simp [machine, hu.step_eq]
    · rintro m' hm'
      cases hm'
      exact hu.valid
    · obtain ⟨place, hshows, -⟩ := hu.valid
      exact hshows.integrity
  | cutOff date env =>
    obtain ⟨m, g, store, hm, hscreen, hstored, hdraws, hattempt, hstep⟩ := ha.cutOff_step he
    have hintegrity : Store.Integrity _ := ha.integrity
    obtain ⟨store', hattempt', hint, -⟩ := hintegrity.attempt hdraws
      (.update (AlarmCreationController.alarm g date) g.groupID) rfl
    have hsame : store' = store := Option.some.inj (hattempt'.symm.trans hattempt)
    subst hsame
    exact ⟨_, hstep, valid_onDevice hint, .cutOff (flags_of_main (ha.main.1 (by rw [hm]; rfl)))
      hdraws hstored hattempt ⟨m, hm, hscreen⟩ rfl⟩
  | terminate => exact ⟨_, rfl, valid_onDevice ha.integrity, .keeps rfl⟩

/-- An event that is taken has come back. -/
theorem Valid.returns_of_step {a b : Installation} (ha : a.Valid) {e : Event}
    (hb : (machine setReminder).step a e = some b) : a.Returns setReminder e := by
  cases e with
  | groups event =>
    intro m hm
    obtain ⟨m', hm', hb⟩ := Option.bind_eq_some_iff.1 hb
    obtain rfl : m' = m := Option.some.inj (hm'.symm.trans hm)
    obtain ⟨groups, hgroups, -⟩ := Option.bind_eq_some_iff.1 hb
    exact (ha.groups m' hm).returns_of_step hgroups
  | _ => trivial

/-- A step of the machine is one of the steps that are known. -/
theorem Valid.step_of_eq {a b : Installation} (ha : a.Valid) {e : Event}
    (he : (machine setReminder).enabled a e) (hb : (machine setReminder).step a e = some b) :
    b.Valid ∧ OnDevice setReminder a b e := by
  obtain ⟨b', hb', hvalid, hdevice⟩ := ha.step he (ha.returns_of_step hb)
  rw [hb] at hb'
  cases hb'
  exact ⟨hvalid, hdevice⟩

theorem Valid.run {a : Installation} (ha : a.Valid) {tr : Trace Installation Event}
    (hr : (machine setReminder).Run a tr) : (Trace.last a tr).Valid :=
  hr.invariant (fun hv he hb => (hv.step_of_eq he hb).1) ha

/-! ## Whole lives -/

/-- What an event does to the Realm file is a coherent call of the repositories, or
nothing. -/
theorem Valid.run_coherent {a : Installation} (ha : a.Valid) {tr : Trace Installation Event}
    (hr : (machine setReminder).Run a tr) :
    ∃ tr', coherentRepository.Run a.device.store tr' ∧
      (Trace.last a tr).device.store = Trace.last a.device.store tr' := by
  obtain ⟨tr', hr', -, hlast⟩ := hr.simulate (N := coherentRepository)
    (R := fun a s => a.Valid ∧ a.device.store = s)
    (by
      rintro a e b s ⟨ha, rfl⟩ he hb
      obtain ⟨hvalid, hdevice⟩ := ha.step_of_eq he hb
      cases hdevice with
      | keeps hsame => exact Or.inl ⟨hvalid, congrArg Device.store hsame⟩
      | @groups event t u _ ht hu hon =>
        rcases hon with hsame | ⟨op, env, -, hdraws, hfiled, -, hop⟩
        · exact Or.inl ⟨hvalid, congrArg Device.store (hu.symm.trans (hsame.trans ht))⟩
        · have hdraws' : Draws t.coordinator.device.store env := hdraws
          rw [ht] at hdraws' hfiled hop
          rw [hu] at hop
          rcases GroupsTab.coherent_of_device (e := (op, env)) ⟨hdraws', hfiled⟩ hop with
            hsame | ⟨call, hcall, hstep⟩
          · exact Or.inl ⟨hvalid, hsame⟩
          · exact Or.inr ⟨(call, env), b.device.store, hcall, hstep, hvalid, rfl⟩
      | @cutOff date env g _ hdraws _ hattempt _ _ =>
        exact Or.inr ⟨(.update (AlarmCreationController.alarm g date) g.groupID, env), _,
          ⟨hdraws, rfl⟩, hattempt, hvalid, rfl⟩)
    ⟨ha, rfl⟩
  exact ⟨tr', hr', hlast⟩

/-- A first launch, a group, the tabs, the alarm screen, and the end of the process in its
save button. -/
theorem sample_life (setReminder : SetReminder) :
    ∃ tr b, (machine setReminder).Run (onDevice Device.new) tr ∧
      tr.map Prod.fst = [.launch (.start none), .launch (.press .loginButtonTapped),
        .launch (.press .startButtonTapped), .launch (.press .allowButtonPressed),
        .groups (.saveAction (some "Work") ⟨Sample.drawn 0, true⟩), .groups .hideButtonClicked,
        .select .settings, .select .home, .groups .addAlarmButtonClicked] ∧
      (machine setReminder).enabled (Trace.last (onDevice Device.new) tr)
        (.cutOff 0 ⟨Sample.drawn 1, true⟩) ∧
      (machine setReminder).step (Trace.last (onDevice Device.new) tr)
        (.cutOff 0 ⟨Sample.drawn 1, true⟩) = some b := by
  have hr : (machine setReminder).Run (onDevice Device.new)
      [(.launch (.start none), _), (.launch (.press .loginButtonTapped), _),
        (.launch (.press .startButtonTapped), _), (.launch (.press .allowButtonPressed), _),
        (.groups (.saveAction (some "Work") ⟨Sample.drawn 0, true⟩), _),
        (.groups .hideButtonClicked, _), (.select .settings, _), (.select .home, _),
        (.groups .addAlarmButtonClicked, _)] :=
    .cons ⟨trivial, rfl⟩ rfl (.cons ⟨⟨_, _, rfl, rfl⟩, rfl⟩ rfl (.cons ⟨⟨_, _, rfl, rfl⟩, rfl⟩ rfl
      (.cons ⟨⟨_, _, rfl, rfl⟩, rfl⟩ rfl (.cons ⟨_, rfl, rfl, Sample.fresh_drawn (by decide)⟩ rfl
        (.cons ⟨_, rfl, rfl, Option.some_ne_none _⟩ rfl (.cons ⟨rfl, rfl⟩ rfl
          (.cons ⟨rfl, rfl⟩ rfl (.cons ⟨_, rfl, rfl, trivial⟩ rfl (.nil _)))))))))
  exact ⟨_, _, hr, rfl, ⟨_, rfl, rfl, Sample.fresh_drawn (by decide)⟩, rfl⟩

/-- **A life never traps** of itself.  From a device whose Realm file coherent calls can
leave, over any run of launches, notifications, buttons, tabs and the groups tab, with any
writes failing, and the process ending between any two events or in the save button: an
event traps exactly if it waits for `setReminder`, the Realm file is again such a file, the
tab bar is there exactly when all three flags are raised, and nothing is written but by the
groups tab, with all flags raised. -/
theorem life_never_traps {device : Device}
    (hs : coherentRepository.Reachable Store.empty device.store) {tr : Trace Installation Event}
    (hr : (machine setReminder).Run (onDevice device) tr) :
    coherentRepository.Reachable Store.empty (Trace.last (onDevice device) tr).device.store ∧
      (∀ e, (machine setReminder).enabled (Trace.last (onDevice device) tr) e →
        (((machine setReminder).step (Trace.last (onDevice device) tr) e).isSome ↔
          (Trace.last (onDevice device) tr).Returns setReminder e)) ∧
      ((Trace.last (onDevice device) tr).tabs.isSome ↔
        (Trace.last (onDevice device) tr).launch.coordinator.flags = ⟨true, true, true⟩) ∧
      Machine.EachTransition (fun a e b => b.device ≠ a.device →
        a.launch.coordinator.flags = ⟨true, true, true⟩ ∧
          ((∃ event, e = .groups event) ∨ ∃ date env, e = .cutOff date env))
        (onDevice device) tr := by
  have hvalid := valid_onDevice (integrity_of_reachable hs)
  refine ⟨?_, fun e he => ⟨fun hsome => ?_, fun hreturns => ?_⟩, ?_, ?_⟩
  · obtain ⟨calls, hcalls, hlast⟩ := hvalid.run_coherent hr
    rw [hlast]
    exact hs.run hcalls
  · obtain ⟨b, hb⟩ := Option.isSome_iff_exists.1 hsome
    exact (hvalid.run hr).returns_of_step hb
  · obtain ⟨b, hb, -⟩ := (hvalid.run hr).step he hreturns
    rw [hb]
    rfl
  · rw [(hvalid.run hr).main]
    exact ⟨flags_of_main, fun h => by rw [h]; rfl⟩
  · refine hr.eachTransition (I := Valid) (fun ha he hb => ?_) hvalid
    obtain ⟨hb', hdevice⟩ := ha.step_of_eq he hb
    refine ⟨hb', fun hne => ?_⟩
    cases hdevice with
    | keeps hsame => exact absurd hsame hne
    | groups hflags _ _ _ => exact ⟨hflags, Or.inl ⟨_, rfl⟩⟩
    | cutOff hflags _ _ _ _ _ => exact ⟨hflags, Or.inr ⟨_, _, rfl⟩⟩

/-- The small life. -/
theorem life_never_traps_sample :
    ∃ tr, (machine Sample.setReminder).Run (onDevice Device.new) tr ∧ tr.length = 9 ∧
      coherentRepository.Reachable Store.empty (Trace.last (onDevice Device.new) tr).device.store ∧
      ∀ e, (machine Sample.setReminder).enabled (Trace.last (onDevice Device.new) tr) e →
        (Trace.last (onDevice Device.new) tr).Returns Sample.setReminder e →
        ((machine Sample.setReminder).step (Trace.last (onDevice Device.new) tr) e).isSome := by
  obtain ⟨tr, -, hr, hevents, -⟩ := sample_life Sample.setReminder
  have hlength : tr.length = 9 := by simpa using congrArg List.length hevents
  obtain ⟨hreachable, hsteps, -⟩ := life_never_traps (Machine.Reachable.refl _ _) hr
  exact ⟨tr, hr, hlength, hreachable, fun e he hreturns => (hsteps e he).2 hreturns⟩

/-- Where no call of `setReminder` returns, the reminders stay as they are. -/
theorem Valid.eventStore_of_never {a : Installation} (ha : a.Valid)
    (hnever : ∀ env alarm eventStore, setReminder env alarm eventStore = none)
    {tr : Trace Installation Event} (hr : (machine setReminder).Run a tr) :
    (Trace.last a tr).device.eventStore = a.device.eventStore := by
  refine hr.frame (I := Valid) (R := fun a b => b.device.eventStore = a.device.eventStore)
    (fun _ => rfl) (fun h h' => h'.trans h) ?_ ha
  intro a e b ha he hb
  obtain ⟨hvalid, hdevice⟩ := ha.step_of_eq he hb
  refine ⟨hvalid, ?_⟩
  cases hdevice with
  | keeps hsame => rw [hsame]
  | @groups event t u _ ht hu hon =>
    rw [← ht, ← hu]
    rcases hon with hsame | ⟨op, env, -, -, -, -, hop⟩
    · rw [hsame]
    · cases hreport : op.report with
      | none => exact (Device.quiet_step Sample.calendar (e := (op, env)) hreport hop).1
      | some report =>
        obtain ⟨-, hset⟩ := Device.report_step (e := (op, env)) hreport hop
        rw [hnever] at hset
        cases hset
  | cutOff _ _ _ _ _ hsame => exact hsame

/-- And the save button never comes back. -/
theorem Valid.step_save_of_never {a : Installation} (ha : a.Valid)
    (hnever : ∀ env alarm eventStore, setReminder env alarm eventStore = none) {date : Date}
    {env : Env} (he : (machine setReminder).enabled a (.cutOff date env)) :
    (machine setReminder).step a (.groups (.saveAlarmButtonClicked date env)) = none := by
  obtain ⟨m, hm, -, henabled⟩ := he
  obtain ⟨g, -, hscreen, -⟩ := cutOff_spec (ha.groups m hm) henabled
  have hsaved : m.groups.saved (.saveAlarmButtonClicked date env) =
      some (AlarmCreationController.alarm g date) := by
    simp [GroupsTab.saved, hscreen]
  by_contra hsome
  obtain ⟨b, hb⟩ := Option.ne_none_iff_exists'.1 hsome
  have hreturned := ha.returns_of_step hb m hm _ hsaved env rfl
  rw [hnever] at hreturned
  cases hreturned

/-- What a process that ends in the save button leaves: the alarm at the end of its group, if
the write committed. -/
theorem Valid.cutOff_lists {a : Installation} (ha : a.Valid) {date : Date} {env : Env}
    (he : (machine setReminder).enabled a (.cutOff date env)) :
    ∃ b g before, (machine setReminder).step a (.cutOff date env) = some b ∧
      b = onDevice b.device ∧ b.device.eventStore = a.device.eventStore ∧
      (∃ m ∈ a.tabs, m.groups.screen = some (.alarmCreation g)) ∧
      AlarmRepositoryImp.fetchAllAlarms a.device.store g = some before ∧
      AlarmRepositoryImp.fetchAllAlarms b.device.store g = some (before ++
        if env.commits then
          [{ AlarmCreationController.alarm g date with alarmID := env.uuidString 0 }]
        else []) := by
  obtain ⟨m, g, store, hm, hscreen, hstored, hdraws, hattempt, hstep⟩ := ha.cutOff_step he
  obtain ⟨before, hbefore, hafter⟩ :=
    GroupsTab.fetchAllAlarms_update ha.integrity hdraws rfl hstored hattempt g
  simp only [and_true] at hafter
  exact ⟨_, g, before, hstep, rfl, rfl, ⟨m, hm, hscreen⟩, hbefore, hafter⟩

/-- **The save button ends the process.**  With the helper that the app makes, whose first
read of `eventStore` waits for itself, however deep the stack: no life ever changes the
reminders; a tap on the save button never comes back; and when the process ends in it, the
alarm is at the end of its group exactly if the write committed. -/
theorem save_ends_process {setEventStore : EventKitHelper → Option EventKitHelper} {depth : ℕ}
    {calendar : Date → DateComponents} {saves : Env → EKReminder → Bool} {device : Device}
    (hs : coherentRepository.Reachable Store.empty device.store) {tr : Trace Installation Event}
    (hr : (machine (EventKitHelper.new.setReminder setEventStore depth calendar saves)).Run
      (onDevice device) tr) :
    (Trace.last (onDevice device) tr).device.eventStore = device.eventStore ∧
      ∀ date env, (machine (EventKitHelper.new.setReminder setEventStore depth calendar
          saves)).enabled (Trace.last (onDevice device) tr) (.cutOff date env) →
        (machine (EventKitHelper.new.setReminder setEventStore depth calendar saves)).step
            (Trace.last (onDevice device) tr) (.groups (.saveAlarmButtonClicked date env)) = none ∧
          ∃ b g before,
            (machine (EventKitHelper.new.setReminder setEventStore depth calendar saves)).step
              (Trace.last (onDevice device) tr) (.cutOff date env) = some b ∧
            b = onDevice b.device ∧ b.device.eventStore = device.eventStore ∧
            (∃ m ∈ (Trace.last (onDevice device) tr).tabs,
              m.groups.screen = some (.alarmCreation g)) ∧
            AlarmRepositoryImp.fetchAllAlarms (Trace.last (onDevice device) tr).device.store g =
              some before ∧
            AlarmRepositoryImp.fetchAllAlarms b.device.store g = some (before ++
              if env.commits then
                [{ AlarmCreationController.alarm g date with alarmID := env.uuidString 0 }]
              else []) := by
  have hnever : ∀ env alarm eventStore, EventKitHelper.new.setReminder setEventStore depth calendar
      saves env alarm eventStore = none :=
    EventKitHelper.setReminder_new setEventStore depth calendar saves
  generalize EventKitHelper.new.setReminder setEventStore depth calendar saves = setReminder
    at hr hnever ⊢
  have hinitial := valid_onDevice (integrity_of_reachable hs)
  have hvalid := hinitial.run hr
  have hevents : (Trace.last (onDevice device) tr).device.eventStore = device.eventStore :=
    hinitial.eventStore_of_never hnever hr
  refine ⟨hevents, fun date env he => ⟨hvalid.step_save_of_never hnever he, ?_⟩⟩
  obtain ⟨b, g, before, hstep, hended, hsame, hscreen, hbefore, hafter⟩ := hvalid.cutOff_lists he
  exact ⟨b, g, before, hstep, hended, hsame.trans hevents, hscreen, hbefore, hafter⟩

/-- The alarm screen of the small life. -/
theorem save_ends_process_sample :
    ∃ tr, (machine (EventKitHelper.new.setReminder some 1000 Sample.calendar
        fun _ _ => true)).Run (onDevice Device.new) tr ∧
      (Trace.last (onDevice Device.new) tr).device.eventStore = [] ∧
      (machine (EventKitHelper.new.setReminder some 1000 Sample.calendar fun _ _ => true)).step
        (Trace.last (onDevice Device.new) tr)
        (.groups (.saveAlarmButtonClicked 0 ⟨Sample.drawn 1, true⟩)) = none ∧
      ∃ b g before, b = onDevice b.device ∧ b.device.eventStore = [] ∧
        AlarmRepositoryImp.fetchAllAlarms b.device.store g =
          some (before ++ [{ AlarmCreationController.alarm g 0 with alarmID := "xx" }]) := by
  obtain ⟨tr, b, hr, -, he, -⟩ :=
    sample_life (EventKitHelper.new.setReminder some 1000 Sample.calendar fun _ _ => true)
  obtain ⟨hevents, hsave⟩ := save_ends_process (Machine.Reachable.refl _ _) hr
  obtain ⟨hnever, b, g, before, -, hb, hsame, -, -, hafter⟩ := hsave _ _ he
  exact ⟨tr, hr, hevents, hnever, b, g, before, hb, hsame, hafter⟩

/-! ## The next launch -/

/-- A new tab bar lists what is stored, and nothing is over it. -/
theorem Fresh.lists {a : Installation} (ha : a.Valid) (hfresh : a.Fresh) :
    ∀ m ∈ a.tabs, m.groups.coordinator.presented = none ∧
      m.groups.screen = some .groupsList ∧
      groupsListController.InStep (m.groups.groupsList.on a.device.store) ∧
      GroupRepositoryImp.fetchAllGroups a.device.store = some m.groups.groupsList.items := by
  intro m hm
  obtain ⟨hshows, hcoordinator, hin, hfetch⟩ :=
    GroupsTab.shows_of_start ha.integrity (hfresh m hm).1
  have hstore : m.groups.store = a.device.store := by
    rw [GroupsTab.store, hcoordinator]
    rfl
  rw [hstore] at hin hfetch
  refine ⟨?_, hshows.screen_eq, hin, hfetch⟩
  rw [hcoordinator]
  rfl

/-- While the tab bar is new, the launch flows go on as they do by themselves. -/
theorem Fresh.launch_run {a : Installation} (ha : a.Valid) (hfresh : a.Fresh)
    {tr : Trace LaunchFlows LaunchFlows.Event} (hr : LaunchFlows.machine.Run a.launch tr) :
    ∃ tr', (machine setReminder).Run a tr' ∧
      tr'.map Prod.fst = tr.map (fun p => Event.launch p.1) ∧
      (Trace.last a tr').launch = Trace.last a.launch tr ∧
      (Trace.last a tr').device = a.device ∧ (Trace.last a tr').Valid ∧
      (Trace.last a tr').Fresh := by
  induction tr generalizing a with
  | nil => exact ⟨[], .nil a, rfl, rfl, rfl, ha, hfresh⟩
  | cons p tr ih =>
    obtain ⟨he, ht, hr⟩ := Machine.run_cons_iff.1 hr
    have hmodal : a.isPresenting = false := by
      cases hm : a.tabs with
      | none => simp [isPresenting, hm]
      | some m => simp [isPresenting, hm, (hfresh.lists ha m hm).1]
    obtain ⟨t, c, ht', heffect⟩ := LaunchFlows.step_effect ha.launch he
    rw [ht] at ht'
    cases ht'
    obtain ⟨b, hb, hvalid, hlaunch, hdevice, hfresh'⟩ := ha.enter heffect
    rw [← hlaunch] at hr
    obtain ⟨tr', hr', hevents, hlast, hdevice', hvalid', hfresh''⟩ := ih hvalid (hfresh' hfresh) hr
    have hstep : (machine setReminder).step a (.launch p.1) = some b := by
      simp only [machine, ht, Option.bind_some]
      exact hb
    refine ⟨(.launch p.1, b) :: tr', .cons ⟨he, hmodal⟩ hstep hr', ?_, ?_, hdevice'.trans hdevice,
      hvalid', hfresh''⟩
    · rw [List.map_cons, hevents, List.map_cons]
    · rw [Machine.last_cons, hlast, hlaunch, Machine.last_cons]

/-- **What has been written is listed after the next launch.**  From any moment of a life:
when the process ends and is launched again, whatever the link, three events by the user
at most reach the tab bar, whose list of groups has just read all the groups of the Realm
file, and the device is as it was when the process ended. -/
theorem relaunch_lists_groups {device : Device}
    (hs : coherentRepository.Reachable Store.empty device.store) {tr : Trace Installation Event}
    (hr : (machine setReminder).Run (onDevice device) tr)
    (dict : Option (String → Option AnyObject)) :
    ∃ (tr' : Trace Installation Event) (events : List LaunchFlows.Event),
      (machine setReminder).Run (Trace.last (onDevice device) tr) tr' ∧
      tr'.map Prod.fst = .terminate :: .launch (.start dict) :: events.map .launch ∧
      (∀ event ∈ events, event.ByUser) ∧ events.length ≤ 3 ∧
      (Trace.last (Trace.last (onDevice device) tr) tr').device =
        (Trace.last (onDevice device) tr).device ∧
      ∃ m, (Trace.last (Trace.last (onDevice device) tr) tr').tabs = some m ∧
        m.selected = .home ∧ m.groups.screen = some .groupsList ∧
        GroupRepositoryImp.fetchAllGroups (Trace.last (onDevice device) tr).device.store =
          some m.groups.groupsList.items ∧
        groupsListController.InStep (m.groups.groupsList.on
          (Trace.last (onDevice device) tr).device.store) := by
  have hvalid := (valid_onDevice (integrity_of_reachable hs)).run hr
  generalize Trace.last (onDevice device) tr = a at hvalid ⊢
  have hended : (onDevice a.device).Valid := valid_onDevice hvalid.integrity
  have hnew : (onDevice a.device).Fresh := fun _ hm => nomatch hm
  -- the process is launched, and its flows are gone through
  obtain ⟨-, hshows⟩ := LaunchFlows.wired_initial.start (DeepLinkOption.build dict)
  obtain ⟨launches, hlaunches, hbyUser, hlength, c, htabbar⟩ := hshows.reaches_tabbar (by decide)
  have hlaunch : LaunchFlows.machine.Run (onDevice a.device).launch
      ((.start dict, LaunchFlows.initial.start (DeepLinkOption.build dict)) :: launches) :=
    .cons trivial rfl hlaunches
  obtain ⟨tr', hrun, hevents, hlast, hdevice, hvalid', hfresh⟩ := hnew.launch_run hended hlaunch
  have hmain : (Trace.last (onDevice a.device) tr').tabs.isSome := by
    refine hvalid'.main.2 ?_
    rw [hlast, Machine.last_cons]
    exact htabbar.configure
  obtain ⟨m, hm⟩ := Option.isSome_iff_exists.1 hmain
  obtain ⟨-, hscreen, hin, hfetch⟩ := hfresh.lists hvalid' m hm
  rw [hdevice] at hin hfetch
  refine ⟨(.terminate, onDevice a.device) :: tr', launches.map Prod.fst, .cons trivial rfl hrun, ?_,
    ?_, ?_, hdevice, m, hm, (hfresh m hm).2, hscreen, hfetch, hin⟩
  · rw [List.map_cons, hevents, List.map_cons, List.map_map]
    rfl
  · intro event hevent
    obtain ⟨p, hp, rfl⟩ := List.mem_map.1 hevent
    exact hbyUser p hp
  · rw [List.length_map]
    exact hlength

/-- After the small life the group is listed again. -/
theorem relaunch_lists_groups_sample :
    ∃ tr tr', (machine Sample.setReminder).Run (onDevice Device.new) tr ∧ tr.length = 9 ∧
      (machine Sample.setReminder).Run (Trace.last (onDevice Device.new) tr) tr' ∧
      ∃ m, (Trace.last (Trace.last (onDevice Device.new) tr) tr').tabs = some m ∧
        GroupRepositoryImp.fetchAllGroups (Trace.last (onDevice Device.new) tr).device.store =
          some m.groups.groupsList.items := by
  obtain ⟨tr, -, hr, hevents, -⟩ := sample_life Sample.setReminder
  have hlength : tr.length = 9 := by simpa using congrArg List.length hevents
  obtain ⟨tr', -, hr', -, -, -, -, m, hm, -, -, hfetch, -⟩ :=
    relaunch_lists_groups (Machine.Reachable.refl _ _) hr none
  exact ⟨tr, tr', hr, hlength, hr', m, hm, hfetch⟩

end Installation

end Alarma
