import Alarma.Flows.Reminders
import Alarma.Parents.BaseCoordinator

/-!
# The group coordinator

`GroupCoordinator` wires the screens of the groups tab: the list of groups, the
detail screen of a group, the screen that creates an alarm, and the modal flow
that creates a group.  It remembers the group that was selected last, while each
screen keeps the group it was made for.

* `GroupCoordinator.machine` — the callbacks the coordinator installs and the
  back button, each while the screen it belongs to is on top.
* `Stacked` — an alarm screen stands on the detail screen of the same group;
  `InStep` — every screen of the stack was made for the selected group.
* `alarm_filed_under_its_screen` — alarms are filed under the group on whose
  screen they were created, as long as the creation flow only finishes with the
  selected group: that one path pushes a detail screen without selecting.
* `run_on_device` — what the coordinator does to the device are operations of
  `Device.machine`.
-/

namespace Alarma

/-- The screens of the tab, each with the group it was made for. -/
inductive Screen where
  /-- `GroupsListController` -/
  | groupsList
  /-- `GroupDetailController` -/
  | groupDetail (group : Group)
  /-- `AlarmCreationController` -/
  | alarmCreation (group : Group)
  deriving DecidableEq, Repr

/-- The group a screen was made for. -/
def Screen.group : Screen → Option Group
  | groupsList => none
  | groupDetail group => some group
  | alarmCreation group => some group

/-- The alarm that `AlarmCreationController.saveAlarmButtonClicked` reports. -/
def AlarmCreationController.alarm (group : Group) (date : Date) : Alarm where
  groupID := group.groupID
  groupName := group.groupName
  time := date
  isEnabled := false
  sound := "Default"
  loopSound := false
  repeatDays := []

/-- The coordinator, number `0` of the coordinators, with what it works on. -/
structure GroupCoordinator where
  selectedGroup : Option Group
  /-- The navigation stack of its router, the top first. -/
  viewControllers : List Screen
  /-- The creation flow whose module is presented over the stack. -/
  presented : Option ℕ
  coordinators : Coordinators
  device : Device

namespace GroupCoordinator

/-- After `start`: `setRootModule` has put the list on the stack. -/
def started (device : Device) : GroupCoordinator :=
  ⟨none, [.groupsList], none, Coordinators.root, device⟩

/-- `showGroupDetail`. -/
def showGroupDetail (group : Group) (c : GroupCoordinator) : GroupCoordinator :=
  { c with viewControllers := .groupDetail group :: c.viewControllers }

/-- `showAlarmCreation`. -/
def showAlarmCreation (group : Group) (c : GroupCoordinator) : GroupCoordinator :=
  { c with viewControllers := .alarmCreation group :: c.viewControllers }

/-- `runCreationFlow`; its argument is not used. -/
def runCreationFlow (_group : Group) (c : GroupCoordinator) : GroupCoordinator :=
  { c with
    coordinators := c.coordinators.create.addDependency 0 c.coordinators.count
    presented := some c.coordinators.count }

/-- `popModule`, which never pops the root. -/
def popModule (c : GroupCoordinator) : GroupCoordinator :=
  match c.viewControllers with
  | _ :: screen :: stack => { c with viewControllers := screen :: stack }
  | _ => c

/-- `onGroupSelect`, of the list. -/
def onGroupSelect (group : Group) (c : GroupCoordinator) : GroupCoordinator :=
  { c with selectedGroup := some group }.showGroupDetail group

/-- `onCreateGroup`, of the list. -/
def onCreateGroup (group : Group) (c : GroupCoordinator) : GroupCoordinator :=
  ({ c with selectedGroup := some group }.runCreationFlow group).showGroupDetail group

/-- `finishFlow`, of the creation flow that is presented. -/
def finishFlow (coordinator : ℕ) (group : Option Group) (c : GroupCoordinator) :
    Option GroupCoordinator := do
  let coordinators ←
    c.coordinators.removeDependency c.coordinators.count 0 (some coordinator)
  let c := { c with presented := none, coordinators := coordinators }
  match group with
  | some group => return c.showGroupDetail group
  | none => return c

/-- `onAlarmCreated`, of the alarm screen. -/
def onAlarmCreated (setReminder : SetReminder) (alarm : Alarm) (env : Env)
    (c : GroupCoordinator) : Option GroupCoordinator :=
  match Device.updateCall c.selectedGroup alarm with
  | none => some c
  | some _ => do
    let device ← c.device.onAlarmCreated setReminder c.selectedGroup alarm env
    return { c with device := device }.popModule

/-- What the screens call. -/
inductive Callback where
  /-- `GroupsListView.onGroupSelect` -/
  | onGroupSelect (group : Group)
  /-- `GroupsListView.onCreateGroup` -/
  | onCreateGroup (group : Group)
  /-- `GroupDetailView.onCreateAlarmButtonTapped` -/
  | onCreateAlarmButtonTapped
  /-- `AlarmView.onAlarmCreated`, with the date of the picker -/
  | onAlarmCreated (date : Date) (env : Env)
  /-- `GroupCreateCoordinator.finishFlow` -/
  | finishFlow (group : Option Group)
  | back

/-- The machine.  A screen calls while it is on top of the stack and no module is
presented over the stack. -/
def machine (setReminder : SetReminder) : Machine GroupCoordinator Callback where
  enabled := fun c e =>
    match e with
    | .onGroupSelect _ | .onCreateGroup _ =>
      c.presented = none ∧ c.viewControllers.head? = some .groupsList
    | .onCreateAlarmButtonTapped =>
      c.presented = none ∧ ∃ group, c.viewControllers.head? = some (.groupDetail group)
    | .onAlarmCreated _ env =>
      c.presented = none ∧ c.device.store.Fresh env.uuidString ∧
        ∃ group, c.viewControllers.head? = some (.alarmCreation group)
    | .finishFlow _ => c.presented ≠ none
    | .back => c.presented = none ∧ 1 < c.viewControllers.length
  step := fun c e =>
    match e with
    | .onGroupSelect group => some (c.onGroupSelect group)
    | .onCreateGroup group => some (c.onCreateGroup group)
    | .onCreateAlarmButtonTapped =>
      match c.viewControllers with
      | .groupDetail group :: _ => some (c.showAlarmCreation group)
      | _ => some c
    | .onAlarmCreated date env =>
      match c.viewControllers with
      | .alarmCreation group :: _ =>
        c.onAlarmCreated setReminder (AlarmCreationController.alarm group date) env
      | _ => some c
    | .finishFlow group => c.presented.bind fun coordinator => c.finishFlow coordinator group
    | .back => some c.popModule

/-! ## The invariant of the coordinator -/

/-- The stacks the coordinator builds: an alarm screen stands on the detail
screen of the same group. -/
inductive Stacked : List Screen → Prop
  | list : Stacked [.groupsList]
  | detail (group : Group) {stack : List Screen} :
      Stacked stack → Stacked (.groupDetail group :: stack)
  | alarm {group : Group} {stack : List Screen} :
      Stacked (.groupDetail group :: stack) →
      Stacked (.alarmCreation group :: .groupDetail group :: stack)

/-- The list is only ever alone on the stack. -/
theorem Stacked.eq_of_head {stack : List Screen} (h : Stacked stack)
    (hhead : stack.head? = some .groupsList) : stack = [.groupsList] := by
  cases h with
  | list => rfl
  | detail => exact absurd hhead (by simp)
  | alarm => exact absurd hhead (by simp)

/-- What holds of the coordinator whatever its screens call. -/
structure Valid (c : GroupCoordinator) : Prop where
  stacked : Stacked c.viewControllers
  /-- The coordinator retains the creation flow that is presented. -/
  retained : c.coordinators.childCoordinators 0 = c.presented.toList
  /-- The creation flow has no children. -/
  leaf : ∀ k ∈ c.presented, k ≠ 0 ∧ c.coordinators.childCoordinators k = []
  /-- The coordinator itself has been created. -/
  count : 0 < c.coordinators.count

theorem valid_started (device : Device) : (started device).Valid := by
  refine ⟨.list, rfl, ?_, Nat.one_pos⟩
  intro k hk
  exact absurd hk (by simp [started])

theorem popModule_eq (c : GroupCoordinator) :
    c.popModule = { c with viewControllers := c.popModule.viewControllers } := by
  unfold popModule
  split <;> rfl

/-- A pop takes the top screen off, unless it is the root. -/
theorem Stacked.popModule {c : GroupCoordinator} (h : Stacked c.viewControllers) :
    Stacked c.popModule.viewControllers ∧
      ∀ screen ∈ c.popModule.viewControllers, screen ∈ c.viewControllers := by
  unfold GroupCoordinator.popModule
  split
  case h_1 screen top stack heq =>
    rw [heq] at h ⊢
    refine ⟨?_, fun screen hscreen => List.mem_cons_of_mem _ hscreen⟩
    cases h with
    | detail _ h => exact h
    | alarm h => exact h
  case h_2 => exact ⟨h, fun screen hscreen => hscreen⟩

/-- The end of the creation flow dismisses it and lets go of it. -/
theorem Valid.finishFlow_eq {c : GroupCoordinator} (hc : c.Valid) {k : ℕ}
    (hk : c.presented = some k) (group : Option Group) :
    ∃ coordinators, coordinators.childCoordinators 0 = [] ∧ 0 < coordinators.count ∧
      c.finishFlow k group = some
        { c with
          presented := none
          coordinators := coordinators
          viewControllers := (group.map Screen.groupDetail).toList ++ c.viewControllers } := by
  obtain ⟨-, hleaf⟩ := hc.leaf k hk
  obtain ⟨fuel, hfuel⟩ := Nat.exists_eq_succ_of_ne_zero (Nat.pos_iff_ne_zero.1 hc.count)
  have hremove := Coordinators.removeDependency_leaf hleaf fuel 0
  rw [hc.retained, hk, Option.toList_some, List.erase_cons_head] at hremove
  refine ⟨_, Coordinators.childCoordinators_setChildren_self _ _ _, hc.count, ?_⟩
  rw [finishFlow, hfuel, hremove]
  cases group <;> rfl

/-- Presenting the creation flow retains it. -/
theorem Valid.runCreationFlow {c : GroupCoordinator} (hc : c.Valid) (hnone : c.presented = none)
    (group : Group) : (c.runCreationFlow group).Valid := by
  have hne : 0 ≠ c.coordinators.count := (Nat.ne_of_lt hc.count)
  have hempty : c.coordinators.create.childCoordinators 0 = [] := by
    rw [Coordinators.childCoordinators_create_of_ne _ hne, hc.retained, hnone, Option.toList_none]
  have hadd : c.coordinators.create.addDependency 0 c.coordinators.count =
      c.coordinators.create.setChildren 0 [c.coordinators.count] := by
    rw [Coordinators.addDependency_of_notMem (by rw [hempty]; exact List.not_mem_nil), hempty,
      List.nil_append]
  unfold GroupCoordinator.runCreationFlow
  rw [hadd]
  refine ⟨hc.stacked, Coordinators.childCoordinators_setChildren_self _ _ _, ?_, Nat.succ_pos _⟩
  rintro k hk
  cases hk
  refine ⟨hne.symm, ?_⟩
  rw [Coordinators.childCoordinators_setChildren_of_ne _ _ hne.symm]
  exact Coordinators.childCoordinators_create_new _

variable {setReminder : SetReminder}

/-- What a callback does to the device. -/
def DeviceStep (setReminder : SetReminder) (c t : GroupCoordinator) : Prop :=
  t.device = c.device ∨ ∃ alarm env, c.device.store.Fresh env.uuidString ∧
    c.device.onAlarmCreated setReminder c.selectedGroup alarm env = some t.device

/-- Everything a callback can do to the stack, the selection and the device. -/
inductive Effect (setReminder : SetReminder) (c t : GroupCoordinator) : Callback → Prop
  /-- The list selects a group, stored already or just created, and shows it. -/
  | selects {e : Callback} {group : Group} : (∀ g, e ≠ .finishFlow g) →
      t.selectedGroup = some group → t.viewControllers = [.groupDetail group, .groupsList] →
      t.device = c.device → Effect setReminder c t e
  /-- A detail screen opens the alarm screen. -/
  | opens {group : Group} {stack : List Screen} : c.viewControllers = .groupDetail group :: stack →
      t = c.showAlarmCreation group → Effect setReminder c t .onCreateAlarmButtonTapped
  /-- The creation flow ends, perhaps with a group to show. -/
  | finishes (group : Option Group) : t.selectedGroup = c.selectedGroup →
      t.viewControllers = (group.map Screen.groupDetail).toList ++ c.viewControllers →
      t.device = c.device → Effect setReminder c t (.finishFlow group)
  /-- The top screen is popped, or nothing is. -/
  | pops {e : Callback} : (∀ g, e ≠ .finishFlow g) → t.selectedGroup = c.selectedGroup →
      Stacked t.viewControllers → (∀ screen ∈ t.viewControllers, screen ∈ c.viewControllers) →
      DeviceStep setReminder c t → Effect setReminder c t e

/-- The alarm screen's callback ends with a pop, or does nothing. -/
theorem effect_of_onAlarmCreated {c t : GroupCoordinator} {alarm : Alarm} {env : Env} (date : Date)
    (hc : c.Valid) (hu : c.device.store.Fresh env.uuidString)
    (ht : c.onAlarmCreated setReminder alarm env = some t) :
    Effect setReminder c t (.onAlarmCreated date env) ∧
      t.presented = c.presented ∧ t.coordinators = c.coordinators := by
  unfold onAlarmCreated at ht
  split at ht
  case h_1 =>
    cases ht
    exact ⟨.pops (by simp) rfl hc.stacked (fun _ h => h) (Or.inl rfl), rfl, rfl⟩
  case h_2 =>
    obtain ⟨device, hdevice, ht⟩ := Option.bind_eq_some_iff.1 ht
    have hpop : { c with device := device }.popModule = t := Option.some.inj ht
    have hstack := Stacked.popModule (c := { c with device := device }) hc.stacked
    rw [popModule_eq] at hpop
    subst hpop
    exact ⟨.pops (by simp) rfl hstack.1 hstack.2 (Or.inr ⟨alarm, env, hu, hdevice⟩), rfl, rfl⟩

/-- **A callback does nothing else**, and the coordinator stays valid. -/
theorem effect_of_step {c t : GroupCoordinator} {e : Callback} (hc : c.Valid)
    (he : (machine setReminder).enabled c e) (ht : (machine setReminder).step c e = some t) :
    Effect setReminder c t e ∧ t.Valid := by
  cases e with
  | onGroupSelect group =>
    obtain ⟨hnone, hhead⟩ := he
    have hlist := hc.stacked.eq_of_head hhead
    have hstep : c.onGroupSelect group = t := Option.some.inj ht
    subst hstep
    constructor
    · refine .selects (by simp) rfl ?_ rfl
      rw [onGroupSelect, showGroupDetail, hlist]
    · exact ⟨.detail group hc.stacked, hc.retained, hc.leaf, hc.count⟩
  | onCreateGroup group =>
    obtain ⟨hnone, hhead⟩ := he
    have hlist := hc.stacked.eq_of_head hhead
    have hstep : c.onCreateGroup group = t := Option.some.inj ht
    have hselected : { c with selectedGroup := some group }.Valid :=
      ⟨hc.stacked, hc.retained, hc.leaf, hc.count⟩
    have hvalid := hselected.runCreationFlow hnone group
    subst hstep
    constructor
    · refine .selects (by simp) rfl ?_ rfl
      show Screen.groupDetail group :: c.viewControllers = _
      rw [hlist]
    · exact ⟨.detail group hvalid.stacked, hvalid.retained, hvalid.leaf, hvalid.count⟩
  | onCreateAlarmButtonTapped =>
    obtain ⟨-, group, hhead⟩ := he
    obtain ⟨stack, hstack⟩ := List.head?_eq_some_iff.1 hhead
    have hstep : c.showAlarmCreation group = t := by
      simp only [machine, hstack] at ht
      exact Option.some.inj ht
    subst hstep
    refine ⟨.opens hstack rfl, ?_, hc.retained, hc.leaf, hc.count⟩
    show Stacked (.alarmCreation group :: c.viewControllers)
    have hstacked := hc.stacked
    rw [hstack] at hstacked ⊢
    exact .alarm hstacked
  | onAlarmCreated date env =>
    obtain ⟨-, hu, group, hhead⟩ := he
    obtain ⟨stack, hstack⟩ := List.head?_eq_some_iff.1 hhead
    have hstep : c.onAlarmCreated setReminder (AlarmCreationController.alarm group date) env =
        some t := by
      simp only [machine, hstack] at ht
      exact ht
    obtain ⟨heffect, hpresented, hcoordinators⟩ :=
      effect_of_onAlarmCreated date hc hu hstep
    refine ⟨heffect, ?_, ?_, ?_, ?_⟩
    · cases heffect with
      | selects _ _ hvc => rw [hvc]; exact .detail _ .list
      | pops _ _ hstacked => exact hstacked
    · rw [hcoordinators, hpresented]
      exact hc.retained
    · rw [hcoordinators, hpresented]
      exact hc.leaf
    · rw [hcoordinators]
      exact hc.count
  | finishFlow group =>
    obtain ⟨k, hk⟩ := Option.ne_none_iff_exists'.1 he
    obtain ⟨coordinators, hempty, hcount, hfinish⟩ := hc.finishFlow_eq hk group
    have hstep : c.finishFlow k group = some t := by
      simp only [machine, hk] at ht
      exact ht
    rw [hfinish] at hstep
    cases hstep
    refine ⟨.finishes group rfl rfl rfl, ?_, hempty, ?_, hcount⟩
    · cases group with
      | none => exact hc.stacked
      | some group => exact .detail group hc.stacked
    · intro k hk
      exact absurd hk (by simp)
  | back =>
    have hstep : c.popModule = t := Option.some.inj ht
    have hstack := hc.stacked.popModule
    rw [popModule_eq] at hstep
    subst hstep
    exact ⟨.pops (by simp) rfl hstack.1 hstack.2 (Or.inl rfl),
      hstack.1, hc.retained, hc.leaf, hc.count⟩

/-! ## Where alarms are filed -/

/-- Every screen of the stack was made for the selected group. -/
def InStep (c : GroupCoordinator) : Prop :=
  ∀ screen ∈ c.viewControllers, ∀ group, screen.group = some group →
    c.selectedGroup.map Group.groupID = some group.groupID

/-- The creation flow does not finish with another group than the selected one. -/
def Agrees (c : GroupCoordinator) (e : Callback) : Prop :=
  ∀ group, e = .finishFlow (some group) →
    c.selectedGroup.map Group.groupID = some group.groupID

theorem inStep_started (device : Device) : (started device).InStep := by
  intro screen hscreen group hgroup
  rw [List.mem_singleton.1 hscreen] at hgroup
  exact absurd hgroup (by simp [Screen.group])

/-- A callback that meets the condition keeps the screens in step. -/
theorem InStep.step {c t : GroupCoordinator} {e : Callback} (hc : c.InStep)
    (h : Effect setReminder c t e) (hagrees : c.Agrees e) : t.InStep := by
  unfold InStep at hc ⊢
  cases h with
  | @selects _ group _ hselected hstack _ =>
    intro screen hscreen g hg
    rw [hstack, List.mem_cons, List.mem_singleton] at hscreen
    rw [hselected]
    rcases hscreen with rfl | rfl
    · cases hg
      rfl
    · exact absurd hg (by simp [Screen.group])
  | @opens group stack hstack ht =>
    subst ht
    intro screen hscreen g hg
    rcases List.mem_cons.1 hscreen with rfl | hold
    · have hdetail : Screen.groupDetail group ∈ c.viewControllers := by
        rw [hstack]
        exact List.mem_cons_self
      exact hc _ hdetail g hg
    · exact hc _ hold g hg
  | finishes group hselected hstack _ =>
    intro screen hscreen g hg
    rw [hstack, List.mem_append] at hscreen
    rw [hselected]
    rcases hscreen with hnew | hold
    · -- the one screen that is shown without being selected
      cases group with
      | none => exact absurd hnew (by simp)
      | some group =>
        rw [Option.map_some, Option.toList_some, List.mem_singleton] at hnew
        rw [hnew] at hg
        rw [← Option.some.inj hg]
        exact hagrees group rfl
    · exact hc _ hold g hg
  | pops _ hselected _ hsub _ =>
    intro screen hscreen g hg
    rw [hselected]
    exact hc _ (hsub _ hscreen) g hg

/-- Whatever alarm the screen on top reports, it is filed under the group on
whose detail screen it was opened. -/
def FilesRight (c : GroupCoordinator) : Prop :=
  ∀ group stack, c.viewControllers = .alarmCreation group :: stack →
    ∃ h rest, stack = .groupDetail h :: rest ∧ ∀ date,
      let alarm := AlarmCreationController.alarm group date
      Device.updateCall c.selectedGroup alarm = some (.update alarm h.groupID) ∧
        alarm.groupID = h.groupID

/-- Screens in step file their alarms right. -/
theorem InStep.filesRight {c : GroupCoordinator} (hc : c.Valid) (hin : c.InStep) :
    c.FilesRight := by
  intro group stack hstack
  have hstacked := hc.stacked
  rw [hstack] at hstacked
  cases hstacked with
  | alarm hrest =>
    refine ⟨_, _, rfl, fun date => ⟨?_, rfl⟩⟩
    have htop : Screen.alarmCreation group ∈ c.viewControllers := by
      rw [hstack]
      exact List.mem_cons_self
    obtain ⟨selected, hselected, hid⟩ := Option.map_eq_some_iff.1 (hin _ htop group rfl)
    rw [hselected, Device.updateCall, Option.map_some, hid]

/-- Wherever the save button of such a screen leads, the Realm file is what `update` with
the identity of that group made of it. -/
def StoresRight (setReminder : SetReminder) (c : GroupCoordinator) : Prop :=
  ∀ group h rest, c.viewControllers = .alarmCreation group :: .groupDetail h :: rest →
    ∀ date env t, (machine setReminder).step c (.onAlarmCreated date env) = some t →
      c.device.store.after (GroupRepositoryImp.update env
        (AlarmCreationController.alarm group date) h.groupID c.device.store) = some t.device.store

/-- A screen that files its alarms right has them stored there. -/
theorem FilesRight.storesRight {c : GroupCoordinator} (hc : c.FilesRight) :
    c.StoresRight setReminder := by
  intro group h rest hstack date env t ht
  obtain ⟨h', rest', hcons, hfiles⟩ := hc group _ hstack
  cases hcons
  obtain ⟨hcall, -⟩ := hfiles date
  have hstep : c.onAlarmCreated setReminder (AlarmCreationController.alarm group date) env =
      some t := by
    simp only [machine, hstack] at ht
    exact ht
  simp only [onAlarmCreated, Device.onAlarmCreated, hcall] at hstep
  obtain ⟨device, hdevice, ht⟩ := Option.bind_eq_some_iff.1 hstep
  obtain ⟨written, hwritten, hdevice⟩ := Option.bind_eq_some_iff.1 hdevice
  obtain ⟨eventStore, -, hdevice⟩ := Option.bind_eq_some_iff.1 hdevice
  obtain ⟨store, hstore, hwritten⟩ := Option.bind_eq_some_iff.1 hwritten
  cases hwritten
  cases hdevice
  cases ht
  rw [popModule_eq]
  exact hstore

/-- A creation flow that finishes with another group than the selected one puts
a detail screen on top whose alarms are filed elsewhere. -/
theorem files_elsewhere {c : GroupCoordinator} (hc : c.Valid) {group : Group}
    (hpresented : c.presented ≠ none) (hother : ¬ c.Agrees (.finishFlow (some group))) :
    ∃ t u, (machine setReminder).Run c
      [(.finishFlow (some group), t), (.onCreateAlarmButtonTapped, u)] ∧ ¬ u.FilesRight := by
  obtain ⟨k, hk⟩ := Option.ne_none_iff_exists'.1 hpresented
  obtain ⟨coordinators, -, -, hfinish⟩ := hc.finishFlow_eq hk (some group)
  have hstep : (machine setReminder).step c (.finishFlow (some group)) = some
      { c with
        presented := none
        coordinators := coordinators
        viewControllers := .groupDetail group :: c.viewControllers } := by
    simp only [machine, hk]
    exact hfinish
  refine ⟨_, _, .cons hpresented hstep (.cons ⟨rfl, group, rfl⟩ rfl (.nil _)), fun hright => ?_⟩
  obtain ⟨h, rest, hstack, hfiled⟩ := hright group _ rfl
  cases hstack
  obtain ⟨hcall, -⟩ := hfiled 0
  obtain ⟨selected, hselected, heq⟩ := Option.map_eq_some_iff.1 hcall
  have hid : selected.groupID = group.groupID := (Call.update.inj heq).2
  refine hother fun g hg => ?_
  cases hg
  rw [← hid]
  exact congrArg (Option.map Group.groupID) hselected

theorem valid_of_run {device : Device} {tr : Trace GroupCoordinator Callback}
    (hr : (machine setReminder).Run (started device) tr) : (Trace.last (started device) tr).Valid :=
  hr.invariant (fun hc he ht => (effect_of_step hc he ht).2) (valid_started device)

/-- **An alarm is filed under the group on whose screen it was created.**  In
every run in which the creation flow only finishes with the selected group, if
it finishes with a group at all, whatever the alarm screen reports is filed, and
stored, under the group of the detail screen it was opened from.  After any run, a
creation flow that finishes with another group opens the way to an alarm that is
filed elsewhere. -/
theorem alarm_filed_under_its_screen {device : Device} {tr : Trace GroupCoordinator Callback}
    (hr : (machine setReminder).Run (started device) tr) :
    (Machine.EachStep Agrees (started device) tr → (Trace.last (started device) tr).FilesRight ∧
      (Trace.last (started device) tr).StoresRight setReminder) ∧
    ∀ group, (Trace.last (started device) tr).presented ≠ none →
      ¬ (Trace.last (started device) tr).Agrees (.finishFlow (some group)) →
      ∃ t u, (machine setReminder).Run (Trace.last (started device) tr)
        [(.finishFlow (some group), t), (.onCreateAlarmButtonTapped, u)] ∧ ¬ u.FilesRight := by
  have hvalid := valid_of_run hr
  refine ⟨fun heach => ?_, fun group hpresented hother => files_elsewhere hvalid hpresented hother⟩
  have hrun := Machine.restrict_run_iff.2 ⟨hr, heach⟩
  have hinvariant := hrun.invariant (I := fun c => c.Valid ∧ c.InStep)
    (fun hc he ht => by
      obtain ⟨heffect, hvalid⟩ := effect_of_step hc.1 he.1 ht
      exact ⟨hvalid, hc.2.step heffect he.2⟩)
    ⟨valid_started device, inStep_started device⟩
  have hfiles := hinvariant.2.filesRight hvalid
  exact ⟨hfiles, hfiles.storesRight⟩

/-- **The coordinator on the device.**  What the callbacks do to the device are
operations of the device. -/
theorem run_on_device {c : GroupCoordinator} {tr : Trace GroupCoordinator Callback}
    (hc : c.Valid) (hr : (machine setReminder).Run c tr) :
    ∃ tr', (Device.machine setReminder).Run c.device tr' ∧
      (Trace.last c tr).device = Trace.last c.device tr' := by
  obtain ⟨tr', hr', -, hlast⟩ := hr.simulate (N := Device.machine setReminder)
    (R := fun c d => c.Valid ∧ c.device = d) (c := c.device)
    (by
      rintro c e t d ⟨hc, rfl⟩ he ht
      obtain ⟨heffect, hvalid⟩ := effect_of_step hc he ht
      cases heffect with
      | selects _ _ _ hdevice => exact Or.inl ⟨hvalid, hdevice⟩
      | opens _ hopen => exact Or.inl ⟨hvalid, by rw [hopen]; rfl⟩
      | finishes _ _ _ hdevice => exact Or.inl ⟨hvalid, hdevice⟩
      | pops _ _ _ _ hdevice =>
        rcases hdevice with hsame | ⟨alarm, env, hu, hwrite⟩
        · exact Or.inl ⟨hvalid, hsame⟩
        · exact Or.inr ⟨(.alarmCreated c.selectedGroup alarm, env), _, hu, hwrite, hvalid, rfl⟩)
    ⟨hc, rfl⟩
  exact ⟨tr', hr', hlast⟩

end GroupCoordinator

/-! ## Two groups -/

/-- A group is created, the creation flow finishes with another one, and an alarm
created on the screen of the second is filed under the first. -/
theorem alarm_filed_under_other_group :
    ∃ t, (GroupCoordinator.machine Sample.setReminder).Reachable
        (GroupCoordinator.started Device.new) t ∧
      t.viewControllers = [.alarmCreation { groupID := "2", groupName := "Home" },
        .groupDetail { groupID := "2", groupName := "Home" },
        .groupDetail { groupID := "1", groupName := "Work" }, .groupsList] ∧
      Device.updateCall t.selectedGroup
          (AlarmCreationController.alarm { groupID := "2", groupName := "Home" } 0) =
        some (.update (AlarmCreationController.alarm { groupID := "2", groupName := "Home" } 0)
          "1") := by
  refine ⟨_, ⟨[(.onCreateGroup { groupID := "1", groupName := "Work" }, _),
    (.finishFlow (some { groupID := "2", groupName := "Home" }), _),
    (.onCreateAlarmButtonTapped, _)], .cons ⟨rfl, rfl⟩ rfl (.cons ?_ rfl
      (.cons ⟨rfl, _, rfl⟩ rfl (.nil _))), rfl⟩, rfl, rfl⟩
  exact Option.some_ne_none _

/-- Selecting a stored group and opening the alarm screen. -/
theorem alarm_filed_under_its_screen_sample :
    ∃ t u, (GroupCoordinator.machine Sample.setReminder).Run (GroupCoordinator.started Device.new)
        [(.onGroupSelect { groupID := "1", groupName := "Work" }, t),
          (.onCreateAlarmButtonTapped, u)] ∧ u.FilesRight ∧ u.StoresRight Sample.setReminder := by
  have hr : (GroupCoordinator.machine Sample.setReminder).Run (GroupCoordinator.started Device.new)
      [(.onGroupSelect { groupID := "1", groupName := "Work" }, _),
        (.onCreateAlarmButtonTapped, _)] :=
    .cons ⟨rfl, rfl⟩ rfl (.cons ⟨rfl, _, rfl⟩ rfl (.nil _))
  refine ⟨_, _, hr, (GroupCoordinator.alarm_filed_under_its_screen hr).1 ⟨?_, ?_, trivial⟩⟩
  · intro group h
    cases h
  · intro group h
    cases h

end Alarma
