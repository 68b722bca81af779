import Alarma.Library.Machine

/-!
# The router

`RouterImp` drives a navigation controller and keeps, for the view controllers it
has pushed, the completions they were pushed with; a completion is to be run when
its controller leaves the stack.

* `push`, `popModule`, `popToRootModule`, `setRootModule`, `runCompletion` — the
  methods, each with the completions it runs; here a completion does not call the
  router back.  The navigation controller is UIKit's: what it does is in
  `pushViewController`, `popViewController`, `popToRootViewController` and
  `setViewControllers`.
* `RouterSession` — a router with what its callers have registered and seen run,
  and the machine of its calls.
* `Handled` — a call runs the completions of the controllers it takes off the
  stack, each once, and keeps none but those of controllers on the stack.
* `completions_run_once_iff` — every call of a run is handled so precisely when no
  root module is set while another controller waits for its completion.
-/

namespace Alarma

/-- A view controller, by identity. -/
structure UIViewController where
  id : ℕ
  /-- Whether it `is UINavigationController`. -/
  isNavigationController : Bool := false
  deriving DecidableEq, Repr

/-- A router, for completions of some type. -/
structure RouterImp (Completion : Type) where
  /-- The stack of the navigation controller, the top first; `none` once the
  navigation controller is gone. -/
  rootController : Option (List UIViewController)
  completions : UIViewController → Option Completion

namespace RouterImp

variable {Completion : Type}

/-- A new router of a navigation controller. -/
def new (stack : List UIViewController) : RouterImp Completion := ⟨some stack, fun _ => none⟩

/-- The controllers on the stack. -/
def viewControllers (r : RouterImp Completion) : List UIViewController := r.rootController.getD []

/-! ## The navigation controller -/

/-- `rootController?.pushViewController`; `none` is the exception UIKit raises when
the controller is on the stack. -/
def pushViewController (controller : UIViewController) (r : RouterImp Completion) :
    Option (RouterImp Completion) :=
  if controller ∈ r.viewControllers then none
  else some { r with rootController := r.rootController.map (controller :: ·) }

/-- `rootController?.popViewController`: the controller that is popped, and the
router afterwards.  The root stays. -/
def popViewController (r : RouterImp Completion) :
    Option (UIViewController × RouterImp Completion) :=
  match r.rootController with
  | some (controller :: next :: stack) =>
    some (controller, { r with rootController := some (next :: stack) })
  | _ => none

/-- `rootController?.popToRootViewController`: the controllers that are popped, in
the order in which UIKit lists them, and the router afterwards. -/
def popToRootViewController (listed : List UIViewController → List UIViewController)
    (r : RouterImp Completion) : List UIViewController × RouterImp Completion :=
  match r.rootController with
  | some stack =>
    (listed stack.dropLast, { r with rootController := some stack.getLast?.toList })
  | none => ([], r)

/-- `rootController?.setViewControllers`. -/
def setViewControllers (controllers : List UIViewController) (r : RouterImp Completion) :
    RouterImp Completion :=
  { r with rootController := r.rootController.map fun _ => controllers }

/-! ## The dictionary -/

/-- `completions[controller] = completion`. -/
def updateValue (completion : Completion) (controller : UIViewController)
    (r : RouterImp Completion) : RouterImp Completion :=
  { r with completions := Function.update r.completions controller (some completion) }

/-- `completions.removeValue(forKey: controller)`. -/
def removeValue (controller : UIViewController) (r : RouterImp Completion) :
    RouterImp Completion :=
  { r with completions := Function.update r.completions controller none }

/-! ## The methods -/

/-- `push(_:animated:completion:)`.  The assertion on a module that is missing, or
is a navigation controller, stops a debug build only. -/
def push (module : Option UIViewController) (completion : Option Completion)
    (r : RouterImp Completion) : Option (RouterImp Completion) :=
  match module with
  | none => some r
  | some controller =>
    if controller.isNavigationController then some r
    else
      match completion with
      | some completion => (r.updateValue completion controller).pushViewController controller
      | none => r.pushViewController controller

/-- `runCompletion(for:)`, with the completions that were run. -/
def runCompletion (controller : UIViewController) (r : RouterImp Completion) :
    List Completion × RouterImp Completion :=
  match r.completions controller with
  | none => ([], r)
  | some completion => ([completion], r.removeValue controller)

/-- `controllers.forEach { runCompletion(for: $0) }`. -/
def runCompletions : List UIViewController → RouterImp Completion →
    List Completion × RouterImp Completion
  | [], r => ([], r)
  | controller :: controllers, r =>
    let first := r.runCompletion controller
    let others := runCompletions controllers first.2
    (first.1 ++ others.1, others.2)

/-- `popModule(animated:)`. -/
def popModule (r : RouterImp Completion) : List Completion × RouterImp Completion :=
  match r.popViewController with
  | some (controller, r) => r.runCompletion controller
  | none => ([], r)

/-- `popToRootModule(animated:)`. -/
def popToRootModule (listed : List UIViewController → List UIViewController)
    (r : RouterImp Completion) : List Completion × RouterImp Completion :=
  let popped := r.popToRootViewController listed
  popped.2.runCompletions popped.1

/-- `setRootModule(_:hideBar:)`. -/
def setRootModule (module : Option UIViewController) (r : RouterImp Completion) :
    RouterImp Completion :=
  match module with
  | none => r
  | some controller => r.setViewControllers [controller]

/-! ## What the methods do to the dictionary -/

/-- Running a completion takes it out of the dictionary; without one there is
nothing to take out. -/
theorem runCompletion_eq (controller : UIViewController) (r : RouterImp Completion) :
    r.runCompletion controller = ((r.completions controller).toList, r.removeValue controller) := by
  unfold runCompletion
  cases h : r.completions controller with
  | none =>
    have hsame : r.removeValue controller = r := by
      rw [removeValue, ← h, Function.update_eq_self]
    rw [hsame]
    rfl
  | some completion => rfl

/-- Pairwise distinct controllers run their completions, each once. -/
theorem runCompletions_eq {controllers : List UIViewController} (hnodup : controllers.Nodup)
    (r : RouterImp Completion) :
    r.runCompletions controllers =
      (controllers.filterMap r.completions,
        { r with completions := fun c => if c ∈ controllers then none else r.completions c }) := by
  induction controllers generalizing r with
  | nil => simp [runCompletions]
  | cons c controllers ih =>
    obtain ⟨hc, hrest⟩ := List.nodup_cons.1 hnodup
    have hother : ∀ d ∈ controllers, (r.removeValue c).completions d = r.completions d := by
      intro d hd
      have hne : d ≠ c := by
        rintro rfl
        exact hc hd
      exact Function.update_of_ne hne _ _
    have hrun : controllers.filterMap (r.removeValue c).completions =
        controllers.filterMap r.completions := List.filterMap_congr hother
    rw [runCompletions, runCompletion_eq, ih hrest, hrun]
    refine Prod.ext ?_ ?_
    · cases h : r.completions c <;> simp [h]
    · have hkeys : (fun d => if d ∈ controllers then none else (r.removeValue c).completions d) =
          fun d => if d ∈ c :: controllers then none else r.completions d := by
        funext d
        by_cases hd : d = c <;> simp [removeValue, hd]
      simp only [hkeys]
      rfl

theorem viewControllers_of_eq {r : RouterImp Completion} {stack : List UIViewController}
    (hroot : r.rootController = some stack) : r.viewControllers = stack := by
  rw [viewControllers, hroot]
  rfl

/-- A navigation controller that is alive has a stack. -/
theorem rootController_eq {r : RouterImp Completion} (halive : r.rootController ≠ none) :
    r.rootController = some r.viewControllers := by
  obtain ⟨stack, hstack⟩ := Option.ne_none_iff_exists'.1 halive
  rw [viewControllers_of_eq hstack, hstack]

/-- A new controller on top leaves a stack without repetitions. -/
theorem nodup_of_push {r t : RouterImp Completion} {c : UIViewController}
    (hnodup : r.viewControllers.Nodup) (hnew : c ∉ r.viewControllers)
    (hroot : t.rootController = some (c :: r.viewControllers)) :
    t.rootController ≠ none ∧ t.viewControllers.Nodup := by
  rw [viewControllers_of_eq hroot, hroot]
  exact ⟨Option.some_ne_none _, List.nodup_cons.2 ⟨hnew, hnodup⟩⟩

/-- A push puts a new controller on the stack and changes no other completion. -/
theorem push_eq {c : UIViewController} {completion : Option Completion} {r t : RouterImp Completion}
    (hc : c.isNavigationController = false) (ht : r.push (some c) completion = some t) :
    c ∉ r.viewControllers ∧ t.rootController = r.rootController.map (c :: ·) ∧
      t.completions c = completion.or (r.completions c) ∧
      ∀ d, d ≠ c → t.completions d = r.completions d := by
  have hnot : ¬ c.isNavigationController = true := by simp [hc]
  cases completion with
  | none =>
    simp only [RouterImp.push, if_neg hnot, RouterImp.pushViewController] at ht
    split at ht
    · cases ht
    · rename_i hmem
      cases ht
      exact ⟨hmem, rfl, rfl, fun _ _ => rfl⟩
  | some k =>
    simp only [RouterImp.push, if_neg hnot, RouterImp.pushViewController] at ht
    split at ht
    · cases ht
    · rename_i hmem
      cases ht
      exact ⟨hmem, rfl, Function.update_self .., fun d hd => Function.update_of_ne hd _ _⟩

/-- A pop takes the top off the stack. -/
theorem popViewController_eq {c : UIViewController} {r t : RouterImp Completion}
    (ht : r.popViewController = some (c, t)) :
    ∃ rest, r.viewControllers = c :: rest ∧ t = { r with rootController := some rest } := by
  rw [popViewController] at ht
  split at ht
  · rename_i d next rest hroot
    cases ht
    exact ⟨next :: rest, by rw [viewControllers, hroot]; rfl, rfl⟩
  · cases ht

/-- A pop to the root leaves the root. -/
theorem popToRootViewController_eq (listed : List UIViewController → List UIViewController)
    {r : RouterImp Completion} {stack : List UIViewController}
    (hroot : r.rootController = some stack) :
    r.popToRootViewController listed =
      (listed stack.dropLast, { r with rootController := some stack.getLast?.toList }) := by
  rw [popToRootViewController, hroot]

end RouterImp

/-! ## Calls of the router -/

/-- A router, and what its callers have seen of it. -/
structure RouterSession (Completion : Type) where
  router : RouterImp Completion
  /-- The completions that were registered, in order. -/
  registered : List Completion
  /-- The completions that were run, in order. -/
  ran : List Completion

/-- What is called. -/
inductive RouterCall (Completion : Type) where
  /-- `push(_:animated:completion:)` -/
  | push (module : Option UIViewController) (completion : Option Completion)
  /-- `popModule(animated:)` -/
  | popModule
  /-- `popToRootModule(animated:)` -/
  | popToRootModule
  /-- `setRootModule(_:hideBar:)` -/
  | setRootModule (module : Option UIViewController)

namespace RouterSession

variable {Completion : Type}

/-- A new router on a stack. -/
def opened (stack : List UIViewController) : RouterSession Completion := ⟨.new stack, [], []⟩

/-- Run some of the completions. -/
def after (s : RouterSession Completion) (result : List Completion × RouterImp Completion) :
    RouterSession Completion :=
  { s with router := result.2, ran := s.ran ++ result.1 }

/-- The completions that wait for their controllers to leave the stack. -/
def waiting (s : RouterSession Completion) : List Completion :=
  s.router.viewControllers.filterMap s.router.completions

/-- The machine: what is pushed is a controller, and no navigation controller. -/
def machine (listed : List UIViewController → List UIViewController) :
    Machine (RouterSession Completion) (RouterCall Completion) where
  enabled := fun _ e =>
    match e with
    | .push module _ => ∃ c, module = some c ∧ c.isNavigationController = false
    | _ => True
  step := fun s e =>
    match e with
    | .push module completion => (s.router.push module completion).map fun r =>
        { s with router := r, registered := s.registered ++ completion.toList }
    | .popModule => some (s.after s.router.popModule)
    | .popToRootModule => some (s.after (s.router.popToRootModule listed))
    | .setRootModule module => some { s with router := s.router.setRootModule module }

/-- What a call is to do with the completions. -/
structure Handled (s t : RouterSession Completion) : Prop where
  /-- Only controllers on the stack have a completion, or are held at all. -/
  keys : ∀ c, t.router.completions c ≠ none → c ∈ t.router.viewControllers
  /-- The call runs the completions of the controllers it takes off the stack. -/
  ran : ∃ run, t.ran = s.ran ++ run ∧
    run.Perm ((s.router.viewControllers.filter fun c => c ∉ t.router.viewControllers).filterMap
      s.router.completions)
  /-- A controller that stays keeps its completion. -/
  stays : ∀ c ∈ s.router.viewControllers, c ∈ t.router.viewControllers →
    t.router.completions c = s.router.completions c
  /-- What was ever registered has been run once, or is waiting. -/
  accounted : t.registered.Perm (t.ran ++ t.waiting)

/-- The condition: a root module is set only while no other controller waits. -/
def NobodyElseWaits (s : RouterSession Completion) (e : RouterCall Completion) : Prop :=
  ∀ c, e = .setRootModule (some c) → ∀ d, s.router.completions d ≠ none → d = c

/-- What the calls that meet the condition keep. -/
structure Valid (s : RouterSession Completion) : Prop where
  alive : s.router.rootController ≠ none
  nodup : s.router.viewControllers.Nodup
  /-- Only controllers on the stack have a completion. -/
  keys : ∀ c, s.router.completions c ≠ none → c ∈ s.router.viewControllers
  /-- What was ever registered has been run once, or is waiting. -/
  accounted : s.registered.Perm (s.ran ++ s.waiting)

theorem valid_opened {stack : List UIViewController} (hstack : stack.Nodup) :
    (opened stack : RouterSession Completion).Valid := by
  refine ⟨Option.some_ne_none _, hstack, fun c hc => absurd rfl hc, ?_⟩
  have hnone : (opened stack : RouterSession Completion).waiting = [] :=
    List.filterMap_eq_nil_iff.2 fun _ _ => rfl
  rw [hnone]
  exact List.Perm.refl _

/-- A call that is handled keeps what the dictionary is to satisfy. -/
theorem Handled.valid {s t : RouterSession Completion} (h : Handled s t)
    (halive : t.router.rootController ≠ none) (hnodup : t.router.viewControllers.Nodup) : t.Valid :=
  ⟨halive, hnodup, h.keys, h.accounted⟩

/-! ## The calls -/

/-- A call that does nothing is handled. -/
theorem Valid.handled_self {s : RouterSession Completion} (hs : s.Valid) : Handled s s := by
  refine ⟨hs.keys, ⟨[], (List.append_nil _).symm, ?_⟩, fun c _ _ => rfl, hs.accounted⟩
  have hnone : (s.router.viewControllers.filter fun c => c ∉ s.router.viewControllers) = [] :=
    List.filter_eq_nil_iff.2 fun c hc => by simp [hc]
  rw [hnone]
  exact List.Perm.refl _

/-- **Controllers leave the stack.**  The controllers on top are taken off, and
their completions are run in the order in which UIKit lists them. -/
theorem Valid.release {s : RouterSession Completion} (hs : s.Valid)
    {popped rest controllers : List UIViewController}
    (hstack : s.router.viewControllers = popped ++ rest) (hlisted : controllers.Perm popped) :
    let t := s.after (RouterImp.runCompletions controllers
      { s.router with rootController := some rest })
    Handled s t ∧ t.Valid := by
  have hnodup : (popped ++ rest).Nodup := hstack ▸ hs.nodup
  obtain ⟨hpopped, hrest, hdisjoint⟩ := List.nodup_append.1 hnodup
  have hapart : ∀ c ∈ rest, c ∉ controllers := fun c hc hmem =>
    hdisjoint c (hlisted.mem_iff.1 hmem) c hc rfl
  intro t
  have ht : t = ⟨⟨some rest, fun c => if c ∈ controllers then none else s.router.completions c⟩,
      s.registered, s.ran ++ controllers.filterMap s.router.completions⟩ := by
    simp only [t]
    rw [RouterImp.runCompletions_eq (hlisted.nodup_iff.2 hpopped)]
    rfl
  have hleft :
      (s.router.viewControllers.filter fun c => c ∉ t.router.viewControllers) = popped := by
    rw [hstack, ht, List.filter_append, List.filter_eq_self.2, List.filter_eq_nil_iff.2,
      List.append_nil]
    · exact fun c hc h => of_decide_eq_true h hc
    · exact fun c hc => decide_eq_true fun hmem => hdisjoint c hc c hmem rfl
  have hwaiting : t.waiting = rest.filterMap s.router.completions := by
    rw [ht]
    exact List.filterMap_congr fun c hc => if_neg (hapart c hc)
  have hhandled : Handled s t := by
    refine ⟨fun c hc => ?_, ⟨controllers.filterMap s.router.completions, by rw [ht], ?_⟩,
      fun c _ hc => ?_, ?_⟩
    · rw [ht] at hc ⊢
      have hnot : c ∉ controllers := fun hmem => hc (if_pos hmem)
      have hkey : s.router.completions c ≠ none := fun hnone => hc ((if_neg hnot).trans hnone)
      have hmem : c ∈ popped ++ rest := hstack ▸ hs.keys c hkey
      exact (List.mem_append.1 hmem).resolve_left fun h => hnot (hlisted.mem_iff.2 h)
    · rw [hleft]
      exact hlisted.filterMap _
    · rw [ht] at hc ⊢
      exact if_neg (hapart c hc)
    · -- what waited has either been run now, or is still waiting
      have hsplit : s.waiting =
          popped.filterMap s.router.completions ++ rest.filterMap s.router.completions := by
        rw [waiting, hstack, List.filterMap_append]
      have hreg : t.registered = s.registered := by rw [ht]
      have hran : t.ran = s.ran ++ controllers.filterMap s.router.completions := by rw [ht]
      rw [hreg, hwaiting, hran, List.append_assoc]
      refine hs.accounted.trans (List.Perm.append_left _ ?_)
      rw [hsplit]
      exact (hlisted.symm.filterMap _).append_right _
  refine ⟨hhandled, hhandled.valid ?_ ?_⟩
  · rw [ht]
    exact Option.some_ne_none _
  · rw [ht]
    exact hrest

theorem Valid.popModule {s : RouterSession Completion} (hs : s.Valid) :
    Handled s (s.after s.router.popModule) ∧ (s.after s.router.popModule).Valid := by
  have hroot := RouterImp.rootController_eq hs.alive
  rcases hstack : s.router.viewControllers with _ | ⟨c, _ | ⟨d, rest⟩⟩
  · have hsame : s.after s.router.popModule = s := by
      simp [RouterImp.popModule, RouterImp.popViewController, hroot, hstack, after]
    rw [hsame]
    exact ⟨hs.handled_self, hs⟩
  · have hsame : s.after s.router.popModule = s := by
      simp [RouterImp.popModule, RouterImp.popViewController, hroot, hstack, after]
    rw [hsame]
    exact ⟨hs.handled_self, hs⟩
  · have hpop : s.router.popModule = RouterImp.runCompletions [c]
        { s.router with rootController := some (d :: rest) } := by
      simp [RouterImp.popModule, RouterImp.popViewController, hroot, hstack,
        RouterImp.runCompletions]
    rw [hpop]
    exact hs.release hstack (List.Perm.refl [c])

theorem Valid.popToRootModule {s : RouterSession Completion} (hs : s.Valid)
    {listed : List UIViewController → List UIViewController} (hlisted : ∀ l, (listed l).Perm l) :
    Handled s (s.after (s.router.popToRootModule listed)) ∧
      (s.after (s.router.popToRootModule listed)).Valid := by
  have hpop : s.router.popToRootModule listed =
      RouterImp.runCompletions (listed s.router.viewControllers.dropLast)
        { s.router with rootController := some s.router.viewControllers.getLast?.toList } := by
    have hroot := RouterImp.rootController_eq hs.alive
    rw [RouterImp.popToRootModule, RouterImp.popToRootViewController_eq listed hroot]
  rw [hpop]
  refine hs.release ?_ (hlisted _)
  cases hstack : s.router.viewControllers using List.reverseRecOn with
  | nil => rfl
  | append_singleton l c => simp

theorem Valid.push {s : RouterSession Completion} (hs : s.Valid) {c : UIViewController}
    {completion : Option Completion} {r : RouterImp Completion}
    (hc : c.isNavigationController = false) (hr : s.router.push (some c) completion = some r) :
    let t : RouterSession Completion := { s with
      router := r, registered := s.registered ++ completion.toList }
    Handled s t ∧ t.Valid := by
  obtain ⟨hnew, hroot, hcompletion, hother⟩ := RouterImp.push_eq hc hr
  rw [RouterImp.rootController_eq hs.alive] at hroot
  intro t
  have hstack : t.router.viewControllers = c :: s.router.viewControllers :=
    RouterImp.viewControllers_of_eq hroot
  have hne : ∀ d ∈ s.router.viewControllers, d ≠ c := by
    rintro d hd rfl
    exact hnew hd
  have hcNone : s.router.completions c = none := by
    by_contra hkey
    exact hnew (hs.keys c hkey)
  have hself : t.router.completions c = completion := by
    show r.completions c = completion
    rw [hcompletion, hcNone, Option.or_none]
  have hother : ∀ d, d ≠ c → t.router.completions d = s.router.completions d := hother
  have hhandled : Handled s t := by
    refine ⟨fun d hd => ?_, ⟨[], (List.append_nil _).symm, ?_⟩,
      fun d hd _ => hother d (hne d hd), ?_⟩
    · rw [hstack]
      by_cases heq : d = c
      · exact heq ▸ List.mem_cons_self
      · rw [hother d heq] at hd
        exact List.mem_cons_of_mem _ (hs.keys d hd)
    · have hnone :
          (s.router.viewControllers.filter fun d => d ∉ t.router.viewControllers) = [] := by
        refine List.filter_eq_nil_iff.2 fun d hd h => ?_
        rw [hstack] at h
        exact of_decide_eq_true h (List.mem_cons_of_mem _ hd)
      rw [hnone]
      exact List.Perm.refl _
    · have hwaiting : t.waiting = completion.toList ++ s.waiting := by
        have hrest : s.router.viewControllers.filterMap t.router.completions =
            s.router.viewControllers.filterMap s.router.completions :=
          List.filterMap_congr fun d hd => hother d (hne d hd)
        rw [waiting, waiting, hstack, ← hrest]
        cases completion with
        | none => rw [List.filterMap_cons_none hself]; rfl
        | some k => rw [List.filterMap_cons_some hself]; rfl
      rw [hwaiting]
      refine (hs.accounted.append_right _).trans ?_
      rw [List.append_assoc]
      exact List.Perm.append_left _ List.perm_append_comm
  obtain ⟨halive, hnodup⟩ := RouterImp.nodup_of_push hs.nodup hnew hroot
  exact ⟨hhandled, hhandled.valid halive hnodup⟩

/-- In a list without repetitions, a function that is `none` everywhere else has at
most one value. -/
theorem filterMap_eq_of_only {f : UIViewController → Option Completion} {c : UIViewController}
    (honly : ∀ d, f d ≠ none → d = c) {stack : List UIViewController} (hnodup : stack.Nodup)
    (hc : c ∉ stack → f c = none) : stack.filterMap f = (f c).toList := by
  have hnone : ∀ l : List UIViewController, c ∉ l → l.filterMap f = [] := by
    intro l hl
    refine List.filterMap_eq_nil_iff.2 fun d hd => ?_
    by_contra hsome
    exact hl (honly d hsome ▸ hd)
  by_cases hmem : c ∈ stack
  · obtain ⟨above, below, rfl⟩ := List.append_of_mem hmem
    have habove : c ∉ above := fun h =>
      List.disjoint_of_nodup_append hnodup h List.mem_cons_self
    have hbelow : c ∉ below := (List.nodup_cons.1 (List.nodup_append.1 hnodup).2.1).1
    rw [List.filterMap_append, hnone above habove, List.filterMap_cons, hnone below hbelow]
    cases f c <;> rfl
  · rw [hnone stack hmem, hc hmem]
    rfl

/-- A new root is all there is on the stack. -/
theorem Valid.rootController_setRootModule {s : RouterSession Completion} (hs : s.Valid)
    (c : UIViewController) : (s.router.setRootModule (some c)).rootController = some [c] := by
  rw [RouterImp.setRootModule, RouterImp.setViewControllers, RouterImp.rootController_eq hs.alive]
  rfl

theorem Valid.viewControllers_setRootModule {s : RouterSession Completion} (hs : s.Valid)
    (c : UIViewController) : (s.router.setRootModule (some c)).viewControllers = [c] :=
  RouterImp.viewControllers_of_eq (hs.rootController_setRootModule c)

/-- A new root is handled precisely when no other controller waits. -/
theorem Valid.setRootModule_iff {s : RouterSession Completion} (hs : s.Valid)
    (c : UIViewController) :
    Handled s { s with router := s.router.setRootModule (some c) } ↔
      ∀ d, s.router.completions d ≠ none → d = c := by
  have hstack := hs.viewControllers_setRootModule c
  constructor
  · intro h d hd
    have hmem := h.keys d hd
    rw [hstack] at hmem
    exact List.mem_singleton.1 hmem
  · intro honly
    refine ⟨fun d hd => ?_, ⟨[], (List.append_nil _).symm, ?_⟩, fun _ _ _ => rfl, ?_⟩
    · rw [hstack]
      exact List.mem_singleton.2 (honly d hd)
    · -- the controllers that are dropped have no completion
      rw [List.filterMap_eq_nil_iff.2]
      intro d hd
      obtain ⟨-, hleft⟩ := List.mem_filter.1 hd
      by_contra hkey
      refine of_decide_eq_true hleft ?_
      rw [hstack]
      exact List.mem_singleton.2 (honly d hkey)
    · have hwaiting : ([c].filterMap s.router.completions) = s.waiting := by
        rw [waiting, filterMap_eq_of_only honly hs.nodup fun hmem => ?_]
        · cases h : s.router.completions c <;> simp [h]
        · by_contra hkey
          exact hmem (hs.keys c hkey)
      show s.registered.Perm (s.ran ++ (s.router.setRootModule (some c)).viewControllers.filterMap
        s.router.completions)
      rw [hstack, hwaiting]
      exact hs.accounted

/-! ## Runs -/

/-- One call of a valid session is handled precisely when it meets the condition. -/
theorem Valid.handled_iff {listed : List UIViewController → List UIViewController}
    (hlisted : ∀ l, (listed l).Perm l) {s t : RouterSession Completion} (hs : s.Valid)
    {e : RouterCall Completion} (he : (machine listed).enabled s e)
    (ht : (machine listed).step s e = some t) : Handled s t ↔ NobodyElseWaits s e := by
  cases e with
  | push module completion =>
    obtain ⟨c, rfl, hc⟩ := he
    obtain ⟨r, hr, rfl⟩ := Option.map_eq_some_iff.1 ht
    exact iff_of_true (hs.push hc hr).1 fun _ h => nomatch h
  | popModule =>
    cases ht
    exact iff_of_true hs.popModule.1 fun _ h => nomatch h
  | popToRootModule =>
    cases ht
    exact iff_of_true (hs.popToRootModule hlisted).1 fun _ h => nomatch h
  | setRootModule module =>
    cases ht
    cases module with
    | none => exact iff_of_true hs.handled_self fun _ h => nomatch h
    | some c =>
      rw [hs.setRootModule_iff]
      constructor
      · intro honly d h
        cases h
        exact honly
      · exact fun h => h c rfl

/-- A call that is handled leaves a valid session. -/
theorem Valid.step {listed : List UIViewController → List UIViewController}
    (hlisted : ∀ l, (listed l).Perm l) {s t : RouterSession Completion} (hs : s.Valid)
    {e : RouterCall Completion} (he : (machine listed).enabled s e)
    (ht : (machine listed).step s e = some t) (hC : NobodyElseWaits s e) : t.Valid := by
  have hhandled := (hs.handled_iff hlisted he ht).2 hC
  cases e with
  | push module completion =>
    obtain ⟨c, rfl, hc⟩ := he
    obtain ⟨r, hr, rfl⟩ := Option.map_eq_some_iff.1 ht
    exact (hs.push hc hr).2
  | popModule =>
    cases ht
    exact hs.popModule.2
  | popToRootModule =>
    cases ht
    exact (hs.popToRootModule hlisted).2
  | setRootModule module =>
    cases ht
    cases module with
    | none => exact hs
    | some c =>
      refine hhandled.valid ?_ ?_
      · rw [hs.rootController_setRootModule]
        exact Option.some_ne_none _
      · rw [hs.viewControllers_setRootModule]
        exact List.nodup_singleton c

/-- **When the completions run once.**  Take a router on any stack without
repetitions, and any run of its calls in which the pushed controllers are no
navigation controllers; UIKit may list the controllers that a pop to the root
removes in any order.  Every call of the run is handled — it runs the completions
of the controllers it takes off the stack, each once, and leaves completions to
controllers on the stack alone — precisely when no call of the run sets a root
module while another controller has a completion. -/
theorem completions_run_once_iff {listed : List UIViewController → List UIViewController}
    (hlisted : ∀ l, (listed l).Perm l) {stack : List UIViewController} (hstack : stack.Nodup)
    {tr : Trace (RouterSession Completion) (RouterCall Completion)}
    (hr : (machine listed).Run (opened stack) tr) :
    Machine.EachTransition (fun s _ t => Handled s t) (opened stack) tr ↔
      Machine.EachStep NobodyElseWaits (opened stack) tr :=
  hr.eachTransition_iff_eachStep (I := Valid)
    (fun hs he ht hC => hs.step hlisted he ht hC)
    (fun hs he ht => hs.handled_iff hlisted he ht) (valid_opened hstack)

/-! ## Two runs -/

/-- A controller, pushed with the completion `7`. -/
def pushed : RouterSession ℕ where
  router := ⟨some [⟨1, false⟩], Function.update (fun _ => none) ⟨1, false⟩ (some 7)⟩
  registered := [7]
  ran := []

/-- The same controller, replaced by another root. -/
def replaced : RouterSession ℕ := { pushed with
  router := { pushed.router with rootController := some [⟨2, false⟩] } }

/-- **A completion that is never run.**  After the new root the completion of the
pushed controller has not been run, and the dictionary still holds the controller,
which is gone from the stack. -/
theorem setRootModule_drops_completion :
    let tr : Trace (RouterSession ℕ) (RouterCall ℕ) :=
      [(.push (some ⟨1, false⟩) (some 7), pushed), (.setRootModule (some ⟨2, false⟩), replaced)]
    (machine id).Run (opened []) tr ∧ replaced.registered = [7] ∧ replaced.ran = [] ∧
      (⟨1, false⟩ : UIViewController) ∉ replaced.router.viewControllers ∧
      replaced.router.completions ⟨1, false⟩ = some 7 ∧
      ¬ Machine.EachTransition (fun s _ t => Handled s t) (opened []) tr := by
  refine ⟨.cons ⟨_, rfl, rfl⟩ rfl (.cons trivial rfl (.nil _)), rfl, rfl, by decide, rfl, ?_⟩
  rintro ⟨-, hlast, -⟩
  have hkept : replaced.router.completions ⟨1, false⟩ ≠ none := Option.some_ne_none 7
  exact absurd (hlast.keys ⟨1, false⟩ hkept) (by decide)

/-- The calls that push the controller on another one and pop it. -/
def popped : Trace (RouterSession ℕ) (RouterCall ℕ) :=
  [(.push (some ⟨1, false⟩) (some 7), { pushed with
      router := { pushed.router with rootController := some [⟨1, false⟩, ⟨0, false⟩] } }),
    (.popModule, {
      router := ⟨some [⟨0, false⟩], Function.update pushed.router.completions ⟨1, false⟩ none⟩
      registered := [7]
      ran := [7] })]

theorem run_popped : (machine id).Run (opened [⟨0, false⟩]) popped :=
  .cons ⟨_, rfl, rfl⟩ rfl (.cons trivial rfl (.nil _))

/-- Popping the controller runs its completion. -/
theorem completions_run_once_popped :
    Machine.EachTransition (fun s _ t => Handled s t) (opened [⟨0, false⟩]) popped :=
  (completions_run_once_iff List.Perm.refl (List.nodup_singleton _) run_popped).2
    (And.intro (fun _ h => nomatch h) (And.intro (fun _ h => nomatch h) trivial))

end RouterSession

end Alarma
