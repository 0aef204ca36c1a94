import ComicReader.Parts.Shown
import ComicReader.Source.MainNavigationV

/-!
# Whether the static names the controller on screen

A controller on screen has been told that it will appear and not yet that it
will disappear. `Stage` keeps those beside the app, the latest first, and lets
each controller's notifications alternate; the order of two controllers'
notifications is free, so one may arrive before the other leaves.

The static never names a controller that has gone, but it forgets one that is
still there: any departure clears it. So it names the controller on screen
exactly in the runs where no departure leaves one controller alone on screen,
and a tap of a chapter gets through whenever any is on screen exactly where
every departure leaves the screen empty.
-/

namespace ComicReader

open Lib

variable {ι : Type _} [DecidableEq ι]

/-- The app and the controllers on screen. -/
structure Stage (ι : Type _) where
  app : NavigationApp ι
  shown : List ι

namespace Stage

variable {u v : Stage ι} {x : ι}

def start : Stage ι := ⟨.create, []⟩

/-- The controllers on screen after an event, as long as the notifications of
each alternate. -/
def announce (shown : List ι) : NavigationEvent ι → Option (List ι)
  | .viewWillAppear x => if x ∈ shown then none else some (x :: shown)
  | .viewWillDisappear x => if x ∈ shown then some (shown.erase x) else none
  | .part _ => some shown

def stageStep (u : Stage ι) (e : NavigationEvent ι) : Option (Stage ι) :=
  (announce u.shown e).bind fun shown =>
    (navigationStep u.app e).map fun app => ⟨app, shown⟩

/-- A tap of a chapter pushes a reader on `x`, and on `x` only. -/
def TapsReach (app : NavigationApp ι) (x : ι) : Prop :=
  ∀ row model, app.partV.modelV.value = some model →
    (app.didSelectItemAt row).instances =
      Function.update app.instances x
        ((app.instances x).pushViewController (.create row model))

/-- If exactly one controller is on screen, the static names it and a tap
reaches it. -/
def NamesShown (u : Stage ι) : Prop :=
  ∀ x, u.shown = [x] →
    u.app.currentShowNavigationVC = some x ∧ TapsReach u.app x

/-- If any controller is on screen, the static names one of them and a tap
reaches it. -/
def TapsArrive (u : Stage ι) : Prop :=
  u.shown ≠ [] → ∃ x ∈ u.shown,
    u.app.currentShowNavigationVC = some x ∧ TapsReach u.app x

/-- A departure does not leave one controller alone on screen. -/
def LeavesNotOne (u : Stage ι) : NavigationEvent ι → Prop
  | .viewWillDisappear x => (u.shown.erase x).length ≠ 1
  | _ => True

/-- A departure leaves the screen empty. -/
def LeavesNone (u : Stage ι) : NavigationEvent ι → Prop
  | .viewWillDisappear x => u.shown.erase x = []
  | _ => True

instance : {e : NavigationEvent ι} → Decidable (LeavesNotOne u e)
  | .viewWillDisappear _ => inferInstanceAs (Decidable (_ ≠ _))
  | .viewWillAppear _ | .part _ => inferInstanceAs (Decidable True)

instance : {e : NavigationEvent ι} → Decidable (LeavesNone u e)
  | .viewWillDisappear _ => inferInstanceAs (Decidable (_ = _))
  | .viewWillAppear _ | .part _ => inferInstanceAs (Decidable True)

/-! ## Where a tap goes -/

theorem tapsReach_of_current {app : NavigationApp ι}
    (h : app.currentShowNavigationVC = some x) : TapsReach app x := by
  intro row model hmodel
  rw [NavigationApp.didSelectItemAt, ComicPartV.didSelectItemAt_eq]
  simp only [NavigationApp.onCurrentSelectIndex, hmodel,
    NavigationApp.pushThroughCurrent, h]

/-- With no controller in the static a tap is dropped. -/
theorem instances_of_current_none {app : NavigationApp ι}
    (h : app.currentShowNavigationVC = none) (row : Nat) :
    (app.didSelectItemAt row).instances = app.instances := by
  rw [NavigationApp.didSelectItemAt, ComicPartV.didSelectItemAt_eq]
  simp only [NavigationApp.onCurrentSelectIndex]
  split
  · simp only [NavigationApp.pushThroughCurrent, h]
  · rfl

/-! ## One event -/

/-- What an event can do to the static and the screen. -/
inductive StageCase (u : Stage ι) : NavigationEvent ι → Stage ι → Prop
  | appears {x : ι} (hx : x ∉ u.shown) :
      StageCase u (.viewWillAppear x)
        ⟨u.app.viewWillAppear x, x :: u.shown⟩
  | disappears {x : ι} (hx : x ∈ u.shown) :
      StageCase u (.viewWillDisappear x)
        ⟨u.app.viewWillDisappear x, u.shown.erase x⟩
  | list {e : PartEvent} {app : NavigationApp ι}
      (happ : app.currentShowNavigationVC = u.app.currentShowNavigationVC) :
      StageCase u (.part e) ⟨app, u.shown⟩

theorem current_didSelectItemAt (app : NavigationApp ι) (row : Nat) :
    (app.didSelectItemAt row).currentShowNavigationVC =
      app.currentShowNavigationVC := by
  unfold NavigationApp.didSelectItemAt NavigationApp.onCurrentSelectIndex
  split
  · unfold NavigationApp.pushThroughCurrent
    split
    · rfl
    · rfl
  · rfl

theorem stageStep_cases {e : NavigationEvent ι}
    (hs : stageStep u e = some v) : StageCase u e v := by
  obtain ⟨shown, hshown, hs⟩ := Option.bind_eq_some_iff.mp hs
  obtain ⟨app, happ, rfl⟩ := Option.map_eq_some_iff.mp hs
  cases e with
  | viewWillAppear x =>
      obtain ⟨hx, rfl⟩ : x ∉ u.shown ∧ x :: u.shown = shown := by
        simpa [announce] using hshown
      obtain rfl := Option.some.inj happ
      exact .appears hx
  | viewWillDisappear x =>
      obtain ⟨hx, rfl⟩ : x ∈ u.shown ∧ u.shown.erase x = shown := by
        simpa [announce] using hshown
      obtain rfl := Option.some.inj happ
      exact .disappears hx
  | part e =>
      obtain rfl := Option.some.inj hshown
      refine .list ?_
      cases e with
      | didSelectItemAt row =>
          obtain ⟨-, happ⟩ := Option.ite_none_right_eq_some.mp happ
          obtain rfl := Option.some.inj happ
          exact current_didSelectItemAt _ _
      | setModel res | tapOrder =>
          obtain rfl := Option.some.inj happ
          rfl

/-! ## Runs -/

/-- The static never names a controller that has gone. -/
theorem current_mem {es : List (NavigationEvent ι)}
    (hr : run stageStep start es = some u) :
    ∀ x, u.app.currentShowNavigationVC = some x → x ∈ u.shown := by
  refine run_induction
    (P := fun _ u => ∀ x, u.app.currentShowNavigationVC = some x →
      x ∈ u.shown) (by rintro x ⟨⟩) ?_ hr
  intro _ u e v _ hmem hs x hcurrent
  cases stageStep_cases hs with
  | appears _ =>
      obtain rfl := Option.some.inj hcurrent
      exact List.mem_cons_self
  | disappears _ => cases hcurrent
  | list happ => exact hmem x (happ.symm.trans hcurrent)

theorem current_of_leavesNotOne {es : List (NavigationEvent ι)}
    (hr : run (restrict LeavesNotOne stageStep) start es = some u) :
    ∀ x, u.shown = [x] → u.app.currentShowNavigationVC = some x := by
  refine run_induction
    (P := fun _ u => ∀ x, u.shown = [x] →
      u.app.currentShowNavigationVC = some x) (by rintro x ⟨⟩) ?_ hr
  intro _ u e v _ hnames hs x hx
  obtain ⟨hok, hs⟩ := restrict_eq_some.mp hs
  cases stageStep_cases hs with
  | appears _ =>
      obtain ⟨rfl, -⟩ := List.cons.inj hx
      rfl
  | disappears _ => exact absurd (congrArg List.length hx) hok
  | list happ => exact happ.trans (hnames x hx)

theorem current_of_leavesNone {es : List (NavigationEvent ι)}
    (hr : run (restrict LeavesNone stageStep) start es = some u) :
    u.shown ≠ [] → ∃ x, u.app.currentShowNavigationVC = some x := by
  refine run_induction
    (P := fun _ u => u.shown ≠ [] →
      ∃ x, u.app.currentShowNavigationVC = some x)
    (fun h => absurd rfl h) ?_ hr
  intro _ u e v _ harrives hs hne
  obtain ⟨hok, hs⟩ := restrict_eq_some.mp hs
  cases stageStep_cases hs with
  | appears _ => exact ⟨_, rfl⟩
  | disappears _ => exact absurd hok hne
  | list happ => exact happ ▸ harrives hne

/-- The static names the controller on screen throughout a run if and only if
no departure leaves one alone, and a tap gets through at any time that one is
on screen if and only if every departure leaves none. -/
theorem current_iff {es : List (NavigationEvent ι)}
    (hr : run stageStep start es = some u) :
    ((∀ pre v, pre <+: es → run stageStep start pre = some v →
        NamesShown v) ↔
      run (restrict LeavesNotOne stageStep) start es = some u) ∧
    ((∀ pre v, pre <+: es → run stageStep start pre = some v →
        TapsArrive v) ↔
      run (restrict LeavesNone stageStep) start es = some u) := by
  constructor
  · refine run_restrict_iff_forall LeavesNotOne (fun _ v => NamesShown v) hr
      ?_ ?_
    · intro pre v _ hv x hx
      have hcurrent := current_of_leavesNotOne hv x hx
      exact ⟨hcurrent, tapsReach_of_current hcurrent⟩
    · intro pre u e v _ _ hs _ hnames
      cases stageStep_cases hs with
      | appears _ => trivial
      | disappears _ =>
          intro hone
          obtain ⟨x, hx⟩ := List.length_eq_one_iff.mp hone
          cases (hnames x hx).1
      | list _ => trivial
  · refine run_restrict_iff_forall LeavesNone (fun _ v => TapsArrive v) hr
      ?_ ?_
    · intro pre v _ hv hne
      obtain ⟨x, hcurrent⟩ := current_of_leavesNone hv hne
      exact ⟨x, current_mem (run_of_restrict hv) x hcurrent, hcurrent,
        tapsReach_of_current hcurrent⟩
    · intro pre u e v _ _ hs _ harrives
      cases stageStep_cases hs with
      | appears _ => trivial
      | disappears _ =>
          by_contra hne
          obtain ⟨x, -, hcurrent, -⟩ := harrives hne
          cases hcurrent
      | list _ => trivial

/-- The first controller leaves before the second one comes. -/
def inTurn : List (NavigationEvent Bool) :=
  [.viewWillAppear false, .viewWillDisappear false, .viewWillAppear true,
    .part (.setModel (some ComicPartV.shortParts)),
    .part (.didSelectItemAt 1)]

/-- The second controller is announced before the first one leaves. -/
def switched : List (NavigationEvent Bool) :=
  [.viewWillAppear false, .viewWillAppear true, .viewWillDisappear false,
    .part (.setModel (some ComicPartV.shortParts))]

theorem current_iff_inTurn :
    ∃ u, run stageStep start inTurn = some u ∧
      ((∀ pre v, pre <+: inTurn → run stageStep start pre = some v →
          NamesShown v) ↔
        run (restrict LeavesNotOne stageStep) start inTurn = some u) ∧
      ((∀ pre v, pre <+: inTurn → run stageStep start pre = some v →
          TapsArrive v) ↔
        run (restrict LeavesNone stageStep) start inTurn = some u) :=
  ⟨_, rfl, current_iff rfl⟩

/-- One controller is on screen, the static is empty, and a tap of a row that
is there pushes nothing. -/
theorem current_lost_switched :
    ∃ u, run stageStep start switched = some u ∧ u.shown = [true] ∧
      u.app.currentShowNavigationVC = none ∧ ¬ NamesShown u ∧
      ∃ v, stageStep u (.part (.didSelectItemAt 1)) = some v ∧
        v.app.instances = u.app.instances := by
  refine ⟨_, rfl, rfl, rfl, ?_, _, rfl, instances_of_current_none rfl 1⟩
  intro hnames
  cases (hnames true rfl).1

end Stage

end ComicReader
