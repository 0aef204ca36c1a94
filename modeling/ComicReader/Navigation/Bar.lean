import ComicReader.Info.Page
import ComicReader.Source.BaseVC

/-!
# The bar follows the controller on top

Whatever is pushed, popped and swiped, the bar is as the controller on top
wants it, and every controller but the root has a back item. So the back item
can be tapped exactly if there is something to go back to and the controller on
top shows the bar. A reader does not: if readers are all that is pushed, the
back item is never on screen, and `navigationBack` never runs.

The app pushes nothing else. The stack of every run is one that pushes of
readers make, so whoever opens a chapter has nothing to tap that leads back to
the list.
-/

namespace ComicReader

open Lib

namespace NavigationController

variable {Icon : Type} {sf sf' : NavigationController Icon}

/-- A controller at height `k` of the stack, as its `viewDidLoad` left it. -/
structure LoadedAt (k : Nat) (vc : Controller Icon) : Prop where
  item : vc.leftBarButtonItem = decide (0 < k)
  bottom : 0 < k → vc.hidesBottomBarWhenPushed = true
  reader : vc.controllerClass = .ComicReadVC → vc.isShowNavigationBar = false

/-- The stack with the controller on top, which the bar follows. -/
structure Follows (sf : NavigationController Icon) : Prop where
  top : ∃ vc, sf.viewControllers.getLast? = some vc ∧
    sf.navigationBar = vc.bar
  loaded : ∀ k vc, sf.viewControllers[k]? = some vc → LoadedAt k vc

theorem viewDidLoad_eq (vc : Controller Icon) (count : Nat) :
    vc.viewDidLoad count =
      { vc with
        leftBarButtonItem := vc.leftBarButtonItem || decide (1 < count)
        isShowNavigationBar := vc.isShowNavigationBar &&
          decide (vc.controllerClass ≠ .ComicReadVC) } := by
  obtain ⟨controllerClass, isShow, icon, item, hides⟩ := vc
  by_cases hcount : 1 < count <;> cases controllerClass <;>
    simp [Controller.viewDidLoad, hcount]

/-- A controller that is alone keeps the item it was created with. -/
theorem loadedAt_viewDidLoad {vc : Controller Icon} {n : Nat}
    (hroot : n = 0 → vc.leftBarButtonItem = false)
    (hbottom : 0 < n → vc.hidesBottomBarWhenPushed = true) :
    LoadedAt n (vc.viewDidLoad (n + 1)) := by
  rw [viewDidLoad_eq]
  refine ⟨?_, hbottom, fun h => ?_⟩
  · by_cases hn : n = 0
    · simp [hn, hroot hn]
    · simp [Nat.pos_of_ne_zero hn]
  · show (vc.isShowNavigationBar &&
      decide (vc.controllerClass ≠ .ComicReadVC)) = false
    rw [show vc.controllerClass = .ComicReadVC from h]
    simp

/-- After the top has appeared the bar follows it. -/
theorem follows_topWillAppear (hne : sf.viewControllers ≠ [])
    (hloaded : ∀ k vc, sf.viewControllers[k]? = some vc → LoadedAt k vc) :
    Follows sf.topWillAppear := by
  obtain ⟨vc, htop⟩ : ∃ vc, sf.viewControllers.getLast? = some vc :=
    ⟨_, List.getLast?_eq_some_getLast hne⟩
  have hbar : sf.topWillAppear = { sf with navigationBar := vc.bar } := by
    rw [topWillAppear, htop]
  rw [hbar]
  exact ⟨⟨vc, htop, rfl⟩, hloaded⟩

theorem follows_launch {emptyIm : Icon} {root : Controller Icon}
    (hroot : root.leftBarButtonItem = false) :
    Follows (launch emptyIm root) := by
  refine follows_topWillAppear (List.cons_ne_nil _ _) fun k vc hvc => ?_
  rw [List.getElem?_singleton] at hvc
  obtain ⟨rfl, hvc⟩ := Option.ite_none_right_eq_some.mp hvc
  rw [← Option.some.inj hvc]
  exact loadedAt_viewDidLoad (fun _ => hroot)
    fun h => absurd h (Nat.lt_irrefl 0)

theorem Follows.ne_nil (hF : Follows sf) : sf.viewControllers ≠ [] := by
  obtain ⟨vc, htop, -⟩ := hF.top
  rintro hnil
  rw [hnil] at htop
  cases htop

theorem Follows.push (hF : Follows sf) (vc : Controller Icon) :
    Follows (sf.pushViewController vc) := by
  have hpos : 0 < sf.viewControllers.length :=
    List.length_pos_iff.mpr hF.ne_nil
  refine follows_topWillAppear (by simp) fun k vc' hvc' => ?_
  rw [List.getElem?_append] at hvc'
  split at hvc'
  · exact hF.loaded k vc' hvc'
  · next hk =>
      rw [List.getElem?_singleton] at hvc'
      obtain ⟨hlast, hvc'⟩ := Option.ite_none_right_eq_some.mp hvc'
      have hk' : k = sf.viewControllers.length := by omega
      rw [← Option.some.inj hvc', hk', if_pos (Nat.succ_le_of_lt hpos)]
      exact loadedAt_viewDidLoad (fun h => absurd h (Nat.ne_of_gt hpos))
        fun _ => rfl

/-- Setting the background once more after a pop changes nothing. -/
theorem popViewController_eq (hlen : 1 < sf.viewControllers.length) :
    sf.popViewController =
      topWillAppear
        { sf with viewControllers := sf.viewControllers.dropLast } := by
  have hne : sf.viewControllers.dropLast ≠ [] := by
    refine List.ne_nil_of_length_pos ?_
    rw [List.length_dropLast]
    omega
  obtain ⟨vc, htop⟩ : ∃ vc, sf.viewControllers.dropLast.getLast? = some vc :=
    ⟨_, List.getLast?_eq_some_getLast hne⟩
  simp only [popViewController, if_pos hlen, topWillAppear, htop,
    Controller.bar]

theorem Follows.pop (hF : Follows sf)
    (hlen : 1 < sf.viewControllers.length) : Follows sf.popViewController := by
  rw [popViewController_eq hlen]
  refine follows_topWillAppear ?_ fun k vc hvc => ?_
  · refine List.ne_nil_of_length_pos ?_
    rw [List.length_dropLast]
    omega
  · rw [List.getElem?_dropLast] at hvc
    exact hF.loaded k vc (Option.ite_none_right_eq_some.mp hvc).2

theorem Follows.swipeCancelled (hF : Follows sf) :
    Follows sf.swipeCancelled :=
  follows_topWillAppear hF.ne_nil hF.loaded

/-- The back item can be tapped exactly if there is a controller below and
the bar is shown. -/
theorem Follows.back_iff (hF : Follows sf) :
    (screenStep sf .navigationBack).isSome ↔
      1 < sf.viewControllers.length ∧ sf.navigationBar.isHidden = false := by
  obtain ⟨vc, htop, -⟩ := hF.top
  have hlast := htop
  rw [List.getLast?_eq_getElem?] at hlast
  have hitem : vc.leftBarButtonItem = true ↔
      1 < sf.viewControllers.length := by
    rw [(hF.loaded _ vc hlast).item, decide_eq_true_iff]
    omega
  simp only [screenStep, htop, hitem]
  split
  · next h => exact iff_of_true rfl h
  · next h => exact iff_of_false (by simp) h

theorem Follows.step (hF : Follows sf) {e : ScreenEvent Icon}
    (hs : screenStep sf e = some sf') : Follows sf' := by
  cases e with
  | push vc => exact Option.some.inj hs ▸ hF.push vc
  | navigationBack =>
      have hback := hF.back_iff.mp (Option.isSome_iff_exists.mpr ⟨sf', hs⟩)
      obtain ⟨vc, htop, -⟩ := hF.top
      simp only [screenStep, htop, Option.ite_none_right_eq_some] at hs
      exact Option.some.inj hs.2 ▸ hF.pop hback.1
  | swipe completed =>
      simp only [screenStep, Option.ite_none_right_eq_some] at hs
      obtain ⟨hlen, hs⟩ := hs
      cases completed with
      | true => exact Option.some.inj hs ▸ hF.pop hlen
      | false => exact Option.some.inj hs ▸ hF.swipeCancelled

variable {emptyIm : Icon} {root : Controller Icon}

def screenRun (emptyIm : Icon) (root : Controller Icon)
    (es : List (ScreenEvent Icon)) : Option (NavigationController Icon) :=
  run screenStep (launch emptyIm root) es

theorem follows_of_run (hroot : root.leftBarButtonItem = false)
    {es : List (ScreenEvent Icon)}
    (hr : screenRun emptyIm root es = some sf) : Follows sf := by
  refine run_induction (P := fun _ sf => Follows sf) (follows_launch hroot)
    ?_ hr
  exact fun _ _ _ _ _ hF hs => hF.step hs

/-! ## Only readers -/

def PushesReader : ScreenEvent Icon → Prop
  | .push vc => vc.controllerClass = .ComicReadVC
  | _ => True

/-- Above the root there are readers. -/
def ReadersAbove (sf : NavigationController Icon) : Prop :=
  ∀ k vc, 0 < k → sf.viewControllers[k]? = some vc →
    vc.controllerClass = .ComicReadVC

theorem viewControllers_topWillAppear :
    sf.topWillAppear.viewControllers = sf.viewControllers := by
  unfold topWillAppear
  split <;> rfl

theorem ReadersAbove.step (hR : ReadersAbove sf) (hF : Follows sf)
    {e : ScreenEvent Icon} (he : PushesReader e)
    (hs : screenStep sf e = some sf') : ReadersAbove sf' := by
  have hpop : 1 < sf.viewControllers.length →
      ReadersAbove sf.popViewController := by
    intro hlen k vc hk hvc
    rw [popViewController_eq hlen, viewControllers_topWillAppear,
      List.getElem?_dropLast] at hvc
    exact hR k vc hk (Option.ite_none_right_eq_some.mp hvc).2
  cases e with
  | push vc =>
      obtain rfl := Option.some.inj hs
      intro k vc' hk hvc'
      rw [pushViewController, viewControllers_topWillAppear,
        List.getElem?_append] at hvc'
      split at hvc'
      · exact hR k vc' hk hvc'
      · rw [List.getElem?_singleton] at hvc'
        obtain ⟨-, hvc'⟩ := Option.ite_none_right_eq_some.mp hvc'
        rw [← Option.some.inj hvc', viewDidLoad_eq]
        show Controller.controllerClass (if _ then _ else _) = _
        split <;> exact he
  | navigationBack =>
      have hback := hF.back_iff.mp (Option.isSome_iff_exists.mpr ⟨sf', hs⟩)
      obtain ⟨vc, htop, -⟩ := hF.top
      simp only [screenStep, htop, Option.ite_none_right_eq_some] at hs
      exact Option.some.inj hs.2 ▸ hpop hback.1
  | swipe completed =>
      simp only [screenStep, Option.ite_none_right_eq_some] at hs
      obtain ⟨hlen, hs⟩ := hs
      cases completed with
      | true => exact Option.some.inj hs ▸ hpop hlen
      | false =>
          obtain rfl := Option.some.inj hs
          intro k vc hk hvc
          rw [if_neg (by simp), swipeCancelled,
            viewControllers_topWillAppear] at hvc
          exact hR k vc hk hvc

/-- Under readers the bar is hidden. -/
theorem ReadersAbove.isHidden (hR : ReadersAbove sf) (hF : Follows sf)
    (hlen : 1 < sf.viewControllers.length) :
    sf.navigationBar.isHidden = true := by
  obtain ⟨vc, htop, hbar⟩ := hF.top
  rw [List.getLast?_eq_getElem?] at htop
  have hclass := hR _ vc (by omega) htop
  rw [hbar, Controller.bar, (hF.loaded _ vc htop).reader hclass]
  rfl

theorem ReadersAbove.back_eq_none (hR : ReadersAbove sf) (hF : Follows sf) :
    screenStep sf .navigationBack = none := by
  rw [← Option.not_isSome_iff_eq_none, hF.back_iff]
  rintro ⟨hlen, hshown⟩
  rw [hR.isHidden hF hlen] at hshown
  cases hshown

theorem readersAbove_of_run (hroot : root.leftBarButtonItem = false)
    {es : List (ScreenEvent Icon)} (hes : ∀ e ∈ es, PushesReader e)
    (hr : screenRun emptyIm root es = some sf) : ReadersAbove sf := by
  refine run_induction
    (P := fun es sf => (∀ e ∈ es, PushesReader e) → ReadersAbove sf)
    ?_ ?_ hr hes
  · intro _ k vc hk hvc
    rw [launch, viewControllers_topWillAppear, List.getElem?_singleton,
      if_neg (Nat.ne_of_gt hk)] at hvc
    cases hvc
  · intro es u e v hu ih hs hes
    have hpre := ih fun e' he' => hes e' (List.mem_append_left _ he')
    refine hpre.step (follows_of_run hroot hu) ?_ hs
    exact hes e (List.mem_append_right _ (List.mem_singleton_self e))

/-- The bar is always as the controller on top wants it, and the back item can
be tapped exactly if the bar is shown above more than one controller. Where
only readers are pushed it never can, and no event but a swipe leaves one. -/
theorem bar_of_run (hroot : root.leftBarButtonItem = false)
    {es : List (ScreenEvent Icon)}
    (hr : screenRun emptyIm root es = some sf) :
    (∃ vc, sf.viewControllers.getLast? = some vc ∧
        sf.navigationBar = vc.bar) ∧
      ((screenStep sf .navigationBack).isSome ↔
        1 < sf.viewControllers.length ∧
          sf.navigationBar.isHidden = false) ∧
      ((∀ e ∈ es, PushesReader e) →
        screenStep sf .navigationBack = none) := by
  have hF := follows_of_run hroot hr
  refine ⟨hF.top, hF.back_iff, fun hes => ?_⟩
  exact (readersAbove_of_run hroot hes hr).back_eq_none hF

/-- A chapter is opened, and a swipe back is begun and given up. -/
def peekedBack : List (ScreenEvent Unit) :=
  [.push (.create .ComicReadVC), .swipe false]

theorem bar_of_run_peekedBack :
    ∃ sf, screenRun () (.create .BaseVC) peekedBack = some sf ∧
      sf.viewControllers.length = 2 ∧
      screenStep sf .navigationBack = none := by
  have hr : screenRun () (.create .BaseVC) peekedBack =
      some (_ : NavigationController Unit) := rfl
  refine ⟨_, hr, rfl, (bar_of_run rfl hr).2.2 ?_⟩
  simp [peekedBack, PushesReader, Controller.create]

/-! ## The app -/

/-- A controller as the navigation of the app has it: whether it is a reader
and whether it hides the bottom bar. -/
def outline (vc : Controller Icon) : Bool × Bool :=
  (decide (vc.controllerClass = .ComicReadVC), vc.hidesBottomBarWhenPushed)

def StackedVC.outline : StackedVC → Bool × Bool
  | .root => (false, false)
  | .reader _ hidesBottomBarWhenPushed => (true, hidesBottomBarWhenPushed)

theorem outline_push (hne : sf.viewControllers ≠ []) :
    (sf.pushViewController (.create .ComicReadVC)).viewControllers.map
        outline =
      sf.viewControllers.map outline ++ [(true, true)] := by
  have hlen : sf.viewControllers.length ≥ 1 := List.length_pos_iff.mpr hne
  rw [pushViewController, viewControllers_topWillAppear, if_pos hlen,
    viewDidLoad_eq, List.map_append]
  rfl

theorem exists_screenRun_pushes (n : Nat) :
    ∃ sf, screenRun () (.create .BaseVC)
        (List.replicate n (.push (.create .ComicReadVC))) = some sf ∧
      sf.viewControllers.map outline =
        (false, false) :: List.replicate n (true, true) := by
  induction n with
  | zero => exact ⟨_, rfl, rfl⟩
  | succ n ih =>
      obtain ⟨sf, hr, hstack⟩ := ih
      refine ⟨sf.pushViewController (.create .ComicReadVC), ?_, ?_⟩
      · rw [List.replicate_succ']
        exact run_snoc_some.mpr ⟨sf, hr, rfl⟩
      · rw [outline_push (follows_of_run rfl hr).ne_nil, hstack,
          List.replicate_succ', List.cons_append]

/-- The stack of the app is made by pushes of readers, and no controller of it
can be left by the back item. -/
theorem no_way_back {Image : Type} {F : Foundation}
    {serves : String → Option Image}
    {getComicPartInfo : String → String → List String}
    {app : ComickApp Image} {es : List AppEvent}
    (hr : ComickApp.appRun F serves getComicPartInfo es = some app) :
    ∃ sf, screenRun () (.create .BaseVC)
        (List.replicate app.readers.length
          (.push (.create .ComicReadVC))) = some sf ∧
      sf.viewControllers.map outline =
        (app.navigation.instances ()).viewControllers.map
          StackedVC.outline ∧
      (sf.navigationBar.isHidden = true ↔ app.readers ≠ []) ∧
      screenStep sf .navigationBack = none := by
  obtain ⟨sf, hs, houtline⟩ := exists_screenRun_pushes app.readers.length
  have hpushes : ∀ e ∈ List.replicate app.readers.length
      (.push (.create .ComicReadVC) : ScreenEvent Unit), PushesReader e := by
    intro e he
    rw [List.eq_of_mem_replicate he]
    rfl
  have hF := follows_of_run rfl hs
  have hR := readersAbove_of_run rfl hpushes hs
  have hlen : sf.viewControllers.length = app.readers.length + 1 := by
    have hcount := congrArg List.length houtline
    simpa using hcount
  refine ⟨sf, hs, ?_, ?_, hR.back_eq_none hF⟩
  · rw [houtline, (ComickApp.readers_of_run hr).stack, List.map_cons,
      List.map_map]
    exact congrArg _ List.map_const'.symm
  · constructor
    · intro hhidden hnil
      rw [hnil] at hs
      obtain rfl := Option.some.inj hs
      cases hhidden
    · intro hne
      have hpos := List.length_pos_iff.mpr hne
      exact hR.isHidden hF (by omega)

theorem no_way_back_openedFirst :
    ∃ (app : ComickApp String) (sf : NavigationController Unit),
      ComickApp.appRun wholeNumbers some (fun _ _ => [])
        ComickApp.openedFirst = some app ∧
      sf.viewControllers.map outline = [(false, false), (true, true)] ∧
      screenStep sf .navigationBack = none := by
  have hr : ComickApp.appRun wholeNumbers some (fun _ _ => [])
      ComickApp.openedFirst = some (_ : ComickApp String) := rfl
  obtain ⟨sf, -, hstack, -, hback⟩ := no_way_back hr
  exact ⟨_, sf, hr, hstack, hback⟩

end NavigationController

end ComicReader
