import Mathlib.Data.List.Basic

/-!
# `MK_BaseVC`, and the bar above the controllers

Every controller of the app is a `MK_BaseVC`. When its view loads it takes a
back item if it is not alone on its stack, and whenever it is about to appear
it sets the bar as it wants it: shown or hidden, and with its background image.
The reader hides the bar. `MK_MainNavigationV` empties the background of its
bar when it loads and sets it again after a pop.

UIKit decides when these are called. A pushed controller loads its view with
itself on the stack and then appears; a controller that a pop uncovers appears
again; a swipe that is not completed makes the lower controller appear and then
the upper one again. An item of the bar can only be tapped while the bar is
shown.
-/

namespace ComicReader

/-- The subclasses of `MK_BaseVC` with a `viewDidLoad` of their own that the
bar depends on, and all others. -/
inductive ControllerClass where
  | BaseVC
  | ComicReadVC
deriving DecidableEq, Repr

structure Controller (Icon : Type) where
  controllerClass : ControllerClass
  isShowNavigationBar : Bool
  navigationBarBackGroundIm : Option Icon
  /-- Whether `navigationItem.leftBarButtonItem` is the back item. -/
  leftBarButtonItem : Bool
  hidesBottomBarWhenPushed : Bool
deriving DecidableEq, Repr

structure NavigationBar (Icon : Type) where
  isHidden : Bool
  backgroundImage : Option Icon
deriving DecidableEq, Repr

structure NavigationController (Icon : Type) where
  viewControllers : List (Controller Icon)
  navigationBar : NavigationBar Icon
deriving DecidableEq, Repr

namespace Controller

variable {Icon : Type}

/-- As a controller of the class is created. -/
def create (controllerClass : ControllerClass) : Controller Icon where
  controllerClass := controllerClass
  isShowNavigationBar := true
  navigationBarBackGroundIm := none
  leftBarButtonItem := false
  hidesBottomBarWhenPushed := false

/-- `viewDidLoad`, with `count` controllers on the stack. -/
def viewDidLoad (vc : Controller Icon) (count : Nat) : Controller Icon :=
  let vc := if count > 1 then { vc with leftBarButtonItem := true } else vc
  match vc.controllerClass with
  | .BaseVC => vc
  | .ComicReadVC => { vc with isShowNavigationBar := false }

/-- The bar as `viewWillAppear` sets it. -/
def bar (vc : Controller Icon) : NavigationBar Icon where
  isHidden := !vc.isShowNavigationBar
  backgroundImage := vc.navigationBarBackGroundIm

end Controller

namespace NavigationController

variable {Icon : Type}

/-- The last controller of the stack appears. -/
def topWillAppear (sf : NavigationController Icon) :
    NavigationController Icon :=
  match sf.viewControllers.getLast? with
  | some vc => { sf with navigationBar := vc.bar }
  | none => sf

/-- The window shows the stack of `root` alone. `emptyIm` is `UIImage()`. -/
def launch (emptyIm : Icon) (root : Controller Icon) :
    NavigationController Icon :=
  topWillAppear
    { viewControllers := [root.viewDidLoad 1]
      navigationBar := ⟨false, some emptyIm⟩ }

/-- `pushViewController`, of a controller whose view is not loaded. -/
def pushViewController (sf : NavigationController Icon)
    (viewController : Controller Icon) : NavigationController Icon :=
  let viewController :=
    if sf.viewControllers.length ≥ 1 then
      { viewController with hidesBottomBarWhenPushed := true }
    else viewController
  topWillAppear
    { sf with
      viewControllers := sf.viewControllers ++
        [viewController.viewDidLoad (sf.viewControllers.length + 1)] }

/-- `popViewController`. The root is not popped. -/
def popViewController (sf : NavigationController Icon) :
    NavigationController Icon :=
  let sf :=
    if sf.viewControllers.length > 1 then
      topWillAppear { sf with viewControllers := sf.viewControllers.dropLast }
    else sf
  match sf.viewControllers.getLast? with
  | some vc =>
      { sf with
        navigationBar :=
          { sf.navigationBar with
            backgroundImage := vc.navigationBarBackGroundIm } }
  | none => sf

/-- A swipe that begins to pop and is given up. -/
def swipeCancelled (sf : NavigationController Icon) :
    NavigationController Icon :=
  topWillAppear
    { sf.popViewController with viewControllers := sf.viewControllers }

end NavigationController

inductive ScreenEvent (Icon : Type) where
  | push (viewController : Controller Icon)
  | navigationBack
  | swipe (completed : Bool)

open NavigationController

/-- The stack after an event. The back item has to be on screen to be tapped,
and there has to be a controller below to swipe to. -/
def screenStep {Icon : Type} (sf : NavigationController Icon) :
    ScreenEvent Icon → Option (NavigationController Icon)
  | .push viewController => some (sf.pushViewController viewController)
  | .navigationBack =>
      match sf.viewControllers.getLast? with
      | some vc =>
          if vc.leftBarButtonItem ∧ sf.navigationBar.isHidden = false then
            some sf.popViewController
          else none
      | none => none
  | .swipe completed =>
      if sf.viewControllers.length > 1 then
        some (if completed then sf.popViewController else sf.swipeCancelled)
      else none

end ComicReader
