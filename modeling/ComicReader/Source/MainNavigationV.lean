import Mathlib.Logic.Function.Basic
import ComicReader.Source.PartV

/-!
# `MK_MainNavigationV` and the controller on display

The class keeps one static, `currentShowNavigationVC`, that every instance
writes: an instance that is about to appear puts itself there, an instance that
is about to disappear puts `nil`. The chapter list reads it when a row is
selected and pushes the reader through it.

`NavigationApp` is the static together with the instances, told apart by `ι`,
and one chapter list. A stack has its root at the bottom and only readers above
it. The list keeps its own record of what it creates, `ComicPartV.pushed`;
where that ends up is decided here.
-/

namespace ComicReader

/-- A controller on a stack. -/
inductive StackedVC where
  | root
  | reader (vc : ComicReadVC) (hidesBottomBarWhenPushed : Bool)
deriving DecidableEq, Repr

structure MainNavigationV where
  viewControllers : List StackedVC
deriving DecidableEq, Repr

namespace MainNavigationV

/-- `init(rootViewController:)`. -/
def create : MainNavigationV := ⟨[.root]⟩

def pushViewController (sf : MainNavigationV) (viewController : ComicReadVC) :
    MainNavigationV :=
  let hidesBottomBarWhenPushed := decide (sf.viewControllers.length ≥ 1)
  ⟨sf.viewControllers ++ [.reader viewController hidesBottomBarWhenPushed]⟩

end MainNavigationV

structure NavigationApp (ι : Type _) where
  currentShowNavigationVC : Option ι
  instances : ι → MainNavigationV
  partV : ComicPartV

namespace NavigationApp

variable {ι : Type _}

def create : NavigationApp ι := ⟨none, fun _ => .create, .create⟩

def viewWillAppear (app : NavigationApp ι) (self : ι) : NavigationApp ι :=
  { app with currentShowNavigationVC := some self }

/-- The instance that disappears is not compared with the static. -/
def viewWillDisappear (app : NavigationApp ι) (_self : ι) : NavigationApp ι :=
  { app with currentShowNavigationVC := none }

variable [DecidableEq ι]

/-- `currentShowNavigationVC?.pushViewController(vc, animated: true)`. -/
def pushThroughCurrent (app : NavigationApp ι) (vc : ComicReadVC) :
    NavigationApp ι :=
  match app.currentShowNavigationVC with
  | some v =>
      { app with
        instances := Function.update app.instances v
          ((app.instances v).pushViewController vc) }
  | none => app

/-- The subscriber of `currentSelectIndex`. -/
def onCurrentSelectIndex (app : NavigationApp ι) (res : Option Nat) :
    NavigationApp ι :=
  match app.partV.modelV.value, res with
  | some model, some index =>
      app.pushThroughCurrent (ComicReadVC.create index model)
  | _, _ => app

def didSelectItemAt (app : NavigationApp ι) (row : Nat) : NavigationApp ι :=
  onCurrentSelectIndex { app with partV := app.partV.didSelectItemAt row }
    (some row)

end NavigationApp

inductive NavigationEvent (ι : Type _) where
  | viewWillAppear (self : ι)
  | viewWillDisappear (self : ι)
  | part (e : PartEvent)
deriving DecidableEq, Repr

/-- The app after an event. What is selected in the list goes through the
static; the rest of the list is `partStep`. -/
def navigationStep {ι : Type _} [DecidableEq ι] (app : NavigationApp ι) :
    NavigationEvent ι → Option (NavigationApp ι)
  | .viewWillAppear self => some (app.viewWillAppear self)
  | .viewWillDisappear self => some (app.viewWillDisappear self)
  | .part (.didSelectItemAt row) =>
      if row < app.partV.contenV.numberOfItemsInSection then
        some (app.didSelectItemAt row)
      else none
  | .part e => (partStep app.partV e).map fun partV => { app with partV }

end ComicReader
