import ComicReader.Source.ReadVC

/-!
# `MK_ComicPartV`, the chapter list of a book

Three views share the list. `MK_ComicPartToolV` holds the sort order and the
button that flips it, `MK_ComicPartContentV` the rows and the selected row,
and `MK_ComicPartV` the book; its three subscriptions are all that connects
them. The book's own order is newest first, `inverted`.

A selected row is answered by pushing a `MK_ComicReadVC`; `pushed` lists
those, the latest first.
-/

namespace ComicReader

/-- `MK_ComicPartToolV.OrderType`. -/
inductive OrderType where
  | positive
  | inverted
deriving DecidableEq, Repr

/-! ## `MK_ComicPartToolV` -/

structure ComicPartToolV where
  orderType : Variable OrderType
  /-- The title of `orderBu`. -/
  orderBu : String
deriving DecidableEq, Repr

namespace ComicPartToolV

/-- The tool bar's own subscriber of `orderType`. -/
def onOrderType (sf : ComicPartToolV) (res : OrderType) : ComicPartToolV :=
  match res with
  | .positive => { sf with orderBu := "正序" }
  | .inverted => { sf with orderBu := "倒序" }

def create : ComicPartToolV :=
  onOrderType ⟨.init .inverted, ""⟩ .inverted

/-- The value a tap of `orderBu` binds to `orderType`. -/
def tapped (sf : ComicPartToolV) : OrderType :=
  match sf.orderType.value with
  | .positive => .inverted
  | .inverted => .positive

def setOrderType (sf : ComicPartToolV) (res : OrderType) : ComicPartToolV :=
  onOrderType { sf with orderType := sf.orderType.set res } res

end ComicPartToolV

/-! ## `MK_ComicPartContentV` -/

structure ComicPartContentV where
  modelArrV : Variable (List ComickPartInfo)
  currentSelectIndex : Variable (Option Nat)
deriving DecidableEq, Repr

namespace ComicPartContentV

def create : ComicPartContentV := ⟨.init [], .init none⟩

def numberOfItemsInSection (sf : ComicPartContentV) : Nat :=
  sf.modelArrV.value.length

/-- The part the cell of `row` shows; `none` is the trap. -/
def cellForItemAt (sf : ComicPartContentV) (row : Nat) :
    Option ComickPartInfo :=
  sf.modelArrV.value[row]?

end ComicPartContentV

/-! ## `MK_ComicPartV` -/

structure ComicPartV where
  modelV : Variable (Option ComickBookInfo)
  toolBar : ComicPartToolV
  contenV : ComicPartContentV
  pushed : List ComicReadVC
deriving DecidableEq, Repr

namespace ComicPartV

def setModelArr (sf : ComicPartV) (arr : List ComickPartInfo) : ComicPartV :=
  { sf with
    contenV := { sf.contenV with modelArrV := sf.contenV.modelArrV.set arr } }

/-- The subscriber of `modelV`. -/
def onModelV (sf : ComicPartV) (res : Option ComickBookInfo) : ComicPartV :=
  match res with
  | some model => setModelArr sf model.bookPartArray
  | none => sf

/-- The subscriber of `orderType`, after the first value. -/
def onOrderType (sf : ComicPartV) (res : OrderType) : ComicPartV :=
  match sf.modelV.value with
  | some model =>
      match res with
      | .positive => setModelArr sf model.bookPartArray.reverse
      | .inverted => setModelArr sf model.bookPartArray
  | none => sf

/-- The subscriber of `currentSelectIndex`. -/
def onCurrentSelectIndex (sf : ComicPartV) (res : Option Nat) : ComicPartV :=
  match sf.modelV.value, res with
  | some model, some index =>
      { sf with pushed := ComicReadVC.create index model :: sf.pushed }
  | _, _ => sf

/-- `init()`. No subscriber reacts to the first values: the book and the
selected row are `nil`, and the first `orderType` is skipped. -/
def create : ComicPartV where
  modelV := .init none
  toolBar := .create
  contenV := .create
  pushed := []

/-- The assignment `modelV.value = res`. -/
def setModel (sf : ComicPartV) (res : Option ComickBookInfo) : ComicPartV :=
  onModelV { sf with modelV := sf.modelV.set res } res

/-- A tap of the order button. The tool bar subscribed first. -/
def tapOrder (sf : ComicPartV) : ComicPartV :=
  let res := sf.toolBar.tapped
  onOrderType { sf with toolBar := sf.toolBar.setOrderType res } res

def didSelectItemAt (sf : ComicPartV) (row : Nat) : ComicPartV :=
  onCurrentSelectIndex
    { sf with
      contenV :=
        { sf.contenV with
          currentSelectIndex :=
            sf.contenV.currentSelectIndex.set (some row) } }
    (some row)

end ComicPartV

inductive PartEvent where
  | setModel (res : Option ComickBookInfo)
  | tapOrder
  | didSelectItemAt (row : Nat)
deriving DecidableEq, Repr

/-- The chapter list after an event. Only rows of the list can be tapped. -/
def partStep (sf : ComicPartV) : PartEvent → Option ComicPartV
  | .setModel res => some (sf.setModel res)
  | .tapOrder => some sf.tapOrder
  | .didSelectItemAt row =>
      if row < sf.contenV.numberOfItemsInSection then
        some (sf.didSelectItemAt row)
      else none

end ComicReader
