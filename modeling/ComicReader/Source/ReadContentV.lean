import ComicReader.Source.DataSource

/-!
# `MK_ComicReadContentV`, the reader's collection view

The view keeps the loaded chapters as the sections of a collection view. The
book numbers its parts newest first and the sections run oldest last, so
section `s` is meant to hold part `zeroSectionIndex - s`: the next chapter to
read has the smaller part index and is appended, the previous one has the
larger index and is inserted in front.

Two subscriptions do the work. `onState` reacts to every value of `state` and
starts the loads; `onEndShowIndex` reacts to a page leaving the screen,
rewrites the two labels from the page that came on screen last, and asks for
a neighbour when that page is at an edge. A load that was started stays in
`outstanding` until its answer arrives, which runs one of the three blocks.
-/

namespace ComicReader

/-- `MK_ComicReadContentV.State`. -/
inductive State where
  | error
  | reading
  | setUp (startIndex : Int)
  | loadNextDate (nextIndex : Int)
  | loadPreviousDate (preIndex : Int)
deriving DecidableEq, Repr

structure IndexPath where
  «section» : Nat
  row : Nat
deriving DecidableEq, Repr

/-- Which of the three blocks waits for the answer of a request. -/
inductive Block where
  | setUp
  | loadNextDate
  | loadPreviousDate
deriving DecidableEq, Repr

/-- A `getPartImageUrlStrArr` that has not answered: the block it was given,
the part index it was started for, and the part itself. -/
structure Request where
  block : Block
  index : Int
  model : ComickPartInfo
deriving DecidableEq, Repr

structure ComicReadContentV where
  state : Variable State
  currentImageArrV : Variable (List (List String))
  currentReadIndex : Variable Int
  currentShowIndex : Variable (Nat × Nat)
  willShowIndex : Variable (Option IndexPath)
  endShowIndex : Variable (Option IndexPath)
  zeroSectionIndex : Int
  outstanding : List Request
deriving DecidableEq, Repr

/-- `MK_ComicReadVC.getIndexComicPart`, the delegate's one method. -/
def getIndexComicPart (book : ComickBookInfo) (index : Int) :
    Option ComickPartInfo :=
  if index ≥ 0 ∧ index < book.bookPartArray.length then
    subscript book.bookPartArray index
  else none

namespace ComicReadContentV

/-! ## The `state` subscription -/

/-- The common head of the three loading branches: ask the delegate for the
part and, if there is one, start its `getPartImageUrlStrArr`. -/
def load (book : ComickBookInfo) (sf : ComicReadContentV) (block : Block)
    (index : Int) : ComicReadContentV :=
  match getIndexComicPart book index with
  | some model =>
      { sf with outstanding := sf.outstanding ++ [⟨block, index, model⟩] }
  | none => sf

/-- The subscriber of `state`. -/
def onState (book : ComickBookInfo) (sf : ComicReadContentV) :
    State → ComicReadContentV
  | .error => sf
  | .setUp startIndex => load book sf .setUp startIndex
  | .loadNextDate nextIndex => load book sf .loadNextDate nextIndex
  | .loadPreviousDate preIndex => load book sf .loadPreviousDate preIndex
  | .reading => sf

/-- The assignment `sf.state.value = res`, which runs the subscriber. -/
def setState (book : ComickBookInfo) (sf : ComicReadContentV) (res : State) :
    ComicReadContentV :=
  onState book { sf with state := sf.state.set res } res

/-- The block of the set-up request. A `nil` answer is only logged. -/
def setUpBlock (book : ComickBookInfo) (sf : ComicReadContentV)
    (startIndex : Int) (arr : Option (List String)) : ComicReadContentV :=
  match arr with
  | none => sf
  | some imArr =>
      let sf :=
        { sf with
          currentImageArrV := sf.currentImageArrV.set [imArr]
          zeroSectionIndex := startIndex
          currentShowIndex := sf.currentShowIndex.set (1, imArr.length)
          currentReadIndex := sf.currentReadIndex.set startIndex }
      let sf := setState book sf .reading
      let sf :=
        if imArr.length = 1 then
          setState book sf (.loadNextDate (startIndex - 1))
        else sf
      setState book sf (.loadPreviousDate (startIndex + 1))

/-- The block of a next request. -/
def loadNextDateBlock (book : ComickBookInfo) (sf : ComicReadContentV)
    (arr : Option (List String)) : ComicReadContentV :=
  match arr with
  | none => setState book sf .error
  | some imArr =>
      let sf :=
        { sf with
          currentImageArrV :=
            sf.currentImageArrV.set (sf.currentImageArrV.value ++ [imArr]) }
      setState book sf .reading

/-- The block of a previous request. -/
def loadPreviousDateBlock (book : ComickBookInfo) (sf : ComicReadContentV)
    (arr : Option (List String)) : ComicReadContentV :=
  match arr with
  | none => setState book sf .error
  | some imArr =>
      let sf :=
        { sf with
          currentImageArrV :=
            sf.currentImageArrV.set (imArr :: sf.currentImageArrV.value)
          zeroSectionIndex := sf.zeroSectionIndex + 1 }
      setState book sf .reading

/-- The answer `arr` of `req` arrives. -/
def answer (book : ComickBookInfo) (sf : ComicReadContentV) (req : Request)
    (arr : Option (List String)) : ComicReadContentV :=
  let sf := { sf with outstanding := sf.outstanding.erase req }
  match req.block with
  | .setUp => setUpBlock book sf req.index arr
  | .loadNextDate => loadNextDateBlock book sf arr
  | .loadPreviousDate => loadPreviousDateBlock book sf arr

/-! ## The `endShowIndex` subscription -/

/-- The labels: the page shown with its total, and the part being read when
it is not the one recorded already. -/
def showLabels (sf : ComicReadContentV) (willShowIndex : IndexPath)
    (currentShowArr : List String) : ComicReadContentV :=
  let sf :=
    { sf with
      currentShowIndex :=
        sf.currentShowIndex.set
          (willShowIndex.row + 1, currentShowArr.length) }
  let currentShowIndex : Int := sf.zeroSectionIndex - willShowIndex.section
  if currentShowIndex ≠ sf.currentReadIndex.value then
    { sf with
      currentReadIndex := sf.currentReadIndex.set currentShowIndex }
  else sf

/-- The test of the branch that loads the next part: the last row of the last
section. The source compares with `count - 1` in `Int`, so an empty section
has no last row. -/
def atLastPage (sf : ComicReadContentV) (willShowIndex : IndexPath)
    (currentShowArr : List String) : Prop :=
  willShowIndex.section + 1 = sf.currentImageArrV.value.length ∧
    willShowIndex.row + 1 = currentShowArr.length

instance {sf : ComicReadContentV} {p : IndexPath} {arr : List String} :
    Decidable (atLastPage sf p arr) :=
  inferInstanceAs (Decidable (_ ∧ _))

def loadNextAtEdge (book : ComickBookInfo) (sf : ComicReadContentV)
    (willShowIndex : IndexPath) (currentShowArr : List String) :
    ComicReadContentV :=
  if atLastPage sf willShowIndex currentShowArr then
    match sf.state.value with
    | .loadNextDate _ => sf
    | _ =>
        setState book sf
          (.loadNextDate
            (sf.zeroSectionIndex - sf.currentImageArrV.value.length))
  else sf

/-- The branch that loads the previous part, at row 0 of section 0. Its part
index is computed as in the branch above. -/
def loadPreviousAtEdge (book : ComickBookInfo) (sf : ComicReadContentV)
    (willShowIndex : IndexPath) : ComicReadContentV :=
  if willShowIndex.section = 0 ∧ willShowIndex.row = 0 then
    match sf.state.value with
    | .loadPreviousDate _ => sf
    | _ =>
        setState book sf
          (.loadPreviousDate
            (sf.zeroSectionIndex - sf.currentImageArrV.value.length))
  else sf

/-- The subscriber of `endShowIndex`; `none` is the trap of the subscript
`currentImageArrV.value[willShowIndex.section]`. -/
def onEndShowIndex (book : ComickBookInfo) (sf : ComicReadContentV)
    (res : Option IndexPath) : Option ComicReadContentV :=
  match sf.willShowIndex.value, res with
  | some willShowIndex, some endIndex =>
      if endIndex ≠ willShowIndex then
        (sf.currentImageArrV.value[willShowIndex.section]?).map
          fun currentShowArr =>
            let sf := showLabels sf willShowIndex currentShowArr
            let sf := loadNextAtEdge book sf willShowIndex currentShowArr
            loadPreviousAtEdge book sf willShowIndex
      else some sf
  | _, _ => some sf

/-! ## The collection view's side -/

/-- `numberOfItemsInSection`; `none` is the trap of its subscript. -/
def numberOfItemsInSection (sf : ComicReadContentV) (sec : Nat) : Option Nat :=
  (sf.currentImageArrV.value[sec]?).map List.length

/-- `indexPath` is a page of the sections as they are now. -/
def hasItem (sf : ComicReadContentV) (indexPath : IndexPath) : Prop :=
  ∃ n ∈ sf.numberOfItemsInSection indexPath.section, indexPath.row < n

instance {sf : ComicReadContentV} {p : IndexPath} : Decidable (sf.hasItem p) :=
  inferInstanceAs (Decidable (∃ n ∈ _, _))

def willDisplay (sf : ComicReadContentV) (indexPath : IndexPath) :
    ComicReadContentV :=
  { sf with willShowIndex := sf.willShowIndex.set (some indexPath) }

def didEndDisplaying (book : ComickBookInfo) (sf : ComicReadContentV)
    (indexPath : IndexPath) : Option ComicReadContentV :=
  onEndShowIndex book
    { sf with endShowIndex := sf.endShowIndex.set (some indexPath) }
    (some indexPath)

/-- `init(delegate:index:)`. Subscribing to `state` sends its first value, so
the set-up request is already out; `endShowIndex` sends `nil`, which its
subscriber ignores. -/
def initial (book : ComickBookInfo) (index : Int) : ComicReadContentV :=
  onState book
    { state := .init (.setUp index)
      currentImageArrV := .init []
      currentReadIndex := .init 0
      currentShowIndex := .init (0, 0)
      willShowIndex := .init none
      endShowIndex := .init none
      zeroSectionIndex := 0
      outstanding := [] }
    (.setUp index)

end ComicReadContentV

/-- What can happen to a reader: the answer of an outstanding request, with
its part's page array or with `nil`, and the two display notifications. -/
inductive ReadEvent where
  | answer (req : Request) (success : Bool)
  | willDisplay (indexPath : IndexPath)
  | didEndDisplaying (indexPath : IndexPath)
deriving DecidableEq, Repr

/-- The reader after an event. Only outstanding requests answer, and
`willDisplay` always carries a page of the current sections. -/
def readStep (book : ComickBookInfo) (sf : ComicReadContentV) :
    ReadEvent → Option ComicReadContentV
  | .answer req success =>
      if req ∈ sf.outstanding then
        some (sf.answer book req
          (if success then some req.model.partImageUrlStrArr else none))
      else none
  | .willDisplay indexPath =>
      if sf.hasItem indexPath then some (sf.willDisplay indexPath) else none
  | .didEndDisplaying indexPath => sf.didEndDisplaying book indexPath

end ComicReader
