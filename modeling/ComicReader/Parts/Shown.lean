import ComicReader.Lib.Run
import ComicReader.Reader.Step
import ComicReader.Source.PartV

/-!
# Which order the chapter list is in

The list is rewritten by two subscriptions that do not ask each other: a book
that arrives is always laid out in its own order, and a tap of the order
button lays the present book out in the order it has just chosen. So the order
on screen is not the button's but `PartHistory.shownOrder`, which remembers
whether the button has been tapped since the last book arrived.

The reader, on the other hand, always takes the row for an index into the
book's own order. The two defects meet in `arrange`: the list agrees with the
button, and a tapped row opens its part, exactly when two arrangements of one
book have the same parts in the places in question.
-/

namespace ComicReader

open Lib

/-- The parts of a book in the order the button names. -/
def arrange {α : Type _} (order : OrderType) (parts : List α) : List α :=
  match order with
  | .positive => parts.reverse
  | .inverted => parts

@[simp] theorem length_arrange {α : Type _} {order : OrderType}
    {parts : List α} : (arrange order parts).length = parts.length := by
  cases order <;> simp [arrange]

theorem arrange_eq_iff {α : Type _} {order : OrderType} {parts : List α} :
    parts = arrange order parts ↔
      order = .inverted ∨ parts.reverse = parts := by
  cases order <;> simp [arrange, eq_comm]

def OrderType.flip : OrderType → OrderType
  | .positive => .inverted
  | .inverted => .positive

/-- What the events of the list determine: the order the button is at, and
whether it has been tapped since the last book arrived. -/
structure PartHistory where
  order : OrderType
  toggled : Bool
deriving DecidableEq, Repr

namespace PartHistory

def start : PartHistory := ⟨.inverted, false⟩

def record (h : PartHistory) : PartEvent → PartHistory
  | .setModel _ => { h with toggled := false }
  | .tapOrder => ⟨h.order.flip, true⟩
  | .didSelectItemAt _ => h

/-- The history after the events of `es`. -/
def after (es : List PartEvent) : PartHistory := history record start es

/-- The order the list is in. -/
def shownOrder (h : PartHistory) : OrderType :=
  if h.toggled then h.order else .inverted

end PartHistory

namespace ComicPartToolV

variable {sf : ComicPartToolV} {res : OrderType}

@[simp] theorem orderType_setOrderType :
    (sf.setOrderType res).orderType.value = res := by
  cases res <;> rfl

/-- Assigning the order has left the button with its title. -/
@[simp] theorem onOrderType_setOrderType :
    (sf.setOrderType res).onOrderType res = sf.setOrderType res := by
  cases res <;> rfl

end ComicPartToolV

namespace ComicPartV

variable {h : PartHistory} {sf sf' : ComicPartV} {book : ComickBookInfo}

/-! ## What one event does to the list -/

theorem setModel_eq (sf : ComicPartV) (res : Option ComickBookInfo) :
    sf.setModel res =
      { sf with
        modelV := sf.modelV.set res
        contenV :=
          match res with
          | some model =>
              { sf.contenV with
                modelArrV := sf.contenV.modelArrV.set model.bookPartArray }
          | none => sf.contenV } := by
  cases res <;> rfl

theorem tapOrder_eq (sf : ComicPartV) :
    sf.tapOrder =
      { sf with
        toolBar := sf.toolBar.setOrderType sf.toolBar.tapped
        contenV :=
          match sf.modelV.value with
          | some model =>
              { sf.contenV with
                modelArrV := sf.contenV.modelArrV.set
                  (arrange sf.toolBar.tapped model.bookPartArray) }
          | none => sf.contenV } := by
  cases hm : sf.modelV.value with
  | none => simp [tapOrder, onOrderType, hm]
  | some model =>
      cases ht : sf.toolBar.tapped <;>
        simp [tapOrder, onOrderType, hm, ht, setModelArr, arrange]

theorem didSelectItemAt_eq (sf : ComicPartV) (row : Nat) :
    sf.didSelectItemAt row =
      { sf with
        contenV :=
          { sf.contenV with
            currentSelectIndex :=
              sf.contenV.currentSelectIndex.set (some row) }
        pushed :=
          match sf.modelV.value with
          | some model => ComicReadVC.create row model :: sf.pushed
          | none => sf.pushed } := by
  cases hm : sf.modelV.value <;>
    simp [didSelectItemAt, onCurrentSelectIndex, hm]

/-! ## The invariant -/

structure Shown (h : PartHistory) (sf : ComicPartV) : Prop where
  order : sf.toolBar.orderType.value = h.order
  /-- The button's title is the one of its order. -/
  button : sf.toolBar.onOrderType sf.toolBar.orderType.value = sf.toolBar
  list : ∀ book, sf.modelV.value = some book →
    sf.contenV.modelArrV.value = arrange h.shownOrder book.bookPartArray

theorem shown_create : Shown .start create := by
  refine ⟨rfl, rfl, ?_⟩
  intro book hbook
  cases hbook

theorem Shown.tapped (hS : Shown h sf) :
    sf.toolBar.tapped = h.order.flip := by
  rw [ComicPartToolV.tapped, hS.order]
  rfl

theorem Shown.step (hS : Shown h sf) {e : PartEvent}
    (hs : partStep sf e = some sf') : Shown (h.record e) sf' := by
  cases e with
  | setModel res =>
      obtain rfl : sf.setModel res = sf' := Option.some.inj hs
      rw [setModel_eq]
      refine ⟨hS.order, hS.button, ?_⟩
      intro book hbook
      obtain rfl : res = some book := hbook
      rfl
  | tapOrder =>
      obtain rfl : sf.tapOrder = sf' := Option.some.inj hs
      rw [tapOrder_eq, hS.tapped]
      refine ⟨ComicPartToolV.orderType_setOrderType, ?_, ?_⟩
      · simp only [ComicPartToolV.orderType_setOrderType]
        exact ComicPartToolV.onOrderType_setOrderType
      · intro book hbook
        simp only at hbook
        simp only [hbook]
        rfl
  | didSelectItemAt row =>
      obtain rfl : sf.didSelectItemAt row = sf' :=
        (Option.ite_none_right_eq_some.mp hs).2 |> Option.some.inj
      rw [didSelectItemAt_eq]
      exact ⟨hS.order, hS.button, hS.list⟩

/-- The runs of a chapter list. -/
def partRun (es : List PartEvent) : Option ComicPartV :=
  run partStep create es

theorem shown_of_run {es : List PartEvent} (hr : partRun es = some sf) :
    Shown (PartHistory.after es) sf := by
  refine run_history (I := Shown) shown_create ?_ hr
  intro h sf e sf' hS hs
  exact hS.step hs

/-! ## The list and the button -/

/-- While there is a book, the list is the book's parts in the order of the
button, if and only if the button is at the book's own order, or has been
tapped since the book arrived, or the two orders are one. -/
theorem list_agrees_iff {es : List PartEvent} (hr : partRun es = some sf)
    (hbook : sf.modelV.value = some book) :
    sf.contenV.modelArrV.value =
        arrange sf.toolBar.orderType.value book.bookPartArray ↔
      (PartHistory.after es).order = .inverted ∨
        (PartHistory.after es).toggled = true ∨
        book.bookPartArray.reverse = book.bookPartArray := by
  have hS := shown_of_run hr
  rw [hS.list book hbook, hS.order, PartHistory.shownOrder]
  cases (PartHistory.after es).toggled with
  | true => simp
  | false => simpa [arrange] using arrange_eq_iff

/-- Three parts of one page, newest first. -/
def shortParts : ComickBookInfo where
  bookAuthor := "author"
  bookName := "name"
  bookDes := "description"
  bookCoverImageURLStr := "cover"
  bookPartArray := [⟨"3", ["c"]⟩, ⟨"2", ["b"]⟩, ⟨"1", ["a"]⟩]
  sourceType := .DMZJ

/-- A book arrives, and the button is tapped. -/
def bookThenTap : List PartEvent := [.setModel (some shortParts), .tapOrder]

theorem list_agrees_iff_bookThenTap :
    ∃ sf, partRun bookThenTap = some sf ∧
      sf.modelV.value = some shortParts ∧
      (sf.contenV.modelArrV.value =
          arrange sf.toolBar.orderType.value shortParts.bookPartArray ↔
        (PartHistory.after bookThenTap).order = .inverted ∨
          (PartHistory.after bookThenTap).toggled = true ∨
          shortParts.bookPartArray.reverse = shortParts.bookPartArray) := by
  have hr : ∃ sf, partRun bookThenTap = some sf ∧
      sf.modelV.value = some shortParts := ⟨_, rfl, rfl⟩
  obtain ⟨sf, hr, hbook⟩ := hr
  exact ⟨sf, hr, hbook, list_agrees_iff hr hbook⟩

/-- The button is tapped before the book arrives: it says positive, and the
book is shown in its own order. -/
theorem list_disagrees_tapThenBook :
    ∃ sf, partRun [.tapOrder, .setModel (some shortParts)] = some sf ∧
      sf.modelV.value = some shortParts ∧
      sf.toolBar.orderType.value = .positive ∧
      sf.contenV.modelArrV.value ≠
        arrange .positive shortParts.bookPartArray :=
  ⟨_, rfl, rfl, rfl, by decide⟩

/-! ## The tapped row and the reader -/

/-- The reader `vc` is opened at the part shown at `row`, and has asked for
its images. -/
def OpensShown (sf : ComicPartV) (row : Nat) (vc : ComicReadVC) : Prop :=
  ∃ part, sf.contenV.cellForItemAt row = some part ∧
    subscript vc.bookModel.bookPartArray vc.currentIndex.value = some part ∧
    vc.contentV.outstanding = [⟨.setUp, vc.currentIndex.value, part⟩]

/-- A reader asks for the part it is opened at, whichever that is. -/
theorem outstanding_contentV {vc : ComicReadVC} : vc.contentV.outstanding =
    requestFor vc.bookModel .setUp vc.currentIndex.value := by
  simp [ComicReadVC.contentV, ComicReadContentV.initial,
    ComicReadContentV.onState, ComicReadContentV.load_eq]

theorem opensShown_iff {row : Nat} :
    OpensShown sf row (.create row book) ↔
      ∃ part, sf.contenV.cellForItemAt row = some part ∧
        book.bookPartArray[row]? = some part := by
  constructor
  · intro ⟨part, hcell, hpart, _⟩
    exact ⟨part, hcell, (subscript_natCast _ row).symm.trans hpart⟩
  · intro ⟨part, hcell, hpart⟩
    have hsub : subscript book.bookPartArray row = some part :=
      (subscript_natCast _ row).trans hpart
    refine ⟨part, hcell, hsub, ?_⟩
    rw [outstanding_contentV]
    show requestFor book .setUp row = [⟨.setUp, row, part⟩]
    rw [requestFor, getIndexComicPart_eq, hsub]
    rfl

theorem getElem?_arrange_iff {α : Type _} {order : OrderType}
    {parts : List α} {n : Nat} (hn : n < parts.length) :
    (∃ part, (arrange order parts)[n]? = some part ∧
        parts[n]? = some part) ↔
      order = .inverted ∨ parts.reverse[n]? = parts[n]? := by
  rw [List.getElem?_eq_getElem hn]
  cases order <;> simp [arrange, hn, eq_comm]

/-- While there is a book, tapping a row opens a reader at the part shown
there, if and only if the list is in the book's own order or the part shown
has the same place in both orders. -/
theorem tap_opens_shown_iff {es : List PartEvent} (hr : partRun es = some sf)
    (hbook : sf.modelV.value = some book) {row : Nat}
    (hrow : row < sf.contenV.modelArrV.value.length) :
    ∃ sf' vc, partStep sf (.didSelectItemAt row) = some sf' ∧
      sf'.pushed = vc :: sf.pushed ∧
      (OpensShown sf row vc ↔
        (PartHistory.after es).shownOrder = .inverted ∨
          book.bookPartArray.reverse[row]? = book.bookPartArray[row]?) := by
  have hlist := (shown_of_run hr).list book hbook
  refine ⟨sf.didSelectItemAt row, .create row book, if_pos hrow, ?_, ?_⟩
  · rw [didSelectItemAt_eq, hbook]
  · rw [hlist, length_arrange] at hrow
    rw [opensShown_iff, ComicPartContentV.cellForItemAt, hlist]
    exact getElem?_arrange_iff hrow

theorem tap_opens_shown_iff_bookThenTap :
    ∃ sf sf' vc, partRun bookThenTap = some sf ∧
      partStep sf (.didSelectItemAt 1) = some sf' ∧
      sf'.pushed = vc :: sf.pushed ∧
      (OpensShown sf 1 vc ↔
        (PartHistory.after bookThenTap).shownOrder = .inverted ∨
          shortParts.bookPartArray.reverse[1]? =
            shortParts.bookPartArray[1]?) := by
  have hr : ∃ sf, partRun bookThenTap = some sf ∧
      sf.modelV.value = some shortParts ∧
      1 < sf.contenV.modelArrV.value.length := ⟨_, rfl, rfl, by decide⟩
  obtain ⟨sf, hr, hbook, hrow⟩ := hr
  obtain ⟨sf', vc, hs, hpushed, hiff⟩ := tap_opens_shown_iff hr hbook hrow
  exact ⟨sf, sf', vc, hr, hs, hpushed, hiff⟩

/-- In the positive order the first row shows the oldest part, and the reader
opens at the newest. -/
theorem tap_opens_other_bookThenTap :
    ∃ sf sf' vc, partRun bookThenTap = some sf ∧
      partStep sf (.didSelectItemAt 0) = some sf' ∧
      sf'.pushed = [vc] ∧
      sf.contenV.cellForItemAt 0 = some ⟨"1", ["a"]⟩ ∧
      vc.contentV.outstanding = [⟨.setUp, 0, ⟨"3", ["c"]⟩⟩] ∧
      ¬ OpensShown sf 0 vc := by
  refine ⟨_, _, _, rfl, rfl, rfl, rfl, rfl, ?_⟩
  intro ⟨part, hcell, hpart, _⟩
  obtain rfl : part = ⟨"1", ["a"]⟩ := Option.some.inj hcell.symm
  exact absurd hpart (by decide)

end ComicPartV

end ComicReader
