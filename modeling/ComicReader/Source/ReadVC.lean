import ComicReader.Source.ReadContentV

/-!
# `MK_ComicReadVC`, the reader's screen

The controller is created for a start index and a book, creates the content
view from the two, and follows two of its variables with the labels of the
status bar. The part title is read with an unguarded subscript.
-/

namespace ComicReader

structure ComicReadVC where
  currentIndex : Variable Int
  bookModel : ComickBookInfo
deriving DecidableEq, Repr

namespace ComicReadVC

/-- `init(startIndex:bookModel:)`. -/
def create (startIndex : Int) (bookModel : ComickBookInfo) : ComicReadVC where
  currentIndex := (Variable.init 0).set startIndex
  bookModel := bookModel

/-- The lazy `contentV`, as it is when first used. -/
def contentV (vc : ComicReadVC) : ComicReadContentV :=
  ComicReadContentV.initial vc.bookModel vc.currentIndex.value

/-- The subscriber of `currentShowIndex`: the text of `readStateLa`. -/
def readStateText (para : Nat × Nat) : String :=
  toString para.1 ++ "/" ++ toString para.2

/-- The subscriber of `currentReadIndex`: the text of `partTitleLa`. `none`
is the trap of `bookPartArray[res]`. -/
def partTitleText (bookModel : ComickBookInfo) (res : Int) : Option String :=
  (subscript bookModel.bookPartArray res).map ComickPartInfo.partTitle

end ComicReadVC

end ComicReader
