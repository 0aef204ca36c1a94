import ComicReader.Source.ImageView
import ComicReader.Source.ReadContentV

/-!
# The cells of the reader

`MK_ComicReadContentV` is its own data source. `UICollectionView` asks it for
the numbers of items once after every `reloadData`, remembers them, and from
then on dequeues a cell for a page it has been told of, which
`cellForItemAt` gives the page's picture. Every block that writes the
sections reloads right after, and reloading takes the cells off the screen.

A cell has one image view, so a cell and its image view are one number here.
`URL.init(string:)` is a parameter; where it fails, the source leaves the
dequeued cell as it is.
-/

namespace ComicReader

namespace ComicReadContentV

def numberOfSections (sf : ComicReadContentV) : Nat :=
  sf.currentImageArrV.value.length

/-- What the collection view learns after `reloadData`: the numbers of items,
section by section; `none` is a trap. -/
def askedCounts (sf : ComicReadContentV) : Option (List Nat) :=
  (List.range sf.numberOfSections).mapM sf.numberOfItemsInSection

/-- `cellForItemAt`, for the cell that has been dequeued; `none` is the trap
of `currentImageArrV.value[indexPath.section][indexPath.row]`. -/
def cellForItemAt {URL Image : Type _} (urlInit : String → Option URL)
    (sf : ComicReadContentV) (kf : Kingfisher URL Image) (cell : Nat)
    (indexPath : IndexPath) : Option (Kingfisher URL Image) :=
  (sf.currentImageArrV.value[indexPath.section]?).bind fun arr =>
    (arr[indexPath.row]?).map fun string =>
      match urlInit string with
      | some url => kf.setImage cell (some url)
      | none => kf

end ComicReadContentV

/-- The reader with what its superclass keeps: the numbers of items as last
asked for, the number of cells created, and the cells in use with the page
each was dequeued for. -/
structure ReadCollection (URL Image : Type _) where
  contentV : ComicReadContentV
  counts : Option (List Nat)
  created : Nat
  cells : List (Nat × IndexPath)
  kf : Kingfisher URL Image

/-- `didEndDisplaying` is told of pages and `enqueued` of cells: after
`reloadData` a page can still be reported that has no cell any more. -/
inductive CellEvent (URL Image : Type _) where
  | answer (req : Request) (success : Bool)
  | layout
  | cellForItemAt (cell : Nat) (indexPath : IndexPath)
  | willDisplay (cell : Nat) (indexPath : IndexPath)
  | didEndDisplaying (indexPath : IndexPath)
  | enqueued (cell : Nat)
  | retrieved (retrieval : Retrieval URL) (result : Option Image)

namespace ReadCollection

variable {URL Image : Type _}

def initial (book : ComickBookInfo) (index : Int) :
    ReadCollection URL Image where
  contentV := ComicReadContentV.initial book index
  counts := none
  created := 0
  cells := []
  kf := Kingfisher.initial

/-- The collection view has been told of this page. -/
def Counted (w : ReadCollection URL Image) (indexPath : IndexPath) : Prop :=
  ∃ counts ∈ w.counts, ∃ n ∈ counts[indexPath.section]?, indexPath.row < n

/-- The cell is a new one, or one that is not in use. -/
def Dequeuable (w : ReadCollection URL Image) (cell : Nat) : Prop :=
  cell ≤ w.created ∧ ∀ c ∈ w.cells, c.1 ≠ cell

instance {w : ReadCollection URL Image} {p : IndexPath} :
    Decidable (w.Counted p) :=
  inferInstanceAs (Decidable (∃ counts ∈ w.counts,
    ∃ n ∈ counts[p.section]?, p.row < n))

instance {w : ReadCollection URL Image} {cell : Nat} :
    Decidable (w.Dequeuable cell) :=
  inferInstanceAs (Decidable (_ ∧ ∀ c ∈ w.cells, c.1 ≠ cell))

/-- A successful answer has written the sections and called `reloadData`. -/
def reloadData (w : ReadCollection URL Image) : ReadCollection URL Image :=
  { w with counts := none, cells := [] }

variable [DecidableEq URL]

def step (urlInit : String → Option URL) (book : ComickBookInfo)
    (w : ReadCollection URL Image) :
    CellEvent URL Image → Option (ReadCollection URL Image)
  | .answer req success =>
      (readStep book w.contentV (.answer req success)).map fun sf =>
        let w := { w with contentV := sf }
        if success then w.reloadData else w
  | .layout =>
      if w.counts = none then
        w.contentV.askedCounts.map fun counts =>
          { w with counts := some counts }
      else none
  | .cellForItemAt cell indexPath =>
      if w.Counted indexPath ∧ w.Dequeuable cell then
        (w.contentV.cellForItemAt urlInit w.kf cell indexPath).map fun kf =>
          { w with
            created := max w.created (cell + 1)
            cells := (cell, indexPath) :: w.cells
            kf := kf }
      else none
  | .willDisplay cell indexPath =>
      if (cell, indexPath) ∈ w.cells then
        some { w with contentV := w.contentV.willDisplay indexPath }
      else none
  | .didEndDisplaying indexPath =>
      (w.contentV.didEndDisplaying book indexPath).map fun sf =>
        { w with contentV := sf }
  | .enqueued cell =>
      some { w with cells := w.cells.filter fun c => c.1 ≠ cell }
  | .retrieved retrieval result =>
      if retrieval ∈ w.kf.retrievals then
        some { w with kf := w.kf.complete retrieval result }
      else none

end ReadCollection

end ComicReader
