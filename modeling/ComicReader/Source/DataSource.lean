import Mathlib.Data.List.Basic

/-!
# The data the views read

The two protocols of `MK_DataSource_Protocol.swift`, the `Variable` every view
keeps its state in, and Swift's array subscript.

A part is modelled with the page array its server answers with: the views
never see more of `getPartImageUrlStrArr` than that array or `nil`, and which
of the two arrives, and when, is chosen by the run.
-/

namespace ComicReader

/-- RxSwift's `Variable`: the current value, and the earlier values its
subscribers have been sent, the latest first. -/
structure Variable (α : Type _) where
  past : List α
  value : α
deriving DecidableEq, Repr

namespace Variable

variable {α : Type _}

def init (v : α) : Variable α := ⟨[], v⟩

/-- The assignment `x.value = v`. -/
def set (x : Variable α) (v : α) : Variable α := ⟨x.value :: x.past, v⟩

/-- Everything a subscriber has been sent: the value at subscription and
every value assigned since. -/
def emitted (x : Variable α) : List α := x.value :: x.past

@[simp] theorem value_set (x : Variable α) (v : α) : (x.set v).value = v := rfl

end Variable

/-- The subscript `l[i]` of a Swift array; `none` is the trap. -/
def subscript {α : Type _} (l : List α) (i : Int) : Option α :=
  if 0 ≤ i then l[i.toNat]? else none

theorem subscript_natCast {α : Type _} (l : List α) (n : Nat) :
    subscript l n = l[n]? := by
  simp [subscript]

theorem subscript_isSome {α : Type _} {l : List α} {i : Int} :
    (subscript l i).isSome ↔ 0 ≤ i ∧ i < l.length := by
  unfold subscript
  split
  · next h => rw [isSome_getElem?]; omega
  · next h => simp [h]

/-- `MK_DataSource.DataSourceType`. -/
inductive DataSourceType where
  | DMZJ
deriving DecidableEq, Repr

/-- `MK_DataSource_ComickPartInfo_Protocol`. `partImageUrlStrArr` is the page
array a successful `getPartImageUrlStrArr` hands to its block. -/
structure ComickPartInfo where
  partTitle : String
  partImageUrlStrArr : List String
deriving DecidableEq, Repr

/-- `MK_DataSource_ComickBookInfo_Protocol`. -/
structure ComickBookInfo where
  bookAuthor : String
  bookName : String
  bookDes : String
  bookCoverImageURLStr : String
  bookPartArray : List ComickPartInfo
  sourceType : DataSourceType
deriving DecidableEq, Repr

end ComicReader
