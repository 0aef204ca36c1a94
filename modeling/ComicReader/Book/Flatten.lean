import ComicReader.Lib.Concat
import ComicReader.Source.DMZJModel
import ComicReader.Source.ReadContentV

/-!
# The numbering of a book's parts

The reader counts parts from 0 to the end of the book, through all chapter
groups: start, next and previous index are indices of one flat array. That
array is made by a loop over the groups that appends and a loop over the
result that writes the book's id into every part, and a group that does not
have the expected shape is to leave no gap in the numbering.

`entries` says what a group contributes. The array is the concatenation of
the entries, each mapped by itself; an index of it is a place, a group and an
offset in it, and going up by one goes to the next place.
-/

namespace ComicReader

open Lib

namespace Json

/-- The dictionaries of a group: those of its `data`, if that is an array of
dictionaries, and none otherwise. -/
def entries (dic : Dictionary) : List Dictionary :=
  ((dic.lookup "data").bind asDictionaryArray).getD []

theorem asDictionary_eq_some {j : Json} {dic : Dictionary} :
    j.asDictionary = some dic ↔ j = object dic := by
  cases j <;> simp [asDictionary]

theorem mapM_asDictionary {elements : List Json} {dicArr : List Dictionary} :
    elements.mapM asDictionary = some dicArr ↔
      elements = dicArr.map object := by
  induction elements generalizing dicArr with
  | nil => cases dicArr <;> simp
  | cons j elements ih =>
      simp only [List.mapM_cons, Option.bind_eq_bind, Option.bind_eq_some_iff,
        Option.pure_def, Option.some.injEq, asDictionary_eq_some, ih]
      constructor
      · rintro ⟨dic, rfl, rest, rfl, rfl⟩
        rfl
      · intro h
        cases dicArr with
        | nil => cases h
        | cons dic rest =>
            obtain ⟨rfl, rfl⟩ := List.cons.inj h
            exact ⟨dic, rfl, rest, rfl, rfl⟩

theorem asDictionaryArray_eq_some {j : Json} {dicArr : List Dictionary} :
    j.asDictionaryArray = some dicArr ↔ j = array (dicArr.map object) := by
  cases j with
  | array elements => rw [asDictionaryArray, mapM_asDictionary, array.injEq]
  | null | bool | number | string | object => simp [asDictionaryArray]

theorem entries_of_array {dic : Dictionary} {dicArr : List Dictionary}
    (h : dic.lookup "data" = some (array (dicArr.map object))) :
    entries dic = dicArr := by
  rw [entries, h, Option.bind_some, asDictionaryArray_eq_some.mpr rfl,
    Option.getD_some]

theorem entries_of_not_array {dic : Dictionary}
    (h : ∀ dicArr : List Dictionary,
      dic.lookup "data" ≠ some (array (dicArr.map object))) :
    entries dic = [] := by
  cases hdata : (dic.lookup "data").bind asDictionaryArray with
  | none => rw [entries, hdata, Option.getD_none]
  | some dicArr =>
      obtain ⟨j, hj, hcast⟩ := Option.bind_eq_some_iff.mp hdata
      rw [asDictionaryArray_eq_some.mp hcast] at hj
      exact absurd hj (h dicArr)

end Json

namespace DMZJ_BookModel

open Json

variable {deserialize : Dictionary → Option DMZJ_PartModel}
  {d : Dictionary → DMZJ_PartModel} {sf : DMZJ_BookModel}

/-- A group contributes its entries, each mapped by itself. -/
theorem groupParts_eq (hd : ∀ dic, deserialize dic = some (d dic))
    (dic : Dictionary) : groupParts deserialize dic = (entries dic).map d := by
  unfold groupParts entries
  cases (dic.lookup "data").bind asDictionaryArray with
  | none => rfl
  | some dicArr =>
      have hmapped : (DMZJ_PartModel.deserializeModelArray deserialize
          dicArr).mapM (fun model => model) = some (dicArr.map d) := by
        rw [DMZJ_PartModel.deserializeModelArray, List.mapM_map]
        simp only [Function.comp_def, hd]
        exact List.mapM_pure
      simp only [hmapped, Option.getD_some]

theorem bookPartArray_eq (hd : ∀ dic, deserialize dic = some (d dic))
    (hcach : sf.cachPartModelArr = none) :
    sf.bookPartArray deserialize =
      (sf.chapters.flatMap entries).map fun dic =>
        { d dic with bookId := sf.id } := by
  simp only [bookPartArray, hcach]
  rw [foldl_modify_eq_map, foldl_append_eq_flatten]
  simp only [groupParts_eq hd, List.flatMap, List.map_flatten, List.map_map,
    Function.comp_def]

/-- The parts of a book, numbered through all its groups. -/
structure Flattened (deserialize : Dictionary → Option DMZJ_PartModel)
    (d : Dictionary → DMZJ_PartModel) (sf : DMZJ_BookModel) : Prop where
  /-- The array is the concatenation of the groups' entries, each mapped by
  itself and given the book's id. -/
  concat : sf.bookPartArray deserialize =
    (sf.chapters.flatMap entries).map fun dic =>
      { d dic with bookId := sf.id }
  /-- The entries of a group are the dictionaries of its `data`. -/
  group : ∀ dic ∈ sf.chapters, ∀ dicArr : List Dictionary,
    dic.lookup "data" = some (array (dicArr.map object)) →
      entries dic = dicArr
  /-- Any other group has none. -/
  skip : ∀ dic ∈ sf.chapters,
    (∀ dicArr : List Dictionary,
      dic.lookup "data" ≠ some (array (dicArr.map object))) →
        entries dic = []
  /-- Index `k` of the reader is element `k`, and nothing outside. -/
  get : ∀ (getComicPartInfo : String → String → List String) (k : Int),
    getIndexComicPart (sf.asBookInfo deserialize getComicPartInfo) k =
      if 0 ≤ k ∧ k < (sf.bookPartArray deserialize).length then
        (sf.bookPartArray deserialize)[k.toNat]?.map
          (DMZJ_PartModel.asPartInfo getComicPartInfo)
      else none
  /-- Entry `j` of group `g` comes after the entries of the groups before it
  and the entries before it in its group. -/
  place : ∀ (g : Nat) (dic : Dictionary) (dicArr : List Dictionary),
    sf.chapters[g]? = some dic →
    dic.lookup "data" = some (array (dicArr.map object)) →
      ∀ (j : Nat) (hj : j < dicArr.length),
        (sf.bookPartArray deserialize)[
            offset (sf.chapters.map entries) g + j]? =
          some { d dicArr[j] with bookId := sf.id }
  /-- Every index is that of exactly one entry of one group. -/
  index : ∀ k < (sf.bookPartArray deserialize).length,
    ∃! x, IsPlace (sf.chapters.map entries) x ∧
      k = offset (sf.chapters.map entries) x.1 + x.2
  /-- Going up through the indices goes through the groups in order, and in
  each through its entries in order. -/
  order : ∀ x y, IsPlace (sf.chapters.map entries) x →
    IsPlace (sf.chapters.map entries) y →
      (offset (sf.chapters.map entries) x.1 + x.2 <
          offset (sf.chapters.map entries) y.1 + y.2 ↔
        x.1 < y.1 ∨ (x.1 = y.1 ∧ x.2 < y.2))

theorem getIndexComicPart_asBookInfo
    (getComicPartInfo : String → String → List String) (k : Int) :
    getIndexComicPart (sf.asBookInfo deserialize getComicPartInfo) k =
      if 0 ≤ k ∧ k < (sf.bookPartArray deserialize).length then
        (sf.bookPartArray deserialize)[k.toNat]?.map
          (DMZJ_PartModel.asPartInfo getComicPartInfo)
      else none := by
  simp only [getIndexComicPart, asBookInfo, List.length_map, ge_iff_le]
  split
  · next hk => rw [subscript, if_pos hk.1, List.getElem?_map]
  · rfl

/-- Without a cached list, `bookPartArray` numbers the entries of all groups
without skipping or repeating one. -/
theorem bookPartArray_flattened (hd : ∀ dic, deserialize dic = some (d dic))
    (hcach : sf.cachPartModelArr = none) : Flattened deserialize d sf := by
  have hconcat := bookPartArray_eq hd hcach
  refine ⟨hconcat, fun _ _ _ h => entries_of_array h,
    fun _ _ h => entries_of_not_array h, getIndexComicPart_asBookInfo, ?_, ?_,
    ?_⟩
  · intro g dic dicArr hg hdata j hj
    have hgroup : (sf.chapters.map entries)[g]? = some dicArr := by
      rw [List.getElem?_map, hg, Option.map_some, entries_of_array hdata]
    rw [hconcat, List.getElem?_map, List.flatMap, getElem?_offset hgroup hj,
      List.getElem?_eq_getElem hj, Option.map_some]
  · intro k hk
    rw [hconcat, List.length_map, List.flatMap] at hk
    exact existsUnique_place hk
  · intro x y hx hy
    exact place_lt_iff hx hy

/-- HandyJSON on a dictionary whose values have the types of the fields. -/
def readPart (dic : Dictionary) : DMZJ_PartModel where
  chapter_id := ((dic.lookup "chapter_id").bind asString).getD ""
  chapter_title := ((dic.lookup "chapter_title").bind asString).getD ""
  updatetime :=
    match dic.lookup "updatetime" with
    | some (.number n 0) => n
    | _ => 0
  bookId := ((dic.lookup "bookId").bind asString).getD ""
  cachImageArr := none

/-- Two groups of parts with two malformed ones between them. -/
def twoVolumes : DMZJ_BookModel where
  id := "7"
  title := "title"
  description := "description"
  cover := "cover"
  authors := []
  chapters :=
    [[("data", .array
        [.object [("chapter_id", .string "31"), ("bookId", .string "0")],
          .object [("chapter_id", .string "30"),
            ("updatetime", .number 5 0)]])],
      [("data", .array [.object [("chapter_id", .string "29")], .null])],
      [("title", .string "extra")],
      [("data", .array [.object [("chapter_id", .string "28")]])]]
  cachPartModelArr := none

theorem bookPartArray_flattened_twoVolumes :
    Flattened (fun dic => some (readPart dic)) readPart twoVolumes :=
  bookPartArray_flattened (fun _ => rfl) rfl

example : (twoVolumes.bookPartArray fun dic => some (readPart dic)).map
    (fun model => (model.bookId, model.chapter_id, model.updatetime)) =
      [("7", "31", 0), ("7", "30", 5), ("7", "28", 0)] := by
  decide

end DMZJ_BookModel

end ComicReader
