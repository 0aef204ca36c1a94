import Mathlib.Data.List.Forall2
import ComicReader.Book.Flatten
import ComicReader.Source.HandyJSON

/-!
# What a book answer says, and the book made of it

The server describes a comic by an object: a few texts, authors with their
names, and volumes with their chapters. `Encodes` says that a dictionary does
so, whatever the order of its keys and whatever else it holds; an id may be
sent as a text or as a number. `Comic.asBookInfo` is what the comic is for the
views, without any dictionary in between.

Mapping the dictionary and going through the model's protocol gives that book,
with its chapters in the order of the volumes, with one exception. HandyJSON
also reads the key that the model keeps its cached parts under, and an array
there, whatever is in it, is a cache of no parts at all.
-/

namespace ComicReader

open Lib HandyJSON

/-- An id as the server sends it. -/
inductive ServerId where
  | text (s : String)
  | number (n : Nat)
deriving DecidableEq, Repr

namespace ServerId

def json : ServerId → Json
  | .text s => .string s
  | .number n => .number n 0

/-- The id as it stands in a request. -/
def string : ServerId → String
  | .text s => s
  | .number n => toString n

end ServerId

structure Chapter where
  chapter_id : ServerId
  chapter_title : String
deriving DecidableEq, Repr

structure Comic where
  id : ServerId
  title : String
  description : String
  cover : String
  authors : List String
  /-- The chapters, volume by volume. -/
  volumes : List (List Chapter)
deriving DecidableEq, Repr

/-- The dictionary describes the chapter. -/
structure EncodesChapter (dic : Dictionary) (c : Chapter) : Prop where
  chapter_id : dic.lookup "chapter_id" = some c.chapter_id.json
  chapter_title : dic.lookup "chapter_title" = some (.string c.chapter_title)

/-- The dictionary describes the author of this name. -/
def EncodesAuthor (dic : Dictionary) (name : String) : Prop :=
  dic.lookup "tag_name" = some (.string name)

/-- The dictionary describes the volume. -/
def EncodesVolume (dic : Dictionary) (volume : List Chapter) : Prop :=
  ∃ dicArr, dic.lookup "data" = some (.array (dicArr.map .object)) ∧
    List.Forall₂ EncodesChapter dicArr volume

/-- The dictionary describes the comic. -/
structure Encodes (dic : Dictionary) (c : Comic) : Prop where
  id : dic.lookup "id" = some c.id.json
  title : dic.lookup "title" = some (.string c.title)
  description : dic.lookup "description" = some (.string c.description)
  cover : dic.lookup "cover" = some (.string c.cover)
  authors : ∃ dicArr, dic.lookup "authors" =
    some (.array (dicArr.map .object)) ∧
      List.Forall₂ EncodesAuthor dicArr c.authors
  volumes : ∃ dicArr, dic.lookup "chapters" =
    some (.array (dicArr.map .object)) ∧
      List.Forall₂ EncodesVolume dicArr c.volumes

/-- The comic as the views are to see it, when the server answers the request
for a book id and a chapter id with `getComicPartInfo`. -/
def Comic.asBookInfo (getComicPartInfo : String → String → List String)
    (c : Comic) : ComickBookInfo where
  bookAuthor := c.authors.head?.getD ""
  bookName := c.title
  bookDes := c.description
  bookCoverImageURLStr := c.cover
  bookPartArray := c.volumes.flatten.map fun chapter =>
    ⟨chapter.chapter_title,
      getComicPartInfo c.id.string chapter.chapter_id.string⟩
  sourceType := .DMZJ

/-- The key of the model's cached parts holds an array. -/
def HidesParts (dic : Dictionary) : Prop :=
  ∃ elements, dic.lookup "cachPartModelArr" = some (.array elements)

/-- Numbers without a fraction are printed as their digits. -/
def PrintsDigits (F : Foundation) : Prop :=
  ∀ n : Nat, F.formatter n 0 = some (toString n)

/-! ## One property -/

section Property

variable {F : Foundation} {dic : Dictionary} {key : String}

theorem property_string {s : String} (h : dic.lookup key = some (.string s)) :
    property dic key (stringTransform F) "" = s := by
  rw [property, h]
  rfl

theorem property_id (hF : PrintsDigits F) {id : ServerId}
    (h : dic.lookup key = some id.json) :
    property dic key (stringTransform F) "" = id.string := by
  rw [property, h]
  cases id with
  | text s => rfl
  | number n =>
      simp only [ServerId.json, stringTransform, hF n, ServerId.string]

theorem filterMap_asDictionary (dicArr : List Dictionary) :
    (dicArr.map Json.object).filterMap Json.asDictionary = dicArr := by
  rw [List.filterMap_map]
  exact List.filterMap_some

theorem property_dictionaries {dicArr : List Dictionary}
    (h : dic.lookup key = some (.array (dicArr.map .object))) :
    property dic key (collectionTransform Json.asDictionary) [] =
      dicArr := by
  rw [property, h]
  exact filterMap_asDictionary dicArr

/-- An array under the cache's key is a cache of no parts, and anything else
is no cache. -/
theorem property_cachPartModelArr (dic : Dictionary) :
    (property dic "cachPartModelArr"
        (optionalTransform partInfoArrayTransform) none = some [] ∧
      HidesParts dic) ∨
    (property dic "cachPartModelArr"
        (optionalTransform partInfoArrayTransform) none = none ∧
      ¬ HidesParts dic) := by
  unfold property HidesParts
  cases dic.lookup "cachPartModelArr" with
  | none => exact Or.inr ⟨rfl, by simp⟩
  | some j =>
      cases j with
      | array elements =>
          refine Or.inl ⟨?_, elements, rfl⟩
          show some (elements.filterMap fun _ => none) = some []
          rw [List.filterMap_none]
      | null | bool | number | string | object =>
          exact Or.inr ⟨rfl, by simp⟩

end Property

/-! ## The whole book -/

section Book

variable {F : Foundation} {dic : Dictionary} {c : Comic}

/-- The model HandyJSON makes of a dictionary, whatever it holds. -/
def mappedPart (F : Foundation) (dic : Dictionary) : DMZJ_PartModel :=
  (DMZJ_PartModel.deserialize F dic).getD ⟨"", "", 0, "", none⟩

theorem deserialize_eq_mappedPart (dic : Dictionary) :
    DMZJ_PartModel.deserialize F dic = some (mappedPart F dic) := rfl

theorem asPartInfo_of_encodes (hF : PrintsDigits F) {chapter : Chapter}
    (h : EncodesChapter dic chapter) (bookId : String)
    (getComicPartInfo : String → String → List String) :
    DMZJ_PartModel.asPartInfo getComicPartInfo
        { mappedPart F dic with bookId := bookId } =
      ⟨chapter.chapter_title,
        getComicPartInfo bookId chapter.chapter_id.string⟩ := by
  have hid := property_id hF h.chapter_id
  have htitle := property_string (F := F) h.chapter_title
  show (⟨property dic "chapter_title" (stringTransform F) "",
    getComicPartInfo bookId
      (property dic "chapter_id" (stringTransform F) "")⟩ :
        ComickPartInfo) = _
  rw [hid, htitle]

theorem map_of_forall₂ {α β γ : Type _} {R : α → β → Prop} {f : α → γ}
    {g : β → γ} (h : ∀ a b, R a b → f a = g b) {l : List α} {l' : List β}
    (hl : List.Forall₂ R l l') : l.map f = l'.map g := by
  induction hl with
  | nil => rfl
  | cons hab _ ih => rw [List.map_cons, List.map_cons, h _ _ hab, ih]

theorem entries_of_encodes {volume : List Chapter}
    (h : EncodesVolume dic volume) :
    List.Forall₂ EncodesChapter (Json.entries dic) volume := by
  obtain ⟨dicArr, hdata, hall⟩ := h
  rwa [Json.entries_of_array hdata]

/-- The entries of all volumes are the chapters in order. -/
theorem flatMap_entries_of_encodes {dicArr : List Dictionary}
    {volumes : List (List Chapter)}
    (h : List.Forall₂ EncodesVolume dicArr volumes) :
    List.Forall₂ EncodesChapter (dicArr.flatMap Json.entries)
      volumes.flatten := by
  induction h with
  | nil => exact List.Forall₂.nil
  | cons hv _ ih =>
      rw [List.flatMap_cons, List.flatten_cons]
      exact List.rel_append (entries_of_encodes hv) ih

theorem bookAuthor_of_encodes {sf : DMZJ_BookModel} {names : List String}
    (h : List.Forall₂ EncodesAuthor sf.authors names) :
    sf.bookAuthor = names.head?.getD "" := by
  unfold DMZJ_BookModel.bookAuthor
  generalize sf.authors = authors at h
  cases h with
  | nil => rfl
  | cons hname _ =>
      simp only [List.head?_cons]
      rw [hname]
      rfl

/-- The parts of the mapped book, if it has no cache, are the chapters. -/
theorem parts_of_encodes (hF : PrintsDigits F) (h : Encodes dic c)
    {sf : DMZJ_BookModel} (hsf : DMZJ_BookModel.deserialize F dic = some sf)
    (hcach : sf.cachPartModelArr = none)
    (getComicPartInfo : String → String → List String) :
    (sf.bookPartArray (DMZJ_PartModel.deserialize F)).map
        (DMZJ_PartModel.asPartInfo getComicPartInfo) =
      (c.asBookInfo getComicPartInfo).bookPartArray := by
  obtain ⟨dicArr, hchapters, hvolumes⟩ := h.volumes
  have hid : sf.id = c.id.string := by
    rw [← Option.some.inj hsf]
    exact property_id hF h.id
  have hdic : sf.chapters = dicArr := by
    rw [← Option.some.inj hsf]
    exact property_dictionaries hchapters
  rw [DMZJ_BookModel.bookPartArray_eq deserialize_eq_mappedPart hcach,
    List.map_map, hdic, hid]
  refine map_of_forall₂ ?_ (flatMap_entries_of_encodes hvolumes)
  intro dic chapter hchapter
  exact asPartInfo_of_encodes hF hchapter _ getComicPartInfo

/-- The texts of the mapped book are the comic's. -/
theorem texts_of_encodes (h : Encodes dic c) {sf : DMZJ_BookModel}
    (hsf : DMZJ_BookModel.deserialize F dic = some sf)
    (getComicPartInfo : String → String → List String) :
    sf.asBookInfo (DMZJ_PartModel.deserialize F) getComicPartInfo =
      { c.asBookInfo getComicPartInfo with
        bookPartArray :=
          (sf.bookPartArray (DMZJ_PartModel.deserialize F)).map
            (DMZJ_PartModel.asPartInfo getComicPartInfo) } := by
  obtain ⟨dicArr, hauthors, hnames⟩ := h.authors
  have hauthor : sf.bookAuthor = c.authors.head?.getD "" := by
    refine bookAuthor_of_encodes ?_
    rw [← Option.some.inj hsf]
    show List.Forall₂ _ (property dic "authors" _ []) _
    rwa [property_dictionaries hauthors]
  have htitle : sf.title = c.title := by
    rw [← Option.some.inj hsf]
    exact property_string h.title
  have hdes : sf.description = c.description := by
    rw [← Option.some.inj hsf]
    exact property_string h.description
  have hcover : sf.cover = c.cover := by
    rw [← Option.some.inj hsf]
    exact property_string h.cover
  rw [DMZJ_BookModel.asBookInfo, hauthor, htitle, hdes, hcover]
  rfl

/-- Two volumes, with ids sent as numbers. -/
def numbered : Comic where
  id := .number 39033
  title := "title"
  description := "description"
  cover := "cover.jpg"
  authors := ["author"]
  volumes := [[⟨.number 2, "2"⟩], [⟨.number 1, "1"⟩]]

def numberedAnswer : Dictionary :=
  [("title", .string "title"), ("id", .number 39033 0),
    ("authors", .array [.object [("tag_name", .string "author")]]),
    ("description", .string "description"), ("cover", .string "cover.jpg"),
    ("hits", .number 5 0),
    ("chapters", .array
      [.object [("title", .string "extra"), ("data", .array
          [.object [("chapter_id", .number 2 0),
            ("chapter_title", .string "2")]])],
        .object [("data", .array
          [.object [("chapter_title", .string "1"),
            ("chapter_id", .number 1 0)]])]])]

theorem encodes_numbered : Encodes numberedAnswer numbered where
  id := rfl
  title := rfl
  description := rfl
  cover := rfl
  authors := ⟨[[("tag_name", .string "author")]], rfl,
    .cons rfl .nil⟩
  volumes :=
    ⟨[[("title", .string "extra"), ("data", .array
          [.object [("chapter_id", .number 2 0),
            ("chapter_title", .string "2")]])],
        [("data", .array
          [.object [("chapter_title", .string "1"),
            ("chapter_id", .number 1 0)]])]], rfl,
      .cons ⟨[_], rfl, .cons ⟨rfl, rfl⟩ .nil⟩
        (.cons ⟨[_], rfl, .cons ⟨rfl, rfl⟩ .nil⟩ .nil)⟩

/-- Foundation as far as whole numbers go. -/
def wholeNumbers : Foundation where
  formatter mantissa exponent :=
    if exponent = 0 then some (toString mantissa) else none
  description _ := ""
  intValue mantissa _ := mantissa

end Book

end ComicReader
