import ComicReader.Source.DataSource

/-!
# `MK_DataSource_DMZJ_Model`, the models of one source

The book as the server sends it, with its chapters still in dictionaries, and
the part as it is after deserialization. A book's chapters come in groups; a
group is a dictionary whose `data` is meant to be an array of dictionaries,
one for each part.

`Json` is what `mapJSON` produces. How HandyJSON maps one dictionary to a part
is the parameter `deserialize`; what it does with an array, and the casts of
Swift around it, are written out.
-/

namespace ComicReader

/-- A JSON value. A number is `mantissa * 10 ^ exponent`. -/
inductive Json where
  | null
  | bool (b : Bool)
  | number (mantissa : Int) (exponent : Int)
  | string (s : String)
  | array (elements : List Json)
  | object (members : List (String × Json))

/-- `[String: Any]`. -/
abbrev Dictionary := List (String × Json)

namespace Json

/-- The cast `as? String`. -/
def asString : Json → Option String
  | .string s => some s
  | _ => none

/-- The cast `as? [String: Any]`. -/
def asDictionary : Json → Option Dictionary
  | .object members => some members
  | _ => none

/-- The cast `as? [[String: Any]]`: every element has to cast. -/
def asDictionaryArray : Json → Option (List Dictionary)
  | .array elements => elements.mapM asDictionary
  | _ => none

end Json

/-- `MK_DataSource_DMZJ_PartModel`. -/
structure DMZJ_PartModel where
  chapter_id : String
  chapter_title : String
  updatetime : Int
  bookId : String
  cachImageArr : Option (List String)
deriving DecidableEq, Repr

/-- `MK_DataSource_DMZJ_BookModel`. The part model is the one type the cache
can hold. -/
structure DMZJ_BookModel where
  id : String
  title : String
  description : String
  cover : String
  authors : List Dictionary
  chapters : List Dictionary
  cachPartModelArr : Option (List DMZJ_PartModel)

namespace DMZJ_PartModel

/-- HandyJSON's `[DMZJ_PartModel].deserialize(from:)`: every element of the
array is mapped by itself. -/
def deserializeModelArray
    (deserialize : Dictionary → Option DMZJ_PartModel)
    (dicArr : List Dictionary) : List (Option DMZJ_PartModel) :=
  dicArr.map deserialize

def partTitle (sf : DMZJ_PartModel) : String := sf.chapter_title

/-- The part behind its protocol. `getComicPartInfo` is the page array the
server answers the request for a book id and a chapter id with. -/
def asPartInfo (getComicPartInfo : String → String → List String)
    (sf : DMZJ_PartModel) : ComickPartInfo where
  partTitle := sf.partTitle
  partImageUrlStrArr := getComicPartInfo sf.bookId sf.chapter_id

end DMZJ_PartModel

namespace DMZJ_BookModel

def bookAuthor (sf : DMZJ_BookModel) : String :=
  match sf.authors.head? with
  | some dic =>
      match (dic.lookup "tag_name").bind Json.asString with
      | some name => name
      | none => ""
  | none => ""

/-- The parts of one group: none unless its `data` casts to an array of
dictionaries and every one of them is mapped. -/
def groupParts (deserialize : Dictionary → Option DMZJ_PartModel)
    (dic : Dictionary) : List DMZJ_PartModel :=
  match (dic.lookup "data").bind Json.asDictionaryArray with
  | some dicArr =>
      match (DMZJ_PartModel.deserializeModelArray deserialize dicArr).mapM
        fun model => model with
      | some modelArr => modelArr
      | none => []
  | none => []

def bookPartArray (deserialize : Dictionary → Option DMZJ_PartModel)
    (sf : DMZJ_BookModel) : List DMZJ_PartModel :=
  match sf.cachPartModelArr with
  | some res => res
  | none =>
      let res := (sf.chapters.map (groupParts deserialize)).foldl
        (fun old new => old ++ new) []
      (List.range res.length).foldl
        (fun res index =>
          res.modify index fun model => { model with bookId := sf.id }) res

/-- The book behind its protocol. -/
def asBookInfo (deserialize : Dictionary → Option DMZJ_PartModel)
    (getComicPartInfo : String → String → List String)
    (sf : DMZJ_BookModel) : ComickBookInfo where
  bookAuthor := sf.bookAuthor
  bookName := sf.title
  bookDes := sf.description
  bookCoverImageURLStr := sf.cover
  bookPartArray :=
    (sf.bookPartArray deserialize).map
      (DMZJ_PartModel.asPartInfo getComicPartInfo)
  sourceType := .DMZJ

end DMZJ_BookModel

end ComicReader
