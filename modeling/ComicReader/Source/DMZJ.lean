import ComicReader.Source.HandyJSON
import ComicReader.Source.ReadContentV

/-!
# `MK_DataSource_DMZJ`, from responses to models

What the two requests of the source make of a response. The book request lets
only status 200 through and sends an element even where the answer is no
dictionary; the part request looks at no status and gives its block `nil` for
everything that is not an object with an array of strings. `none` for a
response is a failed request, and `none` for its `json` a body that `mapJSON`
rejects.

`wireStep` is the reader with its requests answered by responses: what a load
brings is whatever the server says this time.
-/

namespace ComicReader

/-- Moya's `Response`, with the body as `mapJSON` reads it. -/
structure Response where
  statusCode : Int
  json : Option Json

namespace Json

/-- The cast `as? [String]`. -/
def asStringArray : Json → Option (List String)
  | .array elements => elements.mapM asString
  | _ => none

end Json

/-- The work of `bookAction`: `none` is an error, `some` its one element. -/
def bookAction (F : Foundation) (response : Option Response) :
    Option (Option DMZJ_BookModel) :=
  match response with
  | none => none
  | some response =>
      if response.statusCode = 200 then
        response.json.map fun json =>
          match json.asDictionary with
          | some dic => DMZJ_BookModel.deserialize F dic
          | none => none
      else none

/-- What the block of `getPartImageUrlStrArr` is given. -/
def getPartImageUrlStrArr (response : Option Response) :
    Option (List String) :=
  match response.bind Response.json with
  | some res =>
      match (res.asDictionary).bind fun dic =>
          (dic.lookup "page_url").bind Json.asStringArray with
      | some imageURLArr => some imageURLArr
      | none => none
  | none => none

/-! ## The reader on the wire -/

inductive WireEvent where
  | answer (req : Request) (response : Option Response)
  | willDisplay (indexPath : IndexPath)
  | didEndDisplaying (indexPath : IndexPath)

def wireStep (book : ComickBookInfo) (sf : ComicReadContentV) :
    WireEvent → Option ComicReadContentV
  | .answer req response =>
      if req ∈ sf.outstanding then
        some (sf.answer book req (getPartImageUrlStrArr response))
      else none
  | .willDisplay indexPath =>
      if sf.hasItem indexPath then some (sf.willDisplay indexPath) else none
  | .didEndDisplaying indexPath => sf.didEndDisplaying book indexPath

end ComicReader
