import ComicReader.Source.DMZJModel

/-!
# HandyJSON on the two models

HandyJSON creates a model with its default values and then reads each property
under its own name. A property stays as it is where the dictionary has no such
key, where the value is `NSNull`, and where the value cannot be converted to
the property's type, so a dictionary is always mapped to some model.

The conversions are those of the types the two models use. What they leave to
Foundation (printing a number or a collection, truncating a number) is the
parameter `Foundation`. The key of the cached parts is read as well: its type
is an array of a protocol that no JSON value conforms to, and an array is
converted by keeping the elements that can be, so any array gives an empty
one. `bag` has a type that nothing converts to and is left out.
-/

namespace ComicReader

/-- What HandyJSON's conversions take from Foundation. A number is
`mantissa * 10 ^ exponent`, as in `Json`. -/
structure Foundation where
  /-- `formatter.string(from:)`, decimal without grouping separators. -/
  formatter : Int → Int → Option String
  /-- The description of an array or a dictionary. -/
  description : Json → String
  /-- The `Int` of a number. -/
  intValue : Int → Int → Int

namespace HandyJSON

variable {α : Type _}

/-- `String.transform(from:)`. -/
def stringTransform (F : Foundation) : Json → Option String
  | .string str => some str
  | .bool true => some "true"
  | .bool false => some "false"
  | .number mantissa exponent => F.formatter mantissa exponent
  | .null => none
  | j@(.array _) | j@(.object _) => some (F.description j)

/-- `Int(_:radix:)` with radix 10: an optional sign, then digits only, and a
result that fits 64 bits. -/
def intOfString (text : String) : Option Int :=
  let (sign, digits) : Int × List Char :=
    match text.toList with
    | '-' :: digits => (-1, digits)
    | '+' :: digits => (1, digits)
    | digits => (1, digits)
  if !digits.isEmpty && digits.all Char.isDigit then
    let value : Int :=
      sign * digits.foldl (fun n c => 10 * n + (c.toNat - '0'.toNat)) 0
    if -9223372036854775808 ≤ value ∧ value ≤ 9223372036854775807 then
      some value
    else none
  else none

/-- `Int.transform(from:)`. -/
def intTransform (F : Foundation) : Json → Option Int
  | .string str => intOfString str
  | .number mantissa exponent => some (F.intValue mantissa exponent)
  | .bool b => some (if b then 1 else 0)
  | .null | .array _ | .object _ => none

/-- `_collectionTransform(from:)`: the elements that can be converted. -/
def collectionTransform (transform : Json → Option α) :
    Json → Option (List α)
  | .array elements => some (elements.filterMap transform)
  | _ => none

/-- The conversion to `[MK_DataSource_ComickPartInfo_Protocol]`. -/
def partInfoArrayTransform : Json → Option (List DMZJ_PartModel) :=
  collectionTransform fun _ => none

/-- The value a property has after mapping: `getRawValueFrom`, `convertValue`
and `assignProperty`. -/
def property (dict : Dictionary) (key : String)
    (transform : Json → Option α) (value : α) : α :=
  match dict.lookup key with
  | some .null => value
  | some rawValue =>
      match transform rawValue with
      | some convertedValue => convertedValue
      | none => value
  | none => value

/-- The conversion to the optional type of a property. -/
def optionalTransform (transform : Json → Option α) (j : Json) :
    Option (Option α) :=
  (transform j).map some

end HandyJSON

open HandyJSON

/-- `MK_DataSource_DMZJ_PartModel.deserialize(from:)`. -/
def DMZJ_PartModel.deserialize (F : Foundation) (dict : Dictionary) :
    Option DMZJ_PartModel :=
  some
    { chapter_id := property dict "chapter_id" (stringTransform F) ""
      chapter_title := property dict "chapter_title" (stringTransform F) ""
      updatetime := property dict "updatetime" (intTransform F) 0
      bookId := property dict "bookId" (stringTransform F) ""
      cachImageArr :=
        property dict "cachImageArr"
          (optionalTransform (collectionTransform (stringTransform F))) none }

/-- `MK_DataSource_DMZJ_BookModel.deserialize(from:)`. -/
def DMZJ_BookModel.deserialize (F : Foundation) (dict : Dictionary) :
    Option DMZJ_BookModel :=
  some
    { id := property dict "id" (stringTransform F) ""
      title := property dict "title" (stringTransform F) ""
      description := property dict "description" (stringTransform F) ""
      cover := property dict "cover" (stringTransform F) ""
      authors :=
        property dict "authors" (collectionTransform Json.asDictionary) []
      chapters :=
        property dict "chapters" (collectionTransform Json.asDictionary) []
      cachPartModelArr :=
        property dict "cachPartModelArr"
          (optionalTransform partInfoArrayTransform) none }

end ComicReader
