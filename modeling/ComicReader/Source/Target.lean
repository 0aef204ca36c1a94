import Mathlib.Data.List.Sort
import ComicReader.Lib.Percent
import ComicReader.Source.ColorExtension

/-!
# `MK_DataSource_DMZJ_Target`, and the requests it becomes

What the provider asks the server for. Moya's default mapping takes the URL,
the method, the task and the headers of a target; Alamofire's `URLEncoding`
writes the parameters of the task behind the URL, or into the body where the
method does not encode them there.

A URL is the list of characters of its absolute string. Which strings
Foundation accepts as one is the parameter `isURL`; the literal of the API
server is one. Percent encoding is what Foundation documents: UTF-8, with only
the ASCII characters of the set standing for themselves. Swift orders strings
by their canonical forms, so the order of the keys is a parameter too,
`precedes`; between the ASCII keys of the target it is the order of their
characters.
-/

namespace ComicReader

open Lib

abbrev URL := List Char

/-! ## Foundation -/

namespace CharacterSet

def isAlphanumeric (c : Char) : Bool :=
  ('0' ≤ c ∧ c ≤ '9') ∨ ('A' ≤ c ∧ c ≤ 'Z') ∨ ('a' ≤ c ∧ c ≤ 'z')

def urlQueryAllowed (c : Char) : Bool :=
  isAlphanumeric c || "!$&'()*+,-./:;=?@_~".toList.contains c

def urlPathAllowed (c : Char) : Bool :=
  isAlphanumeric c || "!$&'()*+,-./:=@_~".toList.contains c

end CharacterSet

def addingPercentEncoding (allowed : Char → Bool) (s : String) : List Char :=
  Percent.encode allowed (utf8 s.toList)

/-- `appendingPathComponent`, for a URL without query and fragment. -/
def appendingPathComponent (base : URL) (path : String) : URL :=
  (if base.getLast? = some '/' then base else base ++ ['/']) ++
    addingPercentEncoding CharacterSet.urlPathAllowed path

/-- `URLComponents`, with everything before the query in one piece. -/
structure URLComponents where
  beforeQuery : List Char
  percentEncodedQuery : Option (List Char)
  percentEncodedFragment : Option (List Char)
deriving DecidableEq, Repr

namespace URLComponents

/-- The text before the first `c`, and the text behind it. -/
def cut (c : Char) (s : List Char) : List Char × Option (List Char) :=
  (s.takeWhile (· ≠ c), (s.dropWhile (· ≠ c)).tail?)

/-- `init(url:resolvingAgainstBaseURL:)`. -/
def ofURL (url : URL) : URLComponents where
  beforeQuery := (cut '?' (cut '#' url).1).1
  percentEncodedQuery := (cut '?' (cut '#' url).1).2
  percentEncodedFragment := (cut '#' url).2

/-- A piece that may be missing, behind its mark. -/
def marked (c : Char) : Option (List Char) → List Char
  | some piece => c :: piece
  | none => []

def url (sf : URLComponents) : URL :=
  sf.beforeQuery ++ marked '?' sf.percentEncodedQuery ++
    marked '#' sf.percentEncodedFragment

end URLComponents

/-! ## Alamofire -/

inductive HTTPMethod where
  | options
  | get
  | head
  | post
  | put
  | patch
  | delete
  | trace
  | connect
deriving DecidableEq, Repr

structure URLRequest where
  url : URL
  httpMethod : HTTPMethod
  allHTTPHeaderFields : List (String × String)
  httpBody : Option (List UInt8)
deriving DecidableEq, Repr

/-- A value of `Parameters`. What is neither a collection nor a truth value is
written as its description. -/
inductive Parameter where
  | dictionary (members : List (String × Parameter))
  | array (elements : List Parameter)
  | bool (b : Bool)
  | description (text : String)

namespace URLEncoding

inductive Destination where
  | methodDependent
  | queryString
  | httpBody
deriving DecidableEq, Repr

inductive ArrayEncoding where
  | brackets
  | noBrackets
deriving DecidableEq, Repr

def ArrayEncoding.encode (key : String) : ArrayEncoding → String
  | .brackets => key ++ "[]"
  | .noBrackets => key

inductive BoolEncoding where
  | numeric
  | literal
deriving DecidableEq, Repr

def BoolEncoding.encode (value : Bool) : BoolEncoding → String
  | .numeric => if value then "1" else "0"
  | .literal => if value then "true" else "false"

end URLEncoding

structure URLEncoding where
  destination : URLEncoding.Destination
  arrayEncoding : URLEncoding.ArrayEncoding
  boolEncoding : URLEncoding.BoolEncoding
deriving DecidableEq, Repr

namespace URLEncoding

def default : URLEncoding := ⟨.methodDependent, .brackets, .numeric⟩

def allowedCharacterSet (c : Char) : Bool :=
  CharacterSet.urlQueryAllowed c &&
    !":#[]@!$&'()*+,;=".toList.contains c

def escape (string : String) : List Char :=
  addingPercentEncoding allowedCharacterSet string

mutual

def queryComponents (sf : URLEncoding) (key : String) :
    Parameter → List (List Char × List Char)
  | .dictionary members => queryComponentsOfMembers sf key members
  | .array elements => queryComponentsOfElements sf key elements
  | .bool b => [(escape key, escape (sf.boolEncoding.encode b))]
  | .description text => [(escape key, escape text)]

/-- The loop over a dictionary, in the order of its iteration. -/
def queryComponentsOfMembers (sf : URLEncoding) (key : String) :
    List (String × Parameter) → List (List Char × List Char)
  | [] => []
  | (nestedKey, value) :: members =>
      queryComponents sf (key ++ "[" ++ nestedKey ++ "]") value ++
        queryComponentsOfMembers sf key members

def queryComponentsOfElements (sf : URLEncoding) (key : String) :
    List Parameter → List (List Char × List Char)
  | [] => []
  | value :: elements =>
      queryComponents sf (sf.arrayEncoding.encode key) value ++
        queryComponentsOfElements sf key elements

end

/-- The keys in the order `query` takes them. -/
def sortedKeys (precedes : String → String → Bool)
    (parameters : List (String × Parameter)) : List String :=
  (parameters.map Prod.fst).insertionSort fun a b => precedes a b

def query (sf : URLEncoding) (precedes : String → String → Bool)
    (parameters : List (String × Parameter)) : List Char :=
  let components := (sortedKeys precedes parameters).flatMap fun key =>
    (parameters.lookup key).elim [] (sf.queryComponents key)
  ['&'].intercalate (components.map fun x => x.1 ++ '=' :: x.2)

def encodesParametersInURL (sf : URLEncoding) (method : HTTPMethod) : Bool :=
  match sf.destination with
  | .queryString => true
  | .httpBody => false
  | .methodDependent =>
      match method with
      | .get | .head | .delete => true
      | _ => false

def encode (sf : URLEncoding) (precedes : String → String → Bool)
    (urlRequest : URLRequest) (parameters : List (String × Parameter)) :
    URLRequest :=
  if sf.encodesParametersInURL urlRequest.httpMethod then
    if parameters.isEmpty then urlRequest
    else
      let urlComponents := URLComponents.ofURL urlRequest.url
      let percentEncodedQuery :=
        (match urlComponents.percentEncodedQuery with
          | some query => query ++ ['&']
          | none => []) ++ sf.query precedes parameters
      { urlRequest with
        url :=
          { urlComponents with
            percentEncodedQuery := some percentEncodedQuery : URLComponents
            }.url }
  else
    let fields := urlRequest.allHTTPHeaderFields
    { urlRequest with
      allHTTPHeaderFields :=
        if fields.any fun x => x.1.toLower = "content-type" then fields
        else fields ++
          [("Content-Type",
            "application/x-www-form-urlencoded; charset=utf-8")]
      httpBody := some (utf8 (sf.query precedes parameters)) }

end URLEncoding

/-! ## The target -/

inductive DMZJ_Target where
  | getComickInfo (bookId : String)
  | getComicPartInfo (bookID : String) (partId : String)
  | getImage (urlStr : String)
deriving DecidableEq, Repr

/-- Moya's `Task`, of which the target uses one case. -/
inductive Task where
  | requestParameters (parameters : List (String × Parameter))
      (encoding : URLEncoding)

namespace DMZJ_Target

def apiURL : URL := "http://v3api.dmzj.com/".toList

def baseURL (isURL : List Char → Bool) : DMZJ_Target → URL
  | .getComickInfo _ => apiURL
  | .getImage urlStr => if isURL urlStr.toList then urlStr.toList else apiURL
  | .getComicPartInfo _ _ => apiURL

def path : DMZJ_Target → String
  | .getComickInfo bookId => "comic/" ++ bookId ++ ".json"
  | .getImage _ => ""
  | .getComicPartInfo bookID partId =>
      "chapter/" ++ bookID ++ "/" ++ partId ++ ".json"

def method : DMZJ_Target → HTTPMethod
  | .getComickInfo _ => .get
  | .getImage _ => .get
  | .getComicPartInfo _ _ => .get

def task : DMZJ_Target → Task
  | .getComickInfo _ =>
      .requestParameters
        [("channel", .description "ios"), ("version", .description "2.5.6")]
        .default
  | .getImage _ => .requestParameters [] .default
  | .getComicPartInfo _ _ =>
      .requestParameters
        [("channel", .description "ios"), ("version", .description "2.5.6")]
        .default

def headers : DMZJ_Target → Option (List (String × String))
  | .getImage _ => some [("Referer", "http://imgsmall.dmzj.com/")]
  | _ => none

/-! ## Moya -/

/-- `URL(target:)`. -/
def url (isURL : List Char → Bool) (target : DMZJ_Target) : URL :=
  if target.path.isEmpty then target.baseURL isURL
  else appendingPathComponent (target.baseURL isURL) target.path

/-- The order of strings, as far as ASCII goes. -/
def asciiPrecedes (a b : String) : Bool := decide (a < b)

/-- The request of the default endpoint. `none` is the error of a URL string
that is none. -/
def urlRequest (isURL : List Char → Bool) (target : DMZJ_Target) :
    Option URLRequest :=
  if isURL (target.url isURL) then
    let request : URLRequest :=
      { url := target.url isURL
        httpMethod := target.method
        allHTTPHeaderFields := target.headers.getD []
        httpBody := none }
    match target.task with
    | .requestParameters parameters encoding =>
        some (encoding.encode asciiPrecedes request parameters)
  else none

end DMZJ_Target

end ComicReader
