import ComicReader.Request.Query

/-!
# What a request asks for

The server sees of a target only its request, and answers by that. A comic is
asked for by its path, a part by the two ids with a slash between them, an
image by its URL; nothing else of a target reaches the request, and all of this
does, so requests are the same exactly if those are (`urlRequest_eq_iff`). With
book ids that have no slash and image URLs that are URLs, no two targets are
the same request.
-/

namespace ComicReader

open Lib

namespace DMZJ_Target

variable {isURL : List Char → Bool}

/-- What a target asks the server for. -/
inductive Resource where
  | comic (bookId : String)
  | chapter (ids : String)
  | image (url : URL)
deriving DecidableEq, Repr

def resource (isURL : List Char → Bool) : DMZJ_Target → Resource
  | .getComickInfo bookId => .comic bookId
  | .getComicPartInfo bookID partId => .chapter (bookID ++ "/" ++ partId)
  | .getImage urlStr =>
      .image (if isURL urlStr.toList then urlStr.toList else apiURL)

/-! ## The URL of an API target -/

def apiPath (path : String) : URL :=
  apiURL ++ addingPercentEncoding CharacterSet.urlPathAllowed path

def apiParameters : List (String × Parameter) :=
  [("channel", .description "ios"), ("version", .description "2.5.6")]

def apiQuery : List Char := "channel=ios&version=2.5.6".toList

theorem query_apiParameters :
    URLEncoding.default.query asciiPrecedes apiParameters = apiQuery := by
  decide

theorem not_mem_apiPath {c : Char} (hbase : c ∉ apiURL)
    (hc : CharacterSet.urlPathAllowed c = false) (hpercent : c ≠ '%')
    (hdigit : ¬ Percent.IsDigit c) (path : String) : c ∉ apiPath path := by
  intro h
  rcases List.mem_append.mp h with h | h
  · exact hbase h
  · exact Percent.not_mem_encode hc hpercent hdigit h

/-- The request of an API target with this path. -/
def apiRequest (path : String) : URLRequest :=
  ⟨apiPath path ++ '?' :: apiQuery, .get, [], none⟩

theorem encode_apiPath (path : String) :
    URLEncoding.default.encode asciiPrecedes ⟨apiPath path, .get, [], none⟩
        apiParameters =
      apiRequest path := by
  have hmark : '?' ∉ apiPath path :=
    not_mem_apiPath (by decide) (by decide) (by decide) (by decide) path
  have hhash : '#' ∉ apiPath path :=
    not_mem_apiPath (by decide) (by decide) (by decide) (by decide) path
  have hcut : URLComponents.ofURL (apiPath path) =
      ⟨apiPath path, none, none⟩ := by
    have hfirst := URLComponents.cut_marked hhash none
    have hsecond := URLComponents.cut_marked hmark none
    rw [URLComponents.marked, List.append_nil] at hfirst hsecond
    rw [URLComponents.ofURL, hfirst, hsecond]
  simp only [URLEncoding.encode, hcut, query_apiParameters]
  simp [URLEncoding.encodesParametersInURL, URLEncoding.default,
    apiParameters, URLComponents.url, URLComponents.marked, apiRequest]

theorem apiRequest_injective {p p' : String}
    (h : apiRequest p = apiRequest p') : p = p' := by
  have hurl : apiPath p ++ '?' :: apiQuery = apiPath p' ++ '?' :: apiQuery :=
    congrArg URLRequest.url h
  have hpath := List.append_cancel_left (List.append_cancel_right hurl)
  have hbytes := Percent.encode_injective (by decide) hpath
  exact String.toList_injective (utf8_injective hbytes)

/-! ## Every target -/

/-- The request of a target. -/
inductive Asks (isURL : List Char → Bool) : DMZJ_Target → URLRequest → Prop
  | comic (bookId : String) :
      Asks isURL (.getComickInfo bookId)
        (apiRequest ("comic/" ++ bookId ++ ".json"))
  | chapter (bookID partId : String) :
      Asks isURL (.getComicPartInfo bookID partId)
        (apiRequest ("chapter/" ++ bookID ++ "/" ++ partId ++ ".json"))
  | image (urlStr : String) :
      Asks isURL (.getImage urlStr)
        ⟨if isURL urlStr.toList then urlStr.toList else apiURL, .get,
          [("Referer", "http://imgsmall.dmzj.com/")], none⟩

theorem asks_of_urlRequest {target : DMZJ_Target} {r : URLRequest}
    (h : target.urlRequest isURL = some r) : Asks isURL target r := by
  have hapi : ∀ path : String, path.isEmpty = false →
      (if path.isEmpty then apiURL
        else appendingPathComponent apiURL path) = apiPath path := by
    intro path hpath
    have hslash : apiURL.getLast? = some '/' := by decide
    rw [hpath, if_neg (by simp), appendingPathComponent, if_pos hslash]
    rfl
  cases target with
  | getComickInfo bookId =>
      have hurl : url isURL (.getComickInfo bookId) =
          apiPath ("comic/" ++ bookId ++ ".json") :=
        hapi _ (by simp [path])
      rw [urlRequest, hurl, Option.ite_none_right_eq_some] at h
      obtain rfl := Option.some.inj h.2
      have hask : Asks isURL _ _ := .comic bookId
      rwa [← encode_apiPath] at hask
  | getComicPartInfo bookID partId =>
      have hurl : url isURL (.getComicPartInfo bookID partId) =
          apiPath ("chapter/" ++ bookID ++ "/" ++ partId ++ ".json") :=
        hapi _ (by simp [path])
      rw [urlRequest, hurl, Option.ite_none_right_eq_some] at h
      obtain rfl := Option.some.inj h.2
      have hask : Asks isURL _ _ := .chapter bookID partId
      rwa [← encode_apiPath] at hask
  | getImage urlStr =>
      rw [urlRequest, Option.ite_none_right_eq_some] at h
      obtain rfl := Option.some.inj h.2
      exact Asks.image urlStr

theorem comic_ne_chapter {p p' : String} :
    apiRequest ("comic/" ++ p ++ ".json") ≠
      apiRequest ("chapter/" ++ p' ++ ".json") := by
  intro h
  have hpath := congrArg String.toList (apiRequest_injective h)
  simp only [String.toList_append] at hpath
  have hsecond := congrArg (·[1]?) hpath
  cases hsecond

theorem chapterPath_eq (bookID partId : String) :
    "chapter/" ++ bookID ++ "/" ++ partId ++ ".json" =
      "chapter/" ++ (bookID ++ "/" ++ partId) ++ ".json" := by
  simp [String.append_assoc]

theorem inner_eq_of_append {p s t t' : String}
    (h : p ++ t ++ s = p ++ t' ++ s) : t = t' := by
  have hchars := congrArg String.toList h
  simp only [String.toList_append] at hchars
  exact String.toList_injective
    (List.append_cancel_left (List.append_cancel_right hchars))

/-- Requests are the same exactly if they are for the same thing. -/
theorem asks_eq_iff {t t' : DMZJ_Target} {r r' : URLRequest}
    (h : Asks isURL t r) (h' : Asks isURL t' r') :
    r = r' ↔ t.resource isURL = t'.resource isURL := by
  have himage : ∀ (path : String) (url : URL) (x : String × String),
      apiRequest path ≠ ⟨url, .get, [x], none⟩ := by
    intro path url x heq
    cases congrArg URLRequest.allHTTPHeaderFields heq
  cases h with
  | comic bookId =>
      cases h' with
      | comic bookId' =>
          rw [resource, resource, Resource.comic.injEq]
          refine ⟨fun heq => ?_, fun heq => heq ▸ rfl⟩
          exact inner_eq_of_append (apiRequest_injective heq)
      | chapter bookID' partId' =>
          rw [chapterPath_eq]
          exact iff_of_false comic_ne_chapter (by simp [resource])
      | image urlStr' =>
          exact iff_of_false (himage _ _ _) (by simp [resource])
  | chapter bookID partId =>
      cases h' with
      | comic bookId' =>
          rw [chapterPath_eq]
          exact iff_of_false (fun heq => comic_ne_chapter heq.symm)
            (by simp [resource])
      | chapter bookID' partId' =>
          rw [chapterPath_eq, chapterPath_eq, resource, resource,
            Resource.chapter.injEq]
          refine ⟨fun heq => ?_, fun heq => heq ▸ rfl⟩
          exact inner_eq_of_append (apiRequest_injective heq)
      | image urlStr' =>
          exact iff_of_false (himage _ _ _) (by simp [resource])
  | image urlStr =>
      cases h' with
      | comic bookId' | chapter bookID' partId' =>
          exact iff_of_false (fun heq => himage _ _ _ heq.symm)
            (by simp [resource])
      | image urlStr' =>
          rw [resource, resource, Resource.image.injEq]
          refine ⟨congrArg URLRequest.url, fun heq => ?_⟩
          rw [heq]

/-- A target whose resource is like that of no other. -/
def Clear (isURL : List Char → Bool) : DMZJ_Target → Prop
  | .getComickInfo _ => True
  | .getComicPartInfo bookID _ => '/' ∉ bookID.toList
  | .getImage urlStr => isURL urlStr.toList

instance : {t : DMZJ_Target} → Decidable (Clear isURL t)
  | .getComickInfo _ => inferInstanceAs (Decidable True)
  | .getComicPartInfo _ _ => inferInstanceAs (Decidable (_ ∉ _))
  | .getImage _ => inferInstanceAs (Decidable (_ = true))

theorem resource_eq_iff {t t' : DMZJ_Target} (ht : Clear isURL t)
    (ht' : Clear isURL t') :
    t.resource isURL = t'.resource isURL ↔ t = t' := by
  refine ⟨fun h => ?_, fun h => h ▸ rfl⟩
  cases t with
  | getComickInfo bookId =>
      cases t' with
      | getComickInfo bookId' =>
          obtain rfl := Resource.comic.inj h
          rfl
      | getComicPartInfo | getImage => cases h
  | getComicPartInfo bookID partId =>
      cases t' with
      | getComicPartInfo bookID' partId' =>
          -- The first slash ends the book id.
          have hids := congrArg String.toList (Resource.chapter.inj h)
          simp only [String.toList_append] at hids
          have hcut := congrArg (URLComponents.cut '/') hids
          have hleft := URLComponents.cut_marked ht (some partId.toList)
          have hright := URLComponents.cut_marked ht' (some partId'.toList)
          have hslash : "/".toList = ['/'] := rfl
          rw [hslash, List.append_assoc, List.append_assoc] at hcut
          rw [URLComponents.marked] at hleft hright
          rw [List.singleton_append, List.singleton_append, hleft, hright,
            Prod.mk.injEq, Option.some.injEq] at hcut
          rw [String.toList_injective hcut.1, String.toList_injective hcut.2]
      | getComickInfo | getImage => cases h
  | getImage urlStr =>
      cases t' with
      | getImage urlStr' =>
          have hurl := Resource.image.inj h
          rw [if_pos (show isURL urlStr.toList = true from ht),
            if_pos (show isURL urlStr'.toList = true from ht')] at hurl
          rw [String.toList_injective hurl]
      | getComickInfo | getComicPartInfo => cases h

/-- Two targets are the same request exactly if they ask for the same thing,
and if both are clear, only if they are the same. -/
theorem urlRequest_eq_iff {t t' : DMZJ_Target} {r r' : URLRequest}
    (h : t.urlRequest isURL = some r) (h' : t'.urlRequest isURL = some r') :
    (r = r' ↔ t.resource isURL = t'.resource isURL) ∧
      (Clear isURL t → Clear isURL t' → (r = r' ↔ t = t')) := by
  have hiff := asks_eq_iff (asks_of_urlRequest h) (asks_of_urlRequest h')
  exact ⟨hiff, fun ht ht' => hiff.trans (resource_eq_iff ht ht')⟩

theorem urlRequest_eq_iff_chapters :
    ∃ r r', (getComicPartInfo "39033" "8").urlRequest (fun _ => true) =
        some r ∧
      (getComicPartInfo "3903" "38").urlRequest (fun _ => true) = some r' ∧
      r ≠ r' := by
  have h : (getComicPartInfo "39033" "8").urlRequest (fun _ => true) =
      some (_ : URLRequest) := rfl
  have h' : (getComicPartInfo "3903" "38").urlRequest (fun _ => true) =
      some (_ : URLRequest) := rfl
  refine ⟨_, _, h, h', fun heq => ?_⟩
  have hclear := (urlRequest_eq_iff h h').2 (by decide) (by decide)
  exact absurd (hclear.mp heq) (by decide)

/-- A slash in the book id is a slash of the path. -/
example : (getComicPartInfo "1/2" "3").urlRequest (fun _ => true) =
    (getComicPartInfo "1" "2/3").urlRequest (fun _ => true) := by
  rfl

end DMZJ_Target

end ComicReader
