import Mathlib.Data.List.TakeWhile
import ComicReader.Source.Target

/-!
# What the query of a request says

`encode` writes the parameters behind whatever query the URL has. Read back,
split at `&`, then at the first `=`, then percent decoded, the new query has
the fields the URL had and behind them the parameters: the entries of the
dictionary in the order of their keys, each collection taken apart into one
pair for every value in it.

There is one exception, and it is exact. Parameters that are not empty but
contain no value, such as a key with an empty array, still add a field to the
query, the one with an empty key and an empty value. The order of the keys is
whatever order of strings `encode` is given.
-/

namespace ComicReader

open Lib

theorem utf8_injective {s t : List Char} (h : utf8 s = utf8 t) : s = t := by
  have hencode : s.utf8Encode = t.utf8Encode :=
    congrArg List.toByteArray h
  have hdecode := congrArg ByteArray.utf8Decode? hencode
  rw [List.utf8Decode?_utf8Encode, List.utf8Decode?_utf8Encode,
    Option.some.injEq] at hdecode
  exact List.toArray_inj hdecode

/-! ## Taking a URL apart -/

namespace URLComponents

/-- What is cut off is what was marked. -/
theorem cut_marked {c : Char} {s : List Char} (h : c ∉ s)
    (t : Option (List Char)) : cut c (s ++ marked c t) = (s, t) := by
  have hs : ∀ a ∈ s, decide (a ≠ c) = true := by
    intro a ha
    exact decide_eq_true fun heq => h (heq ▸ ha)
  have htake : (s ++ marked c t).takeWhile (· ≠ c) = s := by
    rw [List.takeWhile_append_of_pos hs]
    cases t <;> simp [marked]
  have hdrop : ((s ++ marked c t).dropWhile (· ≠ c)).tail? = t := by
    rw [List.dropWhile_append_of_pos hs]
    cases t <;> simp [marked]
  exact Prod.ext htake hdrop

theorem not_mem_cut {c : Char} {s : List Char} : c ∉ (cut c s).1 := by
  intro h
  have hne := List.mem_takeWhile_imp h
  simp at hne

theorem mem_of_mem_cut {c : Char} {s t : List Char} {a : Char}
    (ht : (cut c s).2 = some t) (ha : a ∈ t) : a ∈ s := by
  have hdrop : s.dropWhile (· ≠ c) ≠ [] := by
    intro hnil
    rw [cut, hnil] at ht
    cases ht
  obtain ⟨b, l, hl⟩ := List.exists_cons_of_ne_nil hdrop
  rw [cut, hl] at ht
  obtain rfl := Option.some.inj ht
  refine (List.dropWhile_sublist (· ≠ c)).subset ?_
  rw [hl]
  exact List.mem_cons_of_mem b ha

/-- No piece contains a character that would cut it. -/
structure WellCut (sf : URLComponents) : Prop where
  before : '?' ∉ sf.beforeQuery ∧ '#' ∉ sf.beforeQuery
  query : ∀ query ∈ sf.percentEncodedQuery, '#' ∉ query

theorem wellCut_ofURL (url : URL) : WellCut (ofURL url) := by
  have hhash : '#' ∉ (cut '#' url).1 := not_mem_cut
  refine ⟨⟨not_mem_cut, ?_⟩, ?_⟩
  · intro h
    exact hhash ((List.takeWhile_sublist _).subset h)
  · intro query hquery h
    exact hhash (mem_of_mem_cut hquery h)

/-- Components put together are taken apart into themselves. -/
theorem WellCut.ofURL_url {sf : URLComponents} (hsf : WellCut sf) :
    ofURL sf.url = sf := by
  have hhash : '#' ∉ sf.beforeQuery ++ marked '?' sf.percentEncodedQuery := by
    intro h
    rcases List.mem_append.mp h with h | h
    · exact hsf.before.2 h
    · cases hq : sf.percentEncodedQuery with
      | none =>
          rw [hq] at h
          cases h
      | some query =>
          rw [hq, marked, List.mem_cons] at h
          exact hsf.query query hq (h.resolve_left (by decide))
  rw [ofURL, url, cut_marked hhash, cut_marked hsf.before.1]

end URLComponents

/-! ## Taking the parameters apart -/

namespace URLEncoding

mutual

/-- The pairs `queryComponents` escapes. -/
def components (sf : URLEncoding) (key : String) :
    Parameter → List (String × String)
  | .dictionary members => componentsOfMembers sf key members
  | .array elements => componentsOfElements sf key elements
  | .bool b => [(key, sf.boolEncoding.encode b)]
  | .description text => [(key, text)]

def componentsOfMembers (sf : URLEncoding) (key : String) :
    List (String × Parameter) → List (String × String)
  | [] => []
  | (nestedKey, value) :: members =>
      components sf (key ++ "[" ++ nestedKey ++ "]") value ++
        componentsOfMembers sf key members

def componentsOfElements (sf : URLEncoding) (key : String) :
    List Parameter → List (String × String)
  | [] => []
  | value :: elements =>
      components sf (sf.arrayEncoding.encode key) value ++
        componentsOfElements sf key elements

end

def escapePair (x : String × String) : List Char × List Char :=
  (escape x.1, escape x.2)

mutual

theorem queryComponents_eq (sf : URLEncoding) (key : String) :
    (p : Parameter) →
      sf.queryComponents key p = (sf.components key p).map escapePair
  | .dictionary members => by
      rw [queryComponents, components]
      exact queryComponentsOfMembers_eq sf key members
  | .array elements => by
      rw [queryComponents, components]
      exact queryComponentsOfElements_eq sf key elements
  | .bool b => by
      rw [queryComponents, components]
      rfl
  | .description text => by
      rw [queryComponents, components]
      rfl

theorem queryComponentsOfMembers_eq (sf : URLEncoding) (key : String) :
    (members : List (String × Parameter)) →
      sf.queryComponentsOfMembers key members =
        (sf.componentsOfMembers key members).map escapePair
  | [] => by
      rw [queryComponentsOfMembers, componentsOfMembers]
      rfl
  | (nestedKey, value) :: members => by
      rw [queryComponentsOfMembers, componentsOfMembers, List.map_append,
        queryComponents_eq, queryComponentsOfMembers_eq]

theorem queryComponentsOfElements_eq (sf : URLEncoding) (key : String) :
    (elements : List Parameter) →
      sf.queryComponentsOfElements key elements =
        (sf.componentsOfElements key elements).map escapePair
  | [] => by
      rw [queryComponentsOfElements, componentsOfElements]
      rfl
  | value :: elements => by
      rw [queryComponentsOfElements, componentsOfElements, List.map_append,
        queryComponents_eq, queryComponentsOfElements_eq]

end

/-! ## The query -/

variable {precedes : String → String → Bool}

/-- The pairs of a dictionary, by its keys. -/
def pairs (sf : URLEncoding) (precedes : String → String → Bool)
    (parameters : List (String × Parameter)) : List (String × String) :=
  (parameters.insertionSort fun x y => precedes x.1 y.1).flatMap fun x =>
    sf.components x.1 x.2

theorem lookup_of_mem {parameters : List (String × Parameter)}
    (hkeys : (parameters.map Prod.fst).Nodup) {x : String × Parameter}
    (hx : x ∈ parameters) : parameters.lookup x.1 = some x.2 := by
  induction parameters with
  | nil => cases hx
  | cons y parameters ih =>
      rw [List.map_cons, List.nodup_cons] at hkeys
      rcases List.mem_cons.mp hx with rfl | hx
      · rw [List.lookup_cons, beq_self_eq_true]
      · have hne : (x.1 == y.1) = false := by
          refine beq_eq_false_iff_ne.mpr fun heq => hkeys.1 ?_
          rw [← heq]
          exact List.mem_map_of_mem hx
        rw [List.lookup_cons, hne]
        exact ih hkeys.2 hx

theorem query_eq (sf : URLEncoding) {parameters : List (String × Parameter)}
    (hkeys : (parameters.map Prod.fst).Nodup) :
    sf.query precedes parameters =
      joinFields '&' '=' ((sf.pairs precedes parameters).map escapePair) := by
  have hsorted : sortedKeys precedes parameters =
      (parameters.insertionSort fun x y => precedes x.1 y.1).map Prod.fst :=
    (List.map_insertionSort _ _ Prod.fst parameters
      fun _ _ _ _ => Iff.rfl).symm
  have hpairs : ((sortedKeys precedes parameters).flatMap fun key =>
      (parameters.lookup key).elim [] (sf.queryComponents key)) =
        (sf.pairs precedes parameters).map escapePair := by
    rw [hsorted, List.flatMap_map, pairs, List.map_flatMap]
    refine List.flatMap_congr fun x hx => ?_
    have hmem := (List.mem_insertionSort _).mp hx
    rw [lookup_of_mem hkeys hmem]
    exact queryComponents_eq sf x.1 x.2
  rw [query, hpairs]
  rfl

theorem not_mem_escape {c : Char} (hc : allowedCharacterSet c = false)
    (hpercent : c ≠ '%') (hdigit : ¬ Percent.IsDigit c) (s : String) :
    c ∉ escape s :=
  Percent.not_mem_encode hc hpercent hdigit

/-- A field of a query, percent decoded. -/
def readField (x : List Char × List Char) :
    Option (List UInt8) × Option (List UInt8) :=
  (Percent.decode x.1, Percent.decode x.2)

/-- The field as which a pair is to be read. -/
def asRead (x : String × String) :
    Option (List UInt8) × Option (List UInt8) :=
  (some (utf8 x.1.toList), some (utf8 x.2.toList))

theorem readField_escapePair (x : String × String) :
    readField (escapePair x) = asRead x := by
  have hpercent : allowedCharacterSet '%' = false := by decide
  exact Prod.ext (Percent.decode_encode hpercent _)
    (Percent.decode_encode hpercent _)

theorem fields_query (sf : URLEncoding)
    {parameters : List (String × Parameter)}
    (hkeys : (parameters.map Prod.fst).Nodup)
    (hpairs : sf.pairs precedes parameters ≠ []) :
    (fields '&' '=' (sf.query precedes parameters)).map readField =
      (sf.pairs precedes parameters).map asRead := by
  have hamp : ∀ s, '&' ∉ escape s :=
    not_mem_escape (by decide) (by decide) (by decide)
  have heq : ∀ s, '=' ∉ escape s :=
    not_mem_escape (by decide) (by decide) (by decide)
  have hne : (sf.pairs precedes parameters).map escapePair ≠ [] := by
    simpa using hpairs
  rw [query_eq sf hkeys, fields_joinFields (by decide) hne, List.map_map]
  · exact List.map_congr_left fun x _ => readField_escapePair x
  · intro x hx
    obtain ⟨y, -, rfl⟩ := List.mem_map.mp hx
    exact ⟨hamp y.1, heq y.1⟩
  · intro x hx
    obtain ⟨y, -, rfl⟩ := List.mem_map.mp hx
    exact hamp y.2

theorem hash_not_mem_query (sf : URLEncoding)
    {parameters : List (String × Parameter)}
    (hkeys : (parameters.map Prod.fst).Nodup) :
    '#' ∉ sf.query precedes parameters := by
  have hhash : ∀ s, '#' ∉ escape s :=
    not_mem_escape (by decide) (by decide) (by decide)
  rw [query_eq sf hkeys]
  intro h
  rcases mem_joinFields h with h | h | ⟨x, hx, h⟩
  · exact absurd h (by decide)
  · exact absurd h (by decide)
  · obtain ⟨y, -, rfl⟩ := List.mem_map.mp hx
    exact h.elim (hhash y.1) (hhash y.2)

/-! ## The URL -/

/-- The fields of the query of a URL, as they are written. -/
def queryFields (url : URL) : List (List Char × List Char) :=
  (URLComponents.ofURL url).percentEncodedQuery.elim [] (fields '&' '=')

/-- The parameters are behind the query the URL had, and nothing else of it has
changed. -/
def ReadsBack (sf : URLEncoding) (precedes : String → String → Bool)
    (urlRequest : URLRequest) (parameters : List (String × Parameter)) :
    Prop :=
  let old := urlRequest.url
  let new := (sf.encode precedes urlRequest parameters).url
  (URLComponents.ofURL new).beforeQuery =
      (URLComponents.ofURL old).beforeQuery ∧
    (URLComponents.ofURL new).percentEncodedFragment =
      (URLComponents.ofURL old).percentEncodedFragment ∧
    ∃ written, queryFields new = queryFields old ++ written ∧
      written.map readField = (sf.pairs precedes parameters).map asRead

variable {sf : URLEncoding} {urlRequest : URLRequest}
  {parameters : List (String × Parameter)}

/-- The query `encode` leaves in a URL that has the query `old`. -/
def newQuery (sf : URLEncoding) (precedes : String → String → Bool)
    (parameters : List (String × Parameter)) (old : Option (List Char)) :
    List Char :=
  (match old with
    | some query => query ++ ['&']
    | none => []) ++ sf.query precedes parameters

theorem ofURL_encode (hkeys : (parameters.map Prod.fst).Nodup)
    (hurl : sf.encodesParametersInURL urlRequest.httpMethod)
    (hne : parameters ≠ []) :
    URLComponents.ofURL (sf.encode precedes urlRequest parameters).url =
      { URLComponents.ofURL urlRequest.url with
        percentEncodedQuery := some (sf.newQuery precedes parameters
          (URLComponents.ofURL urlRequest.url).percentEncodedQuery) } := by
  have hcut := URLComponents.wellCut_ofURL urlRequest.url
  have hempty : parameters.isEmpty = false := by simpa using hne
  rw [encode, if_pos hurl, hempty]
  refine URLComponents.WellCut.ofURL_url ⟨hcut.before, ?_⟩
  rintro query ⟨⟩ h
  rcases List.mem_append.mp h with h | h
  · cases hold : (URLComponents.ofURL urlRequest.url).percentEncodedQuery with
    | none =>
        rw [hold] at h
        cases h
    | some old =>
        rw [hold] at h
        rcases List.mem_append.mp h with h | h
        · exact hcut.query old hold h
        · exact absurd (List.mem_singleton.mp h) (by decide)
  · exact hash_not_mem_query sf hkeys h

theorem queryFields_encode (hkeys : (parameters.map Prod.fst).Nodup)
    (hurl : sf.encodesParametersInURL urlRequest.httpMethod)
    (hne : parameters ≠ []) :
    queryFields (sf.encode precedes urlRequest parameters).url =
      queryFields urlRequest.url ++
        fields '&' '=' (sf.query precedes parameters) := by
  rw [queryFields, ofURL_encode hkeys hurl hne, queryFields]
  cases (URLComponents.ofURL urlRequest.url).percentEncodedQuery with
  | none => rfl
  | some query =>
      show fields '&' '=' (query ++ ['&'] ++ sf.query precedes parameters) = _
      rw [List.append_assoc]
      exact fields_append query _

/-- Without a pair the query is empty, and an empty query is one field. -/
theorem queryFields_encode_of_pairs (hkeys : (parameters.map Prod.fst).Nodup)
    (hurl : sf.encodesParametersInURL urlRequest.httpMethod)
    (hne : parameters ≠ []) (hpairs : sf.pairs precedes parameters = []) :
    queryFields (sf.encode precedes urlRequest parameters).url =
      queryFields urlRequest.url ++ [([], [])] := by
  have hquery : sf.query precedes parameters = [] := by
    rw [query_eq sf hkeys, hpairs]
    rfl
  rw [queryFields_encode hkeys hurl hne, hquery]
  rfl

/-- The parameters can be read back unless there are some and there is no
value in them; then a field without key and value is what has been added. -/
theorem readsBack_iff (hkeys : (parameters.map Prod.fst).Nodup)
    (hurl : sf.encodesParametersInURL urlRequest.httpMethod) :
    (ReadsBack sf precedes urlRequest parameters ↔
        (sf.pairs precedes parameters = [] → parameters = [])) ∧
      (sf.pairs precedes parameters = [] → parameters ≠ [] →
        queryFields (sf.encode precedes urlRequest parameters).url =
          queryFields urlRequest.url ++ [([], [])]) := by
  refine ⟨?_, fun hpairs hne =>
    queryFields_encode_of_pairs hkeys hurl hne hpairs⟩
  by_cases hne : parameters = []
  · subst hne
    have hsame : sf.encode precedes urlRequest [] = urlRequest := if_pos hurl
    refine iff_of_true ?_ fun _ => rfl
    rw [ReadsBack, hsame]
    exact ⟨rfl, rfl, [], (List.append_nil _).symm, rfl⟩
  have hcomponents : URLComponents.ofURL
      (sf.encode precedes urlRequest parameters).url = _ :=
    ofURL_encode hkeys hurl hne
  have hfields : queryFields (sf.encode precedes urlRequest parameters).url =
      _ := queryFields_encode hkeys hurl hne
  by_cases hpairs : sf.pairs precedes parameters = []
  · refine iff_of_false ?_ fun h => hne (h hpairs)
    rintro ⟨-, -, written, happend, hread⟩
    rw [queryFields_encode_of_pairs hkeys hurl hne hpairs] at happend
    rw [← List.append_cancel_left happend, hpairs] at hread
    cases hread
  · refine iff_of_true ⟨?_, ?_, _, hfields, fields_query sf hkeys hpairs⟩
      fun h => absurd h hpairs
    · rw [hcomponents]
    · rw [hcomponents]

theorem readsBack_iff_nested :
    (ReadsBack .default DMZJ_Target.asciiPrecedes
        ⟨"http://h/p?x=1#top".toList, .get, [], none⟩
        [("ids", .array [.description "8&9", .bool true]),
          ("by", .dictionary [("漫画", .description "a=b")])]) ∧
      queryFields (URLEncoding.default.encode DMZJ_Target.asciiPrecedes
        ⟨"http://h/p?x=1".toList, .get, [], none⟩ [("ids", .array [])]).url =
          [("x".toList, "1".toList), ([], [])] := by
  constructor
  · refine (readsBack_iff (by decide) rfl).1.mpr ?_
    intro h
    cases h
  · exact (readsBack_iff (by decide) rfl).2 rfl (by simp)

end URLEncoding

end ComicReader
