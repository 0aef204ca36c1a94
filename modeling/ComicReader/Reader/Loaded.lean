import ComicReader.Lib.Run
import ComicReader.Reader.Step

/-!
# The two phases of a reader, and the invariant of every run

A reader waits for its set-up answer (`Opening`) and from then on shows
sections (`Loaded`). Both are stated about the view together with
`ReadHistory`, three things a run determines that the view does not record:
the part each section was filled with, the last page that came on screen, and
the page the last handled transition landed on.

Nothing here depends on the answers being successful or the loads being for
the right part: `Loaded` holds of every run, and everything the later files
prove about restricted runs is added on top of it through `read_induction`,
which does the phase bookkeeping once.
-/

namespace ComicReader

open Lib

/-- What a run determines about the view's sections and pages. -/
structure ReadHistory where
  /-- The part index each section was filled with. -/
  filled : List Int
  /-- The page `willDisplay` announced last. -/
  willShown : Option IndexPath
  /-- The page the last handled transition landed on, at its present place:
  a section inserted in front moves it one section on. -/
  landed : Option IndexPath
deriving DecidableEq, Repr

namespace ReadHistory

def start : ReadHistory := ⟨[], none, none⟩

def record (h : ReadHistory) : ReadEvent → ReadHistory
  | .answer _ false => h
  | .answer req true =>
      match req.block with
      | .setUp => { h with filled := [req.index] }
      | .loadNextDate => { h with filled := h.filled ++ [req.index] }
      | .loadPreviousDate =>
          { h with
            filled := req.index :: h.filled
            landed := h.landed.map fun p => ⟨p.section + 1, p.row⟩ }
  | .willDisplay p => { h with willShown := some p }
  | .didEndDisplaying q =>
      match h.willShown with
      | some p => if q ≠ p then { h with landed := some p } else h
      | none => h

theorem record_next {h : ReadHistory} {req : Request}
    (hb : req.block = .loadNextDate) :
    h.record (.answer req true) =
      { h with filled := h.filled ++ [req.index] } := by
  simp [record, hb]

theorem record_previous {h : ReadHistory} {req : Request}
    (hb : req.block = .loadPreviousDate) :
    h.record (.answer req true) =
      { h with
        filled := req.index :: h.filled
        landed := h.landed.map fun p => ⟨p.section + 1, p.row⟩ } := by
  simp [record, hb]

theorem record_ignored {h : ReadHistory} {q : IndexPath}
    (hw : ∀ p, h.willShown = some p → p = q) :
    h.record (.didEndDisplaying q) = h := by
  cases hs : h.willShown with
  | none => simp [record, hs]
  | some p => simp [record, hs, hw p hs]

theorem record_landed {h : ReadHistory} {q p : IndexPath}
    (hw : h.willShown = some p) (hne : q ≠ p) :
    h.record (.didEndDisplaying q) = { h with landed := some p } := by
  simp [record, hw, hne]

/-- The history after the events of `es`. -/
def after (es : List ReadEvent) : ReadHistory := history record start es

theorem after_snoc {es : List ReadEvent} {e : ReadEvent} :
    after (es ++ [e]) = (after es).record e := history_snoc

end ReadHistory

/-- The page array of part `index`. -/
def pages (book : ComickBookInfo) (index : Int) : List String :=
  match getIndexComicPart book index with
  | some model => model.partImageUrlStrArr
  | none => []

theorem pages_of_part {book : ComickBookInfo} {index : Int}
    {model : ComickPartInfo} (h : getIndexComicPart book index = some model) :
    pages book index = model.partImageUrlStrArr := by
  rw [pages, h]

namespace ComicReadContentV

variable {book : ComickBookInfo} {start : Int} {h : ReadHistory}
  {sf sf' : ComicReadContentV}

/-- The set-up request has not been answered successfully: nothing is loaded,
nothing can be displayed, and the request is out or has failed. -/
structure Opening (book : ComickBookInfo) (start : Int) (h : ReadHistory)
    (sf : ComicReadContentV) : Prop where
  history : h = ReadHistory.start
  sections : sf.currentImageArrV.value = []
  willShow : sf.willShowIndex.value = none
  readIndex : sf.currentReadIndex.emitted = [0]
  outstanding : sf.outstanding = [] ∨
    ∃ model, getIndexComicPart book start = some model ∧
      sf.outstanding = [⟨.setUp, start, model⟩]

/-- The invariant of every run once the set-up request has been answered. -/
structure Loaded (book : ComickBookInfo) (start : Int) (h : ReadHistory)
    (sf : ComicReadContentV) : Prop where
  /-- Every section is the page array of the part it was filled with. -/
  sections : sf.currentImageArrV.value = h.filled.map (pages book)
  filled_ne : h.filled ≠ []
  parts : ∀ i ∈ h.filled, 0 ≤ i ∧ i < book.bookPartArray.length
  requests : ∀ req ∈ sf.outstanding, req.block ≠ .setUp ∧
    getIndexComicPart book req.index = some req.model
  willShown : h.willShown = sf.willShowIndex.value
  /-- The remembered pages lie in sections that still exist. -/
  willShow : ∀ p, sf.willShowIndex.value = some p →
    p.section < sf.currentImageArrV.value.length
  landed : ∀ p, h.landed = some p →
    p.section < sf.currentImageArrV.value.length
  /-- The opened part stays above the index the transitions ask for. -/
  neighbour : sf.neighbourIndex < start

theorem Loaded.length_filled (hL : Loaded book start h sf) :
    h.filled.length = sf.currentImageArrV.value.length := by
  rw [hL.sections, List.length_map]

theorem Loaded.sections_ne (hL : Loaded book start h sf) :
    sf.currentImageArrV.value ≠ [] := by
  rw [hL.sections, ne_eq, List.map_eq_nil_iff]
  exact hL.filled_ne

theorem opening_initial :
    Opening book start ReadHistory.start (initial book start) := by
  have hinit : initial book start =
      { state := .init (.setUp start), currentImageArrV := .init []
        currentReadIndex := .init 0, currentShowIndex := .init (0, 0)
        willShowIndex := .init none, endShowIndex := .init none
        zeroSectionIndex := 0
        outstanding := requestFor book .setUp start } := by
    simp [initial, onState, load_eq]
  rw [hinit]
  refine ⟨rfl, rfl, rfl, rfl, ?_⟩
  cases hpart : getIndexComicPart book start with
  | none => exact Or.inl (by simp [requestFor, hpart])
  | some model => exact Or.inr ⟨model, rfl, by simp [requestFor, hpart]⟩

/-- The one load that can be outstanding is the set-up request. -/
theorem Opening.mem_outstanding (hO : Opening book start h sf)
    {req : Request} (hreq : req ∈ sf.outstanding) :
    ∃ model, getIndexComicPart book start = some model ∧
      sf.outstanding = [⟨.setUp, start, model⟩] ∧
      req = ⟨.setUp, start, model⟩ := by
  rcases hO.outstanding with hnil | ⟨model, hm, hout⟩
  · rw [hnil] at hreq
    cases hreq
  · rw [hout, List.mem_singleton] at hreq
    exact ⟨model, hm, hout, hreq⟩

/-- While the reader is opening, nothing but the set-up answer is taken: no
other load is out, no page is there to come, and one that leaves is ignored. -/
theorem Opening.loadedCase (hO : Opening book start h sf) {e : ReadEvent}
    (hc : LoadedCase book sf e sf') :
    ∃ q, e = .didEndDisplaying q ∧
      sf' = { sf with endShowIndex := sf.endShowIndex.set (some q) } := by
  cases hc with
  | appended req hreq hb | prepended req hreq hb =>
      obtain ⟨model, _, _, rfl⟩ := hO.mem_outstanding hreq
      cases hb
  | failed req hreq hb =>
      obtain ⟨model, _, _, rfl⟩ := hO.mem_outstanding hreq
      exact absurd rfl hb
  | displayed p hitem =>
      obtain ⟨n, hn, _⟩ := hitem
      simp [numberOfItemsInSection, hO.sections] at hn
  | ignored q _ => exact ⟨q, rfl, rfl⟩
  | landed q p arr hw _ _ =>
      rw [hO.willShow] at hw
      cases hw

/-- While the reader is opening, an event either changes nothing the phase
speaks of or is the successful set-up answer. -/
theorem Opening.step (hO : Opening book start h sf) {e : ReadEvent}
    (hc : ReadCase book sf e sf') :
    Opening book start (h.record e) sf' ∨
      ∃ model, getIndexComicPart book start = some model ∧
        sf.outstanding = [⟨.setUp, start, model⟩] ∧
        e = .answer ⟨.setUp, start, model⟩ true ∧
        sf' = openedBy book sf ⟨.setUp, start, model⟩ := by
  cases hc with
  | opened req hreq _ =>
      obtain ⟨model, hm, hout, rfl⟩ := hO.mem_outstanding hreq
      exact Or.inr ⟨model, hm, hout, rfl, rfl⟩
  | notOpened req hreq _ =>
      obtain ⟨model, _, hout, rfl⟩ := hO.mem_outstanding hreq
      refine Or.inl { hO with outstanding := Or.inl ?_ }
      simp [hout]
  | loaded hc =>
      obtain ⟨q, rfl, rfl⟩ := hO.loadedCase hc
      refine Or.inl { hO with history := ?_ }
      rw [hO.history]
      rfl

/-- The loads in flight right after the set-up answer. -/
theorem outstanding_openedBy {model : ComickPartInfo}
    (hout : sf.outstanding = [⟨.setUp, start, model⟩]) :
    (openedBy book sf ⟨.setUp, start, model⟩).outstanding =
      (if model.partImageUrlStrArr.length = 1 then
        requestFor book .loadNextDate (start - 1)
      else []) ++ requestFor book .loadPreviousDate (start + 1) := by
  simp only [openedBy, hout, List.erase_cons_head, List.nil_append]

theorem mem_openedBy {model : ComickPartInfo} {req : Request}
    (hout : sf.outstanding = [⟨.setUp, start, model⟩])
    (hreq : req ∈ (openedBy book sf ⟨.setUp, start, model⟩).outstanding) :
    getIndexComicPart book req.index = some req.model ∧
      ((req.block = .loadNextDate ∧ req.index = start - 1 ∧
          model.partImageUrlStrArr.length = 1) ∨
        (req.block = .loadPreviousDate ∧ req.index = start + 1)) := by
  rw [outstanding_openedBy hout, List.mem_append,
    List.mem_ite_nil_right] at hreq
  rcases hreq with ⟨hone, hreq⟩ | hreq
  · obtain ⟨hb, hindex, hpart⟩ := mem_requestFor.mp hreq
    exact ⟨hindex ▸ hpart, Or.inl ⟨hb, hindex, hone⟩⟩
  · obtain ⟨hb, hindex, hpart⟩ := mem_requestFor.mp hreq
    exact ⟨hindex ▸ hpart, Or.inr ⟨hb, hindex⟩⟩

theorem next_openedBy {model : ComickPartInfo} {req : Request}
    (hout : sf.outstanding = [⟨.setUp, start, model⟩])
    (hreq : req ∈ (openedBy book sf ⟨.setUp, start, model⟩).outstanding)
    (hb : req.block = .loadNextDate) :
    req.index = start - 1 ∧ model.partImageUrlStrArr.length = 1 := by
  rcases (mem_openedBy hout hreq).2 with ⟨-, hnext⟩ | ⟨hb', -⟩
  · exact hnext
  · rw [hb] at hb'
    cases hb'

theorem previous_openedBy {model : ComickPartInfo} {req : Request}
    (hout : sf.outstanding = [⟨.setUp, start, model⟩])
    (hreq : req ∈ (openedBy book sf ⟨.setUp, start, model⟩).outstanding)
    (hb : req.block = .loadPreviousDate) : req.index = start + 1 := by
  rcases (mem_openedBy hout hreq).2 with ⟨hb', -⟩ | ⟨-, hindex⟩
  · rw [hb] at hb'
    cases hb'
  · exact hindex

theorem Opening.opened (hO : Opening book start h sf) {model : ComickPartInfo}
    (hm : getIndexComicPart book start = some model)
    (hout : sf.outstanding = [⟨.setUp, start, model⟩]) :
    Loaded book start (h.record (.answer ⟨.setUp, start, model⟩ true))
      (openedBy book sf ⟨.setUp, start, model⟩) := by
  obtain rfl := hO.history
  refine ⟨?_, ?_, ?_, ?_, ?_, ?_, ?_, ?_⟩
  · simp [openedBy, ReadHistory.record, pages_of_part hm]
  · simp [ReadHistory.record]
  · simpa [ReadHistory.record] using getIndexComicPart_bounds hm
  · intro req hreq
    obtain ⟨hpart, hb⟩ := mem_openedBy hout hreq
    refine ⟨?_, hpart⟩
    rcases hb with ⟨hb, -⟩ | ⟨hb, -⟩ <;> simp [hb]
  · exact hO.willShow.symm
  · intro p hp
    rw [show (openedBy book sf ⟨.setUp, start, model⟩).willShowIndex =
      sf.willShowIndex from rfl, hO.willShow] at hp
    cases hp
  · intro p hp
    cases hp
  · rw [neighbourIndex_openedBy]
    exact Int.sub_lt_self start (by decide)

/-- The cases an event can take once the reader is loaded. -/
theorem Loaded.cases (hL : Loaded book start h sf) {e : ReadEvent}
    (hc : ReadCase book sf e sf') : LoadedCase book sf e sf' := by
  cases hc with
  | opened req hreq hb => exact absurd hb (hL.requests req hreq).1
  | notOpened req hreq hb => exact absurd hb (hL.requests req hreq).1
  | loaded hc => exact hc

/-- The loads in flight after a transition: those from before it, and the ones
it starts. -/
theorem mem_landedOn {q p : IndexPath} {arr : List String} {req : Request} :
    req ∈ (landedOn book sf q p arr).outstanding ↔
      req ∈ sf.outstanding ∨ req ∈ started book sf p arr req.block := by
  simp only [landedOn, List.mem_append, or_assoc]
  refine or_congr_right ?_
  simp only [mem_started]
  cases req.block <;> simp [Taken]

/-- `Loaded` is kept by every event. -/
theorem Loaded.step (hL : Loaded book start h sf) {e : ReadEvent}
    (hc : LoadedCase book sf e sf') : Loaded book start (h.record e) sf' := by
  have herase : ∀ {r : Request}, ∀ req ∈ sf.outstanding.erase r,
      req.block ≠ .setUp ∧ getIndexComicPart book req.index = some req.model :=
    fun req hreq => hL.requests req (List.mem_of_mem_erase hreq)
  have hneighbour := hL.neighbour
  cases hc with
  | appended req hreq hb =>
      have hpart := (hL.requests req hreq).2
      rw [ReadHistory.record_next hb]
      refine ⟨?_, by simp, ?_, herase, hL.willShown, ?_, ?_, ?_⟩
      · simp [appendedBy, hL.sections, pages_of_part hpart]
      · intro i hi
        rcases List.mem_append.mp hi with hi | hi
        · exact hL.parts i hi
        · rw [List.mem_singleton.mp hi]
          exact getIndexComicPart_bounds hpart
      · intro p hp
        have := hL.willShow p hp
        simp only [appendedBy, Variable.value_set, List.length_append]
        omega
      · intro p hp
        have := hL.landed p hp
        simp only [appendedBy, Variable.value_set, List.length_append]
        omega
      · rw [neighbourIndex_appendedBy]
        omega
  | prepended req hreq hb =>
      have hpart := (hL.requests req hreq).2
      rw [ReadHistory.record_previous hb]
      refine ⟨?_, by simp, ?_, herase, hL.willShown, ?_, ?_, ?_⟩
      · simp [prependedBy, hL.sections, pages_of_part hpart]
      · intro i hi
        rcases List.mem_cons.mp hi with rfl | hi
        · exact getIndexComicPart_bounds hpart
        · exact hL.parts i hi
      · intro p hp
        have := hL.willShow p hp
        simp only [prependedBy, Variable.value_set, List.length_cons]
        omega
      · intro p hp
        obtain ⟨p', hp', rfl⟩ := Option.map_eq_some_iff.mp hp
        have := hL.landed p' hp'
        simp only [prependedBy, Variable.value_set, List.length_cons]
        omega
      · rwa [neighbourIndex_prependedBy]
  | failed req hreq hb => exact { hL with requests := herase }
  | displayed p hitem =>
      refine { hL with willShown := rfl, willShow := ?_ }
      intro p' hp'
      obtain rfl : p = p' := Option.some.inj hp'
      obtain ⟨n, hn, _⟩ := hitem
      obtain ⟨arr, harr, _⟩ := Option.map_eq_some_iff.mp hn
      exact (List.getElem?_eq_some_iff.mp harr).1
  | ignored q hw =>
      rw [ReadHistory.record_ignored (hL.willShown ▸ hw)]
      exact { hL with }
  | landed q p arr hw hne harr =>
      rw [ReadHistory.record_landed (hL.willShown ▸ hw) hne]
      refine { hL with requests := ?_, landed := ?_ }
      · intro req hreq
        rcases mem_landedOn.mp hreq with hreq | hreq
        · exact hL.requests req hreq
        · obtain ⟨htaken, -, hi, hp⟩ := mem_started.mp hreq
          exact ⟨htaken.ne_setUp, hi ▸ hp⟩
      · intro p' hp'
        obtain rfl : p = p' := Option.some.inj hp'
        exact hL.willShow p hw

/-! ## Induction along a run -/

/-- The runs of a reader of `book` opened at `start`. -/
def readRun (book : ComickBookInfo) (start : Int) (es : List ReadEvent) :
    Option ComicReadContentV :=
  run (readStep book) (initial book start) es

/-- The runs whose every step meets `ok` in the state before it. -/
def readRunWhere (ok : ComicReadContentV → ReadEvent → Prop)
    [∀ sf e, Decidable (ok sf e)] (book : ComickBookInfo) (start : Int)
    (es : List ReadEvent) : Option ComicReadContentV :=
  run (restrict ok (readStep book)) (initial book start) es

/-- A property `E` of loaded readers that the set-up answer establishes and
every later event keeps holds of every loaded reader a run reaches. Only steps
that meet `ok` need be considered. -/
theorem read_induction {ok : ComicReadContentV → ReadEvent → Prop}
    [∀ sf e, Decidable (ok sf e)] {E : ReadHistory → ComicReadContentV → Prop}
    (hopen : ∀ h sf model, Opening book start h sf →
      getIndexComicPart book start = some model →
      sf.outstanding = [⟨.setUp, start, model⟩] →
      ok sf (.answer ⟨.setUp, start, model⟩ true) →
      E (h.record (.answer ⟨.setUp, start, model⟩ true))
        (openedBy book sf ⟨.setUp, start, model⟩))
    (hstep : ∀ h sf e sf', Loaded book start h sf → E h sf → ok sf e →
      LoadedCase book sf e sf' → E (h.record e) sf')
    {es : List ReadEvent} (hr : readRunWhere ok book start es = some sf) :
    Opening book start (ReadHistory.after es) sf ∨
      (Loaded book start (ReadHistory.after es) sf ∧
        E (ReadHistory.after es) sf) := by
  refine run_history
    (I := fun h sf => Opening book start h sf ∨
      (Loaded book start h sf ∧ E h sf)) (Or.inl opening_initial) ?_ hr
  intro h sf e sf' hI hs
  obtain ⟨hok, hs⟩ := restrict_eq_some.mp hs
  have hc := readCase_of_readStep hs
  rcases hI with hO | ⟨hL, hE⟩
  · rcases hO.step hc with hO' | ⟨model, hm, hout, rfl, rfl⟩
    · exact Or.inl hO'
    · exact Or.inr ⟨hO.opened hm hout, hopen h sf model hO hm hout hok⟩
  · have hc' := hL.cases hc
    exact Or.inr ⟨hL.step hc', hstep h sf e sf' hL hE hok hc'⟩

/-- A run without conditions is a run that meets the trivial one. -/
theorem readRun_eq {es : List ReadEvent} :
    readRun book start es = readRunWhere (fun _ _ => True) book start es := by
  have hrestrict :
      restrict (fun _ _ => True) (readStep book) = readStep book := by
    funext sf e
    simp [restrict]
  rw [readRun, readRunWhere, hrestrict]

theorem loaded_or_opening {es : List ReadEvent}
    (hr : readRun book start es = some sf) :
    Opening book start (ReadHistory.after es) sf ∨
      Loaded book start (ReadHistory.after es) sf := by
  rw [readRun_eq] at hr
  have hI := read_induction (E := fun _ _ => True)
    (fun _ _ _ _ _ _ _ => trivial) (fun _ _ _ _ _ _ _ _ => trivial) hr
  exact hI.imp_right And.left

/-- The subscript of the `endShowIndex` subscriber never traps: the page
remembered last lies in a section that exists. -/
theorem didEndDisplaying_isSome {es : List ReadEvent}
    (hr : readRun book start es = some sf) (q : IndexPath) :
    (sf.didEndDisplaying book q).isSome := by
  have hwill : ∀ p, sf.willShowIndex.value = some p →
      p.section < sf.currentImageArrV.value.length := by
    rcases loaded_or_opening hr with hO | hL
    · intro p hp
      rw [hO.willShow] at hp
      cases hp
    · exact hL.willShow
  unfold didEndDisplaying onEndShowIndex
  cases hw : sf.willShowIndex.value with
  | none => rfl
  | some p =>
      simp only
      split
      · rw [Option.isSome_map, isSome_getElem?]
        exact hwill p hw
      · rfl

end ComicReadContentV

end ComicReader
