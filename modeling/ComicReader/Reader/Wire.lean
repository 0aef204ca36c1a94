import ComicReader.Reader.Retry
import ComicReader.Source.DMZJ

/-!
# The reader against a server

The reader's own model fixes the pages of a part and lets an answer only
succeed or fail. On the wire an answer is a response, and the same part may be
answered differently each time. Where the server is consistent (`Says`), the
two have the same runs: a response is a failure or the pages of the part, and
every failure and every array of pages is some response (`readRun_iff_wire`).

Without any assumption on the server it still holds that nothing is shown that
was not sent: every section is the array of one response of the run, the
response to a request for a part of the book, and the sections stand in the
order in which set-up, next and previous answers put them.
-/

namespace ComicReader

open Lib

/-- The event as the reader's own model has it. -/
def WireEvent.readEvent : WireEvent → ReadEvent
  | .answer req response =>
      .answer req (getPartImageUrlStrArr response).isSome
  | .willDisplay indexPath => .willDisplay indexPath
  | .didEndDisplaying indexPath => .didEndDisplaying indexPath

namespace ComicReadContentV

variable {book : ComickBookInfo} {start : Int} {sf sf' : ComicReadContentV}

/-! ## A consistent server -/

/-- The response is a failure, or brings the pages the part has. -/
def Says : WireEvent → Prop
  | .answer req response =>
      ∀ arr ∈ getPartImageUrlStrArr response,
        arr = req.model.partImageUrlStrArr
  | _ => True

instance : {e : WireEvent} → Decidable (Says e)
  | .answer _ _ => inferInstanceAs (Decidable (∀ arr ∈ _, _))
  | .willDisplay _ | .didEndDisplaying _ => inferInstanceAs (Decidable True)

theorem wireStep_eq {e : WireEvent} (he : Says e) :
    wireStep book sf e = readStep book sf e.readEvent := by
  cases e with
  | answer req response =>
      cases harr : getPartImageUrlStrArr response with
      | none => simp [wireStep, readStep, WireEvent.readEvent, harr]
      | some arr =>
          obtain rfl := he arr harr
          simp [wireStep, readStep, WireEvent.readEvent, harr]
  | willDisplay | didEndDisplaying => rfl

/-- The answer that sends `arr`. -/
def pageResponse (arr : List String) : Response :=
  ⟨200, some (.object [("page_url", .array (arr.map .string))])⟩

theorem mapM_asString (arr : List String) :
    (arr.map Json.string).mapM Json.asString = some arr := by
  induction arr with
  | nil => rfl
  | cons s arr ih =>
      rw [List.map_cons, List.mapM_cons, ih]
      rfl

@[simp] theorem getPartImageUrlStrArr_pageResponse (arr : List String) :
    getPartImageUrlStrArr (some (pageResponse arr)) = some arr := by
  have harr : Json.asStringArray (.array (arr.map .string)) = some arr :=
    mapM_asString arr
  simp [getPartImageUrlStrArr, pageResponse, Json.asDictionary, harr]

/-- The event with a response that says what the event says. -/
def wireEvent : ReadEvent → WireEvent
  | .answer req true =>
      .answer req (some (pageResponse req.model.partImageUrlStrArr))
  | .answer req false => .answer req none
  | .willDisplay indexPath => .willDisplay indexPath
  | .didEndDisplaying indexPath => .didEndDisplaying indexPath

theorem says_wireEvent (e : ReadEvent) : Says (wireEvent e) := by
  cases e with
  | answer req success =>
      cases success with
      | true =>
          intro arr harr
          rw [getPartImageUrlStrArr_pageResponse] at harr
          exact (Option.some.inj harr).symm
      | false =>
          intro arr harr
          cases harr
  | willDisplay | didEndDisplaying => trivial

theorem readEvent_wireEvent (e : ReadEvent) :
    (wireEvent e).readEvent = e := by
  cases e with
  | answer req success =>
      cases success with
      | true => simp [wireEvent, WireEvent.readEvent]
      | false => rfl
  | willDisplay | didEndDisplaying => rfl

theorem readRun_of_says {es : List WireEvent}
    (hr : run (restrict (fun _ e => Says e) (wireStep book))
      (initial book start) es = some sf) :
    readRun book start (es.map WireEvent.readEvent) = some sf := by
  refine run_map ?_ hr
  intro u e v hs
  obtain ⟨he, hs⟩ := restrict_eq_some.mp hs
  rw [← wireStep_eq he, hs]

/-- With a consistent server the runs on the wire are the runs of the reader's
own model. -/
theorem readRun_iff_wire {res : List ReadEvent} :
    readRun book start res = some sf ↔
      ∃ es, run (restrict (fun _ e => Says e) (wireStep book))
          (initial book start) es = some sf ∧
        es.map WireEvent.readEvent = res := by
  constructor
  · intro hr
    refine ⟨res.map wireEvent, run_map ?_ hr, ?_⟩
    · intro u e v hs
      refine restrict_eq_some.mpr ⟨says_wireEvent e, ?_⟩
      rw [wireStep_eq (says_wireEvent e), readEvent_wireEvent, hs]
    · rw [List.map_map]
      exact List.map_id'' readEvent_wireEvent res
  · rintro ⟨es, hr, rfl⟩
    exact readRun_of_says hr

/-! ## Any server -/

/-- What the responses of a run have put into the sections: for each section
the request it answers and the pages it brought. -/
def receive (h : List (Request × List String)) :
    WireEvent → List (Request × List String)
  | .answer req response =>
      match getPartImageUrlStrArr response with
      | some arr =>
          match req.block with
          | .setUp => [(req, arr)]
          | .loadNextDate => h ++ [(req, arr)]
          | .loadPreviousDate => (req, arr) :: h
      | none => h
  | _ => h

def received (es : List WireEvent) : List (Request × List String) :=
  history receive [] es

/-- The pair is a response of the run that brought pages. -/
def Sent (es : List WireEvent) (x : Request × List String) : Prop :=
  ∃ response, .answer x.1 response ∈ es ∧
    getPartImageUrlStrArr response = some x.2

theorem sections_answer (sf : ComicReadContentV) (req : Request)
    (response : Option Response) {h : List (Request × List String)}
    (hsec : sf.currentImageArrV.value = h.map Prod.snd) :
    (sf.answer book req
        (getPartImageUrlStrArr response)).currentImageArrV.value =
      (receive h (.answer req response)).map Prod.snd := by
  cases harr : getPartImageUrlStrArr response with
  | none =>
      cases hb : req.block <;>
        simp [answer, receive, harr, hb, setUpBlock, loadNextDateBlock,
          loadPreviousDateBlock, setState, onState, hsec]
  | some arr =>
      cases hb : req.block with
      | setUp =>
          simp only [answer, receive, harr, hb, setUpBlock, setState, onState,
            load_eq]
          split <;> simp
      | loadNextDate | loadPreviousDate =>
          simp [answer, receive, harr, hb, loadNextDateBlock,
            loadPreviousDateBlock, setState, onState, hsec]

/-- Whatever `state` is set to, what it starts is for a part of the book. -/
theorem mem_setState {state : State} {r : Request}
    (h : r ∈ (setState book sf state).outstanding) :
    r ∈ sf.outstanding ∨ getIndexComicPart book r.index = some r.model := by
  have hload : ∀ block index, r ∈ sf.outstanding ++
      requestFor book block index →
      r ∈ sf.outstanding ∨
        getIndexComicPart book r.index = some r.model := by
    intro block index h
    rcases List.mem_append.mp h with h | h
    · exact Or.inl h
    · obtain ⟨-, hindex, hpart⟩ := mem_requestFor.mp h
      exact Or.inr (hindex ▸ hpart)
  cases state with
  | error | reading => exact Or.inl h
  | setUp index | loadNextDate index | loadPreviousDate index =>
      simp only [setState, onState, load_eq] at h
      exact hload _ _ h

theorem mem_answer {req r : Request} {arr : Option (List String)}
    (h : r ∈ (sf.answer book req arr).outstanding) :
    r ∈ sf.outstanding ∨ getIndexComicPart book r.index = some r.model := by
  have herase : r ∈ sf.outstanding.erase req → r ∈ sf.outstanding :=
    List.mem_of_mem_erase
  cases arr with
  | none =>
      cases hb : req.block with
      | setUp =>
          simp only [answer, hb, setUpBlock] at h
          exact Or.inl (herase h)
      | loadNextDate | loadPreviousDate =>
          simp only [answer, hb, loadNextDateBlock,
            loadPreviousDateBlock] at h
          exact (mem_setState h).imp_left herase
  | some imArr =>
      cases hb : req.block with
      | setUp =>
          simp only [answer, hb, setUpBlock] at h
          rcases mem_setState h with h | hpart
          · split at h
            · rcases mem_setState h with h | hpart
              · exact (mem_setState h).imp_left herase
              · exact Or.inr hpart
            · exact (mem_setState h).imp_left herase
          · exact Or.inr hpart
      | loadNextDate | loadPreviousDate =>
          simp only [answer, hb, loadNextDateBlock,
            loadPreviousDateBlock] at h
          exact (mem_setState h).imp_left herase

theorem mem_initial {r : Request}
    (h : r ∈ (initial book start).outstanding) :
    getIndexComicPart book r.index = some r.model := by
  rcases opening_initial.outstanding with hnil | ⟨model, hm, hout⟩
  · rw [hnil] at h
    cases h
  · rw [hout, List.mem_singleton] at h
    exact h ▸ hm

/-- What a display notification starts is for a part of the book. -/
theorem mem_didEndDisplaying {q : IndexPath} {r : Request}
    (hs : sf.didEndDisplaying book q = some sf')
    (h : r ∈ sf'.outstanding) :
    r ∈ sf.outstanding ∨ getIndexComicPart book r.index = some r.model := by
  have hc : ReadCase book sf (.didEndDisplaying q) sf' :=
    readCase_of_readStep hs
  cases hc with
  | loaded hc =>
      cases hc with
      | ignored => exact Or.inl h
      | landed q p arr =>
          rcases mem_landedOn.mp h with h | h
          · exact Or.inl h
          · obtain ⟨-, -, hindex, hpart⟩ := mem_started.mp h
            exact Or.inr (hindex ▸ hpart)

/-- What a reader shows and waits for, on the wire. -/
structure OnWire (book : ComickBookInfo) (es : List WireEvent)
    (sf : ComicReadContentV) : Prop where
  sections : sf.currentImageArrV.value = (received es).map Prod.snd
  requests : ∀ r ∈ sf.outstanding,
    getIndexComicPart book r.index = some r.model
  received : ∀ x ∈ received es, Sent es x ∧
    getIndexComicPart book x.1.index = some x.1.model

theorem Sent.snoc {es : List WireEvent} {e : WireEvent}
    {x : Request × List String} (h : Sent es x) : Sent (es ++ [e]) x := by
  obtain ⟨response, hmem, harr⟩ := h
  exact ⟨response, List.mem_append_left _ hmem, harr⟩

/-- A response adds at most one pair, its own. -/
theorem mem_receive {h : List (Request × List String)} {req : Request}
    {response : Option Response} {x : Request × List String}
    (hx : x ∈ receive h (.answer req response)) :
    x ∈ h ∨ (x.1 = req ∧ getPartImageUrlStrArr response = some x.2) := by
  simp only [receive] at hx
  cases harr : getPartImageUrlStrArr response with
  | none =>
      rw [harr] at hx
      exact Or.inl hx
  | some arr =>
      have hown : x = (req, arr) →
          x ∈ h ∨ (x.1 = req ∧ some arr = some x.2) := by
        rintro rfl
        exact Or.inr ⟨rfl, rfl⟩
      rw [harr] at hx
      cases hb : req.block with
      | setUp =>
          simp only [hb, List.mem_singleton] at hx
          exact hown hx
      | loadNextDate =>
          simp only [hb, List.mem_append, List.mem_singleton] at hx
          exact hx.elim Or.inl hown
      | loadPreviousDate =>
          simp only [hb, List.mem_cons] at hx
          exact hx.elim hown Or.inl

theorem OnWire.step {es : List WireEvent} (hW : OnWire book es sf)
    {e : WireEvent} (hs : wireStep book sf e = some sf') :
    OnWire book (es ++ [e]) sf' := by
  have hhist : ComicReadContentV.received (es ++ [e]) =
      receive (ComicReadContentV.received es) e := history_snoc
  cases e with
  | answer req response =>
      simp only [wireStep, Option.ite_none_right_eq_some] at hs
      obtain ⟨hreq, hs⟩ := hs
      obtain rfl := Option.some.inj hs
      refine ⟨?_, ?_, ?_⟩
      · rw [hhist]
        exact sections_answer sf req response hW.sections
      · intro r hr
        exact (mem_answer hr).elim (hW.requests r) id
      · intro x hx
        rw [hhist] at hx
        rcases mem_receive hx with hx | ⟨rfl, harr⟩
        · exact ⟨(hW.received x hx).1.snoc, (hW.received x hx).2⟩
        · refine ⟨⟨response, ?_, harr⟩, hW.requests x.1 hreq⟩
          exact List.mem_append_right _ (List.mem_singleton_self _)
  | willDisplay p =>
      simp only [wireStep, Option.ite_none_right_eq_some] at hs
      obtain rfl := Option.some.inj hs.2
      refine ⟨hhist ▸ hW.sections, hW.requests, ?_⟩
      intro x hx
      rw [hhist] at hx
      exact ⟨(hW.received x hx).1.snoc, (hW.received x hx).2⟩
  | didEndDisplaying q =>
      have hread : readStep book sf (.didEndDisplaying q) = some sf' := hs
      refine ⟨?_, ?_, ?_⟩
      · rw [hhist, sections_of_readStep hread (by simp)]
        exact hW.sections
      · intro r hr
        exact (mem_didEndDisplaying hs hr).elim (hW.requests r) id
      · intro x hx
        rw [hhist] at hx
        exact ⟨(hW.received x hx).1.snoc, (hW.received x hx).2⟩

theorem onWire_of_run {es : List WireEvent}
    (hr : run (wireStep book) (initial book start) es = some sf) :
    OnWire book es sf := by
  refine run_induction (P := OnWire book) ?_ ?_ hr
  · refine ⟨opening_initial.sections, fun r hr => mem_initial hr, ?_⟩
    intro x hx
    cases hx
  · exact fun _ _ _ _ _ hW hs => hW.step hs

/-- Whatever the server answers, the sections are the page arrays of responses
of the run, each to a request for a part of the book, placed as set-up, next
and previous answers place them. -/
theorem sections_received {es : List WireEvent}
    (hr : run (wireStep book) (initial book start) es = some sf) :
    sf.currentImageArrV.value = (received es).map Prod.snd ∧
      ∀ x ∈ received es, Sent es x ∧
        getIndexComicPart book x.1.index = some x.1.model :=
  ⟨(onWire_of_run hr).sections, (onWire_of_run hr).received⟩

/-- The middle part arrives with one page, so the next part is asked for; it
arrives with other pages than the book has for it. -/
theorem sections_received_inconsistent :
    ∃ sf, run (wireStep threeParts) (initial threeParts 1)
        [.answer ⟨.setUp, 1, middle⟩ (some (pageResponse ["x"])),
          .answer ⟨.loadNextDate, 0, newest⟩
            (some (pageResponse ["y", "z"]))] = some sf ∧
      sf.currentImageArrV.value = [["x"], ["y", "z"]] := by
  have hr : run (wireStep threeParts) (initial threeParts 1)
      [.answer ⟨.setUp, 1, middle⟩ (some (pageResponse ["x"])),
        .answer ⟨.loadNextDate, 0, newest⟩
          (some (pageResponse ["y", "z"]))] = some _ := rfl
  refine ⟨_, hr, (sections_received hr).1.trans ?_⟩
  decide

end ComicReadContentV

end ComicReader
