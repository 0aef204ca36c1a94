import ComicReader.Info.Page
import ComicReader.Request.Target

/-!
# The app against one server

A server that answers a request by what it holds for it, always the same, or
not at all. Against such a server everything in the app is decided by what is
held at a few URLs: the book is the one at the URL of its id, and what a reader
shows for a part is the page array at the URL of the book's and the part's id.

So the reader's own model, in which a book comes with the pages of its parts,
is what happens: the book to take is the one whose parts have the pages the
server holds, and the run of every reader is a run of that model
(`sections_held`).
-/

namespace ComicReader

open Lib

/-- What the server answers a target with, if it gets a request and answers
it. -/
def ask (isURL : List Char → Bool) (server : URLRequest → Option Response)
    (target : DMZJ_Target) : Option Response :=
  (target.urlRequest isURL).bind server

/-- The book at the URL of `bookId`. -/
def heldBook (F : Foundation) (isURL : List Char → Bool)
    (server : URLRequest → Option Response) (bookId : String) :
    Option DMZJ_BookModel :=
  (bookAction F (ask isURL server (.getComickInfo bookId))).join

/-- The pages at the URL of a part. -/
def heldPages (isURL : List Char → Bool)
    (server : URLRequest → Option Response) (bookId chapterId : String) :
    Option (List String) :=
  getPartImageUrlStrArr (ask isURL server (.getComicPartInfo bookId chapterId))

namespace ComickApp

/-- What an answer brings is what the server holds for the target that was
requested. -/
def Served (F : Foundation) (isURL : List Char → Bool)
    (server : URLRequest → Option Response) (bookId : String) :
    AppEvent → Prop
  | .bookAnswer response =>
      response = none ∨ response = ask isURL server (.getComickInfo bookId)
  | .reader _ (.answer req response) =>
      response = none ∨
        ∃ model ∈ heldBook F isURL server bookId,
        ∃ part ∈ (model.bookPartArray
            (DMZJ_PartModel.deserialize F))[req.index.toNat]?,
          response = ask isURL server
            (.getComicPartInfo part.bookId part.chapter_id)
  | _ => True

variable {Image : Type} {F : Foundation} {isURL : List Char → Bool}
  {server : URLRequest → Option Response} {bookId : String}
  {serves : String → Option Image}
  {getComicPartInfo : String → String → List String}
  {app : ComickApp Image}

/-- The book of a run is the one that is held. -/
theorem bookOf_held {es : List AppEvent}
    (hserved : ∀ e ∈ es, Served F isURL server bookId e)
    {book : ComickBookInfo} (h : bookOf F getComicPartInfo es = some book) :
    ∃ model, heldBook F isURL server bookId = some model ∧
      book = model.asBookInfo (DMZJ_PartModel.deserialize F)
        getComicPartInfo := by
  obtain ⟨response, model, hmem, haction, hbook⟩ := exists_bookAnswer h
  refine ⟨model, ?_, hbook⟩
  rcases hserved _ hmem with hnone | hasked
  · rw [hnone] at haction
    cases haction
  · rw [heldBook, ← hasked, haction]
    rfl

/-- What reader `n` is told in a run. -/
def wireOf (n : Nat) (es : List AppEvent) : List WireEvent :=
  es.filterMap (readerEvent n)

theorem served_of_mem_wireOf {es : List AppEvent} {n : Nat}
    (hserved : ∀ e ∈ es, Served F isURL server bookId e) {e : WireEvent}
    (he : e ∈ wireOf n es) : Served F isURL server bookId (.reader n e) := by
  obtain ⟨event, hmem, hseen⟩ := List.mem_filterMap.mp he
  cases event with
  | reader n' e' =>
      obtain ⟨rfl, hsome⟩ := Option.ite_none_right_eq_some.mp hseen
      rw [← Option.some.inj hsome]
      exact hserved _ hmem
  | bookAnswer | imageAnswer | viewWillAppear | viewWillDisappear | tapOrder
  | didSelectItemAt => cases hseen

/-- An array that came for a request is held for the part it is for. -/
theorem held_of_served {model : DMZJ_BookModel} {n : Nat} {req : Request}
    {response : Option Response}
    (hmodel : heldBook F isURL server bookId = some model)
    (h : Served F isURL server bookId (.reader n (.answer req response)))
    {arr : List String} (harr : getPartImageUrlStrArr response = some arr) :
    ∃ part, (model.bookPartArray
        (DMZJ_PartModel.deserialize F))[req.index.toNat]? = some part ∧
      heldPages isURL server part.bookId part.chapter_id = some arr := by
  rcases h with hnone | ⟨model', hmodel', part, hpart, hasked⟩
  · rw [hnone] at harr
    cases harr
  · obtain rfl : model = model' := Option.some.inj (hmodel.symm.trans hmodel')
    rw [hasked] at harr
    exact ⟨part, hpart, harr⟩

/-- The book with the pages that are held. -/
def heldBookInfo (F : Foundation) (isURL : List Char → Bool)
    (server : URLRequest → Option Response) (model : DMZJ_BookModel) :
    ComickBookInfo :=
  model.asBookInfo (DMZJ_PartModel.deserialize F) fun bookId chapterId =>
    (heldPages isURL server bookId chapterId).getD []

/-- Against the server every answer is consistent with the book that is
held. -/
theorem says_of_served {model : DMZJ_BookModel} {n : Nat} {req : Request}
    {response : Option Response}
    (hmodel : heldBook F isURL server bookId = some model)
    (h : Served F isURL server bookId (.reader n (.answer req response)))
    (hreq : getIndexComicPart (heldBookInfo F isURL server model) req.index =
      some req.model) :
    ComicReadContentV.Says (.answer req response) := by
  intro arr harr
  obtain ⟨part, hpart, hheld⟩ := held_of_served hmodel h harr
  rw [heldBookInfo, DMZJ_BookModel.getIndexComicPart_asBookInfo,
    Option.ite_none_right_eq_some, hpart, Option.map_some] at hreq
  rw [← Option.some.inj hreq.2]
  show arr = (heldPages isURL server part.bookId part.chapter_id).getD []
  rw [hheld, Option.getD_some]

/-- A run of a reader against the server is a run of the reader's model. -/
theorem says_of_run {model : DMZJ_BookModel} {n : Nat} {start : Int}
    {es : List WireEvent} {sf : ComicReadContentV}
    (hmodel : heldBook F isURL server bookId = some model)
    (hserved : ∀ e ∈ es, Served F isURL server bookId (.reader n e))
    (hr : run (wireStep (heldBookInfo F isURL server model))
      (.initial (heldBookInfo F isURL server model) start) es = some sf) :
    run (restrict (fun _ e => ComicReadContentV.Says e)
        (wireStep (heldBookInfo F isURL server model)))
      (.initial (heldBookInfo F isURL server model) start) es = some sf := by
  refine run_restrict_iff.mpr ⟨hr, ?_⟩
  intro pre e hpre u hu
  cases e with
  | answer req response =>
      obtain ⟨v, hv⟩ := run_prefix hpre hr
      obtain ⟨u', hu', hs⟩ := run_snoc_some.mp hv
      obtain rfl : u' = u := Option.some.inj (hu'.symm.trans hu)
      obtain ⟨hreq, -⟩ := Option.ite_none_right_eq_some.mp hs
      have hW := ComicReadContentV.onWire_of_run hu
      have hmem : WireEvent.answer req response ∈ es :=
        hpre.subset (List.mem_append_right _ (List.mem_singleton_self _))
      exact says_of_served hmodel (hserved _ hmem) (hW.requests req hreq)
  | willDisplay | didEndDisplaying => trivial

/-- Against the server every reader runs as its own model runs for the book
with the pages that are held, and each section is the array that is held at
the URL of the part it was requested for. -/
theorem sections_held {es : List AppEvent}
    (hr : appRun F serves (fun bookId chapterId =>
      (heldPages isURL server bookId chapterId).getD []) es = some app)
    (hserved : ∀ e ∈ es, Served F isURL server bookId e) {n : Nat}
    {r : ShownReader} (hn : app.readers[n]? = some r) :
    ∃ model, heldBook F isURL server bookId = some model ∧
      ComicReadContentV.readRun (heldBookInfo F isURL server model)
          r.vc.currentIndex.value
          ((wireOf n es).map WireEvent.readEvent) = some r.contentV ∧
      r.contentV.currentImageArrV.value =
          (ComicReadContentV.received (wireOf n es)).map Prod.snd ∧
      ∀ x ∈ ComicReadContentV.received (wireOf n es), ∃ part,
        (model.bookPartArray
            (DMZJ_PartModel.deserialize F))[x.1.index.toNat]? = some part ∧
          heldPages isURL server part.bookId part.chapter_id = some x.2 := by
  have hR := readers_of_run hr
  obtain ⟨model, hmodel, hbook⟩ :=
    bookOf_held hserved (hR.book r (List.mem_of_getElem? hn)).1
  have hwire : ∀ e ∈ wireOf n es,
      Served F isURL server bookId (.reader n e) :=
    fun e he => served_of_mem_wireOf hserved he
  have hrun := hR.runs n r hn
  rw [ComicReadVC.contentV, hbook] at hrun
  have hW := ComicReadContentV.onWire_of_run hrun
  refine ⟨model, hmodel, ?_, hW.sections, ?_⟩
  · exact ComicReadContentV.readRun_of_says
      (says_of_run hmodel hwire hrun)
  · rintro x hx
    obtain ⟨⟨response, hmem, harr⟩, -⟩ := hW.received x hx
    exact held_of_served hmodel (hwire _ hmem) harr

/-- A server that holds the numbered comic and its second chapter. -/
def numberedServer (r : URLRequest) : Option Response :=
  if r.url =
      "http://v3api.dmzj.com/comic/39033.json?channel=ios&version=2.5.6".toList
    then some ⟨200, some (.object numberedAnswer)⟩
  else if r.url = ("http://v3api.dmzj.com/chapter/39033/2.json" ++
      "?channel=ios&version=2.5.6").toList then
    some (ComicReadContentV.pageResponse ["2-1", "2-2"])
  else none

/-- The first chapter is opened and gets its pages from the server. -/
def openedServed : List AppEvent :=
  [.viewWillAppear,
    .bookAnswer (ask (fun _ => true) numberedServer
      (.getComickInfo "39033")),
    .didSelectItemAt 0,
    .reader 0 (.answer ⟨.setUp, 0, ⟨"2", ["2-1", "2-2"]⟩⟩
      (ask (fun _ => true) numberedServer
        (.getComicPartInfo "39033" "2")))]

theorem served_openedServed :
    ∀ e ∈ openedServed,
      Served wholeNumbers (fun _ => true) numberedServer "39033" e := by
  simp only [openedServed, List.mem_cons, List.not_mem_nil, or_false,
    forall_eq_or_imp, forall_eq]
  refine ⟨trivial, Or.inr rfl, trivial, Or.inr ?_⟩
  exact ⟨_, rfl, ⟨"2", "2", 0, "39033", none⟩, rfl, rfl⟩

theorem sections_held_openedServed :
    ∃ (app : ComickApp String) (r : ShownReader),
      appRun wholeNumbers some (fun bookId chapterId =>
        (heldPages (fun _ => true) numberedServer bookId chapterId).getD [])
        openedServed = some app ∧
      app.readers[0]? = some r ∧
      r.contentV.currentImageArrV.value = [["2-1", "2-2"]] := by
  have hr : appRun wholeNumbers some (fun bookId chapterId =>
      (heldPages (fun _ => true) numberedServer bookId chapterId).getD [])
      openedServed = some (_ : ComickApp String) := rfl
  have hn : Option.bind (appRun wholeNumbers some (fun bookId chapterId =>
      (heldPages (fun _ => true) numberedServer bookId chapterId).getD [])
      openedServed) (·.readers[0]?) = some (_ : ShownReader) := rfl
  rw [hr, Option.bind_some] at hn
  obtain ⟨-, -, -, hsections, -⟩ :=
    sections_held hr served_openedServed hn
  exact ⟨_, _, hr, hn, hsections.trans rfl⟩

end ComickApp

end ComicReader
