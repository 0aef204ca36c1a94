import ComicReader.Book.Decode
import ComicReader.Info.Cover
import ComicReader.Parts.Shown
import ComicReader.Reader.Wire
import ComicReader.Source.InfoVC

/-!
# The detail page and the readers it opens

The app is put together from parts that have their own models, and each part
makes a run of its own out of what the app's events are to it: the header, the
navigation with the chapter list, and every reader that has been pushed. What
is proved about their runs holds of them in the app.

What the parts have in common is the book. It is asked for once, so header and
list are about one book or none, the one of the first and only book answer,
and a reader is pushed only for that book and only at a part it has. A reader
shows nothing but what the server sent for chapters of it.
-/

namespace ComicReader

open Lib

namespace ComickApp

variable {Image : Type} {F : Foundation} {serves : String → Option Image}
  {getComicPartInfo : String → String → List String}
  {app app' : ComickApp Image}

/-! ## What an event is to each part -/

/-- The element of the book action that a response makes, as the views get
it: `none` if the request fails. -/
def element (F : Foundation)
    (getComicPartInfo : String → String → List String)
    (response : Option Response) : Option (Option ComickBookInfo) :=
  (bookAction F response).map fun res =>
    res.map fun model =>
      model.asBookInfo (DMZJ_PartModel.deserialize F) getComicPartInfo

def infoEvent (F : Foundation)
    (getComicPartInfo : String → String → List String) :
    AppEvent → Option InfoEvent
  | .bookAnswer response =>
      (element F getComicPartInfo response).map InfoEvent.setModel
  | .imageAnswer => some .answer
  | _ => none

def navigationEvent (F : Foundation)
    (getComicPartInfo : String → String → List String) :
    AppEvent → Option (NavigationEvent Unit)
  | .bookAnswer response =>
      (element F getComicPartInfo response).map fun res =>
        .part (.setModel res)
  | .viewWillAppear => some (.viewWillAppear ())
  | .viewWillDisappear => some (.viewWillDisappear ())
  | .tapOrder => some (.part .tapOrder)
  | .didSelectItemAt row => some (.part (.didSelectItemAt row))
  | .imageAnswer | .reader _ _ => none

/-- What an event is to reader `n`. -/
def readerEvent (n : Nat) : AppEvent → Option WireEvent
  | .reader n' e => if n' = n then some e else none
  | _ => none

/-! ## One step -/

theorem step_bookAnswer {response : Option Response}
    (hs : appStep F serves getComicPartInfo app (.bookAnswer response) =
      some app') :
    app.bookRequested = true ∧ app'.bookRequested = false ∧
      app'.readers = app.readers ∧
      ((element F getComicPartInfo response = none ∧
          app'.bookInfoV = app.bookInfoV ∧
          app'.navigation = app.navigation) ∨
        ∃ res, element F getComicPartInfo response = some res ∧
          app'.bookInfoV = app.bookInfoV.setModel res ∧
          app'.navigation = { app.navigation with
            partV := app.navigation.partV.setModel res }) := by
  simp only [appStep, Option.ite_none_right_eq_some] at hs
  obtain ⟨hreq, hs⟩ := hs
  obtain rfl := Option.some.inj hs
  unfold element
  cases bookAction F response with
  | none => exact ⟨hreq, rfl, rfl, Or.inl ⟨rfl, rfl, rfl⟩⟩
  | some res => exact ⟨hreq, rfl, rfl, Or.inr ⟨_, rfl, rfl, rfl⟩⟩

theorem step_navigate {e : NavigationEvent Unit}
    (hs : app.navigate e = some app') :
    navigationStep app.navigation e = some app'.navigation ∧
      app'.readers = app.readers ++
        pushedReaders (app.navigation.instances ())
          (app'.navigation.instances ()) ∧
      app'.bookInfoV = app.bookInfoV ∧
      app'.bookRequested = app.bookRequested := by
  obtain ⟨navigation, hnav, rfl⟩ := Option.map_eq_some_iff.mp hs
  exact ⟨hnav, rfl, rfl, rfl⟩

theorem step_reader {n : Nat} {e : WireEvent}
    (hs : appStep F serves getComicPartInfo app (.reader n e) = some app') :
    ∃ reader contentV, app.readers[n]? = some reader ∧
      wireStep reader.vc.bookModel reader.contentV e = some contentV ∧
      app' = { app with
        readers := app.readers.set n
          { reader with contentV := contentV } } := by
  obtain ⟨reader, hreader, hs⟩ := Option.bind_eq_some_iff.mp hs
  obtain ⟨contentV, hstep, rfl⟩ := Option.map_eq_some_iff.mp hs
  exact ⟨reader, contentV, hreader, hstep, rfl⟩

/-- What an event does to the header. -/
theorem stepSeen_info {e : AppEvent}
    (hs : appStep F serves getComicPartInfo app e = some app') :
    stepSeen (infoStep serves) app.bookInfoV
      (infoEvent F getComicPartInfo e) = some app'.bookInfoV := by
  cases e with
  | bookAnswer response =>
      obtain ⟨-, -, -, ⟨hnone, hinfo, -⟩ | ⟨res, hres, hinfo, -⟩⟩ :=
        step_bookAnswer hs
      · rw [infoEvent, hnone, hinfo]
        rfl
      · rw [infoEvent, hres, hinfo]
        rfl
  | imageAnswer =>
      obtain ⟨bookInfoV, hinfo, rfl⟩ := Option.map_eq_some_iff.mp hs
      exact hinfo
  | viewWillAppear | viewWillDisappear | tapOrder | didSelectItemAt row =>
      exact congrArg some (step_navigate hs).2.2.1.symm
  | reader n e =>
      obtain ⟨reader, contentV, -, -, rfl⟩ := step_reader hs
      rfl

/-- What an event does to the navigation and the chapter list. -/
theorem stepSeen_navigation {e : AppEvent}
    (hs : appStep F serves getComicPartInfo app e = some app') :
    stepSeen navigationStep app.navigation
      (navigationEvent F getComicPartInfo e) = some app'.navigation := by
  cases e with
  | bookAnswer response =>
      obtain ⟨-, -, -, ⟨hnone, -, hnav⟩ | ⟨res, hres, -, hnav⟩⟩ :=
        step_bookAnswer hs
      · rw [navigationEvent, hnone, hnav]
        rfl
      · rw [navigationEvent, hres, hnav]
        rfl
  | imageAnswer =>
      obtain ⟨bookInfoV, -, rfl⟩ := Option.map_eq_some_iff.mp hs
      rfl
  | viewWillAppear | viewWillDisappear | tapOrder | didSelectItemAt row =>
      exact (step_navigate hs).1
  | reader n e =>
      obtain ⟨reader, contentV, -, -, rfl⟩ := step_reader hs
      rfl

/-! ## The header, the navigation and the list make runs of their own -/

def appRun (F : Foundation) (serves : String → Option Image)
    (getComicPartInfo : String → String → List String)
    (es : List AppEvent) : Option (ComickApp Image) :=
  run (appStep F serves getComicPartInfo) launched es

theorem infoRun_of_appRun {es : List AppEvent}
    (hr : appRun F serves getComicPartInfo es = some app) :
    ComickI_BookInfoV.infoRun serves
        (es.filterMap (infoEvent F getComicPartInfo)) =
      some app.bookInfoV :=
  run_project bookInfoV (infoEvent F getComicPartInfo) (I := fun _ => True)
    (fun _ _ _ => trivial) (fun _ _ _ _ hs => stepSeen_info hs) hr

theorem navigationRun_of_appRun {es : List AppEvent}
    (hr : appRun F serves getComicPartInfo es = some app) :
    run navigationStep .create
        (es.filterMap (navigationEvent F getComicPartInfo)) =
      some app.navigation :=
  run_project navigation (navigationEvent F getComicPartInfo)
    (I := fun _ => True) (fun _ _ _ => trivial)
    (fun _ _ _ _ hs => stepSeen_navigation hs) hr

/-- What an event of the navigation is to the chapter list. -/
def partEvent : NavigationEvent Unit → Option PartEvent
  | .part e => some e
  | .viewWillAppear _ | .viewWillDisappear _ => none

/-- What a selected row does to the navigation. -/
theorem select_cases {nav nav' : NavigationApp Unit} {row : Nat}
    (hs : navigationStep nav (.part (.didSelectItemAt row)) = some nav') :
    row < nav.partV.contenV.numberOfItemsInSection ∧
      nav'.partV = nav.partV.didSelectItemAt row ∧
      (nav'.instances = nav.instances ∨
        ∃ book, nav.partV.modelV.value = some book ∧
          nav'.instances () =
            (nav.instances ()).pushViewController (.create row book)) := by
  obtain ⟨hrow, hs⟩ := Option.ite_none_right_eq_some.mp hs
  obtain rfl := Option.some.inj hs
  refine ⟨hrow, ?_⟩
  unfold NavigationApp.didSelectItemAt NavigationApp.onCurrentSelectIndex
    NavigationApp.pushThroughCurrent
  rw [ComicPartV.didSelectItemAt_eq]
  cases hbook : nav.partV.modelV.value with
  | none => exact ⟨rfl, Or.inl rfl⟩
  | some book =>
      cases nav.currentShowNavigationVC with
      | none => exact ⟨rfl, Or.inl rfl⟩
      | some v => exact ⟨rfl, Or.inr ⟨book, rfl, by simp⟩⟩

theorem stepSeen_part {nav nav' : NavigationApp Unit}
    {e : NavigationEvent Unit} (hs : navigationStep nav e = some nav') :
    stepSeen partStep nav.partV (partEvent e) = some nav'.partV := by
  cases e with
  | viewWillAppear x | viewWillDisappear x =>
      obtain rfl := Option.some.inj hs
      rfl
  | part e =>
      cases e with
      | didSelectItemAt row =>
          obtain ⟨hrow, hpart, -⟩ := select_cases hs
          rw [hpart]
          exact if_pos hrow
      | setModel res | tapOrder =>
          obtain rfl := Option.some.inj hs
          rfl

theorem partRun_of_appRun {es : List AppEvent}
    (hr : appRun F serves getComicPartInfo es = some app) :
    ComicPartV.partRun
        ((es.filterMap (navigationEvent F getComicPartInfo)).filterMap
          partEvent) = some app.navigation.partV :=
  run_project NavigationApp.partV partEvent (I := fun _ => True)
    (fun _ _ _ => trivial) (fun _ _ _ _ hs => stepSeen_part hs)
    (navigationRun_of_appRun hr)

/-! ## The book -/

/-- The book of a book answer, if there is one. -/
def bookEvent (F : Foundation)
    (getComicPartInfo : String → String → List String) :
    AppEvent → Option (Option ComickBookInfo)
  | .bookAnswer response => some (element F getComicPartInfo response).join
  | _ => none

/-- The book of the first book answer among the events. -/
def bookOf (F : Foundation)
    (getComicPartInfo : String → String → List String)
    (es : List AppEvent) : Option ComickBookInfo :=
  (es.findSome? (bookEvent F getComicPartInfo)).join

theorem bookOf_snoc_of_none {es : List AppEvent} {e : AppEvent}
    (he : bookEvent F getComicPartInfo e = none) :
    bookOf F getComicPartInfo (es ++ [e]) = bookOf F getComicPartInfo es := by
  rw [bookOf, List.findSome?_append, List.findSome?_singleton, he,
    Option.or_none, bookOf]

theorem bookOf_snoc_answer {es : List AppEvent}
    {response : Option Response}
    (hes : es.findSome? (bookEvent F getComicPartInfo) = none) :
    bookOf F getComicPartInfo (es ++ [.bookAnswer response]) =
      (element F getComicPartInfo response).join := by
  rw [bookOf, List.findSome?_append, List.findSome?_singleton, hes,
    Option.none_or]
  rfl

/-- The book is asked for once, and header and list have the one that was
answered. -/
structure OneBook (F : Foundation)
    (getComicPartInfo : String → String → List String) (es : List AppEvent)
    (app : ComickApp Image) : Prop where
  waiting : app.bookRequested = true →
    es.findSome? (bookEvent F getComicPartInfo) = none
  header : app.bookInfoV.model.value = bookOf F getComicPartInfo es
  list : app.navigation.partV.modelV.value = bookOf F getComicPartInfo es

theorem modelV_of_navigationStep {nav nav' : NavigationApp Unit}
    {e : NavigationEvent Unit} (hs : navigationStep nav e = some nav')
    (he : ∀ res, e ≠ .part (.setModel res)) :
    nav'.partV.modelV = nav.partV.modelV := by
  cases e with
  | viewWillAppear x | viewWillDisappear x =>
      obtain rfl := Option.some.inj hs
      rfl
  | part e =>
      cases e with
      | setModel res => exact absurd rfl (he res)
      | tapOrder =>
          obtain rfl := Option.some.inj hs
          show nav.partV.tapOrder.modelV = nav.partV.modelV
          rw [ComicPartV.tapOrder_eq]
      | didSelectItemAt row =>
          rw [(select_cases hs).2.1, ComicPartV.didSelectItemAt_eq]

theorem OneBook.navigate {es : List AppEvent}
    (hB : OneBook F getComicPartInfo es app) {e : AppEvent}
    {ne : NavigationEvent Unit}
    (he : bookEvent F getComicPartInfo e = none)
    (hne : ∀ res, ne ≠ .part (.setModel res))
    (hs : app.navigate ne = some app') :
    OneBook F getComicPartInfo (es ++ [e]) app' := by
  obtain ⟨hnav, -, hinfo, hreq⟩ := step_navigate hs
  refine ⟨?_, ?_, ?_⟩
  · rw [hreq, List.findSome?_append, List.findSome?_singleton, he,
      Option.or_none]
    exact hB.waiting
  · rw [hinfo, bookOf_snoc_of_none he]
    exact hB.header
  · rw [modelV_of_navigationStep hnav hne, bookOf_snoc_of_none he]
    exact hB.list

theorem model_setModel (sf : ComickI_BookInfoV Image)
    (res : Option ComickBookInfo) : (sf.setModel res).model.value = res := by
  cases res with
  | none => rfl
  | some book =>
      simp only [ComickI_BookInfoV.setModel, ComickI_BookInfoV.onModel]
      split <;> rfl

theorem OneBook.bookAnswer {es : List AppEvent}
    (hB : OneBook F getComicPartInfo es app) {response : Option Response}
    (hs : appStep F serves getComicPartInfo app (.bookAnswer response) =
      some app') :
    OneBook F getComicPartInfo (es ++ [.bookAnswer response]) app' := by
  obtain ⟨hreq, hreq', -, hcase⟩ := step_bookAnswer hs
  have hnone := hB.waiting hreq
  have hbook : bookOf F getComicPartInfo (es ++ [.bookAnswer response]) =
      (element F getComicPartInfo response).join := bookOf_snoc_answer hnone
  have hbefore : bookOf F getComicPartInfo es = none := by
    rw [bookOf, hnone]
    rfl
  refine ⟨fun h => ?_, ?_, ?_⟩
  · rw [hreq'] at h
    cases h
  · rw [hbook]
    rcases hcase with ⟨helement, hinfo, -⟩ | ⟨res, helement, hinfo, -⟩
    · rw [hinfo, helement, hB.header, hbefore]
      rfl
    · rw [hinfo, helement, model_setModel]
      rfl
  · rw [hbook]
    rcases hcase with ⟨helement, -, hnav⟩ | ⟨res, helement, -, hnav⟩
    · rw [hnav, helement, hB.list, hbefore]
      rfl
    · rw [hnav, helement]
      show (app.navigation.partV.setModel res).modelV.value = res
      rw [ComicPartV.setModel_eq]
      rfl

theorem OneBook.step {es : List AppEvent}
    (hB : OneBook F getComicPartInfo es app) {e : AppEvent}
    (hs : appStep F serves getComicPartInfo app e = some app') :
    OneBook F getComicPartInfo (es ++ [e]) app' := by
  cases e with
  | bookAnswer response => exact hB.bookAnswer hs
  | imageAnswer =>
      obtain ⟨bookInfoV, hinfo, rfl⟩ := Option.map_eq_some_iff.mp hs
      refine ⟨?_, ?_, ?_⟩
      · rw [List.findSome?_append]
        exact fun h => by rw [hB.waiting h]; rfl
      · show bookInfoV.model.value = _
        rw [(ComickI_BookInfoV.answer_frame hinfo).1, bookOf_snoc_of_none rfl]
        exact hB.header
      · rw [bookOf_snoc_of_none rfl]
        exact hB.list
  | viewWillAppear | viewWillDisappear | tapOrder | didSelectItemAt row =>
      exact hB.navigate rfl (by simp) hs
  | reader n e =>
      obtain ⟨reader, contentV, -, -, rfl⟩ := step_reader hs
      refine ⟨?_, ?_, ?_⟩
      · rw [List.findSome?_append]
        exact fun h => by rw [hB.waiting h]; rfl
      · rw [bookOf_snoc_of_none rfl]
        exact hB.header
      · rw [bookOf_snoc_of_none rfl]
        exact hB.list

theorem oneBook_of_run {es : List AppEvent}
    (hr : appRun F serves getComicPartInfo es = some app) :
    OneBook F getComicPartInfo es app := by
  refine run_induction (P := OneBook F getComicPartInfo)
    ⟨fun _ => rfl, rfl, rfl⟩ ?_ hr
  exact fun _ _ _ _ _ hB hs => hB.step hs

/-! ## Without a book -/

/-- Nothing is shown and nothing can be tapped. -/
structure Blank (app : ComickApp Image) : Prop where
  cover : app.bookInfoV.comicBookImageV = none
  request : app.bookInfoV.outstanding = none
  texts : app.bookInfoV.comicTitleLa = none ∧
    app.bookInfoV.comicAuthorLa = none ∧ app.bookInfoV.comicDesLa = none
  rows : app.navigation.partV.contenV.modelArrV.value = []
  readers : app.readers = []

theorem pushedReaders_self (nav : MainNavigationV) :
    pushedReaders nav nav = [] := by
  rw [pushedReaders, List.drop_length, List.filterMap_nil]

/-- No event but the arrival of a book leads out of a blank page without
one. -/
theorem Blank.step (hB : Blank app)
    (hlist : app.navigation.partV.modelV.value = none) {e : AppEvent}
    (hs : appStep F serves getComicPartInfo app e = some app')
    (he : (bookEvent F getComicPartInfo e).join = none) : Blank app' := by
  cases e with
  | bookAnswer response =>
      obtain ⟨-, -, hreaders, ⟨-, hinfo, hnav⟩ | ⟨res, hres, hinfo, hnav⟩⟩ :=
        step_bookAnswer hs
      · refine ⟨?_, ?_, ?_, ?_, hreaders.trans hB.readers⟩
        · rw [hinfo]
          exact hB.cover
        · rw [hinfo]
          exact hB.request
        · rw [hinfo]
          exact hB.texts
        · rw [hnav]
          exact hB.rows
      · obtain rfl : res = none := by
          simpa [bookEvent, hres] using he
        refine ⟨?_, ?_, ?_, ?_, hreaders.trans hB.readers⟩
        · rw [hinfo]
          exact hB.cover
        · rw [hinfo]
          exact hB.request
        · rw [hinfo]
          exact hB.texts
        · rw [hnav]
          exact hB.rows
  | imageAnswer =>
      obtain ⟨bookInfoV, hinfo, rfl⟩ := Option.map_eq_some_iff.mp hs
      obtain ⟨url, hurl, -⟩ := Option.map_eq_some_iff.mp hinfo
      rw [hB.request] at hurl
      cases hurl
  | viewWillAppear | viewWillDisappear =>
      obtain rfl := Option.some.inj hs
      refine ⟨hB.cover, hB.request, hB.texts, hB.rows, ?_⟩
      show app.readers ++ pushedReaders _ _ = []
      rw [hB.readers]
      exact pushedReaders_self _
  | tapOrder =>
      obtain rfl := Option.some.inj hs
      refine ⟨hB.cover, hB.request, hB.texts, ?_, ?_⟩
      · show app.navigation.partV.tapOrder.contenV.modelArrV.value = []
        rw [ComicPartV.tapOrder_eq, hlist]
        exact hB.rows
      · show app.readers ++ pushedReaders _ _ = []
        rw [hB.readers]
        exact pushedReaders_self _
  | didSelectItemAt row =>
      obtain ⟨hrow, -⟩ := select_cases (step_navigate hs).1
      rw [ComicPartContentV.numberOfItemsInSection, hB.rows] at hrow
      cases hrow
  | reader n e =>
      obtain ⟨reader, contentV, hreader, -⟩ := step_reader hs
      rw [hB.readers] at hreader
      cases hreader

theorem blank_of_run {es : List AppEvent}
    (hr : appRun F serves getComicPartInfo es = some app)
    (hnone : bookOf F getComicPartInfo es = none) : Blank app := by
  refine run_induction
    (P := fun es app => bookOf F getComicPartInfo es = none → Blank app)
    ?_ ?_ hr hnone
  · exact fun _ => ⟨rfl, rfl, ⟨rfl, rfl, rfl⟩, rfl, rfl⟩
  · intro es app e app' happ ih hs hnone
    have hB := oneBook_of_run happ
    rw [bookOf, List.findSome?_append, List.findSome?_singleton] at hnone
    cases hfirst : es.findSome? (bookEvent F getComicPartInfo) with
    | none =>
        rw [hfirst, Option.none_or] at hnone
        have hes : bookOf F getComicPartInfo es = none := by
          rw [bookOf, hfirst]
          rfl
        exact (ih hes).step (hB.list.trans hes) hs hnone
    | some res =>
        rw [hfirst, Option.some_or] at hnone
        have hes : bookOf F getComicPartInfo es = none := by
          rw [bookOf, hfirst]
          exact hnone
        refine (ih hes).step (hB.list.trans hes) hs ?_
        cases e with
        | bookAnswer response =>
            have hwaiting := hB.waiting (step_bookAnswer hs).1
            rw [hfirst] at hwaiting
            cases hwaiting
        | imageAnswer | viewWillAppear | viewWillDisappear | tapOrder
        | didSelectItemAt | reader => rfl

/-- Header and list are about the book of the first book answer or about no
book. With one, the header has its texts and the rows are its parts in one of
the two orders; without one nothing is shown, nothing is asked for and nothing
can be tapped, however long the app runs. -/
theorem page_of_run {es : List AppEvent}
    (hr : appRun F serves getComicPartInfo es = some app) :
    app.bookInfoV.model.value = bookOf F getComicPartInfo es ∧
      app.navigation.partV.modelV.value = bookOf F getComicPartInfo es ∧
      match bookOf F getComicPartInfo es with
      | some book => ComickI_BookInfoV.TextsOf book app.bookInfoV ∧
          ∃ order, app.navigation.partV.contenV.modelArrV.value =
            arrange order book.bookPartArray
      | none => Blank app := by
  have hB := oneBook_of_run hr
  refine ⟨hB.header, hB.list, ?_⟩
  cases hbook : bookOf F getComicPartInfo es with
  | none => exact blank_of_run hr hbook
  | some book =>
      have hfollowed :=
        ComickI_BookInfoV.followed_of_run (infoRun_of_appRun hr)
      have hshown := ComicPartV.shown_of_run (partRun_of_appRun hr)
      exact ⟨(hfollowed.latest book (hB.header.trans hbook)).1, _,
        hshown.list book (hB.list.trans hbook)⟩

/-- The page appears, its book arrives, the first chapter is opened and gets
its pages. -/
def openedFirst : List AppEvent :=
  [.viewWillAppear,
    .bookAnswer (some ⟨200, some (.object numberedAnswer)⟩),
    .didSelectItemAt 0,
    .reader 0 (.answer ⟨.setUp, 0, ⟨"2", []⟩⟩
      (some (ComicReadContentV.pageResponse ["2-1", "2-2"])))]

theorem page_of_run_openedFirst :
    ∃ app : ComickApp String,
      appRun wholeNumbers some (fun _ _ => []) openedFirst = some app ∧
      app.bookInfoV.model.value = bookOf wholeNumbers (fun _ _ => [])
        openedFirst := by
  have hr : appRun wholeNumbers some (fun _ _ => []) openedFirst =
      some (_ : ComickApp String) := rfl
  exact ⟨_, hr, (page_of_run hr).1⟩

/-! ## The readers -/

structure Readers (F : Foundation)
    (getComicPartInfo : String → String → List String) (es : List AppEvent)
    (app : ComickApp Image) : Prop where
  /-- Every reader is for the book, opened at one of its parts. -/
  book : ∀ r ∈ app.readers,
    bookOf F getComicPartInfo es = some r.vc.bookModel ∧
      0 ≤ r.vc.currentIndex.value ∧
      r.vc.currentIndex.value < r.vc.bookModel.bookPartArray.length
  /-- The stack is the root with the readers above it. -/
  stack : (app.navigation.instances ()).viewControllers =
    .root :: app.readers.map fun r => .reader r.vc true
  unborn : ∀ n, app.readers.length ≤ n → es.filterMap (readerEvent n) = []
  runs : ∀ n r, app.readers[n]? = some r →
    run (wireStep r.vc.bookModel) r.vc.contentV
      (es.filterMap (readerEvent n)) = some r.contentV

theorem filterMap_readerEvent_snoc {es : List AppEvent} {e : AppEvent}
    {n : Nat} : (es ++ [e]).filterMap (readerEvent n) =
      es.filterMap (readerEvent n) ++ (readerEvent n e).toList := by
  rw [List.filterMap_append, List.filterMap_cons]
  cases readerEvent n e <;> rfl

/-- An event that is none to the readers leaves them as they are. -/
theorem Readers.frame {es : List AppEvent}
    (hR : Readers F getComicPartInfo es app) {e : AppEvent}
    (hreaders : app'.readers = app.readers)
    (hstack : app'.navigation.instances () = app.navigation.instances ())
    (hbook : bookEvent F getComicPartInfo e = none ∨ app.readers = [])
    (he : ∀ n, readerEvent n e = none) :
    Readers F getComicPartInfo (es ++ [e]) app' := by
  refine ⟨?_, ?_, ?_, ?_⟩
  · intro r hr
    rw [hreaders] at hr
    rcases hbook with hnone | hnil
    · rw [bookOf_snoc_of_none hnone]
      exact hR.book r hr
    · rw [hnil] at hr
      cases hr
  · rw [hstack, hreaders]
    exact hR.stack
  · intro n hn
    rw [hreaders] at hn
    rw [filterMap_readerEvent_snoc, he n, hR.unborn n hn]
    rfl
  · intro n r hr
    rw [hreaders] at hr
    rw [filterMap_readerEvent_snoc, he n, Option.toList_none,
      List.append_nil]
    exact hR.runs n r hr

theorem pushedReaders_push (nav : MainNavigationV) (vc : ComicReadVC) :
    pushedReaders nav (nav.pushViewController vc) = [⟨vc, vc.contentV⟩] := by
  simp [pushedReaders, MainNavigationV.pushViewController]

/-- A row that can be tapped is a part of the book. -/
theorem row_lt {es : List AppEvent}
    (hr : appRun F serves getComicPartInfo es = some app)
    {book : ComickBookInfo}
    (hbook : app.navigation.partV.modelV.value = some book) {row : Nat}
    (hrow : row < app.navigation.partV.contenV.numberOfItemsInSection) :
    row < book.bookPartArray.length := by
  have hshown := ComicPartV.shown_of_run (partRun_of_appRun hr)
  rwa [ComicPartContentV.numberOfItemsInSection, hshown.list book hbook,
    length_arrange] at hrow

theorem Readers.select {es : List AppEvent}
    (hR : Readers F getComicPartInfo es app)
    (hr : appRun F serves getComicPartInfo es = some app) {row : Nat}
    (hs : app.navigate (.part (.didSelectItemAt row)) = some app') :
    Readers F getComicPartInfo (es ++ [.didSelectItemAt row]) app' := by
  obtain ⟨hnav, hreaders, -, -⟩ := step_navigate hs
  obtain ⟨hrow, -, hsame | ⟨book, hbook, hpush⟩⟩ := select_cases hnav
  · rw [hsame, pushedReaders_self, List.append_nil] at hreaders
    exact hR.frame hreaders (by rw [hsame]) (Or.inl rfl) fun _ => rfl
  · rw [hpush, pushedReaders_push] at hreaders
    have hlt := row_lt hr hbook hrow
    have hof := (oneBook_of_run hr).list.symm.trans hbook
    have hquiet : ∀ n, (es ++ [AppEvent.didSelectItemAt row]).filterMap
        (readerEvent n) = es.filterMap (readerEvent n) := by
      intro n
      rw [filterMap_readerEvent_snoc]
      exact List.append_nil _
    refine ⟨?_, ?_, ?_, ?_⟩
    · intro r hmem
      rw [bookOf_snoc_of_none rfl]
      rw [hreaders] at hmem
      rcases List.mem_append.mp hmem with hmem | hmem
      · exact hR.book r hmem
      · obtain rfl := List.mem_singleton.mp hmem
        refine ⟨hof, Int.natCast_nonneg row, ?_⟩
        exact Int.ofNat_lt.mpr hlt
    · rw [hpush, hreaders, List.map_append]
      show (app.navigation.instances ()).viewControllers ++
        [.reader _ (decide
          ((app.navigation.instances ()).viewControllers.length ≥ 1))] = _
      rw [hR.stack]
      simp
    · intro n hn
      rw [hreaders, List.length_append] at hn
      rw [hquiet]
      exact hR.unborn n (Nat.le_of_add_right_le hn)
    · intro n r hget
      rw [hquiet]
      rw [hreaders, List.getElem?_append] at hget
      split at hget
      · exact hR.runs n r hget
      · next hn =>
          rw [List.getElem?_singleton] at hget
          obtain ⟨-, hget⟩ := Option.ite_none_right_eq_some.mp hget
          obtain rfl := Option.some.inj hget
          rw [hR.unborn n (Nat.le_of_not_lt hn)]
          rfl

theorem Readers.reader {es : List AppEvent}
    (hR : Readers F getComicPartInfo es app) {n : Nat} {e : WireEvent}
    (hs : appStep F serves getComicPartInfo app (.reader n e) = some app') :
    Readers F getComicPartInfo (es ++ [.reader n e]) app' := by
  obtain ⟨reader, contentV, hreader, hstep, rfl⟩ := step_reader hs
  have hn : n < app.readers.length :=
    (List.getElem?_eq_some_iff.mp hreader).1
  have hothers : ∀ m, n ≠ m → (es ++ [AppEvent.reader n e]).filterMap
      (readerEvent m) = es.filterMap (readerEvent m) := by
    intro m hm
    rw [filterMap_readerEvent_snoc,
      show readerEvent m (.reader n e) = none from if_neg hm]
    exact List.append_nil _
  refine ⟨?_, ?_, ?_, ?_⟩
  · intro r hr
    rw [bookOf_snoc_of_none rfl]
    rcases List.mem_or_eq_of_mem_set hr with hr | rfl
    · exact hR.book r hr
    · exact hR.book reader (List.mem_of_getElem? hreader)
  · rw [hR.stack, List.map_set]
    refine congrArg _ (List.ext_getElem? fun m => ?_)
    by_cases hm : n = m
    · subst hm
      rw [List.getElem?_set_self (by simpa using hn), List.getElem?_map,
        hreader, Option.map_some]
    · rw [List.getElem?_set_ne hm]
  · intro m hm
    rw [List.length_set] at hm
    rw [hothers m (by omega)]
    exact hR.unborn m hm
  · intro m r hget
    by_cases hm : n = m
    · subst hm
      rw [List.getElem?_set_self hn, Option.some.injEq] at hget
      subst hget
      rw [filterMap_readerEvent_snoc,
        show readerEvent n (.reader n e) = some e from if_pos rfl]
      exact run_snoc_some.mpr ⟨_, hR.runs n reader hreader, hstep⟩
    · rw [List.getElem?_set_ne hm] at hget
      rw [hothers m hm]
      exact hR.runs m r hget

theorem Readers.step {es : List AppEvent}
    (hR : Readers F getComicPartInfo es app)
    (hr : appRun F serves getComicPartInfo es = some app) {e : AppEvent}
    (hs : appStep F serves getComicPartInfo app e = some app') :
    Readers F getComicPartInfo (es ++ [e]) app' := by
  cases e with
  | bookAnswer response =>
      obtain ⟨hreq, -, hreaders, hcase⟩ := step_bookAnswer hs
      have hnone : bookOf F getComicPartInfo es = none := by
        rw [bookOf, (oneBook_of_run hr).waiting hreq]
        rfl
      refine hR.frame hreaders ?_ (Or.inr (blank_of_run hr hnone).readers)
        fun _ => rfl
      rcases hcase with ⟨-, -, hnav⟩ | ⟨res, -, -, hnav⟩
      · rw [hnav]
      · rw [hnav]
  | imageAnswer =>
      obtain ⟨bookInfoV, -, rfl⟩ := Option.map_eq_some_iff.mp hs
      exact hR.frame rfl rfl (Or.inl rfl) fun _ => rfl
  | viewWillAppear | viewWillDisappear | tapOrder =>
      obtain rfl := Option.some.inj hs
      refine hR.frame ?_ rfl (Or.inl rfl) fun _ => rfl
      show app.readers ++ pushedReaders (app.navigation.instances ())
        (app.navigation.instances ()) = app.readers
      rw [pushedReaders_self, List.append_nil]
  | didSelectItemAt row => exact hR.select hr hs
  | reader n e => exact hR.reader hs

theorem readers_of_run {es : List AppEvent}
    (hr : appRun F serves getComicPartInfo es = some app) :
    Readers F getComicPartInfo es app := by
  refine run_induction (P := Readers F getComicPartInfo) ?_ ?_ hr
  · refine ⟨?_, rfl, fun _ _ => rfl, ?_⟩
    · intro r hr
      cases hr
    · intro n r hr
      cases hr
  · exact fun _ _ _ _ happ hR hs => hR.step happ hs

/-- Every reader of the app is for the book that was answered, stands on the
stack, asks first for a part that exists, and makes a run of the reader's own
model out of the answers and notifications it gets. -/
theorem reader_of_run {es : List AppEvent}
    (hr : appRun F serves getComicPartInfo es = some app) {n : Nat}
    {r : ShownReader} (hn : app.readers[n]? = some r) :
    bookOf F getComicPartInfo es = some r.vc.bookModel ∧
      (app.navigation.instances ()).viewControllers[n + 1]? =
        some (.reader r.vc true) ∧
      (∃ part, r.vc.contentV.outstanding =
        [⟨.setUp, r.vc.currentIndex.value, part⟩]) ∧
      run (wireStep r.vc.bookModel)
          (.initial r.vc.bookModel r.vc.currentIndex.value)
          (es.filterMap (readerEvent n)) = some r.contentV := by
  have hR := readers_of_run hr
  obtain ⟨hbook, hlow, hhigh⟩ := hR.book r (List.mem_of_getElem? hn)
  obtain ⟨part, hpart⟩ := getIndexComicPart_of_mem ⟨hlow, hhigh⟩
  refine ⟨hbook, ?_, ⟨part, ?_⟩, hR.runs n r hn⟩
  · rw [hR.stack, List.getElem?_cons_succ, List.getElem?_map, hn]
    rfl
  · rw [ComicPartV.outstanding_contentV, requestFor, hpart]
    rfl

theorem reader_of_run_openedFirst :
    ∃ (app : ComickApp String) (r : ShownReader),
      appRun wholeNumbers some (fun _ _ => []) openedFirst = some app ∧
      app.readers[0]? = some r ∧
      bookOf wholeNumbers (fun _ _ => []) openedFirst =
        some r.vc.bookModel := by
  have hr : appRun wholeNumbers some (fun _ _ => []) openedFirst =
      some (_ : ComickApp String) := rfl
  have hn : Option.bind (appRun wholeNumbers some
      (fun _ _ => []) openedFirst) (·.readers[0]?) =
        some (_ : ShownReader) := rfl
  rw [hr, Option.bind_some] at hn
  exact ⟨_, _, hr, hn, (reader_of_run hr hn).1⟩

/-! ## Where a page comes from -/

/-- The book of a run is the one some book answer of the run was mapped to. -/
theorem exists_bookAnswer {es : List AppEvent} {book : ComickBookInfo}
    (h : bookOf F getComicPartInfo es = some book) :
    ∃ response model, .bookAnswer response ∈ es ∧
      bookAction F response = some (some model) ∧
      book = model.asBookInfo (DMZJ_PartModel.deserialize F)
        getComicPartInfo := by
  obtain ⟨e, he, hbook⟩ :=
    List.exists_of_findSome?_eq_some (Option.join_eq_some_iff.mp h)
  cases e with
  | bookAnswer response =>
      rw [bookEvent, Option.some.injEq, Option.join_eq_some_iff, element,
        Option.map_eq_some_iff] at hbook
      obtain ⟨res, hres, hmap⟩ := hbook
      obtain ⟨model, rfl, hmodel⟩ := Option.map_eq_some_iff.mp hmap
      exact ⟨response, model, he, hres, hmodel.symm⟩
  | imageAnswer | viewWillAppear | viewWillDisappear | tapOrder
  | didSelectItemAt | reader => cases hbook

/-- The index of a part of the book is that of the model's part. -/
theorem exists_part {model : DMZJ_BookModel} {index : Int}
    {part : ComickPartInfo}
    (h : getIndexComicPart (model.asBookInfo (DMZJ_PartModel.deserialize F)
      getComicPartInfo) index = some part) :
    ∃ (k : Nat) (partModel : DMZJ_PartModel), index = k ∧
      (model.bookPartArray (DMZJ_PartModel.deserialize F))[k]? =
        some partModel := by
  obtain ⟨hlow, hhigh⟩ := getIndexComicPart_bounds h
  rw [DMZJ_BookModel.asBookInfo, List.length_map] at hhigh
  have hlt : index.toNat <
      (model.bookPartArray (DMZJ_PartModel.deserialize F)).length := by
    omega
  exact ⟨index.toNat, _, (Int.toNat_of_nonneg hlow).symm,
    List.getElem?_eq_getElem hlt⟩

/-- Whatever the server answers and whatever the user does, a section of a
reader is an array of pages the server sent that reader, for a part of the
book model that the server's answer to the book request was mapped to. -/
theorem section_from_server {es : List AppEvent}
    (hr : appRun F serves getComicPartInfo es = some app) {n : Nat}
    {r : ShownReader} (hn : app.readers[n]? = some r) {arr : List String}
    (harr : arr ∈ r.contentV.currentImageArrV.value) :
    ∃ (response : Option Response) (model : DMZJ_BookModel) (k : Nat)
      (part : DMZJ_PartModel) (req : Request) (answer : Option Response),
      .bookAnswer response ∈ es ∧
      bookAction F response = some (some model) ∧
      (model.bookPartArray (DMZJ_PartModel.deserialize F))[k]? =
        some part ∧
      .reader n (.answer req answer) ∈ es ∧ req.index = k ∧
      getPartImageUrlStrArr answer = some arr := by
  have hR := readers_of_run hr
  obtain ⟨hbook, -, -⟩ := hR.book r (List.mem_of_getElem? hn)
  obtain ⟨response, model, hmem, haction, hmodel⟩ := exists_bookAnswer hbook
  have hW := ComicReadContentV.onWire_of_run (hR.runs n r hn)
  rw [hW.sections] at harr
  obtain ⟨x, hx, rfl⟩ := List.mem_map.mp harr
  obtain ⟨⟨answer, hanswer, hpages⟩, hpart⟩ := hW.received x hx
  rw [hmodel] at hpart
  obtain ⟨k, part, hk, hget⟩ := exists_part hpart
  obtain ⟨e, he, hseen⟩ := List.mem_filterMap.mp hanswer
  have hevent : e = .reader n (.answer x.1 answer) := by
    cases e with
    | reader n' e' =>
        obtain ⟨rfl, hsome⟩ := Option.ite_none_right_eq_some.mp hseen
        rw [Option.some.inj hsome]
    | bookAnswer | imageAnswer | viewWillAppear | viewWillDisappear
    | tapOrder | didSelectItemAt => cases hseen
  exact ⟨response, model, k, part, x.1, answer, hmem, haction, hget,
    hevent ▸ he, hk, hpages⟩

theorem section_from_server_openedFirst :
    ∃ (app : ComickApp String) (r : ShownReader),
      appRun wholeNumbers some (fun _ _ => []) openedFirst = some app ∧
      app.readers[0]? = some r ∧
      ∃ req answer, AppEvent.reader 0 (.answer req answer) ∈ openedFirst ∧
        getPartImageUrlStrArr answer = some ["2-1", "2-2"] := by
  have hr : appRun wholeNumbers some (fun _ _ => []) openedFirst =
      some (_ : ComickApp String) := rfl
  have hn : Option.bind (appRun wholeNumbers some
      (fun _ _ => []) openedFirst) (·.readers[0]?) =
        some (_ : ShownReader) := rfl
  rw [hr, Option.bind_some] at hn
  obtain ⟨-, -, -, -, req, answer, -, -, -, hmem, -, hpages⟩ :=
    section_from_server hr hn List.mem_cons_self
  exact ⟨_, _, hr, hn, req, answer, hmem, hpages⟩

end ComickApp

end ComicReader
