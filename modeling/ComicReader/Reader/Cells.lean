import ComicReader.Lib.Ticket
import ComicReader.Source.ReadCells
import ComicReader.Reader.Retry

/-!
# The reader with its cells

The collection view, the cells it reuses and the retrievals of their pictures
run beside the reader and read its sections. Nothing of this reaches back. The
runs of the reader are exactly what the runs with cells look like from the
reader (`readRun_iff_cellRun`), so that every page it is told of does exist is
a consequence and not an assumption, and because the sections are never
written without a reload, no question of the collection view is about a page
that is gone (`answered_of_cellRun`).

For the pictures, Kingfisher is a desk of numbered requests with the image
views for slots.
-/

namespace ComicReader

open Lib
open ComicReadContentV (readRun sections_of_readStep threeParts middle)

variable {URL Image : Type _}

/-! ## Kingfisher is a desk -/

namespace Retrieval

def ticket (r : Retrieval URL) : Ticket Nat URL :=
  ⟨r.issuedIdentifier, r.base, r.source⟩

theorem ticket_injective : Function.Injective
    (ticket : Retrieval URL → Ticket Nat URL) := by
  intro r r' h
  obtain ⟨hn, hb, hs⟩ := Ticket.mk.inj h
  cases r
  cases r'
  simp_all

end Retrieval

namespace Kingfisher

def desk (kf : Kingfisher URL Image) : Desk Nat URL Image where
  last := kf.current
  slots i := ⟨(kf.views i).image, (kf.views i).taskIdentifier⟩
  waiting := kf.retrievals.map Retrieval.ticket

theorem desk_setImage (kf : Kingfisher URL Image) (base : Nat) (source : URL) :
    (kf.setImage base (some source)).desk = kf.desk.issue base source := by
  unfold desk setImage Desk.issue
  congr 1
  · funext i
    by_cases hi : i = base
    · subst hi
      simp
    · simp [hi]
  · simp [Desk.issued, Retrieval.ticket]

theorem desk_complete [DecidableEq URL] (kf : Kingfisher URL Image)
    (r : Retrieval URL) (result : Option Image) :
    (kf.complete r result).desk = kf.desk.answer r.ticket result := by
  have hwaiting : (kf.retrievals.erase r).map Retrieval.ticket =
      (kf.retrievals.map Retrieval.ticket).erase r.ticket :=
    List.map_erase Retrieval.ticket_injective _
  unfold complete desk Desk.answer
  by_cases hown : (kf.views r.base).taskIdentifier = some r.issuedIdentifier
  · simp only [hown, if_true, Retrieval.ticket, hwaiting, Desk.mk.injEq,
      true_and, and_true]
    funext i
    by_cases hi : i = r.base
    · subst hi
      cases result <;> simp [Slot.served]
    · simp [hi]
  · simp only [hown, if_false, Retrieval.ticket, hwaiting]

theorem valid_initial : (initial : Kingfisher URL Image).desk.Valid where
  le_last t ht := by cases ht
  distinct := List.nodup_nil
  held s n hn := by cases hn

end Kingfisher

namespace ReadCollection

variable {urlInit : String → Option URL} {book : ComickBookInfo} {start : Int}
  {w w' : ReadCollection URL Image}

/-! ## What the collection view asks -/

theorem mapM_eq_map {α β : Type _} {f : α → Option β} {g : α → β}
    {l : List α} (h : ∀ a ∈ l, f a = some (g a)) :
    l.mapM f = some (l.map g) := by
  induction l with
  | nil => rfl
  | cons a l ih =>
      have hl := ih fun b hb => h b (List.mem_cons_of_mem a hb)
      rw [List.mapM_cons, h a List.mem_cons_self, hl]
      rfl

/-- The numbers of items are those of the sections as they are. -/
theorem askedCounts_eq (sf : ComicReadContentV) : sf.askedCounts =
    some (sf.currentImageArrV.value.map List.length) := by
  have hmap : sf.askedCounts = some ((List.range sf.numberOfSections).map
      fun i => (sf.currentImageArrV.value.getD i []).length) := by
    refine mapM_eq_map fun i hi => ?_
    have hlt : i < sf.currentImageArrV.value.length := List.mem_range.mp hi
    simp [ComicReadContentV.numberOfItemsInSection, hlt]
  rw [hmap, Option.some.injEq]
  refine List.ext_getElem (by simp [ComicReadContentV.numberOfSections]) ?_
  intro i _ hi
  rw [List.length_map] at hi
  simp [hi]

/-! ## One step beside the reader -/

/-- What a step is for the reader. -/
def readEvent : CellEvent URL Image → Option ReadEvent
  | .answer req success => some (.answer req success)
  | .willDisplay _ indexPath => some (.willDisplay indexPath)
  | .didEndDisplaying indexPath => some (.didEndDisplaying indexPath)
  | .layout | .cellForItemAt _ _ | .enqueued _ | .retrieved _ _ => none

/-- The page at `p`, of the sections as they are. -/
def pageAt (sf : ComicReadContentV) (p : IndexPath) : Option String :=
  (sf.currentImageArrV.value[p.section]?).bind fun arr => arr[p.row]?

theorem pageAt_isSome {sf : ComicReadContentV} {p : IndexPath} :
    (pageAt sf p).isSome ↔ sf.hasItem p := by
  unfold pageAt ComicReadContentV.hasItem
    ComicReadContentV.numberOfItemsInSection
  cases sf.currentImageArrV.value[p.section]? <;> simp

theorem cellForItemAt_eq {sf : ComicReadContentV} {kf : Kingfisher URL Image}
    {cell : Nat} {p : IndexPath} : sf.cellForItemAt urlInit kf cell p =
      (pageAt sf p).map fun string =>
        match urlInit string with
        | some url => kf.setImage cell (some url)
        | none => kf := by
  unfold ComicReadContentV.cellForItemAt pageAt
  cases sf.currentImageArrV.value[p.section]? <;> rfl

/-- What holds between the reader, the collection view's counts and the cells
in use. -/
structure Coherent (urlInit : String → Option URL)
    (w : ReadCollection URL Image) : Prop where
  counts : ∀ counts ∈ w.counts,
    counts = w.contentV.currentImageArrV.value.map List.length
  page : ∀ c ∈ w.cells, (pageAt w.contentV c.2).isSome
  valid : w.kf.desk.Valid
  /-- The cell has asked for the picture of its page, if the address parses. -/
  serves : ∀ c ∈ w.cells, ∀ string ∈ pageAt w.contentV c.2,
    ∀ url ∈ urlInit string, w.kf.desk.Serves c.1 url

theorem Coherent.counted (hC : Coherent urlInit w) {p : IndexPath}
    (h : w.Counted p) : (pageAt w.contentV p).isSome := by
  obtain ⟨counts, hcounts, n, hn, hrow⟩ := h
  rw [hC.counts counts hcounts, List.getElem?_map] at hn
  exact pageAt_isSome.mpr ⟨n, hn, hrow⟩

/-- Steps of the reader that leave the sections alone leave everything as it
is coherent. -/
theorem Coherent.read {sf' : ComicReadContentV} (hC : Coherent urlInit w)
    (h : sf'.currentImageArrV = w.contentV.currentImageArrV) :
    Coherent urlInit { w with contentV := sf' } := by
  have hpage : pageAt sf' = pageAt w.contentV := by
    funext p
    rw [pageAt, pageAt, h]
  refine ⟨?_, ?_, hC.valid, ?_⟩
  · intro counts hcounts
    show counts = sf'.currentImageArrV.value.map List.length
    rw [h]
    exact hC.counts counts hcounts
  · show ∀ c ∈ w.cells, (pageAt sf' c.2).isSome
    rw [hpage]
    exact hC.page
  · show ∀ c ∈ w.cells, ∀ string ∈ pageAt sf' c.2, _
    rw [hpage]
    exact hC.serves

theorem Coherent.reloadData (hC : Coherent urlInit w)
    (sf' : ComicReadContentV) :
    Coherent urlInit { w with contentV := sf' }.reloadData where
  counts counts hcounts := by cases hcounts
  page c hc := by cases hc
  valid := hC.valid
  serves c hc := by cases hc

/-- The dequeued cell asks for its page's picture, and no cell in use is
touched. -/
theorem Coherent.cellForItemAt (hC : Coherent urlInit w) {cell : Nat}
    {p : IndexPath} {kf : Kingfisher URL Image} (hw : w.Dequeuable cell)
    (hkf : w.contentV.cellForItemAt urlInit w.kf cell p = some kf) :
    Coherent urlInit { w with
      created := max w.created (cell + 1)
      cells := (cell, p) :: w.cells
      kf := kf } := by
  rw [cellForItemAt_eq, Option.map_eq_some_iff] at hkf
  obtain ⟨string, hstring, rfl⟩ := hkf
  have hpage : ∀ c ∈ (cell, p) :: w.cells,
      (pageAt w.contentV c.2).isSome := by
    intro c hc
    rcases List.mem_cons.mp hc with rfl | hc
    · rw [hstring]
      rfl
    · exact hC.page c hc
  cases hurl : urlInit string with
  | none =>
      refine ⟨hC.counts, hpage, hC.valid, ?_⟩
      intro c hc string' hstring' url hurl'
      rcases List.mem_cons.mp hc with rfl | hc
      · obtain rfl : string' = string :=
          Option.some.inj (hstring'.symm.trans hstring)
        rw [hurl] at hurl'
        cases hurl'
      · exact hC.serves c hc string' hstring' url hurl'
  | some url =>
      refine ⟨hC.counts, hpage, ?_, ?_⟩
      · show (w.kf.setImage cell (some url)).desk.Valid
        rw [Kingfisher.desk_setImage]
        exact hC.valid.issue
      · intro c hc string' hstring' url' hurl'
        show (w.kf.setImage cell (some url)).desk.Serves c.1 url'
        rw [Kingfisher.desk_setImage]
        rcases List.mem_cons.mp hc with rfl | hc
        · obtain rfl : string' = string :=
            Option.some.inj (hstring'.symm.trans hstring)
          obtain rfl : url = url' := Option.some.inj (hurl.symm.trans hurl')
          exact hC.valid.serves_issue
        · exact (hC.serves c hc string' hstring' url' hurl').issue_other
            (hw.2 c hc)

variable [DecidableEq URL]

theorem Coherent.retrieved (hC : Coherent urlInit w) {r : Retrieval URL}
    {result : Option Image} (hr : r ∈ w.kf.retrievals) :
    Coherent urlInit { w with kf := w.kf.complete r result } := by
  refine ⟨hC.counts, hC.page, ?_, ?_⟩
  · show (w.kf.complete r result).desk.Valid
    rw [Kingfisher.desk_complete]
    exact hC.valid.answer
  · intro c hc string hstring url hurl
    show (w.kf.complete r result).desk.Serves c.1 url
    rw [Kingfisher.desk_complete]
    exact (hC.serves c hc string hstring url hurl).answer
      (List.mem_map_of_mem hr)

theorem Coherent.step (hC : Coherent urlInit w) {e : CellEvent URL Image}
    (hs : w.step urlInit book e = some w') : Coherent urlInit w' := by
  cases e with
  | answer req success =>
      obtain ⟨sf', hsf', rfl⟩ := Option.map_eq_some_iff.mp hs
      cases success with
      | true => exact hC.reloadData sf'
      | false =>
          refine hC.read (sections_of_readStep hsf' ?_)
          simp
  | layout =>
      simp only [ReadCollection.step, Option.ite_none_right_eq_some] at hs
      obtain ⟨-, hs⟩ := hs
      rw [askedCounts_eq, Option.map_some, Option.some.injEq] at hs
      subst hs
      refine ⟨?_, hC.page, hC.valid, hC.serves⟩
      intro counts hcounts
      exact (Option.some.inj hcounts).symm
  | cellForItemAt cell p =>
      simp only [ReadCollection.step, Option.ite_none_right_eq_some] at hs
      obtain ⟨⟨-, hw⟩, hs⟩ := hs
      obtain ⟨kf, hkf, rfl⟩ := Option.map_eq_some_iff.mp hs
      exact hC.cellForItemAt hw hkf
  | willDisplay cell p =>
      simp only [ReadCollection.step, Option.ite_none_right_eq_some] at hs
      obtain ⟨-, hs⟩ := hs
      obtain rfl := Option.some.inj hs
      exact hC.read rfl
  | didEndDisplaying p =>
      obtain ⟨sf', hsf', rfl⟩ := Option.map_eq_some_iff.mp hs
      refine hC.read (sections_of_readStep (e := .didEndDisplaying p) hsf' ?_)
      simp
  | enqueued cell =>
      obtain rfl := Option.some.inj hs
      refine ⟨hC.counts, ?_, hC.valid, ?_⟩
      · exact fun c hc => hC.page c (List.mem_of_mem_filter hc)
      · exact fun c hc => hC.serves c (List.mem_of_mem_filter hc)
  | retrieved r result =>
      simp only [ReadCollection.step, Option.ite_none_right_eq_some] at hs
      obtain ⟨hr, hs⟩ := hs
      obtain rfl := Option.some.inj hs
      exact hC.retrieved hr

/-! ## Runs -/

def cellRun (urlInit : String → Option URL) (book : ComickBookInfo)
    (start : Int) (es : List (CellEvent URL Image)) :
    Option (ReadCollection URL Image) :=
  run (step urlInit book) (initial book start) es

theorem coherent_of_run {es : List (CellEvent URL Image)}
    (hr : cellRun urlInit book start es = some w) : Coherent urlInit w := by
  refine run_induction (P := fun _ w => Coherent urlInit w) ?_ ?_ hr
  · refine ⟨?_, ?_, Kingfisher.valid_initial, ?_⟩
    · intro counts hcounts
      cases hcounts
    · intro c hc
      cases hc
    · intro c hc
      cases hc
  · exact fun _ _ _ _ _ hC hs => hC.step hs

/-- What a step is for the reader is a step of the reader: the page that is
announced is a page of the sections. -/
theorem Coherent.readStep (hC : Coherent urlInit w)
    {e : CellEvent URL Image} (hs : w.step urlInit book e = some w') :
    stepSeen (ComicReader.readStep book) w.contentV (readEvent e) =
      some w'.contentV := by
  cases e with
  | answer req success =>
      obtain ⟨sf', hsf', rfl⟩ := Option.map_eq_some_iff.mp hs
      cases success <;> exact hsf'
  | willDisplay cell p =>
      simp only [ReadCollection.step, Option.ite_none_right_eq_some] at hs
      obtain ⟨hcell, hs⟩ := hs
      obtain rfl := Option.some.inj hs
      exact if_pos (pageAt_isSome.mp (hC.page _ hcell))
  | didEndDisplaying p =>
      obtain ⟨sf', hsf', rfl⟩ := Option.map_eq_some_iff.mp hs
      exact hsf'
  | layout | cellForItemAt cell p =>
      simp only [ReadCollection.step, Option.ite_none_right_eq_some] at hs
      obtain ⟨_, _, rfl⟩ := Option.map_eq_some_iff.mp hs.2
      rfl
  | enqueued cell =>
      obtain rfl := Option.some.inj hs
      rfl
  | retrieved r result =>
      simp only [ReadCollection.step, Option.ite_none_right_eq_some] at hs
      obtain rfl := Option.some.inj hs.2
      rfl

/-! ## The reader of a run with cells -/

theorem readRun_of_cellRun {es : List (CellEvent URL Image)}
    (hr : cellRun urlInit book start es = some w) :
    readRun book start (es.filterMap readEvent) = some w.contentV :=
  run_project contentV readEvent (I := Coherent urlInit)
    (fun _ _ hr => coherent_of_run hr)
    (fun _ _ _ hC hs => hC.readStep hs) hr

/-- The collection view can come to ask for any page of the sections, in a
cell that has not been used. -/
theorem exists_dequeued (book : ComickBookInfo) (hC : Coherent urlInit w)
    {p : IndexPath} (hp : w.contentV.hasItem p) :
    ∃ es w', run (step urlInit book) w es = some w' ∧
      es.filterMap readEvent = [] ∧ w'.contentV = w.contentV ∧
      (w.created, p) ∈ w'.cells := by
  obtain ⟨counted, hcounted, hcontent, hcreated, hcount⟩ :
      ∃ u, run (step urlInit book) w
          (if w.counts = none then [.layout] else []) = some u ∧
        u.contentV = w.contentV ∧ u.created = w.created ∧
        u.counts =
          some (w.contentV.currentImageArrV.value.map List.length) := by
    cases hnone : w.counts with
    | none =>
        refine ⟨{ w with counts := some (w.contentV.currentImageArrV.value.map
          List.length) }, ?_, rfl, rfl, rfl⟩
        rw [if_pos rfl, run, step, if_pos hnone, askedCounts_eq]
        rfl
    | some counts =>
        refine ⟨w, by simp, rfl, rfl, ?_⟩
        rw [hnone, hC.counts counts hnone]
  have hpage : counted.Counted p := by
    obtain ⟨n, hn, hrow⟩ := hp
    refine ⟨_, hcount, n, ?_, hrow⟩
    rw [List.getElem?_map]
    exact hn
  have hfree : ({ counted with
      cells := counted.cells.filter fun c => c.1 ≠ w.created } :
        ReadCollection URL Image).Dequeuable w.created := by
    refine ⟨Nat.le_of_eq hcreated.symm, ?_⟩
    intro c hc
    simpa using (List.mem_filter.mp hc).2
  obtain ⟨kf, hkf⟩ := Option.isSome_iff_exists.mp
    (show (counted.contentV.cellForItemAt urlInit counted.kf w.created
        p).isSome by
      rw [cellForItemAt_eq, Option.isSome_map, hcontent]
      exact pageAt_isSome.mpr hp)
  refine ⟨_ ++ [.enqueued w.created, .cellForItemAt w.created p],
    { counted with
      created := max counted.created (w.created + 1)
      cells := (w.created, p) ::
        counted.cells.filter fun c => c.1 ≠ w.created
      kf := kf },
    run_append_some.mpr ⟨counted, hcounted, ?_⟩, ?_, hcontent,
    List.mem_cons_self⟩
  · rw [run, step, Option.bind_some, run, step, if_pos ⟨hpage, hfree⟩]
    simp only [hkf]
    rfl
  · split <;> rfl

/-- A step of the reader can be taken with the cells in place. -/
theorem exists_steps (hC : Coherent urlInit w) {e : ReadEvent}
    {sf' : ComicReadContentV}
    (hs : ComicReader.readStep book w.contentV e = some sf') :
    ∃ fs w', run (step urlInit book) w fs = some w' ∧
      fs.filterMap readEvent = [e] ∧ w'.contentV = sf' := by
  cases e with
  | answer req success =>
      refine ⟨[.answer req success], if success then
        { w with contentV := sf' }.reloadData else { w with contentV := sf' },
        ?_, rfl, by cases success <;> rfl⟩
      rw [run, step, hs]
      rfl
  | willDisplay p =>
      simp only [ComicReader.readStep, Option.ite_none_right_eq_some] at hs
      obtain ⟨hp, hs⟩ := hs
      obtain ⟨fs, u, hu, hnil, hcontent, hmem⟩ :=
        exists_dequeued book hC hp
      refine ⟨fs ++ [.willDisplay w.created p],
        { u with contentV := u.contentV.willDisplay p },
        run_snoc_some.mpr ⟨u, hu, ?_⟩, ?_, ?_⟩
      · rw [step, if_pos hmem]
      · rw [List.filterMap_append, hnil]
        rfl
      · rw [← Option.some.inj hs, ← hcontent]
  | didEndDisplaying q =>
      refine ⟨[.didEndDisplaying q], { w with contentV := sf' }, ?_, rfl, rfl⟩
      have hend : w.contentV.didEndDisplaying book q = some sf' := hs
      rw [run, step, hend]
      rfl

/-- The runs of the reader are the runs with cells, seen from the reader. -/
theorem readRun_iff_cellRun {res : List ReadEvent}
    {sf : ComicReadContentV} : readRun book start res = some sf ↔
      ∃ es, ∃ w : ReadCollection URL Image,
        cellRun urlInit book start es = some w ∧
          es.filterMap readEvent = res ∧ w.contentV = sf := by
  constructor
  · intro hr
    refine run_induction
      (P := fun res sf => ∃ es, ∃ w : ReadCollection URL Image,
        cellRun urlInit book start es = some w ∧
          es.filterMap readEvent = res ∧ w.contentV = sf)
      ⟨[], _, rfl, rfl, rfl⟩ ?_ hr
    rintro res sf e sf' - ⟨es, w, hw, rfl, rfl⟩ hs
    obtain ⟨fs, w', hw', hfs, hcontent⟩ :=
      exists_steps (coherent_of_run hw) hs
    refine ⟨es ++ fs, w', run_append_some.mpr ⟨w, hw, hw'⟩, ?_, hcontent⟩
    rw [List.filterMap_append, hfs]
  · rintro ⟨es, w, hw, rfl, rfl⟩
    exact readRun_of_cellRun hw

/-- However the answers, the notifications and the pictures interleave, no
subscript of the sections traps, be it for the collection view's questions or
after a page has left the screen. -/
theorem answered_of_cellRun {es : List (CellEvent URL Image)}
    (hr : cellRun urlInit book start es = some w) (p : IndexPath) :
    w.contentV.askedCounts.isSome ∧
      (w.Counted p → ∀ cell,
        (w.contentV.cellForItemAt urlInit w.kf cell p).isSome) ∧
      (w.contentV.didEndDisplaying book p).isSome := by
  refine ⟨?_, ?_, ?_⟩
  · rw [askedCounts_eq]
    rfl
  · intro hp cell
    rw [cellForItemAt_eq, Option.isSome_map]
    exact (coherent_of_run hr).counted hp
  · exact ComicReadContentV.didEndDisplaying_isSome (readRun_of_cellRun hr) p

/-- The middle part has arrived, and its two pages are there to be asked
for. -/
theorem answered_of_cellRun_opened :
    ∃ w : ReadCollection String String, cellRun some threeParts 1
        [.answer ⟨.setUp, 1, middle⟩ true, .layout] = some w ∧
      (w.contentV.cellForItemAt some w.kf 7 ⟨0, 1⟩).isSome := by
  have hr : cellRun some threeParts 1
      [.answer ⟨.setUp, 1, middle⟩ true, .layout] =
      some (_ : ReadCollection String String) := rfl
  refine ⟨_, hr, (answered_of_cellRun hr ⟨0, 1⟩).2.1 ?_ 7⟩
  exact ⟨[2], rfl, 2, rfl, by decide⟩

end ReadCollection

end ComicReader
