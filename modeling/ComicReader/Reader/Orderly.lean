import ComicReader.Lib.Window
import ComicReader.Reader.Loaded

/-!
# Orderly runs keep the sections a window on the book

What the reader is for is a window: the loaded parts are a block of
consecutive parts of the book, and every load in flight takes in a neighbour.
The code keeps to that except in two places. The branch for the first page
asks for `neighbourIndex`, the part below the window, and inserts it in front;
and one `state` guards both directions, so a next load can be started while
another is still out. `Orderly` excludes exactly the transitions that start a
load in one of these two ways.

`reader_refines_window` is the refinement: along an orderly run every event
of the reader leaves the window alone or grows it by one neighbour, and
`windowed_iff_orderly` says that no other run stays a window. What a user sees
of it is that section `s` is part `zeroSectionIndex - s`, and that no part is
asked for twice.
-/

namespace ComicReader

open Lib

theorem ne_of_mem_erase_of_nodup_map {α β : Type _} [DecidableEq α]
    {f : α → β} {l : List α} (hl : (l.map f).Nodup) {a b : α} (ha : a ∈ l)
    (hb : b ∈ l.erase a) : f b ≠ f a := by
  have hperm := (List.perm_cons_erase ha).map f
  have hnodup := hperm.nodup_iff.mp hl
  rw [List.map_cons, List.nodup_cons] at hnodup
  exact fun heq => hnodup.1 (heq ▸ List.mem_map_of_mem hb)

namespace ComicReadContentV

variable {book : ComickBookInfo} {start : Int} {h : ReadHistory}
  {sf sf' : ComicReadContentV}

/-- The page a `didEndDisplaying q` lands on, with its section's page array,
when the subscriber handles it. -/
def landing (sf : ComicReadContentV) (q : IndexPath) :
    Option (IndexPath × List String) :=
  match sf.willShowIndex.value with
  | some p =>
      if q ≠ p then
        (sf.currentImageArrV.value[p.section]?).map fun arr => (p, arr)
      else none
  | none => none

theorem landing_eq_some {q p : IndexPath} {arr : List String}
    (hw : sf.willShowIndex.value = some p) (hne : q ≠ p)
    (harr : sf.currentImageArrV.value[p.section]? = some arr) :
    sf.landing q = some (p, arr) := by
  simp [landing, hw, hne, harr]

theorem landing_eq_none {q : IndexPath}
    (hw : ∀ p, sf.willShowIndex.value = some p → p = q) :
    sf.landing q = none := by
  cases hs : sf.willShowIndex.value with
  | none => simp [landing, hs]
  | some p => simp [landing, hs, hw p hs]

/-- The transition starts a load with `block`. -/
def Starts (book : ComickBookInfo) (sf : ComicReadContentV) (q : IndexPath)
    (block : Block) : Prop :=
  ∃ l ∈ sf.landing q, started book sf l.1 l.2 block ≠ []

instance {q : IndexPath} {block : Block} :
    Decidable (Starts book sf q block) :=
  inferInstanceAs (Decidable (∃ l ∈ _, _))

theorem starts_iff {q p : IndexPath} {arr : List String} {block : Block}
    (hland : sf.landing q = some (p, arr)) :
    Starts book sf q block ↔ started book sf p arr block ≠ [] := by
  simp [Starts, hland]

theorem not_starts {q : IndexPath} {block : Block}
    (hnone : sf.landing q = none) : ¬ Starts book sf q block := by
  simp [Starts, hnone]

/-- A next load is started only when none is out. -/
def NextAlone (book : ComickBookInfo) (sf : ComicReadContentV) :
    ReadEvent → Prop
  | .didEndDisplaying q => Starts book sf q .loadNextDate →
      ∀ req ∈ sf.outstanding, req.block ≠ .loadNextDate
  | _ => True

/-- The event keeps clear of both defects: a next load is started only when
none is out, and no transition starts a previous load. -/
def Orderly (book : ComickBookInfo) (sf : ComicReadContentV)
    (e : ReadEvent) : Prop :=
  NextAlone book sf e ∧
    match e with
    | .didEndDisplaying q => ¬ Starts book sf q .loadPreviousDate
    | _ => True

instance : {e : ReadEvent} → Decidable (NextAlone book sf e)
  | .answer _ _ | .willDisplay _ => inferInstanceAs (Decidable True)
  | .didEndDisplaying _ =>
      inferInstanceAs (Decidable (_ → ∀ req ∈ sf.outstanding, _))

instance : {e : ReadEvent} → Decidable (Orderly book sf e)
  | .answer _ _ | .willDisplay _ => inferInstanceAs (Decidable (_ ∧ True))
  | .didEndDisplaying _ => inferInstanceAs (Decidable (_ ∧ ¬ _))

/-- The refinement relation: the reader's sections are the window, and the
loads in flight are for its two neighbours, at most one for each. -/
structure Windowed (book : ComickBookInfo) (h : ReadHistory)
    (sf : ComicReadContentV) (w : Window book.bookPartArray.length) :
    Prop where
  filled : h.filled = w.indices
  zero : sf.zeroSectionIndex = w.top
  next : ∀ req ∈ sf.outstanding, req.block = .loadNextDate →
    req.index = w.below
  previous : ∀ req ∈ sf.outstanding, req.block = .loadPreviousDate →
    req.index = w.above
  blocks : (sf.outstanding.map Request.block).Nodup

theorem Windowed.length {w : Window book.bookPartArray.length}
    (hW : Windowed book h sf w) (hL : Loaded book start h sf) :
    sf.currentImageArrV.value.length = w.size := by
  rw [← hL.length_filled, hW.filled, Window.length_indices]

theorem Windowed.neighbourIndex {w : Window book.bookPartArray.length}
    (hW : Windowed book h sf w) (hL : Loaded book start h sf) :
    sf.neighbourIndex = w.below := by
  rw [ComicReadContentV.neighbourIndex, hW.zero, hW.length hL, Window.below]

theorem windowed_openedBy {model : ComickPartInfo}
    (hm : getIndexComicPart book start = some model)
    (hout : sf.outstanding = [⟨.setUp, start, model⟩]) :
    Windowed book (h.record (.answer ⟨.setUp, start, model⟩ true))
      (openedBy book sf ⟨.setUp, start, model⟩)
      (Window.single start (getIndexComicPart_bounds hm)) := by
  refine ⟨by simp [ReadHistory.record], rfl, ?_, ?_, ?_⟩
  · intro req hreq hb
    rw [(next_openedBy hout hreq hb).1]
    simp [Window.single, Window.below]
  · intro req hreq hb
    rw [previous_openedBy hout hreq hb]
    simp [Window.single, Window.above]
  · rw [outstanding_openedBy hout]
    rcases requestFor_cases book .loadNextDate (start - 1) with
      hn | ⟨m, _, hn⟩ <;>
    rcases requestFor_cases book .loadPreviousDate (start + 1) with
      hp | ⟨m', _, hp⟩ <;>
    split <;> simp [hn, hp]

/-- An orderly event leaves the window alone or grows it by a neighbour. -/
theorem Windowed.step {w : Window book.bookPartArray.length}
    (hW : Windowed book h sf w) (hL : Loaded book start h sf) {e : ReadEvent}
    (hok : Orderly book sf e) (hc : LoadedCase book sf e sf') :
    ∃ w', Relation.ReflTransGen Window.Grow w w' ∧
      Windowed book (h.record e) sf' w' := by
  cases hc with
  | appended req hreq hb =>
      have hindex := hW.next req hreq hb
      have hbounds := getIndexComicPart_bounds (hL.requests req hreq).2
      have hlo : 0 ≤ w.below := hindex ▸ hbounds.1
      refine ⟨w.extendBelow hlo, .single (.below w hlo), ?_⟩
      rw [ReadHistory.record_next hb]
      refine ⟨?_, hW.zero, ?_, ?_, ?_⟩
      · rw [Window.indices_extendBelow, hW.filled, hindex]
      · intro r hr hrb
        exact absurd (hrb.trans hb.symm)
          (ne_of_mem_erase_of_nodup_map hW.blocks hreq hr)
      · intro r hr hrb
        exact hW.previous r (List.mem_of_mem_erase hr) hrb
      · exact hW.blocks.sublist (List.erase_sublist.map _)
  | prepended req hreq hb =>
      have hindex := hW.previous req hreq hb
      have hbounds := getIndexComicPart_bounds (hL.requests req hreq).2
      have hhi : w.above < book.bookPartArray.length := hindex ▸ hbounds.2
      refine ⟨w.extendAbove hhi, .single (.above w hhi), ?_⟩
      rw [ReadHistory.record_previous hb]
      refine ⟨?_, ?_, ?_, ?_, ?_⟩
      · rw [Window.indices_extendAbove, hW.filled, hindex]
      · simp only [prependedBy, Window.extendAbove, Window.above, hW.zero]
      · intro r hr hrb
        rw [hW.next r (List.mem_of_mem_erase hr) hrb]
        simp only [Window.below, Window.extendAbove, Window.above]
        omega
      · intro r hr hrb
        exact absurd (hrb.trans hb.symm)
          (ne_of_mem_erase_of_nodup_map hW.blocks hreq hr)
      · exact hW.blocks.sublist (List.erase_sublist.map _)
  | failed req hreq hb =>
      refine ⟨w, .refl, hW.filled, hW.zero, ?_, ?_, ?_⟩
      · exact fun r hr => hW.next r (List.mem_of_mem_erase hr)
      · exact fun r hr => hW.previous r (List.mem_of_mem_erase hr)
      · exact hW.blocks.sublist (List.erase_sublist.map _)
  | displayed p hitem =>
      exact ⟨w, .refl, hW.filled, hW.zero, hW.next, hW.previous, hW.blocks⟩
  | ignored q hw =>
      rw [ReadHistory.record_ignored (hL.willShown ▸ hw)]
      exact ⟨w, .refl, hW.filled, hW.zero, hW.next, hW.previous, hW.blocks⟩
  | landed q p arr hw hne harr =>
      rw [ReadHistory.record_landed (hL.willShown ▸ hw) hne]
      have hland := landing_eq_some hw hne harr
      have hprev : started book sf p arr .loadPreviousDate = [] := by
        by_contra hne
        exact hok.2 ((starts_iff hland).mpr hne)
      have hout : (landedOn book sf q p arr).outstanding =
          sf.outstanding ++ started book sf p arr .loadNextDate := by
        simp only [landedOn, hprev, List.append_nil]
      have hnew : ∀ r ∈ started book sf p arr .loadNextDate,
          r.block = .loadNextDate ∧ r.index = w.below := by
        intro r hr
        obtain ⟨_, hb, hi, _⟩ := mem_started.mp hr
        exact ⟨hb, hi.trans (hW.neighbourIndex hL)⟩
      refine ⟨w, .refl, hW.filled, hW.zero, ?_, ?_, ?_⟩
      · intro r hr hrb
        rw [hout] at hr
        rcases List.mem_append.mp hr with hr | hr
        · exact hW.next r hr hrb
        · exact (hnew r hr).2
      · intro r hr hrb
        rw [hout] at hr
        rcases List.mem_append.mp hr with hr | hr
        · exact hW.previous r hr hrb
        · rw [(hnew r hr).1] at hrb
          cases hrb
      · rw [hout, List.map_append]
        rcases started_cases book sf p arr .loadNextDate with
          hnil | ⟨m, _, hsing⟩
        · simpa [hnil] using hW.blocks
        · have hnone := hok.1 ((starts_iff hland).mpr (by simp [hsing]))
          rw [hsing]
          refine List.nodup_append.mpr ⟨hW.blocks, by simp, ?_⟩
          intro b hb b' hb'
          obtain ⟨r, hr, rfl⟩ := List.mem_map.mp hb
          rw [List.map_singleton, List.mem_singleton] at hb'
          exact hb' ▸ hnone r hr

/-- The exact step: from a windowed reader, an event leads to a windowed
reader if and only if it is orderly. -/
theorem Windowed.step_iff {w : Window book.bookPartArray.length}
    (hW : Windowed book h sf w) (hL : Loaded book start h sf) {e : ReadEvent}
    (hc : LoadedCase book sf e sf') :
    Orderly book sf e ↔ ∃ w', Windowed book (h.record e) sf' w' := by
  constructor
  · intro hok
    obtain ⟨w', -, hW'⟩ := hW.step hL hok hc
    exact ⟨w', hW'⟩
  · intro ⟨w', hW'⟩
    cases hc with
    | appended | prepended | failed | displayed => exact ⟨trivial, trivial⟩
    | ignored q hw =>
        have hnone := landing_eq_none hw
        exact ⟨fun hs => absurd hs (not_starts hnone), not_starts hnone⟩
    | landed q p arr hw hne harr =>
        rw [ReadHistory.record_landed (hL.willShown ▸ hw) hne] at hW'
        have hland := landing_eq_some hw hne harr
        have hsize : w'.size = w.size := by
          rw [← Window.length_indices, ← Window.length_indices, ← hW'.filled,
            ← hW.filled]
        have htop : w'.top = w.top := hW'.zero.symm.trans hW.zero
        refine ⟨?_, ?_⟩
        · intro hs req hreq hb
          obtain ⟨m, -, hsing⟩ := (started_cases book sf p arr
            .loadNextDate).resolve_left ((starts_iff hland).mp hs)
          have hnodup := hW'.blocks
          simp only [landedOn, hsing, List.map_append] at hnodup
          have hdisj := (List.nodup_append.mp
            (List.nodup_append.mp hnodup).1).2.2
          exact hdisj _ (List.mem_map_of_mem hreq) _
            (List.mem_singleton.mpr rfl) hb
        · intro hs
          obtain ⟨m, -, hsing⟩ := (started_cases book sf p arr
            .loadPreviousDate).resolve_left ((starts_iff hland).mp hs)
          have hmem : (⟨.loadPreviousDate, sf.neighbourIndex, m⟩ : Request) ∈
              (landedOn book sf q p arr).outstanding :=
            mem_landedOn.mpr (Or.inr (by simp [hsing]))
          have habove := hW'.previous _ hmem rfl
          have hbelow := hW.neighbourIndex hL
          simp only [Window.above, Window.below, htop] at habove hbelow
          omega

/-! ## Runs -/

/-- Along an orderly run the loaded reader refines the window machine started
on the part it was opened at. -/
theorem reader_refines_window {es : List ReadEvent}
    (hr : readRunWhere (Orderly book) book start es = some sf) :
    Opening book start (ReadHistory.after es) sf ∨
      (Loaded book start (ReadHistory.after es) sf ∧
        ∃ hs w, Relation.ReflTransGen Window.Grow (Window.single start hs) w ∧
          Windowed book (ReadHistory.after es) sf w) := by
  refine read_induction
    (E := fun h sf => ∃ hs w,
      Relation.ReflTransGen Window.Grow (Window.single start hs) w ∧
        Windowed book h sf w) ?_ ?_ hr
  · intro h sf model _ hm hout _
    exact ⟨getIndexComicPart_bounds hm, _, .refl, windowed_openedBy hm hout⟩
  · intro h sf e sf' hL ⟨hs, w, hgrow, hW⟩ hok hc
    obtain ⟨w', hgrow', hW'⟩ := hW.step hL hok hc
    exact ⟨hs, w', hgrow.trans hgrow', hW'⟩

theorem Opening.orderly (hO : Opening book start h sf) {e : ReadEvent} :
    Orderly book sf e := by
  cases e with
  | answer req success => exact ⟨trivial, trivial⟩
  | willDisplay p => exact ⟨trivial, trivial⟩
  | didEndDisplaying q =>
      have hnone : sf.landing q = none := by
        rw [landing, hO.willShow]
      exact ⟨fun hs => absurd hs (not_starts hnone), not_starts hnone⟩

/-- The refinement is exact: the loaded reader is a window in every state of a
run if and only if every step of the run is orderly. -/
theorem windowed_iff_orderly {es : List ReadEvent}
    (hr : readRun book start es = some sf) :
    (∀ pre u, pre <+: es → readRun book start pre = some u →
        u.currentImageArrV.value ≠ [] →
          ∃ w, Windowed book (ReadHistory.after pre) u w) ↔
      readRunWhere (Orderly book) book start es = some sf := by
  refine run_restrict_iff_forall (Orderly book)
    (fun pre u => u.currentImageArrV.value ≠ [] →
      ∃ w, Windowed book (ReadHistory.after pre) u w) hr ?_ ?_
  · intro pre u _ hu hne
    rcases reader_refines_window hu with hO | ⟨-, -, w, -, hW⟩
    · exact absurd hO.sections hne
    · exact ⟨w, hW⟩
  · intro pre u e v _ hu hs hwindow hwindow'
    rcases loaded_or_opening hu with hO | hL
    · exact hO.orderly
    · have hc := hL.cases (readCase_of_readStep hs)
      obtain ⟨w, hW⟩ := hwindow hL.sections_ne
      refine (hW.step_iff hL hc).mpr ?_
      rw [← ReadHistory.after_snoc]
      exact hwindow' (hL.step hc).sections_ne

/-- Section `s` is part `zeroSectionIndex - s` of the book, for every `s`. -/
def SectionsLabelled (book : ComickBookInfo) (h : ReadHistory)
    (sf : ComicReadContentV) : Prop :=
  ∀ s < sf.currentImageArrV.value.length,
    (0 ≤ sf.zeroSectionIndex - s ∧
      sf.zeroSectionIndex - s < book.bookPartArray.length) ∧
    sf.currentImageArrV.value[s]? =
      some (pages book (sf.zeroSectionIndex - s)) ∧
    h.filled[s]? = some (sf.zeroSectionIndex - s)

/-- Whatever is inserted in front next is the part just before the first
loaded one, and whatever is appended next is the part just after the last. -/
def LoadsAimed (sf : ComicReadContentV) : Prop :=
  ∀ req ∈ sf.outstanding,
    (req.block = .loadPreviousDate → req.index = sf.zeroSectionIndex + 1) ∧
    (req.block = .loadNextDate →
      req.index = sf.zeroSectionIndex - sf.currentImageArrV.value.length)

/-- No two loads in flight are for one part, none is for a loaded part, and
no part fills two sections. -/
def RequestsDistinct (h : ReadHistory) (sf : ComicReadContentV) : Prop :=
  (sf.outstanding.map Request.index).Nodup ∧
    (∀ req ∈ sf.outstanding, req.index ∉ h.filled) ∧ h.filled.Nodup

instance : Decidable (SectionsLabelled book h sf) :=
  inferInstanceAs (Decidable (∀ s < _, _))

instance : Decidable (LoadsAimed sf) :=
  inferInstanceAs (Decidable (∀ req ∈ sf.outstanding, _))

instance : Decidable (RequestsDistinct h sf) :=
  inferInstanceAs (Decidable (_ ∧ (∀ req ∈ sf.outstanding, _) ∧ _))

theorem Windowed.labelled {w : Window book.bookPartArray.length}
    (hW : Windowed book h sf w) (hL : Loaded book start h sf) :
    SectionsLabelled book h sf := by
  intro s hs
  have hs' : s < w.indices.length := by
    rw [Window.length_indices, ← hW.length hL]
    exact hs
  have hfilled : h.filled[s]? = some (sf.zeroSectionIndex - s) := by
    rw [hW.filled, List.getElem?_eq_getElem hs', Window.getElem_indices,
      hW.zero]
  refine ⟨hL.parts _ (List.mem_of_getElem? hfilled), ?_, hfilled⟩
  rw [hL.sections, List.getElem?_map, hfilled]
  rfl

theorem Windowed.aimed {w : Window book.bookPartArray.length}
    (hW : Windowed book h sf w) (hL : Loaded book start h sf) :
    LoadsAimed sf := by
  intro req hreq
  refine ⟨fun hb => ?_, fun hb => ?_⟩
  · rw [hW.previous req hreq hb, hW.zero, Window.above]
  · rw [hW.next req hreq hb, hW.zero, hW.length hL, Window.below]

theorem Windowed.distinct {w : Window book.bookPartArray.length}
    (hW : Windowed book h sf w) (hL : Loaded book start h sf) :
    RequestsDistinct h sf := by
  have hindex : ∀ req ∈ sf.outstanding,
      (req.block = .loadNextDate ∧ req.index = w.below) ∨
      (req.block = .loadPreviousDate ∧ req.index = w.above) := by
    intro req hreq
    cases hb : req.block with
    | setUp => exact absurd hb (hL.requests req hreq).1
    | loadNextDate => exact Or.inl ⟨rfl, hW.next req hreq hb⟩
    | loadPreviousDate => exact Or.inr ⟨rfl, hW.previous req hreq hb⟩
  have hsize := w.size_pos
  refine ⟨?_, ?_, ?_⟩
  · have hpair := List.pairwise_map.mp hW.blocks
    refine List.pairwise_map.mpr (hpair.imp_of_mem ?_)
    intro a b ha hb hne heq
    rcases hindex a ha with ⟨ha', hai⟩ | ⟨ha', hai⟩ <;>
      rcases hindex b hb with ⟨hb', hbi⟩ | ⟨hb', hbi⟩
    · exact hne (ha'.trans hb'.symm)
    · simp only [hai, hbi, Window.below, Window.above] at heq
      omega
    · simp only [hai, hbi, Window.below, Window.above] at heq
      omega
    · exact hne (ha'.trans hb'.symm)
  · intro req hreq hmem
    rw [hW.filled, Window.mem_indices] at hmem
    rcases hindex req hreq with ⟨-, hi⟩ | ⟨-, hi⟩ <;> omega
  · rw [hW.filled]
    exact w.nodup_indices

theorem Opening.labelled (hO : Opening book start h sf) :
    SectionsLabelled book h sf ∧ LoadsAimed sf := by
  refine ⟨?_, ?_⟩
  · intro s hs
    simp [hO.sections] at hs
  · intro req hreq
    obtain ⟨model, -, -, rfl⟩ := hO.mem_outstanding hreq
    simp

theorem Opening.distinct (hO : Opening book start h sf) :
    RequestsDistinct h sf := by
  rcases hO.outstanding with hnil | ⟨model, _, hout⟩
  · simp [RequestsDistinct, hO.history, hnil, ReadHistory.start]
  · simp [RequestsDistinct, hO.history, hout, ReadHistory.start]

/-- In every state an orderly run reaches, the sections are labelled right
and every load in flight is for the neighbour it will be put next to. -/
theorem sections_labelled {es : List ReadEvent}
    (hr : readRunWhere (Orderly book) book start es = some sf) :
    SectionsLabelled book (ReadHistory.after es) sf ∧ LoadsAimed sf := by
  rcases reader_refines_window hr with hO | ⟨hL, -, w, -, hW⟩
  · exact hO.labelled
  · exact ⟨hW.labelled hL, hW.aimed hL⟩

/-- Three parts of two pages, newest first. -/
def newest : ComickPartInfo := ⟨"3", ["3-1", "3-2"]⟩
def middle : ComickPartInfo := ⟨"2", ["2-1", "2-2"]⟩
def oldest : ComickPartInfo := ⟨"1", ["1-1", "1-2"]⟩

def threeParts : ComickBookInfo where
  bookAuthor := "author"
  bookName := "name"
  bookDes := "description"
  bookCoverImageURLStr := "cover"
  bookPartArray := [newest, middle, oldest]
  sourceType := .DMZJ

/-- Opened at the middle part, read to its last page and into the next. -/
def readOn : List ReadEvent :=
  [.answer ⟨.setUp, 1, middle⟩ true,
    .answer ⟨.loadPreviousDate, 2, oldest⟩ true,
    .willDisplay ⟨1, 1⟩, .didEndDisplaying ⟨1, 0⟩,
    .answer ⟨.loadNextDate, 0, newest⟩ true]

theorem sections_labelled_readOn :
    ∃ sf, readRunWhere (Orderly threeParts) threeParts 1 readOn = some sf ∧
      SectionsLabelled threeParts (ReadHistory.after readOn) sf ∧
      LoadsAimed sf := by
  obtain ⟨sf, hr⟩ : ∃ sf,
      readRunWhere (Orderly threeParts) threeParts 1 readOn = some sf :=
    Option.isSome_iff_exists.mp (by decide)
  exact ⟨sf, hr, sections_labelled hr⟩

/-- The user goes back to the first page of the two loaded parts; the part
that is inserted in front is the newest one. -/
def scrolledBack : List ReadEvent :=
  [.answer ⟨.setUp, 1, middle⟩ true,
    .answer ⟨.loadPreviousDate, 2, oldest⟩ true,
    .willDisplay ⟨0, 0⟩, .didEndDisplaying ⟨0, 1⟩,
    .answer ⟨.loadPreviousDate, 0, newest⟩ true]

theorem sections_mislabelled_scrolledBack :
    ∃ sf, readRun threeParts 1 scrolledBack = some sf ∧
      sf.zeroSectionIndex = 3 ∧
      sf.currentImageArrV.value[0]? = some newest.partImageUrlStrArr ∧
      ¬ SectionsLabelled threeParts (ReadHistory.after scrolledBack) sf :=
  ⟨_, rfl, rfl, rfl, by decide⟩

/-- In every state an orderly run reaches, the loads in flight are for
different parts, none of them loaded, and no part is loaded twice. -/
theorem requests_distinct {es : List ReadEvent}
    (hr : readRunWhere (Orderly book) book start es = some sf) :
    RequestsDistinct (ReadHistory.after es) sf := by
  rcases reader_refines_window hr with hO | ⟨hL, -, w, -, hW⟩
  · exact hO.distinct
  · exact hW.distinct hL

theorem requests_distinct_readOn :
    ∃ sf, readRunWhere (Orderly threeParts) threeParts 1 readOn = some sf ∧
      RequestsDistinct (ReadHistory.after readOn) sf := by
  obtain ⟨sf, hr⟩ : ∃ sf,
      readRunWhere (Orderly threeParts) threeParts 1 readOn = some sf :=
    Option.isSome_iff_exists.mp (by decide)
  exact ⟨sf, hr, requests_distinct hr⟩

/-- The previous load set-up started answers while the next load is out, and
its `.reading` clears the mark of the next load. -/
def markCleared : List ReadEvent :=
  [.answer ⟨.setUp, 1, middle⟩ true,
    .willDisplay ⟨0, 1⟩, .didEndDisplaying ⟨0, 0⟩,
    .answer ⟨.loadPreviousDate, 2, oldest⟩ true,
    .willDisplay ⟨1, 0⟩, .didEndDisplaying ⟨1, 1⟩,
    .willDisplay ⟨1, 1⟩, .didEndDisplaying ⟨1, 0⟩]

theorem requests_repeated_markCleared :
    ∃ sf, readRun threeParts 1 markCleared = some sf ∧
      sf.outstanding.map Request.index = [0, 0] ∧
      ¬ RequestsDistinct (ReadHistory.after markCleared) sf :=
  ⟨_, rfl, rfl, by decide⟩

end ComicReadContentV

end ComicReader
