import ComicReader.Reader.Orderly
import ComicReader.Source.ReadVC

/-!
# What the status bar says

The bar shows a page number with a total, and the title of the part being
read. The three come from two variables that a transition writes from one
remembered page: its row, the length of the section it lies in now, and that
section's label. As long as the sections are labelled right the total and the
title belong together, whichever part has moved under the remembered page in
the meantime; what can go wrong is the row, which was a row of the section
that lay there before.

So along an orderly run the labels are coherent in every state if and only if
no event writes the number of a page that its section does not have.
-/

namespace ComicReader

open Lib

namespace ComicReadContentV

variable {book : ComickBookInfo} {start : Int} {h : ReadHistory}
  {sf sf' : ComicReadContentV}

/-- The title's part has as many pages as the total says, and the page number
is one of them. -/
def LabelsCoherent (book : ComickBookInfo) (sf : ComicReadContentV) : Prop :=
  ∃ part ∈ subscript book.bookPartArray sf.currentReadIndex.value,
    part.partImageUrlStrArr.length = sf.currentShowIndex.value.2 ∧
    1 ≤ sf.currentShowIndex.value.1 ∧
    sf.currentShowIndex.value.1 ≤ sf.currentShowIndex.value.2

/-- The page number the event writes is the number of a page: set-up answers
with pages, and the row of a handled transition exists in its section. -/
def ShowsPage (sf : ComicReadContentV) : ReadEvent → Prop
  | .answer req success => req.block = .setUp → success = true →
      req.model.partImageUrlStrArr ≠ []
  | .willDisplay _ => True
  | .didEndDisplaying q => ∀ l ∈ sf.landing q, l.1.row < l.2.length

instance : Decidable (LabelsCoherent book sf) :=
  inferInstanceAs (Decidable (∃ part ∈ _, _))

instance : {e : ReadEvent} → Decidable (ShowsPage sf e)
  | .answer _ _ => inferInstanceAs (Decidable (_ → _ → _))
  | .willDisplay _ => inferInstanceAs (Decidable True)
  | .didEndDisplaying _ => inferInstanceAs (Decidable (∀ l ∈ _, _))

/-- What the bar shows while the labels are coherent: the title of a part,
and a page of that part. -/
theorem LabelsCoherent.bar (hcoh : LabelsCoherent book sf) :
    ∃ (part : ComickPartInfo) (c : Nat),
      1 ≤ c ∧ c ≤ part.partImageUrlStrArr.length ∧
      ComicReadVC.partTitleText book sf.currentReadIndex.value =
        some part.partTitle ∧
      ComicReadVC.readStateText sf.currentShowIndex.value =
        ComicReadVC.readStateText (c, part.partImageUrlStrArr.length) := by
  obtain ⟨part, hpart, htotal, hlo, hhi⟩ := hcoh
  refine ⟨part, sf.currentShowIndex.value.1, hlo, by omega, ?_, ?_⟩
  · rw [ComicReadVC.partTitleText, Option.mem_def.mp hpart, Option.map_some]
  · rw [htotal]

theorem currentReadIndex_landedOn {q p : IndexPath} {arr : List String} :
    (landedOn book sf q p arr).currentReadIndex.value =
      sf.zeroSectionIndex - p.section := by
  simp only [landedOn]
  split
  · rfl
  · next h => exact (not_not.mp h).symm

theorem labelsCoherent_openedBy_iff {req : Request}
    (hm : getIndexComicPart book req.index = some req.model) :
    LabelsCoherent book (openedBy book sf req) ↔
      req.model.partImageUrlStrArr ≠ [] := by
  rw [getIndexComicPart_eq] at hm
  rw [← List.length_pos_iff_ne_nil]
  simp only [LabelsCoherent, openedBy, Variable.value_set, hm, Option.mem_def,
    Option.some.injEq, exists_eq_left', Nat.le_refl, true_and]
  omega

/-- A transition to a section whose label is right leaves the labels coherent
if and only if the section has the row. -/
theorem labelsCoherent_landedOn_iff (hS : SectionsLabelled book h sf)
    {q p : IndexPath} {arr : List String}
    (harr : sf.currentImageArrV.value[p.section]? = some arr) :
    LabelsCoherent book (landedOn book sf q p arr) ↔ p.row < arr.length := by
  obtain ⟨hbounds, hpages, -⟩ :=
    hS p.section (List.getElem?_eq_some_iff.mp harr).1
  obtain ⟨part, hpart⟩ := getIndexComicPart_of_mem hbounds
  rw [harr, pages_of_part hpart, Option.some.injEq] at hpages
  subst hpages
  rw [getIndexComicPart_eq] at hpart
  have hshow :
      (landedOn book sf q p part.partImageUrlStrArr).currentShowIndex.value =
        (p.row + 1, part.partImageUrlStrArr.length) := rfl
  simp only [LabelsCoherent, currentReadIndex_landedOn, hshow, hpart,
    Option.mem_def, Option.some.injEq, exists_eq_left', true_and]
  omega

/-- Every event keeps coherent labels coherent, if it shows a page. -/
theorem LabelsCoherent.step (hcoh : LabelsCoherent book sf)
    (hS : SectionsLabelled book h sf) {e : ReadEvent} (hok : ShowsPage sf e)
    (hc : LoadedCase book sf e sf') : LabelsCoherent book sf' := by
  cases hc with
  | appended | prepended | failed | displayed | ignored => exact hcoh
  | landed q p arr hw hne harr =>
      exact (labelsCoherent_landedOn_iff hS harr).mpr
        (hok (p, arr) (landing_eq_some hw hne harr))

/-- An event that leads to coherent labels has shown a page. -/
theorem showsPage_of_coherent (hS : SectionsLabelled book h sf)
    (hparts : ∀ req ∈ sf.outstanding,
      getIndexComicPart book req.index = some req.model) {e : ReadEvent}
    (hc : ReadCase book sf e sf')
    (hcoh : sf'.currentImageArrV.value ≠ [] → LabelsCoherent book sf') :
    ShowsPage sf e := by
  cases hc with
  | opened req hreq _ =>
      intro _ _
      exact (labelsCoherent_openedBy_iff (hparts req hreq)).mp
        (hcoh (List.cons_ne_nil _ _))
  | notOpened req hreq _ =>
      intro _ hfalse
      cases hfalse
  | loaded hc =>
      cases hc with
      | appended req hreq hb | prepended req hreq hb =>
          intro hset
          rw [hb] at hset
          cases hset
      | failed req hreq hb => exact fun hset => absurd hset hb
      | displayed p hitem => trivial
      | ignored q hw =>
          intro l hl
          rw [landing_eq_none hw] at hl
          cases hl
      | landed q p arr hw hne harr =>
          intro l hl
          obtain rfl : (p, arr) = l :=
            Option.some.inj ((landing_eq_some hw hne harr).symm.trans hl)
          refine (labelsCoherent_landedOn_iff hS harr).mp (hcoh ?_)
          exact List.ne_nil_of_mem (List.mem_of_getElem? harr)

/-! ## Runs -/

/-- The last state of an orderly run that shows pages, once it is loaded. -/
theorem labelsCoherent_of_run {es : List ReadEvent}
    (hr : readRunWhere (fun sf e => Orderly book sf e ∧ ShowsPage sf e)
      book start es = some sf) (hne : sf.currentImageArrV.value ≠ []) :
    LabelsCoherent book sf := by
  have hI := read_induction
    (E := fun h sf => (∃ w, Windowed book h sf w) ∧ LabelsCoherent book sf)
    (fun h sf model _ hm hout hok =>
      ⟨⟨_, windowed_openedBy hm hout⟩,
        (labelsCoherent_openedBy_iff hm).mpr (hok.2 rfl rfl)⟩)
    (fun h sf e sf' hL hI hok hc => by
      obtain ⟨⟨w, hW⟩, hcoh⟩ := hI
      obtain ⟨w', -, hW'⟩ := hW.step hL hok.1 hc
      exact ⟨⟨w', hW'⟩, hcoh.step (hW.labelled hL) hok.2 hc⟩) hr
  rcases hI with hO | ⟨-, -, hcoh⟩
  · exact absurd hO.sections hne
  · exact hcoh

/-- Along an orderly run, the labels are coherent in every state after the
set-up answer if and only if every event shows a page. -/
theorem labels_coherent_iff {es : List ReadEvent}
    (hr : readRunWhere (Orderly book) book start es = some sf) :
    (∀ pre u, pre <+: es → readRun book start pre = some u →
        u.currentImageArrV.value ≠ [] → LabelsCoherent book u) ↔
      readRunWhere ShowsPage book start es = some sf := by
  refine run_restrict_iff_forall ShowsPage
    (fun _ u => u.currentImageArrV.value ≠ [] → LabelsCoherent book u)
    (run_of_restrict hr) ?_ ?_
  · intro pre u hpre hu
    have hu' := run_restrict_pre hr hpre (run_of_restrict hu)
    exact labelsCoherent_of_run (run_restrict_and hu' hu)
  · intro pre u e v hpre hu hs _ hcoh
    have hc := readCase_of_readStep hs
    have hu' := run_restrict_pre hr
      ((List.prefix_append pre [e]).trans hpre) hu
    rcases reader_refines_window hu' with hO | ⟨hL, -, w, -, hW⟩
    · refine showsPage_of_coherent hO.labelled.1 ?_ hc hcoh
      intro req hreq
      obtain ⟨model, hm, -, rfl⟩ := hO.mem_outstanding hreq
      exact hm
    · exact showsPage_of_coherent (hW.labelled hL)
        (fun req hreq => (hL.requests req hreq).2) hc hcoh

theorem labels_coherent_iff_readOn :
    ∃ sf, readRunWhere (Orderly threeParts) threeParts 1 readOn = some sf ∧
      ((∀ pre u, pre <+: readOn → readRun threeParts 1 pre = some u →
          u.currentImageArrV.value ≠ [] → LabelsCoherent threeParts u) ↔
        readRunWhere ShowsPage threeParts 1 readOn = some sf) := by
  obtain ⟨sf, hr⟩ : ∃ sf,
      readRunWhere (Orderly threeParts) threeParts 1 readOn = some sf :=
    Option.isSome_iff_exists.mp (by decide)
  exact ⟨sf, hr, labels_coherent_iff hr⟩

/-- A part of three pages, and the one before it with a single page. -/
def longAndShort : ComickBookInfo :=
  { threeParts with bookPartArray := [⟨"2", ["a", "b", "c"]⟩, ⟨"1", ["d"]⟩] }

/-- The third page comes on screen just before the part in front arrives. -/
def movedUnder : List ReadEvent :=
  [.answer ⟨.setUp, 0, ⟨"2", ["a", "b", "c"]⟩⟩ true,
    .willDisplay ⟨0, 2⟩,
    .answer ⟨.loadPreviousDate, 1, ⟨"1", ["d"]⟩⟩ true,
    .didEndDisplaying ⟨0, 1⟩]

theorem labels_incoherent_movedUnder :
    ∃ sf, readRunWhere (Orderly longAndShort) longAndShort 0 movedUnder =
        some sf ∧
      ComicReadVC.readStateText sf.currentShowIndex.value = "3/1" ∧
      ¬ LabelsCoherent longAndShort sf :=
  ⟨_, rfl, by decide, by decide⟩

end ComicReadContentV

end ComicReader
