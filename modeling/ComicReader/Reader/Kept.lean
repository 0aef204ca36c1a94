import ComicReader.Lib.Ends
import ComicReader.Reader.Orderly

/-!
# Loaded chapters stay

Three blocks write the sections: set-up replaces them all, a next answer
appends one, a previous answer inserts one in front and moves
`zeroSectionIndex` along with it. Set-up writes once, because its request is
started once, by the constructor, and nothing after it starts another; from
then on the old sections lie between what has arrived in front of them and
what has arrived behind them, and the count of the first is what
`zeroSectionIndex` has moved by.

Nothing is assumed of the parts the answers bring. A section keeps its pages
and its label even when the label is the wrong one.
-/

namespace ComicReader

open Lib

namespace ComicReadContentV

variable {book : ComickBookInfo} {start : Int} {sf sf' A B : ComicReadContentV}

/-- The set-up request is not outstanding: it has been answered, or there was
no part to start it for. -/
def SetUpAnswered (sf : ComicReadContentV) : Prop :=
  ∀ req ∈ sf.outstanding, req.block ≠ .setUp

instance : Decidable (SetUpAnswered sf) :=
  inferInstanceAs (Decidable (∀ req ∈ sf.outstanding, _))

theorem SetUpAnswered.cases (h : SetUpAnswered sf) {e : ReadEvent}
    (hc : ReadCase book sf e sf') : LoadedCase book sf e sf' := by
  cases hc with
  | opened req hreq hb => exact absurd hb (h req hreq)
  | notOpened req hreq hb => exact absurd hb (h req hreq)
  | loaded hc => exact hc

/-- No event starts a set-up request. -/
theorem SetUpAnswered.step (h : SetUpAnswered sf) {e : ReadEvent}
    (hc : LoadedCase book sf e sf') : SetUpAnswered sf' := by
  cases hc with
  | appended | prepended | failed =>
      exact fun req hreq => h req (List.mem_of_mem_erase hreq)
  | displayed | ignored => exact h
  | landed q p arr hw hne harr =>
      intro req hreq
      rcases mem_landedOn.mp hreq with hreq | hreq
      · exact h req hreq
      · exact (mem_started.mp hreq).1.ne_setUp

/-- The page array a successful answer of a request of `block` brings. -/
def arrival (block : Block) : ReadEvent → Option (List String)
  | .answer req true =>
      if req.block = block then some req.model.partImageUrlStrArr else none
  | _ => none

/-- The page arrays that arrive for `block` during `es`, in order. -/
def arrivals (block : Block) (es : List ReadEvent) : List (List String) :=
  es.filterMap (arrival block)

theorem arrivals_snoc {block : Block} {es : List ReadEvent} {e : ReadEvent} :
    arrivals block (es ++ [e]) =
      arrivals block es ++ (arrival block e).toList := by
  rw [arrivals, List.filterMap_append, List.filterMap_cons]
  cases arrival block e <;> rfl

/-- What the events of `es` leave of a reader `A`: its sections in one piece,
between the arrivals in front and the arrivals behind. -/
structure Kept (A : ComicReadContentV) (es : List ReadEvent)
    (B : ComicReadContentV) : Prop where
  zero : B.zeroSectionIndex =
    A.zeroSectionIndex + (arrivals .loadPreviousDate es).length
  sections : B.currentImageArrV.value =
    (arrivals .loadPreviousDate es).reverse ++ A.currentImageArrV.value ++
      arrivals .loadNextDate es

theorem Kept.refl : Kept A [] A where
  zero := by simp [arrivals]
  sections := by simp [arrivals]

/-- Every event but the set-up answer leaves the sections alone, or puts its
arrival at the end of its own. -/
theorem Kept.step {es : List ReadEvent} (h : Kept A es sf) {e : ReadEvent}
    (hc : LoadedCase book sf e sf') : Kept A (es ++ [e]) sf' := by
  have hzero := h.zero
  cases hc with
  | appended req hreq hb =>
      refine ⟨?_, ?_⟩
      · rw [arrivals_snoc]
        simpa [appendedBy, arrival, hb] using hzero
      · rw [arrivals_snoc, arrivals_snoc]
        simp [appendedBy, arrival, hb, h.sections]
  | prepended req hreq hb =>
      refine ⟨?_, ?_⟩
      · rw [arrivals_snoc]
        simp only [prependedBy, arrival, hb, if_true, Option.toList_some,
          List.length_append, List.length_singleton]
        omega
      · rw [arrivals_snoc, arrivals_snoc]
        simp [prependedBy, arrival, hb, h.sections]
  | failed | displayed | ignored | landed =>
      refine ⟨?_, ?_⟩
      · rw [arrivals_snoc]
        simpa [arrival, willDisplay, landedOn] using hzero
      · rw [arrivals_snoc, arrivals_snoc]
        simpa [arrival, willDisplay, landedOn] using h.sections

theorem kept_of_run (hA : SetUpAnswered A) {es : List ReadEvent}
    (hr : run (readStep book) A es = some B) : Kept A es B := by
  have hI : SetUpAnswered B ∧ Kept A es B := by
    refine run_induction (P := fun es sf => SetUpAnswered sf ∧ Kept A es sf)
      ⟨hA, .refl⟩ ?_ hr
    intro es sf e sf' _ ⟨hset, hkept⟩ hs
    have hc := hset.cases (readCase_of_readStep hs)
    exact ⟨hset.step hc, hkept.step hc⟩
  exact hI.2

/-- What is said here of two states `A` and `B` of a run, with
the events of `es` between them, when `zeroSectionIndex` has moved by `k`. -/
structure SectionsKept (A : ComicReadContentV) (es : List ReadEvent)
    (B : ComicReadContentV) (k : Nat) : Prop where
  moved : B.zeroSectionIndex - A.zeroSectionIndex = k
  /-- Every section is still there, `k` places on, with its pages and its
  label. -/
  kept : ∀ s < A.currentImageArrV.value.length,
    s + k < B.currentImageArrV.value.length ∧
    B.currentImageArrV.value[s + k]? = A.currentImageArrV.value[s]? ∧
    B.zeroSectionIndex - (s + k : Nat) = A.zeroSectionIndex - s
  /-- The sections in front of them are the previous answers, the latest
  first. -/
  front : B.currentImageArrV.value.take k =
    (arrivals .loadPreviousDate es).reverse
  /-- The sections behind them are the next answers. -/
  back : B.currentImageArrV.value.drop (k + A.currentImageArrV.value.length) =
    arrivals .loadNextDate es
  /-- An index path that had a section still has one. -/
  path : ∀ p : IndexPath, p.section < A.currentImageArrV.value.length →
    p.section < B.currentImageArrV.value.length

theorem Kept.sectionsKept {es : List ReadEvent} (h : Kept A es B) :
    SectionsKept A es B (arrivals .loadPreviousDate es).length := by
  have hzero := h.zero
  have hlength : B.currentImageArrV.value.length =
      (arrivals .loadPreviousDate es).length +
        (A.currentImageArrV.value.length +
          (arrivals .loadNextDate es).length) := by
    simp [h.sections]
  refine ⟨by omega, ?_, ?_, ?_, ?_⟩
  · intro s hs
    refine ⟨by omega, ?_, by omega⟩
    rw [h.sections]
    exact getElem?_between hs
  · rw [h.sections]
    exact take_between
  · rw [h.sections]
    exact drop_between
  · intro p hp
    omega

/-- Between any two states of a run after the set-up answer nothing that was
loaded is lost, altered or relabelled, and the page remembered still has its
section when a page leaves the screen. -/
theorem sections_kept {pre es : List ReadEvent}
    (hA : readRun book start pre = some A)
    (hB : readRun book start (pre ++ es) = some B) (hset : SetUpAnswered A) :
    (∃ k, SectionsKept A es B k) ∧
      ∀ q, (B.didEndDisplaying book q).isSome := by
  obtain ⟨A', hA', hes⟩ := run_append_some.mp hB
  obtain rfl : A' = A := Option.some.inj (hA'.symm.trans hA)
  exact ⟨⟨_, (kept_of_run hset hes).sectionsKept⟩,
    didEndDisplaying_isSome hB⟩

theorem sections_kept_readOn :
    ∃ A B, readRun threeParts 1 (readOn.take 1) = some A ∧
      readRun threeParts 1 (readOn.take 1 ++ readOn.drop 1) = some B ∧
      (∃ k, SectionsKept A (readOn.drop 1) B k) ∧
      ∀ q, (B.didEndDisplaying threeParts q).isSome := by
  obtain ⟨B, hB⟩ : ∃ B,
      readRun threeParts 1 (readOn.take 1 ++ readOn.drop 1) = some B :=
    Option.isSome_iff_exists.mp (by decide)
  exact ⟨_, B, rfl, hB, sections_kept rfl hB (by decide)⟩

end ComicReadContentV

end ComicReader
