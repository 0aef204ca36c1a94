import ComicReader.Lib.Sections
import ComicReader.Reader.Kept

/-!
# Failed loads, and asking again

A load that fails should leave the reader as it was, in `.error`, and be asked
for again when the user next comes to the edge it was for. Three blocks take a
`nil`. All three leave what is loaded and what is shown alone; the set-up
block only logs and stays in `.setUp`, the other two go to `.error`.

`.error` opens the guards of both branches of a transition. What a later
transition needs besides is that its branch sees the edge, and it sees the
edge of the last or first section, not that of the last or first page: where
that section is empty nothing is ever taken (`Ready`). What the branch then
asks for is `neighbourIndex`, which has moved down with every next answer of
the run, so it is the failed load again exactly if that is where it points.
-/

namespace ComicReader

open Lib

def State.marks : Block → State → Bool
  | .setUp => fun _ => false
  | .loadNextDate => State.isLoadNextDate
  | .loadPreviousDate => State.isLoadPreviousDate

@[simp] theorem State.marks_error (block : Block) :
    State.error.marks block = false := by
  cases block <;> rfl

@[simp] theorem State.marks_reading (block : Block) :
    State.reading.marks block = false := by
  cases block <;> rfl

/-- The page at the edge of the loaded pages that loads of `block` extend. -/
def EdgePage (block : Block) (S : List (List String)) (p : IndexPath) : Prop :=
  match block with
  | .setUp => False
  | .loadNextDate => IsLastPage S p.section p.row
  | .loadPreviousDate => IsFirstPage S p.section p.row

/-- The section at that edge. -/
def edgeSection (block : Block) (S : List (List String)) :
    Option (List String) :=
  match block with
  | .setUp => none
  | .loadNextDate => S.getLast?
  | .loadPreviousDate => S.head?

def EdgeHasPages (block : Block) (S : List (List String)) : Prop :=
  ∃ arr ∈ edgeSection block S, arr ≠ []

instance {S : List (List String)} {p : IndexPath} :
    {block : Block} → Decidable (EdgePage block S p)
  | .setUp => inferInstanceAs (Decidable False)
  | .loadNextDate => inferInstanceAs (Decidable (IsLastPage S _ _))
  | .loadPreviousDate => inferInstanceAs (Decidable (IsFirstPage S _ _))

instance {block : Block} {S : List (List String)} :
    Decidable (EdgeHasPages block S) :=
  inferInstanceAs (Decidable (∃ arr ∈ _, _))

namespace ComicReadContentV

variable {book : ComickBookInfo} {start : Int} {h : ReadHistory}
  {sf sf' A B : ComicReadContentV} {block : Block}

/-- The test of the branch that loads with `block`, without its guard. -/
def AtEdge (sf : ComicReadContentV) (block : Block) (p : IndexPath)
    (arr : List String) : Prop :=
  match block with
  | .setUp => False
  | .loadNextDate => atLastPage sf p arr
  | .loadPreviousDate => p.section = 0 ∧ p.row = 0

theorem Taken.atEdge {p : IndexPath} {arr : List String}
    (h : Taken sf p arr block) : AtEdge sf block p arr := by
  cases block with
  | setUp => exact h
  | loadNextDate => exact h.1
  | loadPreviousDate => exact h.1

theorem AtEdge.taken {p : IndexPath} {arr : List String}
    (h : AtEdge sf block p arr) (hmark : sf.state.value.marks block = false) :
    Taken sf p arr block := by
  cases block with
  | setUp => exact h
  | loadNextDate => exact ⟨h, hmark⟩
  | loadPreviousDate => exact ⟨h, Or.inr hmark⟩

/-! The test looks for the section at the edge, a reader for the page. The two
agree as long as that section has pages. -/

theorem AtEdge.edgePage {p : IndexPath} {arr : List String}
    (h : AtEdge sf block p arr)
    (harr : sf.currentImageArrV.value[p.section]? = some arr)
    (hpages : EdgeHasPages block sf.currentImageArrV.value) :
    EdgePage block sf.currentImageArrV.value p := by
  cases block with
  | setUp => exact h
  | loadNextDate =>
      refine ⟨⟨arr, harr, h.2⟩, ?_⟩
      rw [List.drop_eq_nil_of_le (Nat.le_of_eq h.1.symm)]
      simp
  | loadPreviousDate =>
      obtain ⟨hsec, hrow⟩ := h
      obtain ⟨first, hfirst, hne⟩ := hpages
      refine ⟨hrow, ⟨first, ?_, hne⟩, ?_⟩
      · rw [hsec, ← List.head?_eq_getElem?]
        exact hfirst
      · rw [hsec]
        simp

theorem AtEdge.edgeHasPages {p : IndexPath} {arr : List String}
    (h : AtEdge sf block p arr)
    (hedge : EdgePage block sf.currentImageArrV.value p) :
    EdgeHasPages block sf.currentImageArrV.value := by
  cases block with
  | setUp => exact h.elim
  | loadNextDate =>
      obtain ⟨⟨arr', harr', hrow⟩, -⟩ := hedge
      refine ⟨arr', ?_, List.ne_nil_of_length_pos (by omega)⟩
      rw [edgeSection, List.getLast?_eq_getElem?, ← h.1, Nat.add_sub_cancel]
      exact harr'
  | loadPreviousDate =>
      obtain ⟨-, ⟨arr', harr', hne⟩, -⟩ := hedge
      refine ⟨arr', ?_, hne⟩
      rw [edgeSection, List.head?_eq_getElem?, ← h.1]
      exact harr'

theorem atEdge_of_edgePage {p : IndexPath} {arr : List String}
    (harr : sf.currentImageArrV.value[p.section]? = some arr)
    (hedge : EdgePage block sf.currentImageArrV.value p)
    (hpages : EdgeHasPages block sf.currentImageArrV.value) :
    AtEdge sf block p arr := by
  cases block with
  | setUp => exact hedge
  | loadNextDate =>
      obtain ⟨last, hlast, hne⟩ := hpages
      obtain ⟨front, hfront⟩ := List.getLast?_eq_some_iff.mp hlast
      have hedge' : IsLastPage sf.currentImageArrV.value p.section p.row :=
        hedge
      rw [hfront] at hedge' harr
      obtain ⟨hsec, hrow⟩ := hedge'.of_ne_nil hne
      rw [hsec, List.getElem?_append_right (Nat.le_refl _), Nat.sub_self,
        List.getElem?_cons_zero, Option.some.injEq] at harr
      refine ⟨?_, harr ▸ hrow⟩
      rw [hfront, List.length_append, List.length_singleton, hsec]
  | loadPreviousDate =>
      obtain ⟨first, hfirst, hne⟩ := hpages
      obtain ⟨rest, hrest⟩ := List.head?_eq_some_iff.mp hfirst
      have hedge' : IsFirstPage sf.currentImageArrV.value p.section p.row :=
        hedge
      rw [hrest] at hedge'
      exact hedge'.of_ne_nil hne

/-! ## From the failure to the next landing on the edge -/

/-- The event is a transition that lands on the page at the edge. -/
def LandsAtEdge (block : Block) (sf : ComicReadContentV) : ReadEvent → Prop
  | .didEndDisplaying q => ∃ l ∈ sf.landing q,
      EdgePage block sf.currentImageArrV.value l.1
  | _ => False

instance : {e : ReadEvent} → Decidable (LandsAtEdge block sf e)
  | .answer _ _ | .willDisplay _ => inferInstanceAs (Decidable False)
  | .didEndDisplaying _ => inferInstanceAs (Decidable (∃ l ∈ _, _))

/-- The guard of the branch stops nothing: it is open, or the section at the
edge is empty and the branch is not taken at its page anyway. -/
def Ready (block : Block) (sf : ComicReadContentV) : Prop :=
  sf.state.value.marks block = true →
    ¬ EdgeHasPages block sf.currentImageArrV.value

theorem marks_landedOn {q p : IndexPath} {arr : List String}
    (h : (landedOn book sf q p arr).state.value.marks block = true) :
    Taken sf p arr block ∨ sf.state.value.marks block = true := by
  by_cases hprev : PreviousTaken sf p arr
  · simp only [landedOn, hprev, if_true, Variable.value_set] at h
    cases block with
    | setUp => cases h
    | loadNextDate => cases h
    | loadPreviousDate => exact Or.inl hprev
  · by_cases hnext : NextTaken sf p arr
    · simp only [landedOn, hprev, hnext, if_true, if_false,
        Variable.value_set] at h
      cases block with
      | setUp => cases h
      | loadNextDate => exact Or.inl hnext
      | loadPreviousDate => cases h
    · simp only [landedOn, hprev, hnext, if_false] at h
      exact Or.inr h

/-- Until a transition lands on the edge, the guard of its branch is raised
only from an empty section. -/
theorem Ready.step (hR : Ready block sf) {e : ReadEvent}
    (hok : ¬ LandsAtEdge block sf e) (hc : LoadedCase book sf e sf') :
    Ready block sf' := by
  cases hc with
  | appended | prepended | failed =>
      intro hmark
      simp [appendedBy, prependedBy] at hmark
  | displayed | ignored => exact hR
  | landed q p arr hw hne harr =>
      intro hmark hpages
      rcases marks_landedOn hmark with htaken | hmark
      · exact hok ⟨(p, arr), landing_eq_some hw hne harr,
          htaken.atEdge.edgePage harr hpages⟩
      · exact hR hmark hpages

/-- The branch is taken at the page at the edge if and only if the section
there has pages. -/
theorem Ready.taken_iff (hR : Ready block sf) {p : IndexPath}
    {arr : List String}
    (harr : sf.currentImageArrV.value[p.section]? = some arr)
    (hedge : EdgePage block sf.currentImageArrV.value p) :
    Taken sf p arr block ↔ EdgeHasPages block sf.currentImageArrV.value := by
  constructor
  · intro htaken
    exact htaken.atEdge.edgeHasPages hedge
  · intro hpages
    refine (atEdge_of_edgePage harr hedge hpages).taken ?_
    cases hmark : sf.state.value.marks block with
    | false => rfl
    | true => exact absurd hpages (hR hmark)

/-! ## Where `neighbourIndex` is in a run -/

theorem Opening.arrival_next (hO : Opening book start h sf) {e : ReadEvent}
    (hc : ReadCase book sf e sf') : arrival .loadNextDate e = none := by
  cases hc with
  | opened req _ hb => simp [arrival, hb]
  | notOpened => rfl
  | loaded hc =>
      obtain ⟨q, rfl, -⟩ := hO.loadedCase hc
      rfl

theorem neighbourIndex_step {e : ReadEvent} (hc : LoadedCase book sf e sf') :
    sf'.neighbourIndex =
      sf.neighbourIndex - (arrival .loadNextDate e).toList.length := by
  cases hc with
  | appended req _ hb =>
      rw [neighbourIndex_appendedBy]
      simp [arrival, hb]
  | prepended req _ hb =>
      rw [neighbourIndex_prependedBy]
      simp [arrival, hb]
  | failed | displayed | ignored | landed => exact (Int.sub_zero _).symm

/-- The reader of a run asks for as many parts below the opened one as there
have been next answers. -/
theorem neighbourIndex_of_run {es : List ReadEvent}
    (hr : readRun book start es = some sf)
    (hne : sf.currentImageArrV.value ≠ []) :
    sf.neighbourIndex =
      start - 1 - (arrivals .loadNextDate es).length := by
  have hI := run_induction
    (P := fun es sf =>
      (Opening book start (ReadHistory.after es) sf ∧
        arrivals .loadNextDate es = []) ∨
      (Loaded book start (ReadHistory.after es) sf ∧
        sf.neighbourIndex =
          start - 1 - (arrivals .loadNextDate es).length))
    (Or.inl ⟨opening_initial, rfl⟩) ?_ hr
  · rcases hI with ⟨hO, -⟩ | ⟨-, hindex⟩
    · exact absurd hO.sections hne
    · exact hindex
  · intro es sf e sf' _ hI hs
    have hc := readCase_of_readStep hs
    rw [ReadHistory.after_snoc, arrivals_snoc]
    rcases hI with ⟨hO, hnil⟩ | ⟨hL, hindex⟩
    · rw [hnil, hO.arrival_next hc]
      rcases hO.step hc with hO' | ⟨model, hm, hout, rfl, rfl⟩
      · exact Or.inl ⟨hO', rfl⟩
      · refine Or.inr ⟨hO.opened hm hout, ?_⟩
        rw [neighbourIndex_openedBy]
        simp
    · have hc' := hL.cases hc
      refine Or.inr ⟨hL.step hc', ?_⟩
      rw [neighbourIndex_step hc', List.length_append]
      omega

/-! ## The failed load -/

/-- Nothing that is loaded or shown has changed, or been written again. -/
structure Unchanged (A B : ComicReadContentV) : Prop where
  currentImageArrV : B.currentImageArrV = A.currentImageArrV
  zeroSectionIndex : B.zeroSectionIndex = A.zeroSectionIndex
  currentShowIndex : B.currentShowIndex = A.currentShowIndex
  currentReadIndex : B.currentReadIndex = A.currentReadIndex

/-- The transition of `didEndDisplaying q` asks for the part of `req` again. -/
def AsksAgain (book : ComickBookInfo) (sf : ComicReadContentV)
    (q : IndexPath) (req : Request) : Prop :=
  ∃ sf' news, readStep book sf (.didEndDisplaying q) = some sf' ∧
    sf'.outstanding = sf.outstanding ++ news ∧
    ∃ r ∈ news, r.block = req.block ∧ r.index = req.index

theorem readStep_failed (book : ComickBookInfo) {req : Request}
    (hreq : req ∈ sf.outstanding) :
    ∃ sf', readStep book sf (.answer req false) = some sf' ∧
      Unchanged sf sf' ∧
      (req.block = .setUp → sf'.state = sf.state) ∧
      (req.block ≠ .setUp → sf'.state.value = .error) := by
  obtain ⟨sf', hs⟩ : ∃ sf', readStep book sf (.answer req false) = some sf' :=
    ⟨_, if_pos hreq⟩
  refine ⟨sf', hs, ?_⟩
  cases readCase_of_readStep hs with
  | notOpened _ _ hb =>
      exact ⟨⟨rfl, rfl, rfl, rfl⟩, fun _ => rfl, fun hne => absurd hb hne⟩
  | loaded hc =>
      cases hc with
      | failed _ _ hb =>
          exact ⟨⟨rfl, rfl, rfl, rfl⟩, fun heq => absurd heq hb, fun _ => rfl⟩

theorem landing_section {q p : IndexPath} {arr : List String}
    (hland : sf.landing q = some (p, arr)) :
    sf.currentImageArrV.value[p.section]? = some arr := by
  unfold landing at hland
  split at hland
  · split at hland
    · obtain ⟨arr', harr, heq⟩ := Option.map_eq_some_iff.mp hland
      obtain ⟨rfl, rfl⟩ := Prod.mk.inj heq
      exact harr
    · cases hland
  · cases hland

theorem readStep_landing {q p : IndexPath} {arr : List String}
    (hland : sf.landing q = some (p, arr)) :
    readStep book sf (.didEndDisplaying q) =
      some (landedOn book sf q p arr) := by
  unfold landing at hland
  split at hland
  · next w hw =>
      split at hland
      · next hne =>
          obtain ⟨arr', harr, heq⟩ := Option.map_eq_some_iff.mp hland
          obtain ⟨rfl, rfl⟩ := Prod.mk.inj heq
          simp only [readStep, didEndDisplaying, onEndShowIndex, hw]
          rw [if_pos hne, harr, Option.map_some, landedOn_eq]
      · cases hland
  · cases hland

theorem asksAgain_iff {q p : IndexPath} {arr : List String}
    (hland : sf.landing q = some (p, arr)) {req : Request}
    (hpart : (getIndexComicPart book req.index).isSome) :
    AsksAgain book sf q req ↔
      Taken sf p arr req.block ∧ req.index = sf.neighbourIndex := by
  have hstep : readStep book sf (.didEndDisplaying q) =
      some (landedOn book sf q p arr) := readStep_landing hland
  constructor
  · rintro ⟨sf', news, hs, hout, r, hr, hb, hindex⟩
    obtain rfl := Option.some.inj (hstep.symm.trans hs)
    have hnews : news = started book sf p arr .loadNextDate ++
        started book sf p arr .loadPreviousDate := by
      simp only [landedOn, List.append_assoc] at hout
      exact (List.append_cancel_left hout).symm
    rw [hnews] at hr
    rcases List.mem_append.mp hr with hr | hr
    all_goals
      obtain ⟨htaken, hrb, hri, -⟩ := mem_started.mp hr
      rw [← hb, hrb]
      exact ⟨htaken, hindex.symm.trans hri⟩
  · rintro ⟨htaken, hindex⟩
    obtain ⟨model, hmodel⟩ := Option.isSome_iff_exists.mp hpart
    have hmem : ⟨req.block, req.index, model⟩ ∈
        started book sf p arr req.block :=
      mem_started.mpr ⟨htaken, rfl, hindex, hindex ▸ hmodel⟩
    refine ⟨_, started book sf p arr .loadNextDate ++
      started book sf p arr .loadPreviousDate, hstep,
      List.append_assoc _ _ _, ⟨req.block, req.index, model⟩, ?_, rfl, rfl⟩
    cases hb : req.block with
    | setUp => exact absurd hb htaken.ne_setUp
    | loadNextDate =>
        rw [hb] at hmem
        exact List.mem_append_left _ hmem
    | loadPreviousDate =>
        rw [hb] at hmem
        exact List.mem_append_right _ hmem

/-- Until the set-up answer succeeds, nothing writes `state`. -/
theorem state_of_opening {es : List ReadEvent}
    (hr : readRun book start es = some sf)
    (hO : Opening book start (ReadHistory.after es) sf) :
    sf.state.value = .setUp start := by
  refine run_induction
    (P := fun es sf => Opening book start (ReadHistory.after es) sf →
      sf.state.value = .setUp start) (fun _ => ?_) ?_ hr hO
  · simp [initial, onState, load_eq, Variable.init]
  · intro es u e t hu ih hs hOt
    have hc := readCase_of_readStep hs
    rcases loaded_or_opening hu with hOu | hLu
    · cases hc with
      | opened => exact absurd hOt.sections (List.cons_ne_nil _ _)
      | notOpened => exact ih hOu
      | loaded hc =>
          obtain ⟨q, rfl, rfl⟩ := hOu.loadedCase hc
          exact ih hOu
    · have hLt := hLu.step (hLu.cases hc)
      exact absurd hOt.sections hLt.sections_ne

theorem ready_of_run {es : List ReadEvent} (hset : SetUpAnswered A)
    (hA : Ready block A)
    (hr : run (restrict (fun sf e => ¬ LandsAtEdge block sf e)
      (readStep book)) A es = some B) : Ready block B := by
  have hI : SetUpAnswered B ∧ Ready block B := by
    refine run_induction (P := fun _ sf => SetUpAnswered sf ∧ Ready block sf)
      ⟨hset, hA⟩ ?_ hr
    intro es sf e sf' _ ⟨hset, hR⟩ hs
    obtain ⟨hok, hs⟩ := restrict_eq_some.mp hs
    have hc := hset.cases (readCase_of_readStep hs)
    exact ⟨hset.step hc, hR.step hok hc⟩
  exact hI.2

/-- A failed answer changes nothing that is loaded or shown. It leads to
`.error` unless it is the set-up answer, and the next transition that lands on
the edge asks for the part again if and only if the section at that edge has
pages then and the part is the one right below all that the run has appended. -/
theorem failed_load_iff {pre : List ReadEvent} {req : Request}
    (hA : readRun book start pre = some A) (hreq : req ∈ A.outstanding) :
    ∃ A', readStep book A (.answer req false) = some A' ∧
      Unchanged A A' ∧ (A'.state.value = .error ↔ req.block ≠ .setUp) ∧
      ∀ es B q p arr,
        run (restrict (fun sf e => ¬ LandsAtEdge req.block sf e)
          (readStep book)) A' es = some B →
        B.landing q = some (p, arr) →
        EdgePage req.block B.currentImageArrV.value p →
          (AsksAgain book B q req ↔
            EdgeHasPages req.block B.currentImageArrV.value ∧
            req.index = start - 1 - (arrivals .loadNextDate
              (pre ++ .answer req false :: es)).length) := by
  obtain ⟨A', hA', hsame, hsetUp, herror⟩ := readStep_failed book hreq
  refine ⟨A', hA', hsame, ⟨?_, herror⟩, ?_⟩
  · intro hstate hb
    rcases loaded_or_opening hA with hO | hL
    · rw [hsetUp hb, state_of_opening hA hO] at hstate
      cases hstate
    · exact (hL.requests req hreq).1 hb
  · intro es B q p arr hes hland hedge
    rcases loaded_or_opening hA with hO | hL
    · obtain ⟨_, _, _, rfl⟩ := hO.mem_outstanding hreq
      exact hedge.elim
    · obtain ⟨hb, hpart⟩ := hL.requests req hreq
      have hrun : readRun book start (pre ++ .answer req false :: es) =
          some B := by
        refine run_append_some.mpr ⟨A, hA, ?_⟩
        rw [run, hA', Option.bind_some]
        exact run_of_restrict hes
      have hset : SetUpAnswered A' := by
        have hc := hL.cases (readCase_of_readStep hA')
        exact fun r hr => ((hL.step hc).requests r hr).1
      have hready : Ready req.block A' := by
        intro hmark
        simp [herror hb] at hmark
      have harr := landing_section hland
      rw [asksAgain_iff hland (Option.isSome_iff_exists.mpr ⟨_, hpart⟩),
        (ready_of_run hset hready hes).taken_iff harr hedge,
        neighbourIndex_of_run hrun
          (List.ne_nil_of_mem (List.mem_of_getElem? harr))]

/-- A next load is started, fails, and is asked for again after a look at the
first page. -/
theorem failed_load_iff_lookedBack :
    ∃ A', readRun threeParts 1
        [.answer ⟨.setUp, 1, middle⟩ true, .willDisplay ⟨0, 1⟩,
          .didEndDisplaying ⟨0, 0⟩, .answer ⟨.loadNextDate, 0, newest⟩ false] =
        some A' ∧ A'.state.value = .error ∧
      ∃ B, run (readStep threeParts) A'
          [.willDisplay ⟨0, 0⟩, .didEndDisplaying ⟨0, 1⟩,
            .willDisplay ⟨0, 1⟩] = some B ∧
        AsksAgain threeParts B ⟨0, 0⟩ ⟨.loadNextDate, 0, newest⟩ := by
  have hA : readRun threeParts 1
      [.answer ⟨.setUp, 1, middle⟩ true, .willDisplay ⟨0, 1⟩,
        .didEndDisplaying ⟨0, 0⟩] = some _ := rfl
  have hreq : ⟨.loadNextDate, 0, newest⟩ ∈ Option.elim (readRun threeParts 1
      [.answer ⟨.setUp, 1, middle⟩ true, .willDisplay ⟨0, 1⟩,
        .didEndDisplaying ⟨0, 0⟩]) [] outstanding := by decide
  obtain ⟨A', hA', -, hstate, hagain⟩ := failed_load_iff hA hreq
  obtain rfl := Option.some.inj hA'
  refine ⟨_, rfl, hstate.mpr (by decide), _, rfl, ?_⟩
  exact (hagain [.willDisplay ⟨0, 0⟩, .didEndDisplaying ⟨0, 1⟩,
    .willDisplay ⟨0, 1⟩] _ _ ⟨0, 1⟩ _ rfl rfl (by decide)).mpr
      ⟨by decide, by decide⟩

/-- The set-up answer fails and `state` stays `.setUp`; the previous load that
set-up starts fails, and the next landing on the first page asks for another
part. -/
theorem failed_load_not_retried :
    (∃ sf, readRun threeParts 1 [.answer ⟨.setUp, 1, middle⟩ false] =
        some sf ∧ sf.state.value = .setUp 1) ∧
      ∃ A B, readRun threeParts 1 [.answer ⟨.setUp, 1, middle⟩ true] =
          some A ∧ A.outstanding = [⟨.loadPreviousDate, 2, oldest⟩] ∧
        run (readStep threeParts) A
          [.answer ⟨.loadPreviousDate, 2, oldest⟩ false,
            .willDisplay ⟨0, 0⟩] = some B ∧
        B.landing ⟨0, 1⟩ = some (⟨0, 0⟩, middle.partImageUrlStrArr) ∧
        EdgePage .loadPreviousDate B.currentImageArrV.value ⟨0, 0⟩ ∧
        ¬ AsksAgain threeParts B ⟨0, 1⟩
          ⟨.loadPreviousDate, 2, oldest⟩ := by
  refine ⟨⟨_, rfl, rfl⟩, _, _, rfl, by decide, rfl, rfl, by decide, ?_⟩
  intro hagain
  have hindex := ((asksAgain_iff rfl (by decide)).mp hagain).2
  exact absurd hindex (by decide)

end ComicReadContentV

end ComicReader
