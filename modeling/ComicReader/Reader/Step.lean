import ComicReader.Source.ReadContentV

/-!
# What one event does to the reader

The handlers of `MK_ComicReadContentV` nest: an answer assigns `state`, the
assignment runs a subscriber, the subscriber starts another load. This file
flattens them once. `ReadCase` lists every way a reader can take an event,
each with the reader it leads to written out field by field, and
`readCase_of_readStep` says the list is complete. `LoadedCase` is the part of
the list that can occur once the set-up request has been answered. Every
invariant of the reader is proved by cases on these and never unfolds a
handler again.

The two branches of a page transition are named on the way: `NextTaken` and
`PreviousTaken` are their tests, guard included, read in the state before the
transition, and `neighbourIndex` is the one part index both of them ask for.
-/

namespace ComicReader

def State.isLoadNextDate : State → Bool
  | .loadNextDate _ => true
  | _ => false

def State.isLoadPreviousDate : State → Bool
  | .loadPreviousDate _ => true
  | _ => false

/-- The request that loading part `index` starts: none past either end of the
book. -/
def requestFor (book : ComickBookInfo) (block : Block) (index : Int) :
    List Request :=
  (getIndexComicPart book index).toList.map (Request.mk block index)

theorem mem_requestFor {book : ComickBookInfo} {block : Block} {index : Int}
    {req : Request} : req ∈ requestFor book block index ↔
      req.block = block ∧ req.index = index ∧
        getIndexComicPart book index = some req.model := by
  obtain ⟨b, i, m⟩ := req
  simp only [requestFor, List.mem_map, Option.mem_toList, Request.mk.injEq]
  constructor
  · rintro ⟨m', hm', rfl, rfl, rfl⟩
    exact ⟨rfl, rfl, hm'⟩
  · rintro ⟨rfl, rfl, hm⟩
    exact ⟨m, hm, rfl, rfl, rfl⟩

/-- The delegate's guard is the bounds check of the subscript. -/
theorem getIndexComicPart_eq {book : ComickBookInfo} {index : Int} :
    getIndexComicPart book index = subscript book.bookPartArray index := by
  unfold getIndexComicPart
  split
  · rfl
  · next h =>
      rw [← subscript_isSome, Option.not_isSome_iff_eq_none] at h
      rw [h]

theorem getIndexComicPart_isSome {book : ComickBookInfo} {index : Int} :
    (getIndexComicPart book index).isSome ↔
      0 ≤ index ∧ index < book.bookPartArray.length := by
  rw [getIndexComicPart_eq, subscript_isSome]

theorem getIndexComicPart_of_mem {book : ComickBookInfo} {index : Int}
    (h : 0 ≤ index ∧ index < book.bookPartArray.length) :
    ∃ model, getIndexComicPart book index = some model :=
  Option.isSome_iff_exists.mp (getIndexComicPart_isSome.mpr h)

theorem getIndexComicPart_bounds {book : ComickBookInfo} {index : Int}
    {model : ComickPartInfo} (h : getIndexComicPart book index = some model) :
    0 ≤ index ∧ index < book.bookPartArray.length :=
  getIndexComicPart_isSome.mp (Option.isSome_iff_exists.mpr ⟨model, h⟩)

theorem requestFor_cases (book : ComickBookInfo) (block : Block)
    (index : Int) : requestFor book block index = [] ∨
      ∃ model, getIndexComicPart book index = some model ∧
        requestFor book block index = [⟨block, index, model⟩] := by
  cases h : getIndexComicPart book index with
  | none => exact Or.inl (by simp [requestFor, h])
  | some model => exact Or.inr ⟨model, rfl, by simp [requestFor, h]⟩

namespace ComicReadContentV

variable {book : ComickBookInfo} {sf sf' : ComicReadContentV}

theorem load_eq {block : Block} {index : Int} : load book sf block index =
    { sf with
      outstanding := sf.outstanding ++ requestFor book block index } := by
  unfold load requestFor
  cases getIndexComicPart book index <;> simp

/-- The part index both branches of a page transition ask for: one below the
label of the last section. -/
def neighbourIndex (sf : ComicReadContentV) : Int :=
  sf.zeroSectionIndex - sf.currentImageArrV.value.length

/-- The transition to `p` takes the branch that loads the next part. -/
def NextTaken (sf : ComicReadContentV) (p : IndexPath) (arr : List String) :
    Prop :=
  atLastPage sf p arr ∧ sf.state.value.isLoadNextDate = false

/-- The transition to `p` takes the branch that loads the previous part. The
other branch has run by then, and when it was taken the state is a
`.loadNextDate`. -/
def PreviousTaken (sf : ComicReadContentV) (p : IndexPath)
    (arr : List String) : Prop :=
  (p.section = 0 ∧ p.row = 0) ∧
    (NextTaken sf p arr ∨ sf.state.value.isLoadPreviousDate = false)

/-- The branch of the transition to `p` that loads with `block` is taken. -/
def Taken (sf : ComicReadContentV) (p : IndexPath) (arr : List String) :
    Block → Prop
  | .setUp => False
  | .loadNextDate => NextTaken sf p arr
  | .loadPreviousDate => PreviousTaken sf p arr

instance {p : IndexPath} {arr : List String} : Decidable (NextTaken sf p arr) :=
  inferInstanceAs (Decidable (_ ∧ _))

instance {p : IndexPath} {arr : List String} :
    Decidable (PreviousTaken sf p arr) :=
  inferInstanceAs (Decidable (_ ∧ (_ ∨ _)))

instance {p : IndexPath} {arr : List String} :
    {block : Block} → Decidable (Taken sf p arr block)
  | .setUp => inferInstanceAs (Decidable False)
  | .loadNextDate => inferInstanceAs (Decidable (NextTaken sf p arr))
  | .loadPreviousDate => inferInstanceAs (Decidable (PreviousTaken sf p arr))

theorem Taken.ne_setUp {p : IndexPath} {arr : List String} {block : Block}
    (h : Taken sf p arr block) : block ≠ .setUp := by
  intro hb
  rw [hb] at h
  exact h

/-- The load that branch starts: none when it is not taken, and none when
`neighbourIndex` is past the end of the book. -/
def started (book : ComickBookInfo) (sf : ComicReadContentV) (p : IndexPath)
    (arr : List String) (block : Block) : List Request :=
  if Taken sf p arr block then requestFor book block sf.neighbourIndex else []

theorem mem_started {p : IndexPath} {arr : List String} {block : Block}
    {req : Request} : req ∈ started book sf p arr block ↔
      Taken sf p arr block ∧ req.block = block ∧
        req.index = sf.neighbourIndex ∧
        getIndexComicPart book sf.neighbourIndex = some req.model := by
  rw [started, List.mem_ite_nil_right, mem_requestFor]

theorem started_cases (book : ComickBookInfo) (sf : ComicReadContentV)
    (p : IndexPath) (arr : List String) (block : Block) :
    started book sf p arr block = [] ∨
      ∃ model, getIndexComicPart book sf.neighbourIndex = some model ∧
        started book sf p arr block = [⟨block, sf.neighbourIndex, model⟩] := by
  unfold started
  split
  · exact requestFor_cases book block sf.neighbourIndex
  · exact Or.inl rfl

theorem loadNextAtEdge_eq {p : IndexPath} {arr : List String} :
    loadNextAtEdge book sf p arr =
      if NextTaken sf p arr then
        { sf with
          state := sf.state.set (.loadNextDate sf.neighbourIndex)
          outstanding := sf.outstanding ++
            requestFor book .loadNextDate sf.neighbourIndex }
      else sf := by
  unfold loadNextAtEdge NextTaken
  by_cases hlast : atLastPage sf p arr
  · simp only [hlast, if_true, true_and]
    cases sf.state.value <;>
      simp [State.isLoadNextDate, setState, onState, load_eq, neighbourIndex]
  · simp [hlast]

theorem loadPreviousAtEdge_eq {p : IndexPath} :
    loadPreviousAtEdge book sf p =
      if (p.section = 0 ∧ p.row = 0) ∧
          sf.state.value.isLoadPreviousDate = false then
        { sf with
          state := sf.state.set (.loadPreviousDate sf.neighbourIndex)
          outstanding := sf.outstanding ++
            requestFor book .loadPreviousDate sf.neighbourIndex }
      else sf := by
  unfold loadPreviousAtEdge
  by_cases hfirst : p.section = 0 ∧ p.row = 0
  · simp only [hfirst, if_true, true_and]
    cases sf.state.value <;>
      simp [State.isLoadPreviousDate, setState, onState, load_eq,
        neighbourIndex]
  · simp [hfirst]

/-! ## The reader after each event, field by field -/

/-- After the set-up answer `imArr`. -/
def openedBy (book : ComickBookInfo) (sf : ComicReadContentV) (req : Request) :
    ComicReadContentV :=
  let imArr := req.model.partImageUrlStrArr
  { sf with
    state :=
      (if imArr.length = 1 then
        (sf.state.set .reading).set (.loadNextDate (req.index - 1))
      else sf.state.set .reading).set (.loadPreviousDate (req.index + 1))
    currentImageArrV := sf.currentImageArrV.set [imArr]
    currentReadIndex := sf.currentReadIndex.set req.index
    currentShowIndex := sf.currentShowIndex.set (1, imArr.length)
    zeroSectionIndex := req.index
    outstanding :=
      sf.outstanding.erase req ++
        (if imArr.length = 1 then
          requestFor book .loadNextDate (req.index - 1)
        else []) ++
        requestFor book .loadPreviousDate (req.index + 1) }

/-- After a successful next answer. -/
def appendedBy (sf : ComicReadContentV) (req : Request) : ComicReadContentV :=
  { sf with
    state := sf.state.set .reading
    currentImageArrV :=
      sf.currentImageArrV.set
        (sf.currentImageArrV.value ++ [req.model.partImageUrlStrArr])
    outstanding := sf.outstanding.erase req }

/-- After a successful previous answer. -/
def prependedBy (sf : ComicReadContentV) (req : Request) :
    ComicReadContentV :=
  { sf with
    state := sf.state.set .reading
    currentImageArrV :=
      sf.currentImageArrV.set
        (req.model.partImageUrlStrArr :: sf.currentImageArrV.value)
    zeroSectionIndex := sf.zeroSectionIndex + 1
    outstanding := sf.outstanding.erase req }

/-- After a page transition to `p`, a page of a section holding `arr`, that
ended the display of `q`. -/
def landedOn (book : ComickBookInfo) (sf : ComicReadContentV)
    (q p : IndexPath) (arr : List String) : ComicReadContentV :=
  { sf with
    state :=
      let state :=
        if NextTaken sf p arr then
          sf.state.set (.loadNextDate sf.neighbourIndex)
        else sf.state
      if PreviousTaken sf p arr then
        state.set (.loadPreviousDate sf.neighbourIndex)
      else state
    currentReadIndex :=
      if sf.zeroSectionIndex - p.section ≠ sf.currentReadIndex.value then
        sf.currentReadIndex.set (sf.zeroSectionIndex - p.section)
      else sf.currentReadIndex
    currentShowIndex := sf.currentShowIndex.set (p.row + 1, arr.length)
    endShowIndex := sf.endShowIndex.set (some q)
    outstanding :=
      sf.outstanding ++ started book sf p arr .loadNextDate ++
        started book sf p arr .loadPreviousDate }

@[simp] theorem neighbourIndex_appendedBy {req : Request} :
    (appendedBy sf req).neighbourIndex = sf.neighbourIndex - 1 := by
  simp only [neighbourIndex, appendedBy, Variable.value_set,
    List.length_append, List.length_singleton]
  omega

@[simp] theorem neighbourIndex_prependedBy {req : Request} :
    (prependedBy sf req).neighbourIndex = sf.neighbourIndex := by
  simp only [neighbourIndex, prependedBy, Variable.value_set, List.length_cons]
  omega

@[simp] theorem neighbourIndex_landedOn {q p : IndexPath}
    {arr : List String} :
    (landedOn book sf q p arr).neighbourIndex = sf.neighbourIndex := rfl

@[simp] theorem neighbourIndex_openedBy {req : Request} :
    (openedBy book sf req).neighbourIndex = req.index - 1 := rfl

/-- Every way the reader can take an event that is not the answer of its
set-up request. -/
inductive LoadedCase (book : ComickBookInfo) (sf : ComicReadContentV) :
    ReadEvent → ComicReadContentV → Prop where
  | appended (req : Request) (hreq : req ∈ sf.outstanding)
      (hblock : req.block = .loadNextDate) :
      LoadedCase book sf (.answer req true) (appendedBy sf req)
  | prepended (req : Request) (hreq : req ∈ sf.outstanding)
      (hblock : req.block = .loadPreviousDate) :
      LoadedCase book sf (.answer req true) (prependedBy sf req)
  | failed (req : Request) (hreq : req ∈ sf.outstanding)
      (hblock : req.block ≠ .setUp) :
      LoadedCase book sf (.answer req false)
        { sf with
          state := sf.state.set .error
          outstanding := sf.outstanding.erase req }
  | displayed (p : IndexPath) (hitem : sf.hasItem p) :
      LoadedCase book sf (.willDisplay p) (sf.willDisplay p)
  | ignored (q : IndexPath)
      (hw : ∀ p, sf.willShowIndex.value = some p → p = q) :
      LoadedCase book sf (.didEndDisplaying q)
        { sf with endShowIndex := sf.endShowIndex.set (some q) }
  | landed (q p : IndexPath) (arr : List String)
      (hw : sf.willShowIndex.value = some p) (hne : q ≠ p)
      (harr : sf.currentImageArrV.value[p.section]? = some arr) :
      LoadedCase book sf (.didEndDisplaying q) (landedOn book sf q p arr)

/-- Every way the reader can take an event. -/
inductive ReadCase (book : ComickBookInfo) (sf : ComicReadContentV) :
    ReadEvent → ComicReadContentV → Prop where
  | opened (req : Request) (hreq : req ∈ sf.outstanding)
      (hblock : req.block = .setUp) :
      ReadCase book sf (.answer req true) (openedBy book sf req)
  | notOpened (req : Request) (hreq : req ∈ sf.outstanding)
      (hblock : req.block = .setUp) :
      ReadCase book sf (.answer req false)
        { sf with outstanding := sf.outstanding.erase req }
  | loaded {e : ReadEvent} {sf' : ComicReadContentV}
      (h : LoadedCase book sf e sf') : ReadCase book sf e sf'

theorem setUpBlock_some {req : Request} :
    setUpBlock book { sf with outstanding := sf.outstanding.erase req }
      req.index (some req.model.partImageUrlStrArr) = openedBy book sf req := by
  simp only [setUpBlock, setState, onState, load_eq, openedBy]
  split <;> simp

theorem showLabels_eq {p : IndexPath} {arr : List String} :
    showLabels sf p arr =
      { sf with
        currentReadIndex :=
          if sf.zeroSectionIndex - p.section ≠ sf.currentReadIndex.value
          then sf.currentReadIndex.set (sf.zeroSectionIndex - p.section)
          else sf.currentReadIndex
        currentShowIndex :=
          sf.currentShowIndex.set (p.row + 1, arr.length) } := by
  unfold showLabels
  split <;> simp_all

theorem loadAtEdges_eq {p : IndexPath} {arr : List String} :
    loadPreviousAtEdge book (loadNextAtEdge book sf p arr) p =
      { sf with
        state :=
          let state :=
            if NextTaken sf p arr then
              sf.state.set (.loadNextDate sf.neighbourIndex)
            else sf.state
          if PreviousTaken sf p arr then
            state.set (.loadPreviousDate sf.neighbourIndex)
          else state
        outstanding :=
          sf.outstanding ++ started book sf p arr .loadNextDate ++
            started book sf p arr .loadPreviousDate } := by
  rw [loadNextAtEdge_eq, loadPreviousAtEdge_eq]
  unfold started Taken PreviousTaken
  by_cases hnext : NextTaken sf p arr
  · simp only [hnext, if_true, true_or, and_true, Variable.value_set,
      State.isLoadPreviousDate]
    split <;> simp [neighbourIndex]
  · simp only [hnext, if_false, false_or, List.append_nil]
    split <;> simp

/-- The labels touch nothing the two tests read, so the three parts of the
subscriber compose to `landedOn`. -/
theorem landedOn_eq {q p : IndexPath} {arr : List String} :
    loadPreviousAtEdge book
      (loadNextAtEdge book
        (showLabels { sf with endShowIndex := sf.endShowIndex.set (some q) }
          p arr) p arr) p = landedOn book sf q p arr := by
  rw [showLabels_eq, loadAtEdges_eq]
  rfl

/-- The list of cases is complete. -/
theorem readCase_of_readStep {e : ReadEvent}
    (h : readStep book sf e = some sf') : ReadCase book sf e sf' := by
  cases e with
  | answer req success =>
      simp only [readStep] at h
      split at h
      · next hreq =>
          rw [Option.some.injEq] at h
          subst h
          cases hb : req.block with
          | setUp =>
              cases success with
              | true =>
                  have hopen : ReadCase book sf _ _ := .opened req hreq hb
                  rw [← setUpBlock_some] at hopen
                  simpa [answer, hb] using hopen
              | false =>
                  have hnot : ReadCase book sf _ _ := .notOpened req hreq hb
                  simpa [answer, hb, setUpBlock] using hnot
          | loadNextDate =>
              cases success with
              | true =>
                  have happ : LoadedCase book sf _ _ := .appended req hreq hb
                  refine .loaded ?_
                  simpa [answer, hb, loadNextDateBlock, setState, onState,
                    appendedBy] using happ
              | false =>
                  have hfail : LoadedCase book sf _ _ :=
                    .failed req hreq (by simp [hb])
                  refine .loaded ?_
                  simpa [answer, hb, loadNextDateBlock, setState, onState]
                    using hfail
          | loadPreviousDate =>
              cases success with
              | true =>
                  have hpre : LoadedCase book sf _ _ := .prepended req hreq hb
                  refine .loaded ?_
                  simpa [answer, hb, loadPreviousDateBlock, setState, onState,
                    prependedBy] using hpre
              | false =>
                  have hfail : LoadedCase book sf _ _ :=
                    .failed req hreq (by simp [hb])
                  refine .loaded ?_
                  simpa [answer, hb, loadPreviousDateBlock, setState, onState]
                    using hfail
      · cases h
  | willDisplay p =>
      simp only [readStep] at h
      split at h
      · next hitem =>
          rw [Option.some.injEq] at h
          exact h ▸ .loaded (.displayed p hitem)
      · cases h
  | didEndDisplaying q =>
      simp only [readStep, didEndDisplaying, onEndShowIndex] at h
      cases hw : sf.willShowIndex.value with
      | none =>
          simp only [hw, Option.some.injEq] at h
          exact h ▸ .loaded (.ignored q (by simp [hw]))
      | some p =>
          simp only [hw] at h
          by_cases hq : q = p
          · subst hq
            simp only [ne_eq, not_true, if_false, Option.some.injEq] at h
            exact h ▸ .loaded (.ignored q (by simp [hw]))
          · rw [if_pos hq, Option.map_eq_some_iff] at h
            obtain ⟨arr, harr, rfl⟩ := h
            rw [landedOn_eq]
            exact .loaded (.landed q p arr hw hq harr)

/-- Only a successful answer writes the sections. -/
theorem sections_of_readStep {e : ReadEvent}
    (h : readStep book sf e = some sf') (he : ∀ req, e ≠ .answer req true) :
    sf'.currentImageArrV = sf.currentImageArrV := by
  cases readCase_of_readStep h with
  | opened req => exact absurd rfl (he req)
  | notOpened => rfl
  | loaded hc =>
      cases hc with
      | appended req | prepended req => exact absurd rfl (he req)
      | failed | displayed | ignored | landed => rfl

end ComicReadContentV

end ComicReader
