import ComicReader.Reader.Retry

/-!
# No load is waited for in vain

`state` names a load for as long as no answer arrives, and its name closes the
guard of one branch. A name that stood for nothing would leave the reader
waiting at an edge for good. It stands for nothing only where the book has no
such part: `Pending` says that a load named by `state` is in flight, and that
it is for `neighbourIndex` unless it is the one set-up starts in front. So a
transition that lands on an edge always leaves a load of that edge in flight,
whether it starts one or finds the guard closed.

The other half is that the reader comes to rest. Only the set-up answer starts
loads of its own, at most two, so `weight` counts it three times, and every
answer uses up weight whatever it brings.
-/

namespace ComicReader

open Lib

/-- The load that `state` names. -/
def State.loading : State → Option (Block × Int)
  | .loadNextDate nextIndex => some (.loadNextDate, nextIndex)
  | .loadPreviousDate preIndex => some (.loadPreviousDate, preIndex)
  | _ => none

theorem State.marks_loading {block : Block} {state : State}
    (h : state.marks block = true) :
    ∃ i, state.loading = some (block, i) := by
  cases block with
  | setUp => cases h
  | loadNextDate =>
      cases state with
      | loadNextDate i => exact ⟨i, rfl⟩
      | error | reading | setUp | loadPreviousDate => cases h
  | loadPreviousDate =>
      cases state with
      | loadPreviousDate i => exact ⟨i, rfl⟩
      | error | reading | setUp | loadNextDate => cases h

namespace ComicReadContentV

variable {book : ComickBookInfo} {start : Int} {sf sf' : ComicReadContentV}
  {block : Block}

/-- What `state` says once the set-up request has been answered. -/
structure Pending (book : ComickBookInfo) (start : Int)
    (sf : ComicReadContentV) : Prop where
  notSetUp : ∀ i, sf.state.value ≠ .setUp i
  inFlight : ∀ block i model, sf.state.value.loading = some (block, i) →
    getIndexComicPart book i = some model →
    ⟨block, i, model⟩ ∈ sf.outstanding
  index : ∀ block i, sf.state.value.loading = some (block, i) →
    i = sf.neighbourIndex ∨ (block = .loadPreviousDate ∧ i = start + 1)

/-- A state that names no load has nothing to account for. -/
theorem pending_of_loading_none (hset : ∀ i, sf.state.value ≠ .setUp i)
    (h : sf.state.value.loading = none) : Pending book start sf where
  notSetUp := hset
  inFlight block i model hl := by
    rw [h] at hl
    cases hl
  index block i hl := by
    rw [h] at hl
    cases hl

theorem pending_openedBy {model : ComickPartInfo} :
    Pending book start (openedBy book sf ⟨.setUp, start, model⟩) := by
  have hstate :
      (openedBy book sf ⟨.setUp, start, model⟩).state.value =
        .loadPreviousDate (start + 1) := rfl
  refine ⟨?_, ?_, ?_⟩
  · intro i hi
    rw [hstate] at hi
    cases hi
  · intro block i model' hl hm
    rw [hstate] at hl
    obtain ⟨rfl, rfl⟩ := Prod.mk.inj (Option.some.inj hl)
    exact List.mem_append_right _ (mem_requestFor.mpr ⟨rfl, rfl, hm⟩)
  · intro block i hl
    rw [hstate] at hl
    obtain ⟨rfl, rfl⟩ := Prod.mk.inj (Option.some.inj hl)
    exact Or.inr ⟨rfl, rfl⟩

/-- The load a transition names is the one it has just started. -/
theorem loading_landedOn {q p : IndexPath} {arr : List String} {i : Int}
    (h : (landedOn book sf q p arr).state.value.loading = some (block, i)) :
    (Taken sf p arr block ∧ i = sf.neighbourIndex) ∨
      sf.state.value.loading = some (block, i) := by
  by_cases hprev : PreviousTaken sf p arr
  · simp only [landedOn, hprev, if_true, Variable.value_set] at h
    obtain ⟨rfl, rfl⟩ := Prod.mk.inj (Option.some.inj h)
    exact Or.inl ⟨hprev, rfl⟩
  · by_cases hnext : NextTaken sf p arr
    · simp only [landedOn, hprev, hnext, if_true, if_false,
        Variable.value_set] at h
      obtain ⟨rfl, rfl⟩ := Prod.mk.inj (Option.some.inj h)
      exact Or.inl ⟨hnext, rfl⟩
    · simp only [landedOn, hprev, hnext, if_false] at h
      exact Or.inr h

theorem state_landedOn_ne_setUp (hset : ∀ i, sf.state.value ≠ .setUp i)
    (q p : IndexPath) (arr : List String) (i : Int) :
    (landedOn book sf q p arr).state.value ≠ .setUp i := by
  by_cases hprev : PreviousTaken sf p arr
  · simp [landedOn, hprev]
  · by_cases hnext : NextTaken sf p arr
    · simp [landedOn, hprev, hnext]
    · simpa [landedOn, hprev, hnext] using hset i

theorem Pending.step (hP : Pending book start sf) {e : ReadEvent}
    (hc : LoadedCase book sf e sf') : Pending book start sf' := by
  cases hc with
  | appended | prepended | failed =>
      refine pending_of_loading_none (fun i hi => ?_) rfl
      cases hi
  | displayed | ignored => exact { hP with }
  | landed q p arr hw hne harr =>
      refine ⟨state_landedOn_ne_setUp hP.notSetUp q p arr, ?_, ?_⟩
      · intro block i model hl hm
        rcases loading_landedOn hl with ⟨htaken, rfl⟩ | hl
        · exact mem_landedOn.mpr
            (Or.inr (mem_started.mpr ⟨htaken, rfl, rfl, hm⟩))
        · exact mem_landedOn.mpr (Or.inl (hP.inFlight block i model hl hm))
      · intro block i hl
        rcases loading_landedOn hl with ⟨-, rfl⟩ | hl
        · exact Or.inl rfl
        · exact hP.index block i hl

theorem pending_of_run {es : List ReadEvent}
    (hr : readRun book start es = some sf) :
    Opening book start (ReadHistory.after es) sf ∨
      Pending book start sf := by
  rw [readRun_eq] at hr
  have hI := read_induction (E := fun _ sf => Pending book start sf)
    (fun _ _ _ _ _ _ _ => pending_openedBy)
    (fun _ _ _ _ _ hP _ hc => hP.step hc) hr
  exact hI.imp_right And.right

/-! ## At an edge -/

theorem Pending.landed (hP : Pending book start sf) {q p : IndexPath}
    {arr : List String} (hedge : AtEdge sf block p arr) :
    ∃ i, (i = sf.neighbourIndex ∨
        (block = .loadPreviousDate ∧ i = start + 1)) ∧
      ∀ model, getIndexComicPart book i = some model →
        ⟨block, i, model⟩ ∈ (landedOn book sf q p arr).outstanding := by
  cases hmark : sf.state.value.marks block with
  | false =>
      refine ⟨sf.neighbourIndex, Or.inl rfl, fun model hm => ?_⟩
      exact mem_landedOn.mpr
        (Or.inr (mem_started.mpr ⟨hedge.taken hmark, rfl, rfl, hm⟩))
  | true =>
      obtain ⟨i, hl⟩ := State.marks_loading hmark
      refine ⟨i, hP.index block i hl, fun model hm => ?_⟩
      exact mem_landedOn.mpr (Or.inl (hP.inFlight block i model hl hm))

def IsAnswer : ReadEvent → Prop
  | .answer _ _ => True
  | _ => False

instance : {e : ReadEvent} → Decidable (IsAnswer e)
  | .answer _ _ => inferInstanceAs (Decidable True)
  | .willDisplay _ | .didEndDisplaying _ => inferInstanceAs (Decidable False)

/-- How many answers the loads of `l` can still bring, if nothing but answers
comes. -/
def loadWeight (l : List Request) : Nat :=
  l.length + 2 * l.countP fun req => decide (req.block = .setUp)

def weight (sf : ComicReadContentV) : Nat := loadWeight sf.outstanding

theorem loadWeight_append (l l' : List Request) :
    loadWeight (l ++ l') = loadWeight l + loadWeight l' := by
  unfold loadWeight
  rw [List.length_append, List.countP_append]
  omega

theorem loadWeight_erase {l : List Request} {req : Request} (hreq : req ∈ l) :
    loadWeight (l.erase req) + (if req.block = .setUp then 3 else 1) =
      loadWeight l := by
  have hperm := List.perm_cons_erase hreq
  unfold loadWeight
  rw [hperm.length_eq, hperm.countP_eq, List.length_cons, List.countP_cons]
  by_cases hb : req.block = .setUp
  · simp only [hb, decide_true, if_true]
    omega
  · simp only [hb, decide_false, Bool.false_eq_true, if_false]
    omega

theorem loadWeight_erase_lt {l : List Request} {req : Request}
    (hreq : req ∈ l) : loadWeight (l.erase req) < loadWeight l := by
  have h := loadWeight_erase hreq
  split at h <;> omega

theorem loadWeight_requestFor_le {index : Int} (hb : block ≠ .setUp) :
    loadWeight (requestFor book block index) ≤ 1 := by
  rcases requestFor_cases book block index with h | ⟨model, -, h⟩
  · rw [h]
    exact Nat.zero_le 1
  · rw [h]
    simp [loadWeight, hb]

/-- The set-up answer starts at most two loads. -/
theorem weight_openedBy {req : Request} (hreq : req ∈ sf.outstanding)
    (hb : req.block = .setUp) :
    (openedBy book sf req).weight < sf.weight := by
  have herase := loadWeight_erase hreq
  rw [if_pos hb] at herase
  have hprev : loadWeight (requestFor book .loadPreviousDate
      (req.index + 1)) ≤ 1 := loadWeight_requestFor_le (by decide)
  have hnext : loadWeight (requestFor book .loadNextDate
      (req.index - 1)) ≤ 1 := loadWeight_requestFor_le (by decide)
  have hnil : loadWeight [] = 0 := rfl
  simp only [weight, openedBy, loadWeight_append]
  split <;> omega

/-- Every answer uses up weight, whatever it brings. -/
theorem weight_answer {e : ReadEvent} (he : IsAnswer e)
    (hs : readStep book sf e = some sf') : sf'.weight < sf.weight := by
  cases readCase_of_readStep hs with
  | opened req hreq hb => exact weight_openedBy hreq hb
  | notOpened req hreq _ => exact loadWeight_erase_lt hreq
  | loaded hc =>
      cases hc with
      | appended req hreq _ | prepended req hreq _ | failed req hreq _ =>
          exact loadWeight_erase_lt hreq
      | displayed | ignored | landed => exact he.elim

/-- With no load in flight, `state` names one only where the book has no such
part, and is still `.setUp` only where nothing has been loaded. -/
structure AtRest (book : ComickBookInfo) (sf : ComicReadContentV) : Prop where
  loading : ∀ block i, sf.state.value.loading = some (block, i) →
    getIndexComicPart book i = none
  setUp : ∀ i, sf.state.value = .setUp i → sf.currentImageArrV.value = []

theorem atRest_of_run {es : List ReadEvent}
    (hr : readRun book start es = some sf) (hout : sf.outstanding = []) :
    AtRest book sf := by
  rcases pending_of_run hr with hO | hP
  · have hstate := state_of_opening hr hO
    refine ⟨?_, fun _ _ => hO.sections⟩
    intro block i hl
    rw [hstate] at hl
    cases hl
  · refine ⟨?_, fun i hi => absurd hi (hP.notSetUp i)⟩
    intro block i hl
    cases hm : getIndexComicPart book i with
    | none => rfl
    | some model =>
        have hmem := hP.inFlight block i model hl hm
        rw [hout] at hmem
        cases hmem

/-- Nothing but answers, in any order and with any outcome: they are no more
than the weight, a load that is in flight can always be answered, and when
none is left no load is waited for. -/
theorem answers_settle {es fs : List ReadEvent}
    (hr : readRun book start es = some sf)
    (hans : run (restrict (fun _ e => IsAnswer e) (readStep book)) sf fs =
      some sf') :
    fs.length + sf'.weight ≤ sf.weight ∧
      (sf'.outstanding = [] → AtRest book sf') ∧
      ∃ gs sf'', run (restrict (fun _ e => IsAnswer e) (readStep book)) sf' gs =
        some sf'' ∧ sf''.outstanding = [] := by
  have hstep : ∀ u e v, True →
      restrict (fun _ e => IsAnswer e) (readStep book) u e = some v →
      True ∧ v.weight < u.weight := by
    intro u e v _ hs
    obtain ⟨he, hs⟩ := restrict_eq_some.mp hs
    exact ⟨trivial, weight_answer he hs⟩
  refine ⟨(run_length_add_le (I := fun _ => True) trivial hstep hans).2, ?_, ?_⟩
  · intro hout
    have hr' : readRun book start (es ++ fs) = some sf' :=
      run_append_some.mpr ⟨sf, hr, run_of_restrict hans⟩
    exact atRest_of_run hr' hout
  · refine exists_run_rest (I := fun _ => True) hstep ?_ sf' trivial
    intro u _ hne
    obtain ⟨req, hreq⟩ := List.exists_mem_of_ne_nil u.outstanding hne
    exact ⟨.answer req true, _,
      restrict_eq_some.mpr ⟨trivial, if_pos hreq⟩⟩

/-- The reader opened at the middle part takes its set-up answer, then the
failure of the load that answer starts. -/
theorem answers_settle_failed :
    ∃ sf sf', readRun threeParts 1 [] = some sf ∧
      run (restrict (fun _ e => IsAnswer e) (readStep threeParts)) sf
        [.answer ⟨.setUp, 1, middle⟩ true,
          .answer ⟨.loadPreviousDate, 2, oldest⟩ false] = some sf' ∧
      2 + sf'.weight ≤ sf.weight ∧ AtRest threeParts sf' := by
  have hr : readRun threeParts 1 [] = some _ := rfl
  have hans : run (restrict (fun _ e => IsAnswer e) (readStep threeParts))
      (initial threeParts 1) [.answer ⟨.setUp, 1, middle⟩ true,
        .answer ⟨.loadPreviousDate, 2, oldest⟩ false] = some _ := rfl
  obtain ⟨hle, hrest, -⟩ := answers_settle hr hans
  exact ⟨_, _, hr, hans, hle, hrest (by decide)⟩

end ComicReadContentV

end ComicReader
