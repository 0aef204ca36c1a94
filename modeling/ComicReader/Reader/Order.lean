import Mathlib.Data.List.Perm.Basic
import ComicReader.Lib.Ends
import ComicReader.Reader.Orderly

/-!
# When the order of the answers does not matter

A successful next answer puts a page array at the end of the sections and a
successful previous answer puts one in front; the network decides which comes
first. What is loaded is independent of that order exactly as long as the
loads in flight in one direction all bring the same array. `SingleArray` is
that condition at the one place where a load is started, and it is exact: the
answers commute in every state of a run if and only if every step of the run
meets it.
-/

namespace ComicReader

open Lib

/-- The end of the sections an answer is put at. -/
def Block.side : Block → End
  | .loadPreviousDate => .front
  | _ => .back

namespace ComicReadContentV

variable {book : ComickBookInfo} {start : Int} {h : ReadHistory}
  {sf sf' : ComicReadContentV}

/-- What a reader has loaded, and the state it is in. -/
structure Content where
  currentImageArrV : List (List String)
  zeroSectionIndex : Int
  state : State
deriving DecidableEq, Repr

def content (sf : ComicReadContentV) : Content where
  currentImageArrV := sf.currentImageArrV.value
  zeroSectionIndex := sf.zeroSectionIndex
  state := sf.state.value

/-- A successful next or previous answer, read on the content. -/
def Content.take (c : Content) (req : Request) : Content where
  currentImageArrV :=
    insertAt c.currentImageArrV req.block.side
      req.model.partImageUrlStrArr
  zeroSectionIndex :=
    match req.block.side with
    | .front => c.zeroSectionIndex + 1
    | .back => c.zeroSectionIndex
  state := .reading

theorem Content.take_comm {c : Content} {a b : Request}
    (ha : a.block ≠ .setUp) (hb : b.block ≠ .setUp) :
    (c.take a).take b = (c.take b).take a ↔
      a.block ≠ b.block ∨
        a.model.partImageUrlStrArr = b.model.partImageUrlStrArr := by
  have hend : a.block.side ≠ b.block.side ↔ a.block ≠ b.block := by
    cases hab : a.block <;> cases hbb : b.block <;> simp_all [Block.side]
  rw [← hend, ← insertAt_comm]
  simp only [Content.take, Content.mk.injEq, and_true]
  constructor
  · intro ⟨harr, _⟩
    exact harr
  · intro harr
    refine ⟨harr, ?_⟩
    cases a.block.side <;> cases b.block.side <;> rfl

/-- A successful answer acts on the content as `Content.take`. -/
theorem content_answer (book : ComickBookInfo) {req : Request}
    (hreq : req ∈ sf.outstanding)
    (hb : req.block ≠ .setUp) :
    ∃ sf', readStep book sf (.answer req true) = some sf' ∧
      content sf' = (content sf).take req ∧
      sf'.outstanding = sf.outstanding.erase req := by
  refine ⟨_, if_pos hreq, ?_, ?_⟩
  all_goals
    cases hblock : req.block with
    | setUp => exact absurd hblock hb
    | loadNextDate | loadPreviousDate =>
        simp [answer, hblock, loadNextDateBlock, loadPreviousDateBlock,
          setState, onState, content, Content.take, Block.side, insertAt]

/-- The successful answers of `reqs`, in order. -/
def successes (reqs : List Request) : List ReadEvent :=
  reqs.map fun req => .answer req true

theorem content_successes {reqs : List Request}
    (hsub : reqs.Subperm sf.outstanding)
    (hb : ∀ req ∈ reqs, req.block ≠ .setUp) :
    (run (readStep book) sf (successes reqs)).map content =
      some (reqs.foldl Content.take (content sf)) := by
  induction reqs generalizing sf with
  | nil => rfl
  | cons req reqs ih =>
      obtain ⟨sf', hs, hcontent, hout⟩ := content_answer book
        (hsub.subset List.mem_cons_self) (hb req List.mem_cons_self)
      have hsub' : reqs.Subperm sf'.outstanding := by
        rw [hout]
        simpa using hsub.erase req
      have ih' := ih hsub' fun r hr => hb r (List.mem_cons_of_mem _ hr)
      rw [successes, List.map_cons, run, hs, Option.bind_some,
        List.foldl_cons, ← hcontent]
      exact ih'

/-- Any loads in flight, answered successfully in any two orders, leave the
same content. -/
def AnswersCommute (book : ComickBookInfo) (sf : ComicReadContentV) : Prop :=
  ∀ reqs reqs', reqs.Subperm sf.outstanding → reqs.Perm reqs' →
    (∀ req ∈ reqs, req.block ≠ .setUp) →
    ∃ c, (run (readStep book) sf (successes reqs)).map content = some c ∧
      (run (readStep book) sf (successes reqs')).map content = some c

/-- The loads in flight in one direction all bring the same array. -/
def OneArray (sf : ComicReadContentV) : Prop :=
  ∀ a ∈ sf.outstanding, ∀ b ∈ sf.outstanding, a.block ≠ .setUp →
    a.block = b.block →
      a.model.partImageUrlStrArr = b.model.partImageUrlStrArr

theorem answersCommute_iff : AnswersCommute book sf ↔ OneArray sf := by
  constructor
  · intro hall a ha b hb hset hblock
    by_cases hab : a = b
    · rw [hab]
    · have hb' : b ∈ sf.outstanding.erase a :=
        (List.mem_erase_of_ne (Ne.symm hab)).mpr hb
      have hsub : [a, b].Subperm sf.outstanding := by
        refine List.Subperm.trans ?_ (List.perm_cons_erase ha).symm.subperm
        exact (List.subperm_cons a).mpr (List.singleton_subperm_iff.mpr hb')
      have hset' : ∀ req ∈ [a, b], req.block ≠ .setUp := by
        intro req hreq
        rcases List.mem_pair.mp hreq with rfl | rfl
        · exact hset
        · exact hblock ▸ hset
      obtain ⟨c, hc, hc'⟩ := hall [a, b] [b, a] hsub (.swap b a []) hset'
      rw [content_successes hsub hset'] at hc
      rw [content_successes ((List.Perm.swap a b []).subperm.trans hsub)
        fun req hreq => hset' req (by simpa [or_comm] using hreq)] at hc'
      have hcomm := Option.some.inj (hc.trans hc'.symm)
      exact ((Content.take_comm hset (hblock ▸ hset)).mp hcomm).resolve_left
        (not_not.mpr hblock)
  · intro hone reqs reqs' hsub hperm hset
    refine ⟨_, content_successes hsub hset, ?_⟩
    rw [content_successes (hperm.symm.subperm.trans hsub)
      fun req hreq => hset req (hperm.mem_iff.mpr hreq)]
    congr 1
    refine (hperm.foldl_eq' ?_ _).symm
    intro a ha b hb c
    refine (Content.take_comm (hset a ha) (hset b hb)).mpr ?_
    by_cases hblock : a.block = b.block
    · exact Or.inr (hone a (hsub.subset ha) b (hsub.subset hb) (hset a ha)
        hblock)
    · exact Or.inl hblock

/-- A transition that starts a load while loads of the same direction are out
starts it for a part with the page array those will bring. -/
def SingleArray (book : ComickBookInfo) (sf : ComicReadContentV) :
    ReadEvent → Prop
  | .didEndDisplaying q =>
      ∀ block ∈ [Block.loadNextDate, Block.loadPreviousDate],
        Starts book sf q block → ∀ req ∈ sf.outstanding, req.block = block →
          req.model.partImageUrlStrArr = pages book sf.neighbourIndex
  | _ => True

instance : {e : ReadEvent} → Decidable (SingleArray book sf e)
  | .answer _ _ | .willDisplay _ => inferInstanceAs (Decidable True)
  | .didEndDisplaying _ =>
      inferInstanceAs (Decidable (∀ block ∈ [_, _], _ → ∀ req ∈ _, _ → _))

theorem Opening.oneArray (hO : Opening book start h sf) : OneArray sf := by
  intro a ha b _ hset
  obtain ⟨model, -, -, rfl⟩ := hO.mem_outstanding ha
  exact absurd rfl hset

theorem oneArray_openedBy {model : ComickPartInfo}
    (hout : sf.outstanding = [⟨.setUp, start, model⟩]) :
    OneArray (openedBy book sf ⟨.setUp, start, model⟩) := by
  intro a ha b hb _ hblock
  obtain ⟨hap, hai⟩ := mem_openedBy hout ha
  obtain ⟨hbp, -⟩ := mem_openedBy hout hb
  have hindex : a.index = b.index := by
    rcases hai with ⟨hnext, hindex, -⟩ | ⟨hprev, hindex⟩
    · rw [hindex, (next_openedBy hout hb (hblock ▸ hnext)).1]
    · rw [hindex, previous_openedBy hout hb (hblock ▸ hprev)]
  rw [hindex, hbp, Option.some.injEq] at hap
  rw [hap]

theorem OneArray.step (hone : OneArray sf) {e : ReadEvent}
    (hok : SingleArray book sf e) (hc : LoadedCase book sf e sf') :
    OneArray sf' := by
  have herase : ∀ {r : Request}, ∀ a ∈ sf.outstanding.erase r,
      ∀ b ∈ sf.outstanding.erase r, a.block ≠ .setUp → a.block = b.block →
        a.model.partImageUrlStrArr = b.model.partImageUrlStrArr :=
    fun a ha b hb => hone a (List.mem_of_mem_erase ha) b
      (List.mem_of_mem_erase hb)
  cases hc with
  | appended req hreq hb => exact herase
  | prepended req hreq hb => exact herase
  | failed req hreq hb => exact herase
  | displayed p hitem => exact hone
  | ignored q hw => exact hone
  | landed q p arr hw hne harr =>
      have hland := landing_eq_some hw hne harr
      -- A load this transition starts brings the neighbour's array.
      have hnew : ∀ r, r ∈ started book sf p arr r.block →
          r.model.partImageUrlStrArr = pages book sf.neighbourIndex ∧
            r.block ∈ [Block.loadNextDate, Block.loadPreviousDate] ∧
            Starts book sf q r.block := by
        intro r hr
        obtain ⟨htaken, -, -, hp⟩ := mem_started.mp hr
        refine ⟨(pages_of_part hp).symm, ?_,
          (starts_iff hland).mpr (List.ne_nil_of_mem hr)⟩
        cases hb : r.block with
        | setUp => exact absurd hb htaken.ne_setUp
        | loadNextDate | loadPreviousDate => simp
      intro a ha b hb hset hblock
      rcases mem_landedOn.mp ha with ha | ha <;>
        rcases mem_landedOn.mp hb with hb | hb
      · exact hone a ha b hb hset hblock
      · obtain ⟨hpb, hmem, hstarts⟩ := hnew b hb
        rw [hpb]
        exact hok _ hmem hstarts a ha hblock
      · obtain ⟨hpa, hmem, hstarts⟩ := hnew a ha
        rw [hpa]
        exact (hok _ hmem hstarts b hb hblock.symm).symm
      · rw [(hnew a ha).1, (hnew b hb).1]

/-- A transition that leads to a reader with one array in flight for each
direction has met `SingleArray`. -/
theorem singleArray_of_oneArray {e : ReadEvent}
    (hc : ReadCase book sf e sf') (hone : OneArray sf') :
    SingleArray book sf e := by
  cases e with
  | answer req success => trivial
  | willDisplay p => trivial
  | didEndDisplaying q =>
      intro block hmem hs req hreq hb
      cases hc with
      | loaded hc =>
          cases hc with
          | ignored _ hw => exact absurd hs (not_starts (landing_eq_none hw))
          | landed _ p arr hw hne harr =>
              have hland := landing_eq_some hw hne harr
              obtain ⟨r, hr⟩ :=
                List.exists_mem_of_ne_nil _ ((starts_iff hland).mp hs)
              obtain ⟨-, hrb, -, hrp⟩ := mem_started.mp hr
              have hr' : r ∈ (landedOn book sf q p arr).outstanding :=
                mem_landedOn.mpr (Or.inr (hrb ▸ hr))
              have hreq' : req ∈ (landedOn book sf q p arr).outstanding :=
                mem_landedOn.mpr (Or.inl hreq)
              rw [pages_of_part hrp]
              refine hone req hreq' r hr' ?_ (hb.trans hrb.symm)
              rcases List.mem_pair.mp hmem with rfl | rfl <;> simp [hb]

theorem oneArray_of_run {es : List ReadEvent}
    (hr : readRunWhere (SingleArray book) book start es = some sf) :
    OneArray sf := by
  have hI := read_induction (E := fun _ sf => OneArray sf)
    (fun h sf model _ _ hout _ => oneArray_openedBy hout)
    (fun h sf e sf' _ hone hok hc => hone.step hok hc) hr
  rcases hI with hO | ⟨-, hone⟩
  · exact hO.oneArray
  · exact hone

/-- The answers commute in every state of a run if and only if every step of
the run meets `SingleArray`. -/
theorem answers_commute_iff {es : List ReadEvent}
    (hr : readRun book start es = some sf) :
    (∀ pre u, pre <+: es → readRun book start pre = some u →
        AnswersCommute book u) ↔
      readRunWhere (SingleArray book) book start es = some sf := by
  refine run_restrict_iff_forall (SingleArray book)
    (fun _ u => AnswersCommute book u) hr ?_ ?_
  · intro pre u _ hu
    exact answersCommute_iff.mpr (oneArray_of_run hu)
  · intro pre u e v _ _ hs _ hcomm
    exact singleArray_of_oneArray (readCase_of_readStep hs)
      (answersCommute_iff.mp hcomm)

theorem answers_commute_iff_readOn :
    ∃ sf, readRun threeParts 1 readOn = some sf ∧
      ((∀ pre u, pre <+: readOn → readRun threeParts 1 pre = some u →
          AnswersCommute threeParts u) ↔
        readRunWhere (SingleArray threeParts) threeParts 1 readOn =
          some sf) := by
  obtain ⟨sf, hr⟩ : ∃ sf, readRun threeParts 1 readOn = some sf :=
    Option.isSome_iff_exists.mp (by decide)
  exact ⟨sf, hr, answers_commute_iff hr⟩

/-- The last page and then the first page of the opened part, with the
previous load of set-up still out: the scroll back asks for the newest part,
in front, while the oldest is on its way there. -/
def twoPrevious : List ReadEvent :=
  [.answer ⟨.setUp, 1, middle⟩ true,
    .willDisplay ⟨0, 1⟩, .didEndDisplaying ⟨0, 0⟩,
    .willDisplay ⟨0, 0⟩, .didEndDisplaying ⟨0, 1⟩]

theorem answers_differ_twoPrevious :
    ∃ sf, readRun threeParts 1 twoPrevious = some sf ∧
      ⟨.loadPreviousDate, 2, oldest⟩ ∈ sf.outstanding ∧
      ⟨.loadPreviousDate, 0, newest⟩ ∈ sf.outstanding ∧
      (run (readStep threeParts) sf (successes
        [⟨.loadPreviousDate, 2, oldest⟩, ⟨.loadPreviousDate, 0, newest⟩])).map
          content ≠
        (run (readStep threeParts) sf (successes
          [⟨.loadPreviousDate, 0, newest⟩, ⟨.loadPreviousDate, 2, oldest⟩])).map
          content :=
  ⟨_, rfl, by decide, by decide, by decide⟩

end ComicReadContentV

end ComicReader
