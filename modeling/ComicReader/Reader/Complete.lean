import ComicReader.Lib.Sections
import ComicReader.Reader.Range

/-!
# Reading to the ends of the book

A reader that has stopped loading on the last loaded page should have loaded
everything after the part it was opened at, and on the first loaded page
everything before it. This file settles both for runs in which every answer
succeeds.

Towards the next parts the argument is `ReadsForward`: everything from the
opened part down to `neighbourIndex` is loaded, and whenever the reader landed
on the last page there is a next load in flight or nothing left to ask for.
It needs that next loads do not overlap and that no part but the very last
one is empty, which is what `ReadsOn` asks of the steps.

Towards the previous parts there is nothing to induct on: `neighbourIndex` is
below the opened part for ever, so the one part above it that is ever asked
for is the one set-up asks for (`LoadsAbove`).
-/

namespace ComicReader

open Lib

namespace ComicReadContentV

variable {book : ComickBookInfo} {start : Int} {h : ReadHistory}
  {sf sf' : ComicReadContentV}

/-- The event is not a failed answer. -/
def Succeeds : ReadEvent → Prop
  | .answer _ success => success = true
  | _ => True

/-- The event keeps the way to the next parts open: answers succeed, a part
that is put last has pages unless it is part 0, and a next load is started
only when none is out. -/
def ReadsOn (book : ComickBookInfo) (sf : ComicReadContentV) :
    ReadEvent → Prop
  | .answer req success => success = true ∧
      (req.block ≠ .loadPreviousDate → 1 ≤ req.index →
        req.model.partImageUrlStrArr ≠ [])
  | .willDisplay _ => True
  | .didEndDisplaying q => NextAlone book sf (.didEndDisplaying q)

instance : {e : ReadEvent} → Decidable (Succeeds e)
  | .answer _ success => inferInstanceAs (Decidable (success = true))
  | .willDisplay _ | .didEndDisplaying _ => inferInstanceAs (Decidable True)

instance : {e : ReadEvent} → Decidable (ReadsOn book sf e)
  | .answer _ _ => inferInstanceAs (Decidable (_ ∧ (_ → _ → _)))
  | .willDisplay _ => inferInstanceAs (Decidable True)
  | .didEndDisplaying q =>
      inferInstanceAs (Decidable (NextAlone book sf (.didEndDisplaying q)))

theorem ReadsOn.succeeds {e : ReadEvent} (hok : ReadsOn book sf e) :
    Succeeds e := by
  cases e with
  | answer req success => exact hok.1
  | willDisplay p => trivial
  | didEndDisplaying q => trivial

/-! ## Towards the next parts -/

structure ReadsForward (book : ComickBookInfo) (start : Int)
    (h : ReadHistory) (sf : ComicReadContentV) : Prop where
  lower : -1 ≤ sf.neighbourIndex
  /-- Everything from the opened part down is loaded, and comes last. -/
  read : ∀ i, sf.neighbourIndex < i → i ≤ start → i ∈ h.filled
  last : h.filled.getLast? = some (sf.neighbourIndex + 1)
  lastPages : 0 ≤ sf.neighbourIndex →
    pages book (sf.neighbourIndex + 1) ≠ []
  next : ∀ req ∈ sf.outstanding, req.block = .loadNextDate →
    req.index = sf.neighbourIndex
  one : inFlight .loadNextDate sf.outstanding ≤ 1
  /-- The loading mark stands for a load in flight, or nothing is left. -/
  marked : sf.state.value.isLoadNextDate = true → sf.neighbourIndex < 0 ∨
    0 < inFlight .loadNextDate sf.outstanding
  landed : ∀ p, h.landed = some p →
    IsLastPage sf.currentImageArrV.value p.section p.row →
      sf.neighbourIndex < 0 ∨ 0 < inFlight .loadNextDate sf.outstanding

theorem readsForward_openedBy (hO : Opening book start h sf)
    {model : ComickPartInfo} (hm : getIndexComicPart book start = some model)
    (hout : sf.outstanding = [⟨.setUp, start, model⟩])
    (hok : ReadsOn book sf (.answer ⟨.setUp, start, model⟩ true)) :
    ReadsForward book start
      (h.record (.answer ⟨.setUp, start, model⟩ true))
      (openedBy book sf ⟨.setUp, start, model⟩) := by
  obtain rfl := hO.history
  have hbounds := getIndexComicPart_bounds hm
  have hneighbour :
      (openedBy book sf ⟨.setUp, start, model⟩).neighbourIndex = start - 1 :=
    neighbourIndex_openedBy
  refine ⟨?_, ?_, ?_, ?_, ?_, ?_, ?_, ?_⟩
  · rw [hneighbour]
    omega
  · intro i hlo hhi
    rw [hneighbour] at hlo
    obtain rfl : i = start := by omega
    simp [ReadHistory.record]
  · simp [ReadHistory.record]
  · intro hlo
    rw [hneighbour] at hlo ⊢
    rw [Int.sub_add_cancel, pages_of_part hm]
    exact hok.2 (by simp) (show 1 ≤ start by omega)
  · intro req hreq hb
    rw [(next_openedBy hout hreq hb).1, hneighbour]
  · rw [outstanding_openedBy hout, inFlight_append,
      inFlight_requestFor_of_ne (show Block.loadPreviousDate ≠ _ by decide)]
    split
    · exact inFlight_requestFor_le_one
    · simp [inFlight]
  · intro hmark
    cases hmark
  · intro p hp
    cases hp

/-- When the last section has pages, the last loaded page is its last row. -/
theorem Loaded.atLastPage_of_isLastPage (hL : Loaded book start h sf)
    (hF : ReadsForward book start h sf) (hlo : 0 ≤ sf.neighbourIndex)
    {p : IndexPath} {arr : List String}
    (harr : sf.currentImageArrV.value[p.section]? = some arr)
    (hlast : IsLastPage sf.currentImageArrV.value p.section p.row) :
    atLastPage sf p arr := by
  obtain ⟨front, hfilled⟩ := List.getLast?_eq_some_iff.mp hF.last
  have hsections : sf.currentImageArrV.value =
      front.map (pages book) ++ [pages book (sf.neighbourIndex + 1)] := by
    rw [hL.sections, hfilled, List.map_append, List.map_singleton]
  rw [hsections] at hlast harr
  obtain ⟨hsec, hrow⟩ := hlast.of_ne_nil (hF.lastPages hlo)
  rw [hsec, List.getElem?_append_right (Nat.le_refl _), Nat.sub_self,
    List.getElem?_cons_zero, Option.some.injEq] at harr
  refine ⟨?_, harr ▸ hrow⟩
  rw [hsections, List.length_append, List.length_singleton, hsec]

/-- A transition that asks for the next part gets it, unless the first part
of the book is loaded already. -/
theorem Loaded.nextTaken_starts (hL : Loaded book start h sf)
    (hF : ReadsForward book start h sf) (hlo : 0 ≤ sf.neighbourIndex)
    {p : IndexPath} {arr : List String} (hnext : NextTaken sf p arr) :
    ∃ req, req ∈ started book sf p arr .loadNextDate := by
  have hupper := hL.neighbour
  have hstart := hL.parts start (hF.read start (by omega) (Int.le_refl _))
  obtain ⟨model, hm⟩ : ∃ model,
      getIndexComicPart book sf.neighbourIndex = some model :=
    getIndexComicPart_of_mem ⟨hlo, by omega⟩
  exact ⟨⟨.loadNextDate, sf.neighbourIndex, model⟩,
    mem_started.mpr ⟨hnext, rfl, rfl, hm⟩⟩

theorem ReadsForward.step (hF : ReadsForward book start h sf)
    (hL : Loaded book start h sf) {e : ReadEvent} (hok : ReadsOn book sf e)
    (hc : LoadedCase book sf e sf') :
    ReadsForward book start (h.record e) sf' := by
  have hlower := hF.lower
  cases hc with
  | appended req hreq hb =>
      have hindex := hF.next req hreq hb
      have hpart := (hL.requests req hreq).2
      have hbounds := getIndexComicPart_bounds hpart
      have hnone : inFlight .loadNextDate (sf.outstanding.erase req) = 0 := by
        have := inFlight_erase hreq hb
        have := hF.one
        omega
      have hpages : 1 ≤ sf.neighbourIndex →
          req.model.partImageUrlStrArr ≠ [] := fun hpos =>
        hok.2 (by simp [hb]) (hindex ▸ hpos)
      rw [ReadHistory.record_next hb]
      refine ⟨?_, ?_, ?_, ?_, ?_, ?_, ?_, ?_⟩
      · rw [neighbourIndex_appendedBy]
        omega
      · intro i hlo hhi
        rw [neighbourIndex_appendedBy] at hlo
        rw [List.mem_append, List.mem_singleton, hindex]
        by_cases hi : i = sf.neighbourIndex
        · exact Or.inr hi
        · exact Or.inl (hF.read i (by omega) hhi)
      · rw [neighbourIndex_appendedBy, List.getLast?_append]
        simp [hindex]
      · intro hlo
        rw [neighbourIndex_appendedBy] at hlo ⊢
        rw [Int.sub_add_cancel, ← hindex, pages_of_part hpart]
        exact hpages (by omega)
      · intro r hr hrb
        have hpos := inFlight_pos.mpr ⟨r, hr, hrb⟩
        simp only [appendedBy] at hpos
        omega
      · simp only [appendedBy]
        omega
      · intro hmark
        cases hmark
      · intro p hp hlast
        -- A landing page that is still the last page has nothing after it,
        -- so the appended part is empty, and only part 0 may be.
        by_cases hempty : req.model.partImageUrlStrArr = []
        · rw [neighbourIndex_appendedBy]
          refine Or.inl ?_
          by_contra hlo
          exact hpages (by omega) hempty
        · simp only [appendedBy, Variable.value_set] at hlast
          have hsec := (hlast.of_ne_nil hempty).1
          have := hL.landed p hp
          omega
  | prepended req hreq hb =>
      have hcount : inFlight .loadNextDate (sf.outstanding.erase req) =
          inFlight .loadNextDate sf.outstanding :=
        inFlight_erase_of_ne hreq (by simp [hb])
      rw [ReadHistory.record_previous hb]
      refine ⟨?_, ?_, ?_, ?_, ?_, ?_, ?_, ?_⟩
      · rwa [neighbourIndex_prependedBy]
      · intro i hlo hhi
        rw [neighbourIndex_prependedBy] at hlo
        exact List.mem_cons_of_mem _ (hF.read i hlo hhi)
      · rw [neighbourIndex_prependedBy, ← hF.last]
        exact List.getLast?_cons_of_ne_nil hL.filled_ne
      · rw [neighbourIndex_prependedBy]
        exact hF.lastPages
      · intro r hr hrb
        rw [neighbourIndex_prependedBy]
        exact hF.next r (List.mem_of_mem_erase hr) hrb
      · simp only [prependedBy, hcount]
        exact hF.one
      · intro hmark
        cases hmark
      · intro p hp hlast
        obtain ⟨p', hp', rfl⟩ := Option.map_eq_some_iff.mp hp
        rw [neighbourIndex_prependedBy]
        simp only [prependedBy, hcount]
        exact hF.landed p' hp' (isLastPage_cons.mp hlast)
  | failed req hreq hb => cases hok.1
  | displayed p hitem =>
      exact ⟨hF.lower, hF.read, hF.last, hF.lastPages, hF.next,
        hF.one, hF.marked, hF.landed⟩
  | ignored q hw =>
      rw [ReadHistory.record_ignored (hL.willShown ▸ hw)]
      exact ⟨hF.lower, hF.read, hF.last, hF.lastPages, hF.next,
        hF.one, hF.marked, hF.landed⟩
  | landed q p arr hw hne harr =>
      have hland := landing_eq_some hw hne harr
      have hle := inFlight_landedOn_le book
        (show Block.loadNextDate ≠ _ by decide) hland
      have hmono : inFlight .loadNextDate sf.outstanding ≤
          inFlight .loadNextDate (landedOn book sf q p arr).outstanding := by
        simp only [landedOn, inFlight_append]
        omega
      have htaken : NextTaken sf p arr → sf.neighbourIndex < 0 ∨
          0 < inFlight .loadNextDate
            (landedOn book sf q p arr).outstanding := by
        intro hnext
        by_cases hlo : sf.neighbourIndex < 0
        · exact Or.inl hlo
        · refine Or.inr (inFlight_pos.mpr ?_)
          obtain ⟨req, hreq⟩ := hL.nextTaken_starts hF (by omega) hnext
          have hb := (mem_started.mp hreq).2.1
          exact ⟨req, mem_landedOn.mpr (Or.inr (hb ▸ hreq)), hb⟩
      rw [ReadHistory.record_landed (hL.willShown ▸ hw) hne]
      refine ⟨hlower, hF.read, hF.last, hF.lastPages, ?_, ?_, ?_, ?_⟩
      · intro r hr hrb
        rcases mem_landedOn.mp hr with hr | hr
        · exact hF.next r hr hrb
        · exact (mem_started.mp hr).2.2.1
      · have hone := hF.one
        split at hle
        · next hs =>
            have hnone : inFlight .loadNextDate sf.outstanding = 0 := by
              by_contra hpos
              obtain ⟨r, hr, hrb⟩ := inFlight_pos.mp
                (Nat.pos_of_ne_zero hpos)
              exact hok hs r hr hrb
            omega
        · omega
      · intro hmark
        by_cases hnext : NextTaken sf p arr
        · exact htaken hnext
        · have hmark' : sf.state.value.isLoadNextDate = true := by
            simp only [landedOn, hnext, if_false] at hmark
            split at hmark
            · cases hmark
            · exact hmark
          exact (hF.marked hmark').imp_right fun h => by omega
      · intro p' hp' hlast
        obtain rfl : p = p' := Option.some.inj hp'
        by_cases hlo : sf.neighbourIndex < 0
        · exact Or.inl hlo
        by_cases hmark : sf.state.value.isLoadNextDate = true
        · exact (hF.marked hmark).imp_right fun h => by omega
        · exact htaken ⟨hL.atLastPage_of_isLastPage hF (by omega) harr hlast,
            by simpa using hmark⟩

/-! ## Towards the previous parts -/

/-- No part above `start + 1` is loaded or asked for, and part `start + 1` is
one or the other if the book has it. -/
structure LoadsAbove (book : ComickBookInfo) (start : Int)
    (h : ReadHistory) (sf : ComicReadContentV) : Prop where
  filled : ∀ i ∈ h.filled, i ≤ start + 1
  requests : ∀ req ∈ sf.outstanding, req.index ≤ start + 1
  one : start + 1 < book.bookPartArray.length → start + 1 ∈ h.filled ∨
    ∃ req ∈ sf.outstanding, req.index = start + 1

theorem loadsAbove_openedBy {model : ComickPartInfo}
    (hout : sf.outstanding = [⟨.setUp, start, model⟩])
    (hm : getIndexComicPart book start = some model) :
    LoadsAbove book start (h.record (.answer ⟨.setUp, start, model⟩ true))
      (openedBy book sf ⟨.setUp, start, model⟩) := by
  have hbounds := getIndexComicPart_bounds hm
  refine ⟨?_, ?_, ?_⟩
  · intro i hi
    obtain rfl : i = start := by simpa [ReadHistory.record] using hi
    omega
  · intro req hreq
    rcases (mem_openedBy hout hreq).2 with ⟨-, hindex, -⟩ | ⟨-, hindex⟩
    all_goals omega
  · intro hN
    obtain ⟨m, hpart⟩ : ∃ m, getIndexComicPart book (start + 1) = some m :=
      getIndexComicPart_of_mem ⟨by omega, hN⟩
    have hreq : ⟨.loadPreviousDate, start + 1, m⟩ ∈
        requestFor book .loadPreviousDate (start + 1) :=
      mem_requestFor.mpr ⟨rfl, rfl, hpart⟩
    exact Or.inr ⟨_, List.mem_append_right _ hreq, rfl⟩

/-- Whatever a successful answer takes out of the loads in flight, it puts
into the filled sections. -/
theorem LoadsAbove.one_answered (hA : LoadsAbove book start h sf)
    {req : Request} {filled : List Int} (hmem : req.index ∈ filled)
    (hsub : ∀ i ∈ h.filled, i ∈ filled)
    (hN : start + 1 < book.bookPartArray.length) :
    start + 1 ∈ filled ∨
      ∃ r ∈ sf.outstanding.erase req, r.index = start + 1 := by
  rcases hA.one hN with hin | ⟨r, hr, hri⟩
  · exact Or.inl (hsub _ hin)
  · by_cases hrr : r = req
    · exact Or.inl (hri ▸ hrr ▸ hmem)
    · exact Or.inr ⟨r, (List.mem_erase_of_ne hrr).mpr hr, hri⟩

theorem LoadsAbove.step (hA : LoadsAbove book start h sf)
    (hL : Loaded book start h sf) {e : ReadEvent} (hok : Succeeds e)
    (hc : LoadedCase book sf e sf') :
    LoadsAbove book start (h.record e) sf' := by
  have hneighbour := hL.neighbour
  cases hc with
  | appended req hreq hb =>
      rw [ReadHistory.record_next hb]
      refine ⟨?_, ?_, ?_⟩
      · intro i hi
        rcases List.mem_append.mp hi with hi | hi
        · exact hA.filled i hi
        · rw [List.mem_singleton.mp hi]
          exact hA.requests req hreq
      · exact fun r hr => hA.requests r (List.mem_of_mem_erase hr)
      · exact hA.one_answered (by simp)
          fun i hi => List.mem_append_left _ hi
  | prepended req hreq hb =>
      rw [ReadHistory.record_previous hb]
      refine ⟨?_, ?_, ?_⟩
      · intro i hi
        rcases List.mem_cons.mp hi with rfl | hi
        · exact hA.requests req hreq
        · exact hA.filled i hi
      · exact fun r hr => hA.requests r (List.mem_of_mem_erase hr)
      · exact hA.one_answered List.mem_cons_self
          fun i hi => List.mem_cons_of_mem _ hi
  | failed req hreq hb => cases hok
  | displayed p hitem =>
      exact ⟨hA.filled, hA.requests, hA.one⟩
  | ignored q hw =>
      rw [ReadHistory.record_ignored (hL.willShown ▸ hw)]
      exact ⟨hA.filled, hA.requests, hA.one⟩
  | landed q p arr hw hne harr =>
      rw [ReadHistory.record_landed (hL.willShown ▸ hw) hne]
      refine ⟨hA.filled, ?_, ?_⟩
      · intro r hr
        rcases mem_landedOn.mp hr with hr | hr
        · exact hA.requests r hr
        · have hindex := (mem_started.mp hr).2.2.1
          omega
      · intro hN
        refine (hA.one hN).imp_right ?_
        intro ⟨r, hr, hri⟩
        exact ⟨r, mem_landedOn.mpr (Or.inl hr), hri⟩

/-- With nothing in flight, every part above the opened one is loaded if and
only if there is at most one. -/
theorem LoadsAbove.loaded_iff (hA : LoadsAbove book start h sf)
    (hquiet : sf.outstanding = []) :
    (∀ i, start < i → i < book.bookPartArray.length → i ∈ h.filled) ↔
      (book.bookPartArray.length : Int) ≤ start + 2 := by
  constructor
  · intro hall
    by_contra hN
    have := hA.filled _ (hall (start + 2) (by omega) (by omega))
    omega
  · intro hN i hlo hhi
    obtain rfl : i = start + 1 := by omega
    rcases hA.one hhi with hin | ⟨r, hr, -⟩
    · exact hin
    · rw [hquiet] at hr
      cases hr

/-! ## Runs -/

/-- With nothing in flight, a reader on the last loaded page has loaded every
part after the opened one, and on the first loaded page every part before
it. -/
def ReadingComplete (book : ComickBookInfo) (start : Int) (h : ReadHistory)
    (sf : ComicReadContentV) : Prop :=
  sf.outstanding = [] → ∀ p, h.landed = some p →
    (IsLastPage sf.currentImageArrV.value p.section p.row →
      ∀ i, 0 ≤ i → i < start → i ∈ h.filled) ∧
    (IsFirstPage sf.currentImageArrV.value p.section p.row →
      ∀ i, start < i → i < book.bookPartArray.length → i ∈ h.filled)

theorem ReadsForward.loaded (hF : ReadsForward book start h sf)
    (hquiet : sf.outstanding = []) {p : IndexPath} (hp : h.landed = some p)
    (hlast : IsLastPage sf.currentImageArrV.value p.section p.row) (i : Int)
    (hlo : 0 ≤ i) (hhi : i < start) : i ∈ h.filled := by
  rcases hF.landed p hp hlast with hneighbour | hpos
  · exact hF.read i (by omega) (by omega)
  · simp [hquiet, inFlight] at hpos

/-- Along a run that reads on, reading is complete if and only if, where the
user comes to rest on the first loaded page, the book has at most one part
before the opened one. -/
theorem reading_complete_iff {es : List ReadEvent}
    (hr : readRunWhere (ReadsOn book) book start es = some sf) :
    ReadingComplete book start (ReadHistory.after es) sf ↔
      (sf.outstanding = [] → ∀ p, (ReadHistory.after es).landed = some p →
        IsFirstPage sf.currentImageArrV.value p.section p.row →
          (book.bookPartArray.length : Int) ≤ start + 2) := by
  have hI := read_induction
    (E := fun h sf => ReadsForward book start h sf ∧
      LoadsAbove book start h sf)
    (fun h sf model hO hm hout hok =>
      ⟨readsForward_openedBy hO hm hout hok, loadsAbove_openedBy hout hm⟩)
    (fun h sf e sf' hL hI hok hc =>
      ⟨hI.1.step hL hok hc, hI.2.step hL hok.succeeds hc⟩) hr
  rcases hI with hO | ⟨hL, hF, hA⟩
  · have hnone : (ReadHistory.after es).landed = none := by
      rw [hO.history]
      rfl
    simp [ReadingComplete, hnone]
  · constructor
    · intro hcomplete hquiet p hp hfirst
      exact (hA.loaded_iff hquiet).mp
        ((hcomplete hquiet p hp).2 hfirst)
    · intro hN hquiet p hp
      refine ⟨hF.loaded hquiet hp, ?_⟩
      intro hfirst
      exact (hA.loaded_iff hquiet).mpr (hN hquiet p hp hfirst)

theorem reading_complete_iff_readOn :
    ∃ sf, readRunWhere (ReadsOn threeParts) threeParts 1 readOn = some sf ∧
      (ReadingComplete threeParts 1 (ReadHistory.after readOn) sf ↔
        (sf.outstanding = [] → ∀ p,
          (ReadHistory.after readOn).landed = some p →
          IsFirstPage sf.currentImageArrV.value p.section p.row →
            (threeParts.bookPartArray.length : Int) ≤ 1 + 2)) := by
  obtain ⟨sf, hr⟩ : ∃ sf,
      readRunWhere (ReadsOn threeParts) threeParts 1 readOn = some sf :=
    Option.isSome_iff_exists.mp (by decide)
  exact ⟨sf, hr, reading_complete_iff hr⟩

/-- Opened at the newest part, with the one before it loaded by set-up, the
user goes back to the first page: nothing is asked for, and the oldest part
is never loaded. -/
def backToFirst : List ReadEvent :=
  [.answer ⟨.setUp, 0, newest⟩ true,
    .answer ⟨.loadPreviousDate, 1, middle⟩ true,
    .willDisplay ⟨0, 0⟩, .didEndDisplaying ⟨0, 1⟩]

theorem reading_incomplete_backToFirst :
    ∃ sf, readRun threeParts 0 backToFirst = some sf ∧
      (∀ e ∈ backToFirst, Succeeds e) ∧
      ¬ ReadingComplete threeParts 0 (ReadHistory.after backToFirst) sf := by
  refine ⟨_, rfl, by decide, ?_⟩
  intro hcomplete
  have hloaded := (hcomplete (by decide) ⟨0, 0⟩ (by decide)).2 (by decide) 2
    (by decide) (by decide)
  exact absurd hloaded (by decide)

end ComicReadContentV

end ComicReader
