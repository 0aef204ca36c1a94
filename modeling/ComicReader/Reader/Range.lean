import ComicReader.Reader.Orderly
import ComicReader.Source.ReadVC

/-!
# When the part title's subscript is safe

`currentReadIndex` is written with `zeroSectionIndex - section`, and every
value written is used as a subscript of the part list. It stays in range as
long as the labels of the sections do, and for that it does not matter which
parts were loaded, only how many. `RoomToLoad` is that count: a load is
started only while fewer loads of its direction are in flight than parts are
left beyond the label of the section it will be put next to.
-/

namespace ComicReader

open Lib

namespace ComicReadContentV

variable {book : ComickBookInfo} {start : Int} {h : ReadHistory}
  {sf sf' : ComicReadContentV}

/-- The number of loads in flight that wait with `block`. -/
def inFlight (block : Block) (out : List Request) : Nat :=
  out.countP fun req => req.block = block

theorem inFlight_append {block : Block} {out out' : List Request} :
    inFlight block (out ++ out') = inFlight block out + inFlight block out' :=
  List.countP_append

theorem inFlight_erase {block : Block} {out : List Request} {req : Request}
    (hreq : req ∈ out) (hb : req.block = block) :
    inFlight block (out.erase req) + 1 = inFlight block out := by
  rw [inFlight, inFlight, (List.perm_cons_erase hreq).countP_eq,
    List.countP_cons_of_pos (by simp [hb])]

theorem inFlight_erase_of_ne {block : Block} {out : List Request}
    {req : Request} (hreq : req ∈ out) (hb : req.block ≠ block) :
    inFlight block (out.erase req) = inFlight block out := by
  rw [inFlight, inFlight, (List.perm_cons_erase hreq).countP_eq,
    List.countP_cons_of_neg (by simp [hb])]

theorem inFlight_pos {block : Block} {out : List Request} :
    0 < inFlight block out ↔ ∃ req ∈ out, req.block = block := by
  simp [inFlight, List.countP_pos_iff]

theorem inFlight_erase_le {block : Block} {out : List Request}
    {req : Request} : inFlight block (out.erase req) ≤ inFlight block out :=
  List.erase_sublist.countP_le

theorem inFlight_requestFor_of_ne {block block' : Block} {index : Int}
    (hne : block' ≠ block) :
    inFlight block (requestFor book block' index) = 0 := by
  rcases requestFor_cases book block' index with hnil | ⟨m, _, hsing⟩
  · simp [hnil, inFlight]
  · simp [hsing, inFlight, hne]

theorem inFlight_requestFor_le_one {block : Block} {index : Int} :
    inFlight block (requestFor book block index) ≤ 1 := by
  rcases requestFor_cases book block index with hnil | ⟨m, _, hsing⟩
  · simp [hnil, inFlight]
  · simp [hsing, inFlight]

/-- A part is only asked for if it exists, so a fresh load needs one part at
or below its index and one above the last index before it. -/
theorem inFlight_requestFor_bounds (book : ComickBookInfo) (block : Block)
    (index : Int) :
    (-1 ≤ index →
      (inFlight block (requestFor book block index) : Int) ≤ index + 1) ∧
    (index ≤ book.bookPartArray.length →
      index + inFlight block (requestFor book block index) ≤
        book.bookPartArray.length) := by
  rcases requestFor_cases book block index with hnil | ⟨m, hm, hsing⟩
  · rw [hnil, inFlight, List.countP_nil]
    omega
  · have hbounds := getIndexComicPart_bounds hm
    have hone : inFlight block (requestFor book block index) ≤ 1 :=
      inFlight_requestFor_le_one
    omega

theorem inFlight_started_of_ne {block block' : Block} (hne : block' ≠ block)
    {p : IndexPath} {arr : List String} :
    inFlight block (started book sf p arr block') = 0 := by
  unfold started
  split
  · exact inFlight_requestFor_of_ne hne
  · rfl

/-- A transition adds at most one load of a direction, and only if it starts
one. -/
theorem inFlight_landedOn_le (book : ComickBookInfo) {q p : IndexPath}
    {arr : List String} {block : Block} (hblock : block ≠ .setUp)
    (hland : sf.landing q = some (p, arr)) :
    inFlight block (landedOn book sf q p arr).outstanding ≤
      inFlight block sf.outstanding +
        if Starts book sf q block then 1 else 0 := by
  have hstart : inFlight block (started book sf p arr block) ≤
      if Starts book sf q block then 1 else 0 := by
    rcases started_cases book sf p arr block with hnil | ⟨m, _, hsing⟩
    · simp [hnil, inFlight]
    · rw [if_pos ((starts_iff hland).mpr (by simp [hsing])), hsing]
      simp [inFlight]
  simp only [landedOn, inFlight_append]
  cases block with
  | setUp => exact absurd rfl hblock
  | loadNextDate =>
      rw [inFlight_started_of_ne (show Block.loadPreviousDate ≠ _ by decide)]
      omega
  | loadPreviousDate =>
      rw [inFlight_started_of_ne (show Block.loadNextDate ≠ _ by decide)]
      omega

/-- A load is started only while fewer loads of its direction are out than
parts are left in that direction. -/
def RoomToLoad (book : ComickBookInfo) (sf : ComicReadContentV) :
    ReadEvent → Prop
  | .didEndDisplaying q =>
      (Starts book sf q .loadNextDate →
        inFlight .loadNextDate sf.outstanding < sf.neighbourIndex + 1) ∧
      (Starts book sf q .loadPreviousDate →
        inFlight .loadPreviousDate sf.outstanding <
          book.bookPartArray.length - 1 - sf.zeroSectionIndex)
  | _ => True

instance : {e : ReadEvent} → Decidable (RoomToLoad book sf e)
  | .answer _ _ | .willDisplay _ => inferInstanceAs (Decidable True)
  | .didEndDisplaying _ => inferInstanceAs (Decidable ((_ → _) ∧ (_ → _)))

/-- The labels of the sections, and those of the sections still to come, are
indices of parts; so is every value `currentReadIndex` has had. -/
structure InRange (book : ComickBookInfo) (sf : ComicReadContentV) : Prop where
  next : inFlight .loadNextDate sf.outstanding ≤ sf.neighbourIndex + 1
  previous : sf.zeroSectionIndex +
    inFlight .loadPreviousDate sf.outstanding < book.bookPartArray.length
  emitted : ∀ res ∈ sf.currentReadIndex.emitted,
    0 ≤ res ∧ res < book.bookPartArray.length

theorem inRange_openedBy (hO : Opening book start h sf)
    (hN : 0 < book.bookPartArray.length) {model : ComickPartInfo}
    (hm : getIndexComicPart book start = some model)
    (hout : sf.outstanding = [⟨.setUp, start, model⟩]) :
    InRange book (openedBy book sf ⟨.setUp, start, model⟩) := by
  obtain ⟨hlo, hhi⟩ := getIndexComicPart_bounds hm
  have hnext :=
    (inFlight_requestFor_bounds book .loadNextDate (start - 1)).1 (by omega)
  have hprev :=
    (inFlight_requestFor_bounds book .loadPreviousDate (start + 1)).2
      (by omega)
  refine ⟨?_, ?_, ?_⟩
  · rw [neighbourIndex_openedBy, outstanding_openedBy hout, inFlight_append,
      inFlight_requestFor_of_ne (show Block.loadPreviousDate ≠ _ by decide)]
    split
    · omega
    · simp only [inFlight, List.countP_nil]
      omega
  · rw [outstanding_openedBy hout, inFlight_append]
    show start + _ < _
    split
    · rw [inFlight_requestFor_of_ne (show Block.loadNextDate ≠ _ by decide)]
      omega
    · simp only [inFlight, List.countP_nil] at hprev ⊢
      omega
  · intro res hres
    have hres' : res = start ∨ res ∈ sf.currentReadIndex.emitted :=
      List.mem_cons.mp hres
    rcases hres' with rfl | hres
    · exact ⟨hlo, hhi⟩
    · rw [hO.readIndex, List.mem_singleton] at hres
      omega

/-- The label a transition to a page of section `s` writes is in range. -/
theorem InRange.label (hI : InRange book sf) {s : Nat}
    (hs : s < sf.currentImageArrV.value.length) :
    0 ≤ sf.zeroSectionIndex - s ∧
      sf.zeroSectionIndex - s < book.bookPartArray.length := by
  have hnext := hI.next
  have hprev := hI.previous
  unfold neighbourIndex at hnext
  omega

theorem InRange.step (hI : InRange book sf) (hL : Loaded book start h sf)
    {e : ReadEvent} (hok : RoomToLoad book sf e)
    (hc : LoadedCase book sf e sf') : InRange book sf' := by
  have hnext := hI.next
  have hprev := hI.previous
  have herase : ∀ block req, inFlight block (sf.outstanding.erase req) ≤
      inFlight block sf.outstanding := fun _ _ => inFlight_erase_le
  cases hc with
  | appended req hreq hb =>
      have hone := inFlight_erase hreq hb
      have hle := herase .loadPreviousDate req
      refine ⟨?_, ?_, hI.emitted⟩
      · rw [neighbourIndex_appendedBy]
        simp only [appendedBy]
        omega
      · simp only [appendedBy]
        omega
  | prepended req hreq hb =>
      have hone := inFlight_erase hreq hb
      have hle := herase .loadNextDate req
      refine ⟨?_, ?_, hI.emitted⟩
      · rw [neighbourIndex_prependedBy]
        simp only [prependedBy]
        omega
      · simp only [prependedBy]
        omega
  | failed req hreq hb =>
      have hle := herase .loadNextDate req
      have hle' := herase .loadPreviousDate req
      refine ⟨?_, ?_, hI.emitted⟩
      · simp only [neighbourIndex] at hnext ⊢
        omega
      · simp only
        omega
  | displayed p hitem => exact ⟨hI.next, hI.previous, hI.emitted⟩
  | ignored q hw => exact ⟨hI.next, hI.previous, hI.emitted⟩
  | landed q p arr hw hne harr =>
      have hland := landing_eq_some hw hne harr
      refine ⟨?_, ?_, ?_⟩
      · have hle := inFlight_landedOn_le book
          (show Block.loadNextDate ≠ _ by decide) hland
        rw [neighbourIndex_landedOn]
        split at hle
        · next hs =>
            have := hok.1 hs
            omega
        · omega
      · have hle := inFlight_landedOn_le book
          (show Block.loadPreviousDate ≠ _ by decide) hland
        have hzero : (landedOn book sf q p arr).zeroSectionIndex =
            sf.zeroSectionIndex := rfl
        rw [hzero]
        split at hle
        · next hs =>
            have := hok.2 hs
            omega
        · omega
      · intro res hres
        have hlabel := hI.label (hL.willShow p hw)
        simp only [landedOn] at hres
        split at hres
        · rcases List.mem_cons.mp hres with rfl | hres
          · exact hlabel
          · exact hI.emitted res hres
        · exact hI.emitted res hres

/-- In every run whose loads find room, every value ever written to
`currentReadIndex` is the index of a part, and the title it selects exists. -/
theorem currentReadIndex_in_range (hN : 0 < book.bookPartArray.length)
    {es : List ReadEvent}
    (hr : readRunWhere (RoomToLoad book) book start es = some sf) :
    ∀ res ∈ sf.currentReadIndex.emitted,
      (0 ≤ res ∧ res < book.bookPartArray.length) ∧
        ∃ title, ComicReadVC.partTitleText book res = some title := by
  have hrange : ∀ res ∈ sf.currentReadIndex.emitted,
      0 ≤ res ∧ res < book.bookPartArray.length := by
    have hI := read_induction (E := fun _ sf => InRange book sf)
      (fun h sf model hO hm hout _ => inRange_openedBy hO hN hm hout)
      (fun h sf e sf' hL hI hok hc => hI.step hL hok hc) hr
    rcases hI with hO | ⟨-, hI⟩
    · intro res hres
      rw [hO.readIndex, List.mem_singleton] at hres
      omega
    · exact hI.emitted
  intro res hres
  refine ⟨hrange res hres, ?_⟩
  obtain ⟨part, hpart⟩ :=
    Option.isSome_iff_exists.mp (subscript_isSome.mpr (hrange res hres))
  exact ⟨part.partTitle, by simp [ComicReadVC.partTitleText, hpart]⟩

theorem currentReadIndex_in_range_readOn :
    ∃ sf, readRunWhere (RoomToLoad threeParts) threeParts 1 readOn = some sf ∧
      ∀ res ∈ sf.currentReadIndex.emitted,
        (0 ≤ res ∧ res < threeParts.bookPartArray.length) ∧
          ∃ title, ComicReadVC.partTitleText threeParts res = some title := by
  obtain ⟨sf, hr⟩ : ∃ sf,
      readRunWhere (RoomToLoad threeParts) threeParts 1 readOn = some sf :=
    Option.isSome_iff_exists.mp (by decide)
  exact ⟨sf, hr, currentReadIndex_in_range (by decide) hr⟩

/-- After `scrolledBack` the user turns a page of the part inserted in front:
its label is one past the end of the part list. -/
theorem currentReadIndex_past_the_end :
    ∃ sf, readRun threeParts 1 (scrolledBack ++
        [.willDisplay ⟨0, 1⟩, .didEndDisplaying ⟨0, 0⟩]) = some sf ∧
      3 ∈ sf.currentReadIndex.emitted ∧
      ComicReadVC.partTitleText threeParts 3 = none :=
  ⟨_, rfl, by decide, rfl⟩

end ComicReadContentV

end ComicReader
