import ComicReader.Lib.Sections
import ComicReader.Reader.Orderly

/-!
# Which page is on screen after a neighbour has been loaded

All pages have the width of the screen and `reloadData` keeps the content
offset, so the page on screen is the one at some position `k` of the
concatenated sections, and an answer leaves `k` as it is. A section appended
leaves the page there too. A section inserted in front moves every page on by
its length, and nothing in the view makes up for it, so the page on screen
changes unless the inserted section is empty.

That it does change needs an argument, since a section that held the very
pages already on screen would hide the move. `PreviousElsewhere` rules out for
every run that it hides the move of all pages: the part a previous load is for
is either not loaded yet or comes after one that is and has pages. It can hide
that of a single page, but only where a part is loaded twice, and so not in an
orderly run (`visiblePage_kept_iff_of_orderly`).
-/

namespace ComicReader

open Lib

namespace ComicReadContentV

variable {book : ComickBookInfo} {start : Int} {h : ReadHistory}
  {sf sf' : ComicReadContentV}

/-- The page at position `k` of the concatenated sections: its part, and its
row in that part. -/
def visiblePage (h : ReadHistory) (sf : ComicReadContentV) (k : Nat) :
    Option (Int × Nat) :=
  (pageNames h.filled sf.currentImageArrV.value)[k]?

/-- The answer puts nothing in front of the page on screen. -/
def KeepsPosition (req : Request) : Prop :=
  req.block = .loadNextDate ∨ req.model.partImageUrlStrArr = []

instance {req : Request} : Decidable (KeepsPosition req) :=
  inferInstanceAs (Decidable (_ ∨ _))

theorem visiblePage_appendedBy (hL : Loaded book start h sf) {req : Request}
    (hb : req.block = .loadNextDate) {k : Nat}
    (hk : k < (pageNames h.filled sf.currentImageArrV.value).length) :
    visiblePage (h.record (.answer req true)) (appendedBy sf req) k =
      visiblePage h sf k := by
  rw [visiblePage, ReadHistory.record_next hb]
  simp only [appendedBy, Variable.value_set]
  rw [pageNames_snoc hL.length_filled, List.getElem?_append_left hk]
  rfl

theorem visiblePage_prependedBy {req : Request}
    (hb : req.block = .loadPreviousDate) {k : Nat} :
    visiblePage (h.record (.answer req true)) (prependedBy sf req) k =
      (rowNames req.index req.model.partImageUrlStrArr ++
        pageNames h.filled sf.currentImageArrV.value)[k]? := by
  rw [visiblePage, ReadHistory.record_previous hb]
  rfl

theorem rowNames_eq_nil {i : Int} {arr : List String} :
    rowNames i arr = [] ↔ arr = [] := by
  simp [rowNames]

/-! ## A previous load is for a part that is not on screen everywhere -/

/-- The opened part, or one before it, is loaded and has pages. -/
def Anchored (book : ComickBookInfo) (start : Int) (h : ReadHistory) : Prop :=
  ∃ i ∈ h.filled, start ≤ i ∧ pages book i ≠ []

theorem Anchored.mono {h' : ReadHistory} (hA : Anchored book start h)
    (hsub : ∀ i ∈ h.filled, i ∈ h'.filled) : Anchored book start h' := by
  obtain ⟨i, hi, hlo, hne⟩ := hA
  exact ⟨i, hsub i hi, hlo, hne⟩

/-- The part a previous load is for is not loaded, or comes after a part that
is on screen. -/
structure PreviousElsewhere (book : ComickBookInfo) (start : Int)
    (h : ReadHistory) (sf : ComicReadContentV) : Prop where
  filled : ∀ i ∈ h.filled, pages book i ≠ [] → Anchored book start h
  willShow : ∀ p, sf.willShowIndex.value = some p → Anchored book start h
  next : ∀ req ∈ sf.outstanding, req.block = .loadNextDate →
    req.index < start ∧ Anchored book start h
  previous : ∀ req ∈ sf.outstanding, req.block = .loadPreviousDate →
    (req.index = start + 1 ∧ start + 1 ∉ h.filled) ∨
      (req.index < start ∧ Anchored book start h)
  once : (sf.outstanding.countP fun req => req.index = start + 1) ≤ 1

theorem previousElsewhere_openedBy (hO : Opening book start h sf)
    {model : ComickPartInfo} (hm : getIndexComicPart book start = some model)
    (hout : sf.outstanding = [⟨.setUp, start, model⟩]) :
    PreviousElsewhere book start
      (h.record (.answer ⟨.setUp, start, model⟩ true))
      (openedBy book sf ⟨.setUp, start, model⟩) := by
  have hanchored : model.partImageUrlStrArr ≠ [] →
      Anchored book start (h.record (.answer ⟨.setUp, start, model⟩ true)) := by
    intro hne
    exact ⟨start, by simp [ReadHistory.record], Int.le_refl _,
      pages_of_part hm ▸ hne⟩
  refine ⟨?_, ?_, ?_, ?_, ?_⟩
  · intro i hi hne
    obtain rfl : i = start := by simpa [ReadHistory.record] using hi
    exact hanchored (pages_of_part hm ▸ hne)
  · intro p hp
    have hnone : (openedBy book sf ⟨.setUp, start, model⟩).willShowIndex =
      sf.willShowIndex := rfl
    rw [hnone, hO.willShow] at hp
    cases hp
  · intro req hreq hb
    obtain ⟨hindex, hone⟩ := next_openedBy hout hreq hb
    exact ⟨by omega, hanchored (List.ne_nil_of_length_pos (by omega))⟩
  · intro req hreq hb
    refine Or.inl ⟨previous_openedBy hout hreq hb, ?_⟩
    simp only [ReadHistory.record, List.mem_singleton]
    omega
  · rw [outstanding_openedBy hout, List.countP_append]
    have hnext : ∀ r ∈ (if model.partImageUrlStrArr.length = 1 then
        requestFor book .loadNextDate (start - 1) else []),
        ¬ r.index = start + 1 := by
      intro r hr heq
      rw [List.mem_ite_nil_right, mem_requestFor] at hr
      omega
    rw [List.countP_eq_zero.mpr (by simpa using hnext), Nat.zero_add]
    rcases requestFor_cases book .loadPreviousDate (start + 1) with
      hnil | ⟨m, _, hsing⟩
    · simp [hnil]
    · simp [hsing]

theorem PreviousElsewhere.step (hP : PreviousElsewhere book start h sf)
    (hL : Loaded book start h sf) {e : ReadEvent}
    (hc : LoadedCase book sf e sf') :
    PreviousElsewhere book start (h.record e) sf' := by
  have hneighbour := hL.neighbour
  have hcount : ∀ req, ((sf.outstanding.erase req).countP fun r =>
      r.index = start + 1) ≤ 1 := fun req =>
    (List.erase_sublist.countP_le).trans hP.once
  cases hc with
  | appended req hreq hb =>
      obtain ⟨hlt, hanchored⟩ := hP.next req hreq hb
      rw [ReadHistory.record_next hb]
      have hanchored' : Anchored book start
          { h with filled := h.filled ++ [req.index] } :=
        hanchored.mono fun i hi => List.mem_append_left _ hi
      refine ⟨fun _ _ _ => hanchored', fun _ _ => hanchored', ?_, ?_,
        hcount req⟩
      · intro r hr hrb
        exact ⟨(hP.next r (List.mem_of_mem_erase hr) hrb).1, hanchored'⟩
      · intro r hr hrb
        rcases hP.previous r (List.mem_of_mem_erase hr) hrb with
          ⟨hindex, hnot⟩ | ⟨hindex, -⟩
        · refine Or.inl ⟨hindex, ?_⟩
          intro hmem
          rcases List.mem_append.mp hmem with hmem | hmem
          · exact hnot hmem
          · have := List.mem_singleton.mp hmem
            omega
        · exact Or.inr ⟨hindex, hanchored'⟩
  | prepended req hreq hb =>
      rw [ReadHistory.record_previous hb]
      have hmono : Anchored book start h → Anchored book start
          { h with
            filled := req.index :: h.filled
            landed := h.landed.map fun p => ⟨p.section + 1, p.row⟩ } :=
        fun hA => hA.mono fun i hi => List.mem_cons_of_mem _ hi
      refine ⟨?_, fun p hp => hmono (hP.willShow p hp), ?_, ?_, hcount req⟩
      · intro i hi hne
        rcases List.mem_cons.mp hi with rfl | hi
        · rcases hP.previous req hreq hb with ⟨hindex, -⟩ | ⟨-, hA⟩
          · exact ⟨req.index, List.mem_cons_self, by omega, hne⟩
          · exact hmono hA
        · exact hmono (hP.filled i hi hne)
      · intro r hr hrb
        obtain ⟨hindex, hA⟩ := hP.next r (List.mem_of_mem_erase hr) hrb
        exact ⟨hindex, hmono hA⟩
      · intro r hr hrb
        rcases hP.previous r (List.mem_of_mem_erase hr) hrb with
          ⟨hindex, hnot⟩ | ⟨hindex, hA⟩
        · refine Or.inl ⟨hindex, ?_⟩
          intro hmem
          rcases List.mem_cons.mp hmem with heq | hmem
          · -- Then `req` and `r` are two loads of part `start + 1`.
            have htwo := hP.once
            rw [(List.perm_cons_erase hreq).countP_eq,
              List.countP_cons_of_pos (by simp [← heq])] at htwo
            have hr' : 0 < (sf.outstanding.erase req).countP
                fun r => r.index = start + 1 :=
              List.countP_pos_iff.mpr ⟨r, hr, by simpa using hindex⟩
            omega
          · exact hnot hmem
        · exact Or.inr ⟨hindex, hmono hA⟩
  | failed req hreq hb =>
      refine ⟨hP.filled, hP.willShow, ?_, ?_, hcount req⟩
      · exact fun r hr => hP.next r (List.mem_of_mem_erase hr)
      · exact fun r hr => hP.previous r (List.mem_of_mem_erase hr)
  | displayed p hitem =>
      refine ⟨hP.filled, ?_, hP.next, hP.previous, hP.once⟩
      intro _ _
      obtain ⟨n, hn, hrow⟩ := hitem
      obtain ⟨arr, harr, rfl⟩ := Option.map_eq_some_iff.mp hn
      rw [hL.sections, List.getElem?_map, Option.map_eq_some_iff] at harr
      obtain ⟨i, hi, rfl⟩ := harr
      exact hP.filled i (List.mem_of_getElem? hi)
        (List.ne_nil_of_length_pos (by omega))
  | ignored q hw =>
      rw [ReadHistory.record_ignored (hL.willShown ▸ hw)]
      exact ⟨hP.filled, hP.willShow, hP.next, hP.previous, hP.once⟩
  | landed q p arr hw hne harr =>
      rw [ReadHistory.record_landed (hL.willShown ▸ hw) hne]
      have hanchored := hP.willShow p hw
      have hnew : ∀ block, ∀ r ∈ started book sf p arr block,
          r.index < start := by
        intro block r hr
        have hindex := (mem_started.mp hr).2.2.1
        omega
      refine ⟨hP.filled, hP.willShow, ?_, ?_, ?_⟩
      · intro r hr hrb
        rcases mem_landedOn.mp hr with hr | hr
        · exact hP.next r hr hrb
        · exact ⟨hnew _ r hr, hanchored⟩
      · intro r hr hrb
        rcases mem_landedOn.mp hr with hr | hr
        · exact hP.previous r hr hrb
        · exact Or.inr ⟨hnew _ r hr, hanchored⟩
      · simp only [landedOn, List.append_assoc, List.countP_append]
        have hnone : ∀ block, (started book sf p arr block).countP
            (fun r => r.index = start + 1) = 0 := by
          intro block
          refine List.countP_eq_zero.mpr ?_
          intro r hr
          have hlt := hnew block r hr
          simp only [decide_eq_true_eq]
          omega
        rw [hnone, hnone]
        exact hP.once

theorem exists_page_elsewhere (hP : PreviousElsewhere book start h sf)
    (hL : Loaded book start h sf) {req : Request} (hreq : req ∈ sf.outstanding)
    (hb : req.block = .loadPreviousDate) {page : Int × Nat}
    (hpage : page ∈ pageNames h.filled sf.currentImageArrV.value) :
    ∃ page' ∈ pageNames h.filled sf.currentImageArrV.value,
      page'.1 ≠ req.index := by
  rcases hP.previous req hreq hb with ⟨hindex, hnot⟩ | ⟨hindex, i, hi, hlo, hne⟩
  · refine ⟨page, hpage, ?_⟩
    intro heq
    have hmem : page.1 ∈ h.filled := key_mem_of_mem_pageNames hpage
    rw [heq, hindex] at hmem
    exact hnot hmem
  · refine ⟨(i, 0), ?_, by simp only; omega⟩
    rw [hL.sections, mem_pageNames_map]
    exact ⟨hi, List.length_pos_of_ne_nil hne⟩

/-! ## Answers -/

theorem loaded_of_mem {es : List ReadEvent}
    (hr : readRun book start es = some sf) {req : Request}
    (hreq : req ∈ sf.outstanding) (hset : req.block ≠ .setUp) :
    Loaded book start (ReadHistory.after es) sf ∧
      PreviousElsewhere book start (ReadHistory.after es) sf := by
  rw [readRun_eq] at hr
  have hI := read_induction (E := PreviousElsewhere book start)
    (fun h sf model hO hm hout _ => previousElsewhere_openedBy hO hm hout)
    (fun h sf e sf' hL hP _ hc => hP.step hL hc) hr
  rcases hI with hO | hloaded
  · obtain ⟨model, -, -, rfl⟩ := hO.mem_outstanding hreq
    exact absurd rfl hset
  · exact hloaded

/-- An answer that puts nothing in front keeps the page on screen. -/
theorem visiblePage_of_keepsPosition (hL : Loaded book start h sf)
    {req : Request} (hc : LoadedCase book sf (.answer req true) sf')
    (hkeeps : KeepsPosition req) {k : Nat} {page : Int × Nat}
    (hpage : visiblePage h sf k = some page) :
    visiblePage (h.record (.answer req true)) sf' k = some page := by
  cases hc with
  | appended _ _ hb =>
      rw [← hpage]
      exact visiblePage_appendedBy hL hb (List.getElem?_eq_some_iff.mp hpage).1
  | prepended _ _ hb =>
      rcases hkeeps with hnext | hempty
      · rw [hb] at hnext
        cases hnext
      · rw [visiblePage_prependedBy hb, hempty]
        exact hpage

/-- In every reachable state with a page on screen, a successful next or
previous answer keeps the page on screen, whichever it is, if and only if it
puts nothing in front. -/
theorem visible_page_kept_iff {es : List ReadEvent}
    (hr : readRun book start es = some sf) {req : Request}
    (hreq : req ∈ sf.outstanding) (hset : req.block ≠ .setUp) {k₀ : Nat}
    {page₀ : Int × Nat}
    (hpage₀ : visiblePage (ReadHistory.after es) sf k₀ = some page₀) :
    ∃ sf', readRun book start (es ++ [.answer req true]) = some sf' ∧
      ((∀ k page, visiblePage (ReadHistory.after es) sf k = some page →
          visiblePage (ReadHistory.after (es ++ [.answer req true])) sf' k =
            some page) ↔ KeepsPosition req) := by
  obtain ⟨sf', hs⟩ : ∃ sf', readStep book sf (.answer req true) = some sf' :=
    ⟨_, if_pos hreq⟩
  refine ⟨sf', run_snoc_some.mpr ⟨sf, hr, hs⟩, ?_⟩
  rw [ReadHistory.after_snoc]
  obtain ⟨hL, hP⟩ := loaded_of_mem hr hreq hset
  have hc := hL.cases (readCase_of_readStep hs)
  refine ⟨fun hkept => ?_,
    fun hkeeps k page => visiblePage_of_keepsPosition hL hc hkeeps⟩
  cases hc with
  | appended _ _ hb => exact Or.inl hb
  | prepended _ _ hb =>
      refine Or.inr ?_
      by_contra hne
      obtain ⟨page', hpage', hother⟩ :=
        exists_page_elsewhere hP hL hreq hb (List.mem_of_getElem? hpage₀)
      have hmem :
          page' ∈ rowNames req.index req.model.partImageUrlStrArr := by
        refine mem_of_prepend_keeps (mt rowNames_eq_nil.mp hne) ?_ hpage'
        intro k page hpage
        rw [← visiblePage_prependedBy hb]
        exact hkept k page hpage
      exact hother (mem_rowNames.mp hmem).1

/-- Where no part is loaded or asked for twice, a previous answer with pages
moves every page that can be on screen. -/
theorem visiblePage_prependedBy_ne (hd : RequestsDistinct h sf)
    {req : Request} (hreq : req ∈ sf.outstanding)
    (hb : req.block = .loadPreviousDate)
    (hne : req.model.partImageUrlStrArr ≠ []) {k : Nat} {page : Int × Nat}
    (hpage : visiblePage h sf k = some page) :
    visiblePage (h.record (.answer req true)) (prependedBy sf req) k ≠
      some page := by
  have hdisj : ∀ x ∈ rowNames req.index req.model.partImageUrlStrArr,
      x ∉ pageNames h.filled sf.currentImageArrV.value := by
    intro x hx hmem
    have hmem' := key_mem_of_mem_pageNames hmem
    rw [(mem_rowNames.mp hx).1] at hmem'
    exact hd.2.1 req hreq hmem'
  rw [visiblePage_prependedBy hb, ← hpage]
  intro hkept
  have hnil := (getElem?_prepend_iff (nodup_pageNames hd.2.2) hdisj
    (List.getElem?_eq_some_iff.mp hpage).1).mp hkept
  exact hne (rowNames_eq_nil.mp hnil)

/-- In an orderly run the condition is exact for the page that is on screen. -/
theorem visiblePage_kept_iff_of_orderly {es : List ReadEvent}
    (hr : readRunWhere (Orderly book) book start es = some sf) {req : Request}
    (hset : req.block ≠ .setUp) {k : Nat} {page : Int × Nat}
    (hpage : visiblePage (ReadHistory.after es) sf k = some page)
    (hs : readStep book sf (.answer req true) = some sf') :
    visiblePage (ReadHistory.after (es ++ [.answer req true])) sf' k =
        some page ↔ KeepsPosition req := by
  have hreq : req ∈ sf.outstanding :=
    (Option.ite_none_right_eq_some.mp hs).1
  obtain ⟨hL, -⟩ := loaded_of_mem (run_of_restrict hr) hreq hset
  have hd : RequestsDistinct (ReadHistory.after es) sf := by
    rcases reader_refines_window hr with hO | ⟨hL, -, w, -, hW⟩
    · exact hO.distinct
    · exact hW.distinct hL
  have hc := hL.cases (readCase_of_readStep hs)
  rw [ReadHistory.after_snoc]
  refine ⟨fun hkept => ?_,
    fun hkeeps => visiblePage_of_keepsPosition hL hc hkeeps hpage⟩
  cases hc with
  | appended _ _ hb => exact Or.inl hb
  | prepended _ _ hb =>
      refine Or.inr ?_
      by_contra hne
      exact visiblePage_prependedBy_ne hd hreq hb hne hpage hkept

/-- The newest part has been put in front already and is put there again: two
pages come in front of its first, and it is on screen as before. -/
example :
    let es := scrolledBack ++ [.willDisplay ⟨0, 1⟩, .didEndDisplaying ⟨0, 0⟩,
      .willDisplay ⟨0, 0⟩, .didEndDisplaying ⟨0, 1⟩]
    let es' := es ++ [.answer ⟨.loadPreviousDate, 0, newest⟩ true]
    (readRun threeParts 1 es).map (visiblePage (ReadHistory.after es) · 0) =
        some (some (0, 0)) ∧
      (readRun threeParts 1 es').map
        (visiblePage (ReadHistory.after es') · 0) = some (some (0, 0)) := by
  decide

/-- `readOn` up to the point where the next load is out. -/
def atLastLoaded : List ReadEvent :=
  [.answer ⟨.setUp, 1, middle⟩ true,
    .answer ⟨.loadPreviousDate, 2, oldest⟩ true,
    .willDisplay ⟨1, 1⟩, .didEndDisplaying ⟨1, 0⟩]

theorem visible_page_kept_iff_atLastLoaded :
    ∃ sf sf', readRun threeParts 1 atLastLoaded = some sf ∧
      readRun threeParts 1
        (atLastLoaded ++ [.answer ⟨.loadNextDate, 0, newest⟩ true]) =
          some sf' ∧
      ((∀ k page,
          visiblePage (ReadHistory.after atLastLoaded) sf k = some page →
          visiblePage (ReadHistory.after
            (atLastLoaded ++ [.answer ⟨.loadNextDate, 0, newest⟩ true])) sf'
              k = some page) ↔
        KeepsPosition ⟨.loadNextDate, 0, newest⟩) := by
  have hr : ∃ sf, readRun threeParts 1 atLastLoaded = some sf ∧
      ⟨.loadNextDate, 0, newest⟩ ∈ sf.outstanding ∧
      visiblePage (ReadHistory.after atLastLoaded) sf 3 = some (1, 1) :=
    ⟨_, rfl, by decide, by decide⟩
  obtain ⟨sf, hr, hreq, hpage⟩ := hr
  obtain ⟨sf', hr', hkept⟩ :=
    visible_page_kept_iff hr hreq (by decide) hpage
  exact ⟨sf, sf', hr, hr', hkept⟩

/-- The first page of the opened part is on screen; the answer of the load
set-up started by itself puts the first page of the part before there. -/
theorem visible_page_moved :
    ∃ sf sf', readRun threeParts 1 [.answer ⟨.setUp, 1, middle⟩ true] =
        some sf ∧
      readRun threeParts 1 [.answer ⟨.setUp, 1, middle⟩ true,
        .answer ⟨.loadPreviousDate, 2, oldest⟩ true] = some sf' ∧
      visiblePage (ReadHistory.after [.answer ⟨.setUp, 1, middle⟩ true]) sf 0 =
        some (1, 0) ∧
      visiblePage (ReadHistory.after [.answer ⟨.setUp, 1, middle⟩ true,
        .answer ⟨.loadPreviousDate, 2, oldest⟩ true]) sf' 0 = some (2, 0) :=
  ⟨_, _, rfl, rfl, by decide, by decide⟩

end ComicReadContentV

end ComicReader
