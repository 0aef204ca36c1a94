import ComicReader.Lib.Sections
import ComicReader.Lib.Viewport
import ComicReader.Reader.Labels

/-!
# Does the label follow the finger

Pages come on screen and leave it while the user drags; the view is told of
both and keeps the page that came last. Only a page that leaves is acted on,
and only when it is another one: then the labels go to the page that came
last, whether that page is still on screen or not.

`Screen` puts the reader together with the pages on screen, a block of
consecutive pages that changes at its ends, and lets answers through as long
as they put nothing in front. What is asked is that the labels name the page
whenever a single one is on screen. That depends on the order of the
notifications alone, of which `Notices` keeps the page that came last and
whether a page has left since: a page that leaves exactly one behind has to
leave the one that came last, or to have come last itself and to be the first
to leave since (`Settled`). With at most two pages on screen, as when every
page fills it and what leaves is announced first, that is always so
(`labelFollows_of_two`); with three it is not.
-/

namespace ComicReader

open Lib

/-- The pages of the sections, in display order. -/
def pagePaths (S : List (List String)) : List IndexPath :=
  (pageNames (List.range S.length) S).map fun x => ⟨x.1, x.2⟩

theorem nodup_pagePaths (S : List (List String)) : (pagePaths S).Nodup := by
  refine List.Nodup.map ?_ (nodup_pageNames List.nodup_range)
  intro ⟨s, r⟩ ⟨s', r'⟩ heq
  obtain ⟨rfl, rfl⟩ := IndexPath.mk.inj heq
  rfl

/-- The reader, and the pages it has on screen. -/
structure Screen where
  view : ComicReadContentV
  visible : List IndexPath
deriving DecidableEq, Repr

namespace Screen

open ComicReadContentV

variable {book : ComickBookInfo} {start : Int}
  {sf sf' : ComicReadContentV} {u v : Screen} {p q : IndexPath}

/-- The pages on screen after an event. Nothing is put in front of them: of
the successful answers only those of next requests arrive. -/
def scroll (u : Screen) : ReadEvent → Option (List IndexPath)
  | .answer req success =>
      if success = true → req.block = .loadNextDate then some u.visible
      else none
  | .willDisplay p =>
      enter (pagePaths u.view.currentImageArrV.value) u.visible p
  | .didEndDisplaying q => leave u.visible q

def screenStep (book : ComickBookInfo) (u : Screen) (e : ReadEvent) :
    Option Screen :=
  (u.scroll e).bind fun visible =>
    (readStep book u.view e).map fun view => ⟨view, visible⟩

theorem screenStep_eq_some {e : ReadEvent} :
    screenStep book u e = some v ↔
      u.scroll e = some v.visible ∧ readStep book u.view e = some v.view := by
  obtain ⟨view, visible⟩ := v
  simp only [screenStep, Option.bind_eq_some_iff, Option.map_eq_some_iff,
    Screen.mk.injEq]
  constructor
  · rintro ⟨vis, hvis, w, hw, rfl, rfl⟩
    exact ⟨hvis, hw⟩
  · intro ⟨hvis, hw⟩
    exact ⟨visible, hvis, view, hw, rfl, rfl⟩

/-- The labels name page `p`. -/
def Labelled (sf : ComicReadContentV) (p : IndexPath) : Prop :=
  (∃ n ∈ sf.numberOfItemsInSection p.section,
    sf.currentShowIndex.value = (p.row + 1, n)) ∧
    sf.currentReadIndex.value = sf.zeroSectionIndex - p.section

/-- Whenever exactly one page is on screen, the labels name it. -/
def LabelFollows (u : Screen) : Prop :=
  ∀ p ∈ u.visible, u.visible = [p] → Labelled u.view p

/-- Page `q` leaves and page `p` stays. Either `p` is the remembered page, or
nothing is acted on, because `q` is or none is remembered, and the labels name
`p` already. -/
def LeavesLabelled (sf : ComicReadContentV) (q p : IndexPath) : Prop :=
  (sf.willShowIndex.value = some p ∧ q ≠ p) ∨
    ((∀ w ∈ sf.willShowIndex.value, w = q) ∧ Labelled sf p)

instance : Decidable (Labelled sf p) :=
  inferInstanceAs (Decidable ((∃ n ∈ _, _) ∧ _))

instance : Decidable (LabelFollows u) :=
  inferInstanceAs (Decidable (∀ p ∈ _, _))

/-! ## The notifications -/

/-- What the notifications of a trace have been. -/
structure Notices where
  /-- The page that came on screen last. -/
  last : Option IndexPath
  /-- Whether a page has left since. -/
  left : Bool
deriving DecidableEq, Repr

namespace Notices

def initial : Notices := ⟨none, false⟩

def record (h : Notices) : ReadEvent → Notices
  | .answer _ _ => h
  | .willDisplay p => ⟨some p, false⟩
  | .didEndDisplaying _ => { h with left := true }

def after (es : List ReadEvent) : Notices := history record initial es

theorem after_snoc {es : List ReadEvent} {e : ReadEvent} :
    after (es ++ [e]) = (after es).record e := history_snoc

end Notices

/-- Of the pages `visible`, one leaves. If exactly one stays, it is the one
that came last, or the page that leaves is, and no page has left since it
came. -/
def Settled (h : Notices) (visible : List IndexPath) : ReadEvent → Prop
  | .didEndDisplaying q => ∀ rest ∈ leave visible q, ∀ p ∈ rest, rest = [p] →
      h.last = some p ∨ (h.last = some q ∧ h.left = false)
  | _ => True

instance {h : Notices} {visible : List IndexPath} :
    {e : ReadEvent} → Decidable (Settled h visible e)
  | .answer _ _ | .willDisplay _ => inferInstanceAs (Decidable True)
  | .didEndDisplaying _ =>
      inferInstanceAs (Decidable (∀ rest ∈ _, ∀ p ∈ rest, _ → _))

/-! ## What an event does to the labels -/

/-- An answer that puts nothing in front leaves a labelled page labelled. -/
theorem Labelled.answer {req : Request} {success : Bool}
    (h : Labelled sf p) (hc : ReadCase book sf (.answer req success) sf')
    (hok : success = true → req.block = .loadNextDate) : Labelled sf' p := by
  cases hc with
  | opened _ _ hb =>
      rw [hok rfl] at hb
      cases hb
  | notOpened => exact h
  | loaded hc =>
      cases hc with
      | appended _ hreq hb =>
          obtain ⟨⟨n, hn, hshow⟩, hread⟩ := h
          obtain ⟨arr, harr, rfl⟩ := Option.map_eq_some_iff.mp hn
          refine ⟨⟨arr.length, ?_, hshow⟩, hread⟩
          refine Option.map_eq_some_iff.mpr ⟨arr, ?_, rfl⟩
          simp only [appendedBy, Variable.value_set]
          rw [List.getElem?_append_left (List.getElem?_eq_some_iff.mp harr).1]
          exact harr
      | prepended _ _ hb =>
          rw [hok rfl] at hb
          cases hb
      | failed => exact h

/-- A handled transition labels the page that came last and no other. -/
theorem labelled_landedOn_iff {w : IndexPath} {arr : List String}
    (harr : sf.currentImageArrV.value[w.section]? = some arr) :
    Labelled (landedOn book sf q w arr) p ↔ w = p := by
  have hshow : (landedOn book sf q w arr).currentShowIndex.value =
      (w.row + 1, arr.length) := rfl
  have hzero : (landedOn book sf q w arr).zeroSectionIndex =
      sf.zeroSectionIndex := rfl
  rw [Labelled, hshow, hzero, currentReadIndex_landedOn]
  constructor
  · intro ⟨⟨n, _, hrow⟩, hsec⟩
    obtain ⟨ws, wr⟩ := w
    obtain ⟨ps, pr⟩ := p
    have hr : wr + 1 = pr + 1 := (Prod.mk.inj hrow).1
    simp only at hsec
    rw [IndexPath.mk.injEq]
    omega
  · rintro rfl
    exact ⟨⟨arr.length, Option.map_eq_some_iff.mpr ⟨arr, harr, rfl⟩, rfl⟩, rfl⟩

/-- Which page the labels name after a page has left. -/
theorem labelled_didEndDisplaying_iff
    (hc : ReadCase book sf (.didEndDisplaying q) sf') :
    Labelled sf' p ↔ LeavesLabelled sf q p := by
  cases hc with
  | loaded hc =>
      cases hc with
      | ignored _ hw =>
          have hne : ¬ (sf.willShowIndex.value = some p ∧ q ≠ p) :=
            fun h => h.2 (hw p h.1).symm
          rw [LeavesLabelled, or_iff_right hne]
          exact (and_iff_right hw).symm
      | landed _ w arr hw hne harr =>
          rw [labelled_landedOn_iff harr, LeavesLabelled]
          constructor
          · rintro rfl
            exact Or.inl ⟨hw, hne⟩
          · intro h
            rcases h with ⟨hp, -⟩ | ⟨hlast, -⟩
            · exact Option.some.inj (hw.symm.trans hp)
            · exact absurd (hlast w hw).symm hne

theorem labelled_unique (hp : Labelled sf p) (hq : Labelled sf q) : p = q := by
  obtain ⟨⟨n, -, hshow⟩, hread⟩ := hp
  obtain ⟨⟨m, -, hshow'⟩, hread'⟩ := hq
  obtain ⟨ps, pr⟩ := p
  obtain ⟨qs, qr⟩ := q
  have hrow : pr + 1 = qr + 1 :=
    (Prod.mk.inj (hshow.symm.trans hshow')).1
  simp only at hread hread'
  rw [IndexPath.mk.injEq]
  omega

/-! ## One step -/

theorem LabelFollows.answer {req : Request} {success : Bool}
    (h : LabelFollows u)
    (hs : screenStep book u (.answer req success) = some v) :
    LabelFollows v := by
  obtain ⟨hscroll, hs⟩ := screenStep_eq_some.mp hs
  simp only [scroll] at hscroll
  split at hscroll
  · next hblock =>
      have hvis := Option.some.inj hscroll
      intro p hp hsingle
      exact (h p (hvis ▸ hp) (hvis.trans hsingle)).answer
        (readCase_of_readStep hs) hblock
  · cases hscroll

/-- What is known of the screen from the notifications. -/
structure Noticed (h : Notices) (u : Screen) : Prop where
  ne : u.visible ≠ []
  nodup : u.visible.Nodup
  single : h.last = none → u.visible.length = 1
  last : ∀ w, h.last = some w → u.view.willShowIndex.value = some w
  /-- When another page has left since, the page that came last is labelled. -/
  labelled : ∀ w, h.last = some w → h.left → w ∈ u.visible →
    Labelled u.view w

/-- Nothing has left since a page came next to a single one. -/
def Waiting (h : Notices) (u : Screen) : Prop :=
  ∀ w p, h.last = some w → h.left = false →
    (u.visible = [p, w] ∨ u.visible = [w, p]) → Labelled u.view p

/-- The page that came last is remembered, whatever happens in between. -/
theorem willShowIndex_of_case {e : ReadEvent} (hc : ReadCase book sf e sf') :
    sf'.willShowIndex.value =
      match e with
      | .willDisplay p => some p
      | .answer _ _ | .didEndDisplaying _ => sf.willShowIndex.value := by
  cases hc with
  | opened | notOpened => rfl
  | loaded hc => cases hc with
    | appended | prepended | failed | displayed | ignored | landed => rfl

theorem Labelled.displayed {x : IndexPath} (h : Labelled sf p)
    (hc : ReadCase book sf (.willDisplay x) sf') : Labelled sf' p := by
  cases hc with
  | loaded hc => cases hc with
    | displayed => exact h

theorem Noticed.step {h : Notices} (hN : Noticed h u) {e : ReadEvent}
    (hs : screenStep book u e = some v) : Noticed (h.record e) v := by
  obtain ⟨hscroll, hs⟩ := screenStep_eq_some.mp hs
  have hc := readCase_of_readStep hs
  have hwill := willShowIndex_of_case hc
  cases e with
  | answer req success =>
      simp only [scroll] at hscroll
      split at hscroll
      · next hok =>
          have hvis := Option.some.inj hscroll
          refine ⟨hvis ▸ hN.ne, hvis ▸ hN.nodup, hvis ▸ hN.single,
            fun w hw => hwill.trans (hN.last w hw), ?_⟩
          intro w hw hleft hmem
          exact (hN.labelled w hw hleft (hvis ▸ hmem)).answer hc hok
      · cases hscroll
  | willDisplay x =>
      have hblock := (enter_eq_some hscroll).2
      have hlength := length_enter hscroll
      refine ⟨List.ne_nil_of_length_pos (by omega),
        (nodup_pagePaths _).sublist hblock.sublist, ?_, ?_, ?_⟩
      · intro hnone
        cases hnone
      · intro w hw
        exact hwill.trans hw
      · intro w _ hleft
        cases hleft
  | didEndDisplaying q =>
      have hne := (leave_eq_some hscroll).1
      obtain ⟨hq, hnodup⟩ := nodup_leave hN.nodup hscroll
      refine ⟨hne, hnodup, ?_, fun w hw => hwill.trans (hN.last w hw), ?_⟩
      · intro hnone
        have hone := hN.single hnone
        have hlength := length_leave hscroll
        have hpos := List.length_pos_of_ne_nil hne
        omega
      · intro w hw _ hmem
        refine (labelled_didEndDisplaying_iff hc).mpr
          (Or.inl ⟨hN.last w hw, ?_⟩)
        rintro rfl
        exact hq hmem

theorem Waiting.step {h : Notices} (hW : Waiting h u) (hF : LabelFollows u)
    {e : ReadEvent} (hs : screenStep book u e = some v) :
    Waiting (h.record e) v := by
  obtain ⟨hscroll, hs⟩ := screenStep_eq_some.mp hs
  have hc := readCase_of_readStep hs
  intro w p hw hleft hvis'
  cases e with
  | answer req success =>
      simp only [scroll] at hscroll
      split at hscroll
      · next hok =>
          have hvis := Option.some.inj hscroll
          exact (hW w p hw hleft (hvis ▸ hvis')).answer hc hok
      · cases hscroll
  | willDisplay x =>
      obtain rfl := Option.some.inj hw
      have hsingle := enter_pair (nodup_pagePaths _) hscroll hvis'
      have hmem : p ∈ u.visible := hsingle ▸ List.mem_singleton_self p
      exact (hF p hmem hsingle).displayed hc
  | didEndDisplaying q => cases hleft

/-- Whether a step keeps the labels on the single page is seen from the
notifications before it. -/
theorem labelFollows_step_iff {h : Notices} (hN : Noticed h u)
    (hW : Waiting h u) (hF : LabelFollows u) {e : ReadEvent}
    (hs : screenStep book u e = some v) :
    LabelFollows v ↔ Settled h u.visible e := by
  cases e with
  | answer req success => exact iff_of_true (hF.answer hs) trivial
  | willDisplay x =>
      refine iff_of_true ?_ trivial
      have hlength := length_enter (screenStep_eq_some.mp hs).1
      have hpos := List.length_pos_of_ne_nil hN.ne
      intro p _ hsingle
      rw [hsingle, List.length_singleton] at hlength
      omega
  | didEndDisplaying q =>
      obtain ⟨hscroll, hs⟩ := screenStep_eq_some.mp hs
      have hc := readCase_of_readStep hs
      have hleave : leave u.visible q = some v.visible := hscroll
      have hrest : LabelFollows v ↔ ∀ p ∈ v.visible, v.visible = [p] →
          LeavesLabelled u.view q p :=
        forall_congr' fun p => imp_congr_right fun _ =>
          imp_congr_right fun _ => labelled_didEndDisplaying_iff hc
      have hsettled : Settled h u.visible (.didEndDisplaying q) ↔
          ∀ p ∈ v.visible, v.visible = [p] →
            h.last = some p ∨ (h.last = some q ∧ h.left = false) := by
        simp only [Settled, hleave, Option.mem_some_iff, forall_eq']
      rw [hrest, hsettled]
      refine forall_congr' fun p => imp_congr_right fun _ =>
        imp_congr_right fun hsingle => ?_
      have hq := mem_of_leave hleave
      have hne : q ≠ p := by
        rintro rfl
        exact (nodup_leave hN.nodup hleave).1
          (hsingle ▸ List.mem_singleton_self q)
      have hpair := (leave_eq_some hleave).2
      rw [hsingle] at hpair
      cases hlast : h.last with
      | none =>
          have hone := hN.single hlast
          rw [length_leave hleave, hsingle] at hone
          cases hone
      | some w =>
          have hwill := hN.last w hlast
          simp only [LeavesLabelled, hwill, Option.some.injEq,
            Option.mem_some_iff, forall_eq']
          refine or_congr (and_iff_left hne) ?_
          constructor
          · rintro ⟨rfl, hlabel⟩
            refine ⟨rfl, Bool.eq_false_iff.mpr fun hleft => hne ?_⟩
            exact labelled_unique (hN.labelled w hlast hleft hq) hlabel
          · rintro ⟨rfl, hleft⟩
            exact ⟨rfl, hW w p hlast hleft hpair.symm⟩

/-! ## Runs -/

theorem noticed_of_run {A : ComicReadContentV} {es : List ReadEvent}
    (hr : run (screenStep book) ⟨A, [p]⟩ es = some u) :
    Noticed (Notices.after es) u := by
  have hstart : Noticed Notices.initial ⟨A, [p]⟩ := by
    refine ⟨List.cons_ne_nil p [], List.nodup_singleton p, fun _ => rfl, ?_, ?_⟩
    · intro w hw
      cases hw
    · intro w hw
      cases hw
  have hstep : ∀ h s e t, Noticed h s → screenStep book s e = some t →
      Noticed (h.record e) t := fun _ _ _ _ hN hs => hN.step hs
  exact run_history hstart hstep hr

/-- As long as the labels have followed, they are on the page that was alone
before the last one came. -/
theorem waiting_of_run {A : ComicReadContentV} {es : List ReadEvent}
    (hF : ∀ pre v, pre <+: es → run (screenStep book) ⟨A, [p]⟩ pre = some v →
      LabelFollows v)
    (hr : run (screenStep book) ⟨A, [p]⟩ es = some u) :
    Waiting (Notices.after es) u := by
  refine run_induction (P := fun es u =>
    (∀ pre v, pre <+: es → run (screenStep book) ⟨A, [p]⟩ pre = some v →
      LabelFollows v) → Waiting (Notices.after es) u) ?_ ?_ hr hF
  · intro _ w x hw
    exact absurd hw (by simp [Notices.after, Notices.initial, history])
  · intro es u e v hu ih hs hF
    rw [Notices.after_snoc]
    have hpre := List.prefix_append es [e]
    exact (ih fun pre v' hp => hF pre v' (hp.trans hpre)).step
      (hF es u hpre hu) hs

/-- The steps of a trace as `run_forall_iff` takes them. -/
theorem labelFollows_snoc_iff {A : ComicReadContentV} {pre : List ReadEvent}
    {e : ReadEvent} (hu : run (screenStep book) ⟨A, [p]⟩ pre = some u)
    (hF : ∀ pre' v, pre' <+: pre →
      run (screenStep book) ⟨A, [p]⟩ pre' = some v → LabelFollows v)
    (hs : screenStep book u e = some v) :
    LabelFollows v ↔ Settled (Notices.after pre) u.visible e :=
  labelFollows_step_iff (noticed_of_run hu) (waiting_of_run hF hu)
    (hF pre u (List.prefix_refl pre) hu) hs

theorem labelFollows_start {A : ComicReadContentV} (hA : Labelled A p) :
    LabelFollows ⟨A, [p]⟩ := by
  intro p' _ hsingle
  obtain rfl := (List.cons.inj hsingle).1
  exact hA

/-- In a trace that starts with one page on screen, the one the labels name,
the labels name the page whenever there is exactly one if and only if every
page that leaves exactly one behind leaves the one that came last, or came
last itself with none leaving since. -/
theorem label_follows_iff {A : ComicReadContentV} (hA : Labelled A p)
    {es : List ReadEvent}
    (hr : run (screenStep book) ⟨A, [p]⟩ es = some u) :
    (∀ pre v, pre <+: es → run (screenStep book) ⟨A, [p]⟩ pre = some v →
        LabelFollows v) ↔
      ∀ pre e, pre ++ [e] <+: es → ∀ v,
        run (screenStep book) ⟨A, [p]⟩ pre = some v →
          Settled (Notices.after pre) v.visible e :=
  run_forall_iff (fun pre v e => Settled (Notices.after pre) v.visible e)
    (fun _ v => LabelFollows v) hr (labelFollows_start hA)
    fun _ _ _ _ hu hF hs => labelFollows_snoc_iff hu hF hs

/-! ## Two pages -/

/-- Of two pages on screen one came last, and none has left since. -/
def AtMostTwo (h : Notices) (u : Screen) : Prop :=
  u.visible.length = 1 ∨
    ∃ w ∈ u.visible, h.last = some w ∧ h.left = false ∧ u.visible.length = 2

theorem AtMostTwo.step {h : Notices} (hT : AtMostTwo h u) {e : ReadEvent}
    (hs : screenStep book u e = some v) (hlength : v.visible.length ≤ 2) :
    AtMostTwo (h.record e) v := by
  have hscroll := (screenStep_eq_some.mp hs).1
  cases e with
  | answer req success =>
      simp only [scroll] at hscroll
      split at hscroll
      · rw [AtMostTwo, ← Option.some.inj hscroll]
        exact hT
      · cases hscroll
  | willDisplay x =>
      have hvis := (enter_eq_some hscroll).1
      have hmore := length_enter hscroll
      refine Or.inr ⟨x, ?_, rfl, rfl, ?_⟩
      · rcases hvis with hvis | hvis <;> simp [hvis]
      · rcases hT with hone | ⟨w, -, -, -, htwo⟩ <;> omega
  | didEndDisplaying q =>
      have hpos := List.length_pos_of_ne_nil (leave_eq_some hscroll).1
      have hmore := length_leave hscroll
      refine Or.inl ?_
      rcases hT with hone | ⟨w, -, -, -, htwo⟩ <;> omega

theorem AtMostTwo.settled {h : Notices} (hT : AtMostTwo h u) {e : ReadEvent} :
    Settled h u.visible e := by
  cases e with
  | answer | willDisplay => trivial
  | didEndDisplaying q =>
      intro rest hrest p _ hsingle
      obtain ⟨-, hvis⟩ := leave_eq_some hrest
      rw [hsingle] at hvis
      rcases hT with hone | ⟨w, hw, hlast, hleft, -⟩
      · rcases hvis with hvis | hvis <;> simp [hvis] at hone
      · have hpair : w = p ∨ w = q := by
          rcases hvis with hvis | hvis <;> simpa [hvis, or_comm] using hw
        rcases hpair with rfl | rfl
        · exact Or.inl hlast
        · exact Or.inr ⟨hlast, hleft⟩

theorem atMostTwo_of_run {A : ComicReadContentV} {es : List ReadEvent}
    (hr : run (screenStep book) ⟨A, [p]⟩ es = some u)
    (htwo : ∀ pre v, pre <+: es →
      run (screenStep book) ⟨A, [p]⟩ pre = some v → v.visible.length ≤ 2) :
    AtMostTwo (Notices.after es) u := by
  refine run_induction (P := fun es u =>
    (∀ pre v, pre <+: es → run (screenStep book) ⟨A, [p]⟩ pre = some v →
      v.visible.length ≤ 2) → AtMostTwo (Notices.after es) u)
    (fun _ => Or.inl rfl) ?_ hr htwo
  intro es u e v hu ih hs htwo
  have hpre := List.prefix_append es [e]
  have hT := ih fun pre v' hp => htwo pre v' (hp.trans hpre)
  rw [Notices.after_snoc]
  exact hT.step hs
    (htwo _ v (List.prefix_refl _) (run_snoc_some.mpr ⟨u, hu, hs⟩))

/-- As long as no more than two pages are on screen, the labels follow. -/
theorem labelFollows_of_two {A : ComicReadContentV} (hA : Labelled A p)
    {es : List ReadEvent}
    (hr : run (screenStep book) ⟨A, [p]⟩ es = some u)
    (htwo : ∀ pre v, pre <+: es →
      run (screenStep book) ⟨A, [p]⟩ pre = some v → v.visible.length ≤ 2) :
    LabelFollows u := by
  have hsettled : ∀ pre e, pre ++ [e] <+: es → ∀ v,
      run (screenStep book) ⟨A, [p]⟩ pre = some v →
        Settled (Notices.after pre) v.visible e := by
    intro pre e hpre v hv
    have hpre' : pre <+: es := (List.prefix_append pre [e]).trans hpre
    exact (atMostTwo_of_run hv fun pre' v' hp =>
      htwo pre' v' (hp.trans hpre')).settled
  have hiff := run_forall_iff
    (fun pre v e => Settled (Notices.after pre) v.visible e)
    (fun _ v => LabelFollows v) hr (labelFollows_start hA)
    fun _ _ _ _ hu hF hs => labelFollows_snoc_iff hu hF hs
  exact hiff.mpr hsettled es u (List.prefix_refl es) hr

/-- Opened at the middle part, with the one before it in front, and read back
to the first page of the middle part. -/
def backInFront : List ReadEvent :=
  [.answer ⟨.setUp, 1, middle⟩ true,
    .answer ⟨.loadPreviousDate, 2, oldest⟩ true,
    .willDisplay ⟨1, 0⟩, .didEndDisplaying ⟨0, 0⟩]

/-- A drag back to the page before, with the page after still announced. -/
def pulledBack : List ReadEvent :=
  [.willDisplay ⟨1, 1⟩, .willDisplay ⟨0, 1⟩, .didEndDisplaying ⟨1, 1⟩,
    .didEndDisplaying ⟨0, 1⟩]

theorem label_follows_iff_backInFront :
    ∃ A u, readRun threeParts 1 backInFront = some A ∧
      Labelled A ⟨1, 0⟩ ∧
      run (screenStep threeParts) ⟨A, [⟨1, 0⟩]⟩
        [.willDisplay ⟨1, 1⟩, .didEndDisplaying ⟨1, 0⟩] = some u ∧
      ((∀ pre v, pre <+:
            [.willDisplay ⟨1, 1⟩, .didEndDisplaying ⟨1, 0⟩] →
          run (screenStep threeParts) ⟨A, [⟨1, 0⟩]⟩ pre = some v →
            LabelFollows v) ↔
        ∀ pre e, pre ++ [e] <+:
            [.willDisplay ⟨1, 1⟩, .didEndDisplaying ⟨1, 0⟩] → ∀ v,
          run (screenStep threeParts) ⟨A, [⟨1, 0⟩]⟩ pre = some v →
            Settled (Notices.after pre) v.visible e) :=
  ⟨_, _, rfl, by decide, rfl, label_follows_iff (by decide) rfl⟩

theorem label_lost_pulledBack :
    ∃ A u, readRun threeParts 1 backInFront = some A ∧
      Labelled A ⟨1, 0⟩ ∧
      run (screenStep threeParts) ⟨A, [⟨1, 0⟩]⟩ pulledBack = some u ∧
      u.visible = [⟨1, 0⟩] ∧ u.view.currentShowIndex.value = (2, 2) ∧
      u.view.currentReadIndex.value = 2 ∧ ¬ LabelFollows u :=
  ⟨_, _, rfl, by decide, rfl, rfl, rfl, rfl, by decide⟩

/-- The page that leaves at the end did come last, but it is not the first to
leave since. -/
example : Notices.after (pulledBack.take 3) = ⟨some ⟨0, 1⟩, true⟩ ∧
    ¬ Settled (Notices.after (pulledBack.take 3)) [⟨0, 1⟩, ⟨1, 0⟩]
      (.didEndDisplaying ⟨0, 1⟩) := by
  decide

end Screen

end ComicReader
