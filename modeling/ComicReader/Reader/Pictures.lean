import ComicReader.Reader.Cells

/-!
# The pictures on the reader's pages

Cells are reused, and the retrieval a cell started for an earlier page can
come back after the one for its present page. A cell in use shows a picture of
its own page or none, as long as its page's address parses; where it does not,
nothing is asked for and the cell stays as its last page left it.

Once asked for, a picture comes to its cell. From the moment a cell is given to
a page until it is given to another, its image view is decided by the first
result for the retrieval that moment started, and by nothing else.
-/

namespace ComicReader

open Lib
open ComicReadContentV (threeParts middle)

namespace ReadCollection

variable {URL Image : Type _} {urlInit : String → Option URL}
  {book : ComickBookInfo} {start : Int} {w w' : ReadCollection URL Image}

/-- The step gives the cell to a page. -/
def Dequeues (cell : Nat) : CellEvent URL Image → Prop
  | .cellForItemAt cell' _ => cell' = cell
  | _ => False

instance {cell : Nat} : {e : CellEvent URL Image} → Decidable (Dequeues cell e)
  | .cellForItemAt cell' _ => inferInstanceAs (Decidable (cell' = cell))
  | .answer _ _ | .layout | .willDisplay _ _ | .didEndDisplaying _
  | .enqueued _ | .retrieved _ _ => inferInstanceAs (Decidable False)

/-- What the first result that has come for a retrieval makes of its view. -/
def Follows (w : ReadCollection URL Image) (r : Retrieval URL) :
    Option (Option Image) → Prop
  | none => w.kf.desk.Awaits r.ticket
  | some result =>
      w.kf.desk.slots r.base = ⟨result.map (Prod.mk r.source), none⟩

theorem Follows.desk_eq {r : Retrieval URL} {result : Option (Option Image)}
    (h : w.Follows r result) (hdesk : w'.kf.desk = w.kf.desk) :
    w'.Follows r result := by
  cases result with
  | none =>
      show w'.kf.desk.Awaits r.ticket
      rw [hdesk]
      exact h
  | some result =>
      show w'.kf.desk.slots r.base = _
      rw [hdesk]
      exact h

theorem Follows.cellForItemAt {r : Retrieval URL}
    {result : Option (Option Image)} (h : w.Follows r result) {cell : Nat}
    {p : IndexPath} {kf : Kingfisher URL Image} (hne : cell ≠ r.base)
    (hkf : w.contentV.cellForItemAt urlInit w.kf cell p = some kf)
    (hw' : w'.kf = kf) : w'.Follows r result := by
  rw [cellForItemAt_eq, Option.map_eq_some_iff] at hkf
  obtain ⟨string, -, rfl⟩ := hkf
  cases hurl : urlInit string with
  | none =>
      rw [hurl] at hw'
      exact h.desk_eq (congrArg Kingfisher.desk hw')
  | some url =>
      have hdesk : w'.kf.desk = w.kf.desk.issue cell url := by
        rw [hw', hurl, Kingfisher.desk_setImage]
      cases result with
      | none =>
          show w'.kf.desk.Awaits r.ticket
          rw [hdesk]
          exact Desk.Awaits.issue_other h hne.symm
      | some result =>
          show w'.kf.desk.slots r.base = _
          rw [hdesk, Desk.slots_issue_of_ne hne.symm]
          exact h

variable [DecidableEq URL]

/-- A cell in use is for a page of the sections, and shows a picture of that
page or none as long as the page's address parses. -/
theorem picture_of_own_page {es : List (CellEvent URL Image)}
    (hr : cellRun urlInit book start es = some w) {cell : Nat}
    {p : IndexPath} (hcell : (cell, p) ∈ w.cells) :
    ∃ string, pageAt w.contentV p = some string ∧
      ∀ url, urlInit string = some url →
        ∀ picture, (w.kf.views cell).image = some picture →
          picture.1 = url := by
  have hC := coherent_of_run hr
  obtain ⟨string, hstring⟩ :=
    Option.isSome_iff_exists.mp (hC.page _ hcell)
  refine ⟨string, hstring, ?_⟩
  intro url hurl picture hpicture
  exact (hC.serves _ hcell string hstring url hurl).shown picture hpicture

/-- The cell of the first page is given to the second before its picture has
come; the late picture of the first page does not show. -/
theorem picture_of_own_page_reused :
    ∃ w : ReadCollection String String, cellRun some threeParts 1
        [.answer ⟨.setUp, 1, middle⟩ true, .layout,
          .cellForItemAt 0 ⟨0, 0⟩, .enqueued 0, .cellForItemAt 0 ⟨0, 1⟩,
          .retrieved ⟨2, 0, "2-2"⟩ (some "second"),
          .retrieved ⟨1, 0, "2-1"⟩ (some "first")] = some w ∧
      ∃ string, pageAt w.contentV ⟨0, 1⟩ = some string ∧
        ∀ picture, (w.kf.views 0).image = some picture →
          picture.1 = string := by
  have hr : cellRun some threeParts 1
      [.answer ⟨.setUp, 1, middle⟩ true, .layout,
        .cellForItemAt 0 ⟨0, 0⟩, .enqueued 0, .cellForItemAt 0 ⟨0, 1⟩,
        .retrieved ⟨2, 0, "2-2"⟩ (some "second"),
        .retrieved ⟨1, 0, "2-1"⟩ (some "first")] =
      some (_ : ReadCollection String String) := rfl
  obtain ⟨string, hstring, hpicture⟩ :=
    picture_of_own_page hr (List.mem_cons_self (a := (0, IndexPath.mk 0 1)))
  exact ⟨_, hr, string, hstring, hpicture string rfl⟩

/-- The result with which a step answers the retrieval `r`. -/
def resultOf (r : Retrieval URL) :
    CellEvent URL Image → Option (Option Image)
  | .retrieved r' result => if r' = r then some result else none
  | _ => none

/-- The first result for a retrieval counts, and nothing else does. -/
theorem Follows.retrieved {r : Retrieval URL}
    {result : Option (Option Image)} (h : w.Follows r result)
    (hV : w.kf.desk.Valid) {r' : Retrieval URL} {result' : Option Image}
    (hr' : r' ∈ w.kf.retrievals)
    (hdesk : w'.kf.desk = w.kf.desk.answer r'.ticket result') :
    w'.Follows r
      (result.or (resultOf r (.retrieved r' result'))) := by
  cases result with
  | none =>
      rw [Option.none_or]
      by_cases hown : r' = r
      · subst hown
        rw [resultOf, if_pos rfl]
        show w'.kf.desk.slots r'.base = _
        rw [hdesk]
        exact Desk.Awaits.answer_own h
      · rw [resultOf, if_neg hown]
        show w'.kf.desk.Awaits r.ticket
        rw [hdesk]
        exact Desk.Awaits.answer_other h hV (List.mem_map_of_mem hr')
          fun heq => hown (Retrieval.ticket_injective heq)
  | some result =>
      rw [Option.some_or]
      show w'.kf.desk.slots r.base = _
      have hslot : w.kf.desk.slots r.base = _ := h
      rw [hdesk, Desk.slots_answer_of_none (by rw [hslot]), hslot]

theorem Follows.step {r : Retrieval URL} {result : Option (Option Image)}
    (h : w.Follows r result) (hV : w.kf.desk.Valid)
    {e : CellEvent URL Image} (he : ¬ Dequeues r.base e)
    (hs : w.step urlInit book e = some w') :
    w'.Follows r (result.or (resultOf r e)) := by
  have hother : resultOf r e = none → w'.kf = w.kf →
      w'.Follows r (result.or (resultOf r e)) := by
    intro hnone hkf
    rw [hnone, Option.or_none]
    exact h.desk_eq (congrArg Kingfisher.desk hkf)
  cases e with
  | answer req success =>
      obtain ⟨sf', -, rfl⟩ := Option.map_eq_some_iff.mp hs
      exact hother rfl (by cases success <;> rfl)
  | layout =>
      simp only [ReadCollection.step, Option.ite_none_right_eq_some] at hs
      obtain ⟨counts, -, rfl⟩ := Option.map_eq_some_iff.mp hs.2
      exact hother rfl rfl
  | willDisplay cell p =>
      simp only [ReadCollection.step, Option.ite_none_right_eq_some] at hs
      obtain rfl := Option.some.inj hs.2
      exact hother rfl rfl
  | cellForItemAt cell p =>
      simp only [ReadCollection.step, Option.ite_none_right_eq_some] at hs
      obtain ⟨kf, hkf, rfl⟩ := Option.map_eq_some_iff.mp hs.2
      rw [show resultOf r (.cellForItemAt cell p) = none from rfl,
        Option.or_none]
      exact h.cellForItemAt he hkf rfl
  | didEndDisplaying p =>
      obtain ⟨sf', -, rfl⟩ := Option.map_eq_some_iff.mp hs
      exact hother rfl rfl
  | enqueued cell =>
      obtain rfl := Option.some.inj hs
      exact hother rfl rfl
  | retrieved r' result' =>
      simp only [ReadCollection.step, Option.ite_none_right_eq_some] at hs
      obtain rfl := Option.some.inj hs.2
      exact h.retrieved hV hs.1 (Kingfisher.desk_complete _ _ _)

/-- From the step that gives a cell to a page until the cell is given to
another, its image view is what the first result for that page makes of it,
whatever else is answered, recycled or reloaded meanwhile. -/
theorem picture_of_first_result {pre es : List (CellEvent URL Image)}
    {A B C : ReadCollection URL Image} {cell : Nat} {p : IndexPath}
    {string : String} {url : URL}
    (hA : cellRun urlInit book start pre = some A)
    (hB : A.step urlInit book (.cellForItemAt cell p) = some B)
    (hstring : pageAt A.contentV p = some string)
    (hurl : urlInit string = some url)
    (hC : run (restrict (fun _ e => ¬ Dequeues cell e)
      (step urlInit book)) B es = some C) :
    ∃ r ∈ B.kf.retrievals, r.base = cell ∧ r.source = url ∧
      (es.findSome? (resultOf r) = none →
        r ∈ C.kf.retrievals ∧
          C.kf.views cell = ⟨none, some r.issuedIdentifier⟩) ∧
      ∀ result, es.findSome? (resultOf r) = some result →
        C.kf.views cell = ⟨result.map (Prod.mk url), none⟩ := by
  have hCoh := (coherent_of_run hA).step hB
  simp only [ReadCollection.step, Option.ite_none_right_eq_some] at hB
  obtain ⟨kf, hkf, rfl⟩ := Option.map_eq_some_iff.mp hB.2
  rw [cellForItemAt_eq, hstring, Option.map_some, hurl,
    Option.some.injEq] at hkf
  subst hkf
  obtain ⟨r, hr⟩ : ∃ r : Retrieval URL, r = ⟨A.kf.current + 1, cell, url⟩ :=
    ⟨_, rfl⟩
  have hmem : r ∈ (A.kf.setImage cell (some url)).retrievals := by
    rw [hr]
    exact List.mem_append_right _ (List.mem_singleton_self _)
  have hbase : r.base = cell := by rw [hr]
  have hsource : r.source = url := by rw [hr]
  have hfirst : (A.kf.setImage cell (some url)).desk.Awaits r.ticket := by
    rw [Kingfisher.desk_setImage, hr]
    exact Desk.awaits_issue
  obtain ⟨-, hfollows⟩ : Coherent urlInit C ∧
      C.Follows r (es.findSome? (resultOf r)) := by
    refine run_induction
      (P := fun es C => Coherent urlInit C ∧
        C.Follows r (es.findSome? (resultOf r))) ⟨hCoh, hfirst⟩ ?_ hC
    rintro es u e v - ⟨hu, hf⟩ hs
    obtain ⟨he, hs⟩ := restrict_eq_some.mp hs
    refine ⟨hu.step hs, ?_⟩
    have hstep := hf.step hu.valid (hbase ▸ he) hs
    rw [List.findSome?_append, List.findSome?_singleton]
    exact hstep
  refine ⟨r, hmem, hbase, hsource, ?_, ?_⟩
  · intro hnone
    rw [hnone] at hfollows
    have haw : C.kf.desk.Awaits r.ticket := hfollows
    obtain ⟨r', hr', heq⟩ := List.mem_map.mp haw.out
    obtain ⟨himage, hid⟩ := Slot.mk.inj haw.slot
    refine ⟨Retrieval.ticket_injective heq ▸ hr', ?_⟩
    rw [← hbase]
    exact ImageView.ext himage hid
  · intro result hresult
    rw [hresult] at hfollows
    obtain ⟨himage, hid⟩ := Slot.mk.inj hfollows
    rw [← hbase, ← hsource]
    exact ImageView.ext himage hid

/-- In the same run the second page's picture shows, seen from the step that
gave it the cell. -/
theorem picture_of_first_result_reused :
    ∃ B C : ReadCollection String String,
      run (restrict (fun _ e => ¬ Dequeues 0 e) (step some threeParts)) B
        [.retrieved ⟨2, 0, "2-2"⟩ (some "second"),
          .retrieved ⟨1, 0, "2-1"⟩ (some "first")] = some C ∧
      ∃ r ∈ B.kf.retrievals, r.source = "2-2" ∧
        ∀ result, [.retrieved ⟨2, 0, "2-2"⟩ (some "second"),
          .retrieved ⟨1, 0, "2-1"⟩ (some "first")].findSome? (resultOf r) =
            some result →
          C.kf.views 0 = ⟨result.map (Prod.mk "2-2"), none⟩ := by
  have hA : cellRun some threeParts 1
      [.answer ⟨.setUp, 1, middle⟩ true, .layout,
        .cellForItemAt 0 ⟨0, 0⟩, .enqueued 0] =
      some (_ : ReadCollection String String) := rfl
  have hB : Option.bind (cellRun some threeParts 1
      [.answer ⟨.setUp, 1, middle⟩ true, .layout,
        .cellForItemAt 0 ⟨0, 0⟩, .enqueued 0])
      (step some threeParts · (.cellForItemAt 0 ⟨0, 1⟩)) =
      some (_ : ReadCollection String String) := rfl
  rw [hA, Option.bind_some] at hB
  obtain ⟨r, hr, -, hsource, -, hresult⟩ :=
    picture_of_first_result hA hB rfl rfl
      (show run (restrict (fun _ e => ¬ Dequeues 0 e) (step some threeParts))
        _ [.retrieved ⟨2, 0, "2-2"⟩ (some "second"),
          .retrieved ⟨1, 0, "2-1"⟩ (some "first")] = some _ from rfl)
  exact ⟨_, _, rfl, r, hr, hsource, hresult⟩

end ReadCollection

end ComicReader
