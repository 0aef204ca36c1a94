import ComicReader.Lib.Run
import ComicReader.Source.BookInfoV

/-!
# Whose cover the view shows

The texts are always the latest model's. The cover is whatever the last
execution brought, and an update that finds an execution outstanding does not
get one of its own: the request that answers after it is the one it found.
So the cover depends on the state the latest update found, and on nothing
that came before. `Followed` says this for every state, and when the cover is
the latest model's is read off from it.
-/

namespace ComicReader

open Lib

namespace ComickI_BookInfoV

variable {Image : Type} {serves : String → Option Image}
  {sf sf' u : ComickI_BookInfoV Image} {book : ComickBookInfo}

/-- The two actions execute together. -/
def Synced (dataSource : DataSource) : Prop :=
  dataSource.comicImageAction.executing.map Prod.snd =
    dataSource.imageGetAction.executing

/-- An execute is refused and changes nothing, or starts both actions. -/
theorem executeComicImage_eq {dataSource : DataSource}
    (hS : Synced dataSource) (sourceType : DataSourceType) (url : String) :
    dataSource.executeComicImage (sourceType, url) =
      match dataSource.imageGetAction.executing with
      | some _ => .error .notEnabled
      | none => .ok ⟨⟨some (sourceType, url)⟩, ⟨some url⟩⟩ := by
  unfold Synced at hS
  cases hout : dataSource.imageGetAction.executing with
  | some url' =>
      rw [hout, Option.map_eq_some_iff] at hS
      obtain ⟨para, hpara, -⟩ := hS
      simp [DataSource.executeComicImage, Action.execute, hpara]
  | none =>
      rw [hout, Option.map_eq_none_iff] at hS
      cases sourceType
      simp [DataSource.executeComicImage, Action.execute, hS, hout]

/-- The view shows the texts of `book`. -/
def TextsOf (book : ComickBookInfo) (sf : ComickI_BookInfoV Image) : Prop :=
  sf.comicTitleLa = some book.bookName ∧
    sf.comicAuthorLa = some ("作者:" ++ book.bookAuthor) ∧
    sf.comicDesLa = some book.bookDes

/-- What an update does: it writes the texts, leaves the cover, and the
request that is outstanding afterwards is the one it found, if there was
one. -/
theorem setModel_some (hS : Synced sf.dataSource) (book : ComickBookInfo) :
    TextsOf book (sf.setModel (some book)) ∧
      (sf.setModel (some book)).model.value = some book ∧
      (sf.setModel (some book)).comicBookImageV = sf.comicBookImageV ∧
      (sf.setModel (some book)).outstanding =
        some (sf.outstanding.getD book.bookCoverImageURLStr) ∧
      Synced (sf.setModel (some book)).dataSource := by
  have hexec := executeComicImage_eq hS book.sourceType
    book.bookCoverImageURLStr
  cases hout : sf.dataSource.imageGetAction.executing with
  | some url =>
      simp only [hout] at hexec
      simpa [setModel, onModel, hexec, TextsOf, outstanding, hout] using hS
  | none =>
      simp only [hout] at hexec
      simp [setModel, onModel, hexec, TextsOf, outstanding, hout, Synced]

/-! ## The latest update -/

/-- The runs of a view whose URLs serve `serves`. -/
def infoRun (serves : String → Option Image) (es : List InfoEvent) :
    Option (ComickI_BookInfoV Image) :=
  run (infoStep serves) create es

/-- The latest update of the run `es` set `book`, in the state `u`, and only
answers have come after it. -/
def LatestUpdate (serves : String → Option Image) (es : List InfoEvent)
    (book : ComickBookInfo) (u : ComickI_BookInfoV Image) : Prop :=
  ∃ pre post, es = pre ++ .setModel (some book) :: post ∧
    (∀ e ∈ post, e = .answer) ∧ infoRun serves pre = some u

theorem LatestUpdate.answer {es : List InfoEvent}
    (hU : LatestUpdate serves es book u) :
    LatestUpdate serves (es ++ [.answer]) book u := by
  obtain ⟨pre, post, rfl, hpost, hu⟩ := hU
  refine ⟨pre, post ++ [.answer], by simp, ?_, hu⟩
  intro e he
  rcases List.mem_append.mp he with he | he
  · exact hpost e he
  · exact List.mem_singleton.mp he

/-- The view `sf` follows the update to `book` that was made in `u`: its
request, or the one it found, is outstanding, or has answered. -/
def Follows (serves : String → Option Image) (book : ComickBookInfo)
    (u sf : ComickI_BookInfoV Image) : Prop :=
  let url := u.outstanding.getD book.bookCoverImageURLStr
  (sf.outstanding = some url ∧ sf.comicBookImageV = u.comicBookImageV) ∨
    (sf.outstanding = none ∧
      sf.comicBookImageV = (serves url).or u.comicBookImageV)

theorem Follows.answer (hF : Follows serves book u sf)
    (hs : infoStep serves sf .answer = some sf') :
    Follows serves book u sf' := by
  obtain ⟨url, hout, rfl⟩ := Option.map_eq_some_iff.mp hs
  rcases hF with ⟨hurl, hcover⟩ | ⟨hnone, -⟩
  · obtain rfl := Option.some.inj (hout.symm.trans hurl)
    refine Or.inr ?_
    cases hserves : serves (u.outstanding.getD book.bookCoverImageURLStr) with
    | some im => simp [onImage, outstanding, DataSource.finish, Action.finish]
    | none =>
        simp [onImage, outstanding, DataSource.finish, Action.finish, hcover]
  · rw [hout] at hnone
    cases hnone

/-- An answer writes the cover and nothing else that is shown. -/
theorem answer_frame (hs : infoStep serves sf .answer = some sf') :
    sf'.model = sf.model ∧ Synced sf'.dataSource ∧
      ∀ book, TextsOf book sf → TextsOf book sf' := by
  obtain ⟨url, -, rfl⟩ := Option.map_eq_some_iff.mp hs
  cases serves url with
  | some im => exact ⟨rfl, rfl, fun _ => id⟩
  | none => exact ⟨rfl, rfl, fun _ => id⟩

/-- Whenever the view has a model, it shows that model's texts and follows the
update that set it. -/
structure Followed (serves : String → Option Image) (es : List InfoEvent)
    (sf : ComickI_BookInfoV Image) : Prop where
  synced : Synced sf.dataSource
  latest : ∀ book, sf.model.value = some book → TextsOf book sf ∧
    ∃ u, LatestUpdate serves es book u ∧ Follows serves book u sf

theorem followed_create : Followed serves [] create := by
  refine ⟨rfl, ?_⟩
  intro book hbook
  cases hbook

theorem Followed.step {es : List InfoEvent} (hF : Followed serves es sf)
    (hr : infoRun serves es = some sf) {e : InfoEvent}
    (hs : infoStep serves sf e = some sf') :
    Followed serves (es ++ [e]) sf' := by
  cases e with
  | setModel res =>
      obtain rfl : sf.setModel res = sf' := Option.some.inj hs
      cases res with
      | none =>
          refine ⟨hF.synced, ?_⟩
          intro book hbook
          cases hbook
      | some model =>
          obtain ⟨htexts, hmodel, hcover, hout, hS⟩ :=
            setModel_some hF.synced model
          refine ⟨hS, ?_⟩
          intro book hbook
          obtain rfl : model = book :=
            Option.some.inj (hmodel.symm.trans hbook)
          exact ⟨htexts, sf, ⟨es, [], rfl, by simp, hr⟩,
            Or.inl ⟨hout, hcover⟩⟩
  | answer =>
      obtain ⟨hmodel, hS, htexts⟩ := answer_frame hs
      refine ⟨hS, ?_⟩
      intro book hbook
      rw [hmodel] at hbook
      obtain ⟨htexts', u, hU, hfollows⟩ := hF.latest book hbook
      exact ⟨htexts book htexts', u, hU.answer, hfollows.answer hs⟩

theorem followed_of_run {es : List InfoEvent}
    (hr : infoRun serves es = some sf) : Followed serves es sf := by
  refine run_induction (P := Followed serves) followed_create ?_ hr
  intro es sf e sf' hr hF hs
  exact hF.step hr hs

/-- An update to a book whose cover is `im` is free in `u`: no request is
outstanding, or its answer will leave `im` shown. -/
def FreeFor (serves : String → Option Image)
    (u : ComickI_BookInfoV Image) (im : Image) : Prop :=
  ∀ url ∈ u.outstanding, (serves url).or u.comicBookImageV = some im

/-- In every state with no request outstanding in which the latest model's URL
serves an image, the view shows that model's texts, and the image if and only
if the latest update was free. -/
theorem cover_of_latest_iff {es : List InfoEvent}
    (hr : infoRun serves es = some sf) (hquiet : sf.outstanding = none)
    (hmodel : sf.model.value = some book) {im : Image}
    (him : serves book.bookCoverImageURLStr = some im) :
    ∃ u, LatestUpdate serves es book u ∧
      ((TextsOf book sf ∧ sf.comicBookImageV = some im) ↔
        FreeFor serves u im) := by
  obtain ⟨htexts, u, hU, hF⟩ := (followed_of_run hr).latest book hmodel
  refine ⟨u, hU, ?_⟩
  rcases hF with ⟨hout, -⟩ | ⟨-, hcover⟩
  · rw [hquiet] at hout
    cases hout
  · rw [hcover, FreeFor]
    cases hu : u.outstanding with
    | none => simp [him, htexts]
    | some url => simp [htexts]

/-- Two books; every URL serves its own text as the image. -/
def firstBook : ComickBookInfo :=
  ⟨"author", "A", "about A", "a.jpg", [], .DMZJ⟩
def secondBook : ComickBookInfo :=
  ⟨"author", "B", "about B", "b.jpg", [], .DMZJ⟩

/-- The second book is set after the first cover has arrived. -/
def oneAfterTheOther : List InfoEvent :=
  [.setModel (some firstBook), .answer, .setModel (some secondBook), .answer]

theorem cover_of_latest_iff_oneAfterTheOther :
    ∃ sf, infoRun some oneAfterTheOther = some sf ∧
      sf.outstanding = none ∧ sf.model.value = some secondBook ∧
      ∃ u, LatestUpdate some oneAfterTheOther secondBook u ∧
        ((TextsOf secondBook sf ∧ sf.comicBookImageV = some "b.jpg") ↔
          FreeFor some u "b.jpg") := by
  have hr : ∃ sf, infoRun some oneAfterTheOther = some sf ∧
      sf.outstanding = none ∧ sf.model.value = some secondBook :=
    ⟨_, rfl, rfl, rfl⟩
  obtain ⟨sf, hr, hquiet, hmodel⟩ := hr
  exact ⟨sf, hr, hquiet, hmodel, cover_of_latest_iff hr hquiet hmodel rfl⟩

/-- The second book is set before: its own request is refused, and the first
cover stays with the second book's texts. -/
theorem cover_of_first_overlapping :
    ∃ sf, infoRun some [.setModel (some firstBook),
        .setModel (some secondBook), .answer] = some sf ∧
      sf.outstanding = none ∧ sf.model.value = some secondBook ∧
      TextsOf secondBook sf ∧ sf.comicBookImageV = some "a.jpg" :=
  ⟨_, rfl, rfl, rfl, ⟨rfl, rfl, rfl⟩, rfl⟩

end ComickI_BookInfoV

end ComicReader
