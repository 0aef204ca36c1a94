import ComicReader.Download.Answered
import ComicReader.Download.Kept
import ComicReader.Reader.Cells
import ComicReader.Source.KingfisherManager

/-!
# The cells, the cache and the downloader of a run

The manager joins three systems that know nothing of each other. Whatever the
whole does is a step of some of them and nothing to the others: a completed
download is one for the cells and, with a picture, one for the cache. So seen
from the cells a run of the whole is a run with cells
(`cellRun_of_pictureRun`), seen from the cache it is a run of the cache
(`cacheRun_of_pictureRun`), and seen from the downloader it is a run without
cancellations (`downloadRun_of_pictureRun`). Whatever holds in those runs holds
here.
-/

namespace ComicReader

open Lib
open ImageCache (cacheRun)
open ImageDownloader (Sound NoCancel)
open ReadCollection (cellRun)

namespace ReadPictures

variable {URL Image : Type} [DecidableEq URL]
  {urlInit : String → Option URL} {book : ComickBookInfo} {start : Int}
  {sf sf' : ReadPictures URL Image}

/-! ## What a step does -/

/-- The cells when a retrieval has completed. -/
def handled (urlInit : String → Option URL) (book : ComickBookInfo)
    (w : ReadCollection URL Image) :
    Requester URL → Option Image → Option (ReadCollection URL Image)
  | .cell r, result => w.step urlInit book (.retrieved r result)
  | .other _, _ => some w

theorem completionHandler_eq {a : Requester URL} {result : Option Image} :
    completionHandler urlInit book sf a result =
      (handled urlInit book sf.collection a result).map fun w =>
        { sf with collection := w } := by
  cases a <;> rfl

variable [DecidableEq Image]

omit [DecidableEq Image] in
/-- What becomes of a picture in the cache when it has been downloaded. -/
theorem cacheImage_eq {source : URL} {result : Option Image} :
    sf.cacheImage source result =
      (stepSeen cacheStep sf.imageCache (result.map (.store source))).map
        fun imageCache => { sf with imageCache := imageCache } := by
  cases result <;> rfl

inductive PictureCase (urlInit : String → Option URL) (book : ComickBookInfo)
    (sf : ReadPictures URL Image) :
    PictureEvent URL Image → ReadPictures URL Image → Prop
  | acted (e : CellEvent URL Image) (w : ReadCollection URL Image)
      (hfree : sf.retrieving = none)
      (hview : ∀ r result, e ≠ .retrieved r result)
      (hw : sf.collection.step urlInit book e = some w) :
      PictureCase urlInit book sf (.cell e)
        { sf with collection := w, retrieving := begun sf.collection.kf w.kf }
  | asked (source : URL) (hfree : sf.retrieving = none) :
      PictureCase urlInit book sf (.other source)
        { sf with retrieving := some (.other source) }
  | found (a : Requester URL) (hmain : sf.downloader.downloading = none) :
      PictureCase urlInit book sf (.imageCachedType a)
        { sf with targetImageCached := true }
  | retrieved (a : Requester URL) (imageCache : ImageCache URL Image)
      (hbusy : sf.retrieving = some a) (hcached : sf.targetImageCached)
      (hc : cacheStep sf.imageCache (.retrieveImage a.source) =
        some imageCache) :
      PictureCase urlInit book sf (.retrieveImage a)
        { sf with
          retrieving := none
          targetImageCached := false
          imageCache := imageCache
          reading := sf.reading ++ [a] }
  | looked (a : Requester URL)
      (downloader : ImageDownloader URL (Option Image))
      (hbusy : sf.retrieving = some a) (hmiss : sf.targetImageCached = false)
      (hd : downloadStep sf.downloader (.downloadImage a.source) =
        some downloader) :
      PictureCase urlInit book sf (.downloadImage a)
        { sf with downloader := downloader }
  | started (a : Requester URL) (d : DownloadTask)
      (downloader : ImageDownloader URL (Option Image))
      (hbusy : sf.retrieving = some a)
      (htask : sf.downloader.downloadTask = some d)
      (hd : downloadStep sf.downloader .start = some downloader) :
      PictureCase urlInit book sf .start
        { sf with
          retrieving := none
          downloader := downloader
          completionHandlers := sf.completionHandlers ++ [(d, a)] }
  | session (e : DownloadEvent URL (Option Image))
      (downloader : ImageDownloader URL (Option Image))
      (hlook : ∀ url, e ≠ .downloadImage url) (hstart : e ≠ .start)
      (hno : NoCancel sf.downloader e)
      (hd : downloadStep sf.downloader e = some downloader) :
      PictureCase urlInit book sf (.session e)
        { sf with downloader := downloader }
  | cache (e : CacheEvent URL Image) (imageCache : ImageCache URL Image)
      (hstore : ∀ key image, e ≠ .store key image)
      (hasks : ImageCache.asked e = none)
      (hc : cacheStep sf.imageCache e = some imageCache) :
      PictureCase urlInit book sf (.cache e)
        { sf with imageCache := imageCache }
  | downloaded (d : DownloadTask) (a : Requester URL)
      (result : Option Image) (imageCache : ImageCache URL Image)
      (w : ReadCollection URL Image) (hfree : sf.retrieving = none)
      (hmem : (d, a) ∈ sf.completionHandlers)
      (hcalled : (d, .completed result) ∈ sf.downloader.called)
      (hc : stepSeen cacheStep sf.imageCache (result.map (.store a.source)) =
        some imageCache)
      (hw : handled urlInit book sf.collection a result = some w) :
      PictureCase urlInit book sf (.downloaded d a result)
        { sf with
          imageCache := imageCache
          completionHandlers := sf.completionHandlers.erase (d, a)
          collection := w }
  | read (a : Requester URL) (result : Option Image)
      (w : ReadCollection URL Image) (hfree : sf.retrieving = none)
      (hmem : a ∈ sf.reading)
      (hresult : (a.source, result) ∈
        sf.imageCache.answered.diff sf.cacheResults)
      (hw : handled urlInit book sf.collection a result = some w) :
      PictureCase urlInit book sf (.read a result)
        { sf with
          reading := sf.reading.erase a
          cacheResults := sf.cacheResults ++ [(a.source, result)]
          collection := w }

theorem pictureCase_of_step {e : PictureEvent URL Image}
    (hs : sf.step urlInit book e = some sf') :
    PictureCase urlInit book sf e sf' := by
  cases e with
  | cell e =>
      have hview : ∀ r result, e ≠ .retrieved r result := by
        rintro r result rfl
        cases hs
      have hs : (if sf.retrieving = none then
          (sf.collection.step urlInit book e).map fun w =>
            { sf with
              collection := w
              retrieving := begun sf.collection.kf w.kf }
          else none) = some sf' := by
        cases e with
        | retrieved r result => exact absurd rfl (hview r result)
        | answer | layout | cellForItemAt | willDisplay | didEndDisplaying
        | enqueued => exact hs
      rw [Option.ite_none_right_eq_some, Option.map_eq_some_iff] at hs
      obtain ⟨hfree, w, hw, rfl⟩ := hs
      exact .acted e w hfree hview hw
  | other source =>
      rw [step, Option.ite_none_right_eq_some, Option.some.injEq] at hs
      obtain ⟨hfree, rfl⟩ := hs
      exact .asked source hfree
  | imageCachedType a =>
      rw [step, Option.ite_none_right_eq_some, Option.some.injEq] at hs
      obtain ⟨⟨-, hmain, -⟩, rfl⟩ := hs
      exact .found a hmain
  | retrieveImage a =>
      rw [step, Option.ite_none_right_eq_some, Option.map_eq_some_iff] at hs
      obtain ⟨⟨hbusy, hcached⟩, imageCache, hc, rfl⟩ := hs
      exact .retrieved a imageCache hbusy hcached hc
  | downloadImage a =>
      rw [step, Option.ite_none_right_eq_some, Option.map_eq_some_iff] at hs
      obtain ⟨⟨hbusy, hmiss⟩, downloader, hd, rfl⟩ := hs
      exact .looked a downloader hbusy hmiss hd
  | start =>
      rw [step, Option.bind_eq_some_iff] at hs
      obtain ⟨a, hbusy, hs⟩ := hs
      obtain ⟨d, htask, hs⟩ := Option.bind_eq_some_iff.mp hs
      obtain ⟨downloader, hd, rfl⟩ := Option.map_eq_some_iff.mp hs
      exact .started a d downloader hbusy htask hd
  | session e =>
      cases e with
      | downloadImage | start | cancel => cases hs
      | didComplete | remove | callBack =>
          obtain ⟨downloader, hd, rfl⟩ := Option.map_eq_some_iff.mp hs
          exact .session _ downloader nofun nofun trivial hd
  | cache e =>
      have hown : (∀ key image, e ≠ .store key image) ∧
          ImageCache.asked e = none ∧
          (cacheStep sf.imageCache e).map
            (fun imageCache => { sf with imageCache := imageCache }) =
              some sf' := by
        cases e with
        | store | removeImage | retrieveImage => cases hs
        | io | storeRead | memoryCleaned | diskCleaned =>
            exact ⟨by simp, rfl, hs⟩
      obtain ⟨hstore, hasks, hs⟩ := hown
      obtain ⟨imageCache, hc, rfl⟩ := Option.map_eq_some_iff.mp hs
      exact .cache e imageCache hstore hasks hc
  | downloaded d a result =>
      rw [step, Option.ite_none_right_eq_some, cacheImage_eq,
        Option.bind_eq_some_iff] at hs
      obtain ⟨⟨hfree, hmem, hcalled⟩, v, hv, hs⟩ := hs
      obtain ⟨imageCache, hc, rfl⟩ := Option.map_eq_some_iff.mp hv
      rw [completionHandler_eq, Option.map_eq_some_iff] at hs
      obtain ⟨w, hw, rfl⟩ := hs
      exact .downloaded d a result imageCache w hfree hmem hcalled hc hw
  | read a result =>
      rw [step, Option.ite_none_right_eq_some, completionHandler_eq,
        Option.map_eq_some_iff] at hs
      obtain ⟨⟨hfree, hmem, hresult⟩, w, hw, rfl⟩ := hs
      exact .read a result w hfree hmem hresult hw

/-! ## The parts of a run -/

/-- What a step is for the cells. -/
def cellEvent : PictureEvent URL Image → Option (CellEvent URL Image)
  | .cell e => some e
  | .downloaded _ (.cell r) result | .read (.cell r) result =>
      some (.retrieved r result)
  | _ => none

/-- What a step is for the downloader. -/
def downloadEvent :
    PictureEvent URL Image → Option (DownloadEvent URL (Option Image))
  | .downloadImage a => some (.downloadImage a.source)
  | .start => some .start
  | .session e => some e
  | _ => none

/-- What a step is for the cache. -/
def cacheEvent : PictureEvent URL Image → Option (CacheEvent URL Image)
  | .retrieveImage a => some (.retrieveImage a.source)
  | .downloaded _ a result => result.map (.store a.source)
  | .cache e => some e
  | _ => none

def pictureRun (urlInit : String → Option URL) (book : ComickBookInfo)
    (start : Int) (es : List (PictureEvent URL Image)) :
    Option (ReadPictures URL Image) :=
  run (step urlInit book) (initial book start) es

omit [DecidableEq Image] in
theorem stepSeen_handled {a : Requester URL} {result : Option Image}
    {w w' : ReadCollection URL Image}
    (hw : handled urlInit book w a result = some w') :
    stepSeen (ReadCollection.step urlInit book) w
      (cellEvent (.read a result)) = some w' := by
  cases a <;> exact hw

theorem cells_of_step {e : PictureEvent URL Image}
    (hs : sf.step urlInit book e = some sf') :
    stepSeen (ReadCollection.step urlInit book) sf.collection (cellEvent e) =
      some sf'.collection := by
  cases pictureCase_of_step hs with
  | acted e w hfree hview hw => exact hw
  | downloaded d a result imageCache w hfree hmem hcalled hc hw
  | read a result w hfree hmem hresult hw =>
      have hseen := stepSeen_handled hw
      cases a <;> exact hseen
  | asked | found | retrieved | looked | started | session | cache => rfl

theorem downloader_of_step {e : PictureEvent URL Image}
    (hs : sf.step urlInit book e = some sf') :
    stepSeen (restrict NoCancel downloadStep) sf.downloader
      (downloadEvent e) = some sf'.downloader := by
  cases pictureCase_of_step hs with
  | looked a downloader hbusy hmiss hd =>
      exact restrict_eq_some.mpr ⟨trivial, hd⟩
  | started a d downloader hbusy htask hd =>
      exact restrict_eq_some.mpr ⟨trivial, hd⟩
  | session e downloader hlook hstart hno hd =>
      exact restrict_eq_some.mpr ⟨hno, hd⟩
  | acted | asked | found | retrieved | cache | downloaded | read => rfl

theorem imageCache_of_step {e : PictureEvent URL Image}
    (hs : sf.step urlInit book e = some sf') :
    stepSeen cacheStep sf.imageCache (cacheEvent e) = some sf'.imageCache := by
  cases pictureCase_of_step hs with
  | retrieved a imageCache hbusy hcached hc => exact hc
  | cache e imageCache hstore hasks hc => exact hc
  | downloaded d a result imageCache w hfree hmem hcalled hc hw => exact hc
  | acted | asked | found | looked | started | session | read => rfl

theorem cellRun_of_pictureRun {es : List (PictureEvent URL Image)}
    (hr : pictureRun urlInit book start es = some sf) :
    cellRun urlInit book start (es.filterMap cellEvent) =
      some sf.collection :=
  run_project ReadPictures.collection cellEvent (I := fun _ => True)
    (fun _ _ _ => trivial) (fun _ _ _ _ hs => cells_of_step hs) hr

theorem downloadRun_of_pictureRun {es : List (PictureEvent URL Image)}
    (hr : pictureRun urlInit book start es = some sf) :
    run (restrict NoCancel downloadStep) ImageDownloader.initial
      (es.filterMap downloadEvent) = some sf.downloader :=
  run_project ReadPictures.downloader downloadEvent (I := fun _ => True)
    (fun _ _ _ => trivial) (fun _ _ _ _ hs => downloader_of_step hs) hr

theorem cacheRun_of_pictureRun {es : List (PictureEvent URL Image)}
    (hr : pictureRun urlInit book start es = some sf) :
    cacheRun (es.filterMap cacheEvent) = some sf.imageCache :=
  run_project ReadPictures.imageCache cacheEvent (I := fun _ => True)
    (fun _ _ _ => trivial) (fun _ _ _ _ hs => imageCache_of_step hs) hr

theorem sound_of_pictureRun {es : List (PictureEvent URL Image)}
    (hr : pictureRun urlInit book start es = some sf) :
    Sound sf.downloader :=
  ImageDownloader.sound_of_run
    (run_of_restrict (downloadRun_of_pictureRun hr))

/-- What the downloader is after a step: it has taken a step, or none. -/
theorem downloader_cases {e : PictureEvent URL Image}
    (hs : sf.step urlInit book e = some sf') :
    sf'.downloader = sf.downloader ∨ ∃ d, downloadEvent e = some d ∧
      ImageDownloader.DownloadCase sf.downloader d sf'.downloader := by
  have hseen := downloader_of_step hs
  cases hd : downloadEvent e with
  | none =>
      rw [hd] at hseen
      exact Or.inl (Option.some.inj hseen).symm
  | some d =>
      rw [hd] at hseen
      exact Or.inr ⟨d, rfl,
        ImageDownloader.downloadCase_of_step (restrict_eq_some.mp hseen).2⟩

/-! ## What a step of the cells does with the image views -/

omit [DecidableEq Image] in
/-- All that a step of the cells does with the image views is to set one. -/
theorem kf_of_step {w w' : ReadCollection URL Image} {e : CellEvent URL Image}
    (hview : ∀ r result, e ≠ .retrieved r result)
    (hs : w.step urlInit book e = some w') :
    w'.kf = w.kf ∨ ∃ cell url, w'.kf = w.kf.setImage cell (some url) := by
  cases e with
  | retrieved r result => exact absurd rfl (hview r result)
  | answer req success =>
      obtain ⟨contentV, -, rfl⟩ := Option.map_eq_some_iff.mp hs
      cases success <;> exact Or.inl rfl
  | layout =>
      rw [ReadCollection.step, Option.ite_none_right_eq_some,
        Option.map_eq_some_iff] at hs
      obtain ⟨-, counts, -, rfl⟩ := hs
      exact Or.inl rfl
  | cellForItemAt cell p =>
      rw [ReadCollection.step, Option.ite_none_right_eq_some,
        ReadCollection.cellForItemAt_eq, Option.map_map,
        Option.map_eq_some_iff] at hs
      obtain ⟨-, string, -, rfl⟩ := hs
      cases hurl : urlInit string with
      | none => exact Or.inl (by simp [hurl])
      | some url => exact Or.inr ⟨cell, url, by simp [hurl]⟩
  | willDisplay cell p =>
      rw [ReadCollection.step, Option.ite_none_right_eq_some,
        Option.some.injEq] at hs
      obtain ⟨-, rfl⟩ := hs
      exact Or.inl rfl
  | didEndDisplaying p =>
      obtain ⟨contentV, -, rfl⟩ := Option.map_eq_some_iff.mp hs
      exact Or.inl rfl
  | enqueued cell =>
      obtain rfl := Option.some.inj hs
      exact Or.inl rfl

omit [DecidableEq URL] [DecidableEq Image] in
theorem begun_setImage (kf : Kingfisher URL Image) (cell : Nat) (url : URL) :
    begun kf (kf.setImage cell (some url)) =
      some (.cell ⟨kf.current + 1, cell, url⟩) := by
  simp [begun, Kingfisher.setImage]

omit [DecidableEq Image] in
/-- A completed retrieval is not in flight any more, and a picture it has
brought is what it was completed with. -/
theorem of_handled {w w' : ReadCollection URL Image} {a : Requester URL}
    {result : Option Image} (hV : w.kf.desk.Valid)
    (hw : handled urlInit book w a result = some w') :
    (∀ r ∈ w'.kf.retrievals, r ∈ w.kf.retrievals ∧ .cell r ≠ a) ∧
      ∀ cell picture, (w'.kf.views cell).image = some picture →
        (w.kf.views cell).image = some picture ∨
          a.source = picture.1 ∧ result = some picture.2 := by
  cases a with
  | other source =>
      obtain rfl := Option.some.inj hw
      exact ⟨fun r hr => ⟨hr, nofun⟩, fun _ _ h => Or.inl h⟩
  | cell r =>
      rw [handled, ReadCollection.step, Option.ite_none_right_eq_some,
        Option.some.injEq] at hw
      obtain ⟨-, rfl⟩ := hw
      have hnodup : w.kf.retrievals.Nodup := by
        have hdistinct := hV.distinct
        rw [Kingfisher.desk, List.map_map] at hdistinct
        exact hdistinct.of_map
      have hretrievals : (w.kf.complete r result).retrievals =
          w.kf.retrievals.erase r := by
        unfold Kingfisher.complete
        dsimp only
        split <;> rfl
      refine ⟨?_, ?_⟩
      · intro r' hr'
        rw [hretrievals, hnodup.mem_erase_iff] at hr'
        obtain ⟨hne, hr'⟩ := hr'
        refine ⟨hr', ?_⟩
        rintro ⟨⟩
        exact hne rfl
      · intro cell picture h
        have hview : (w.kf.complete r result).views cell = w.kf.views cell ∨
            ((w.kf.complete r result).views cell).image =
              (result.map (Prod.mk r.source)).or (w.kf.views cell).image := by
          unfold Kingfisher.complete
          dsimp only
          split
          · by_cases hcell : cell = r.base
            · subst hcell
              refine Or.inr ?_
              cases result <;> simp
            · exact Or.inl (Function.update_of_ne hcell ..)
          · exact Or.inl rfl
        rcases hview with hview | hview
        · exact Or.inl (hview ▸ h)
        · rw [hview] at h
          cases result with
          | none => exact Or.inl h
          | some image =>
              obtain rfl := Option.some.inj h
              exact Or.inr ⟨rfl, rfl⟩

end ReadPictures

end ComicReader
