import Mathlib.Data.List.Count
import ComicReader.Reader.Joined
import ComicReader.Reader.Wire

/-!
# The pictures are downloads of their pages

`Linked` is what holds between the cells, the cache and the downloader. A
completion handler belongs to a download of its requester's URL, a retrieval
that has not completed has its handler, or waits for the cache, or is what the
main thread is at, and only downloaded pictures are stored. A picture that is
shown on a page then was downloaded from the address of the page, for whichever
request and however long ago (`picture_downloaded`), an address that the server
sent for a part of the book (`picture_of_part`).

`Reads` is what the cache owes. When nothing is under way any more it owes
nothing, and no image view waits for a picture, exactly if no request came too
late for the download that it joined (`handled_iff`).
-/

namespace ComicReader

open Lib
open ImageCache (cacheRun work retrievals)
open ImageDownloader (keys Handed Sound Steady Lands)
open ReadCollection (pageAt)
open ComicReadContentV (readRun Sent wireEvent threeParts middle)

namespace ReadPictures

variable {URL Image : Type} [DecidableEq URL] [DecidableEq Image]
  {urlInit : String → Option URL} {book : ComickBookInfo} {start : Int}
  {sf sf' : ReadPictures URL Image}

/-! ## What links the cells to the downloads -/

/-- A session task of the URL has completed with the picture. -/
def Downloaded (es : List (PictureEvent URL Image))
    (sf : ReadPictures URL Image) (url : URL) (image : Image) : Prop :=
  ∃ t, (sf.downloader.sessionTasks t).map SessionDataTask.url = some url ∧
    .session (.didComplete t (some image)) ∈ es

structure Linked (es : List (PictureEvent URL Image))
    (sf : ReadPictures URL Image) : Prop where
  found : sf.targetImageCached → sf.downloader.downloading = none
  looked : ∀ url found, sf.downloader.downloading = some (url, found) →
    ∃ a, sf.retrieving = some a ∧ a.source = url
  handlers : ∀ h ∈ sf.completionHandlers, Handed sf.downloader h.1 ∧
    (sf.downloader.sessionTasks h.1.sessionTask).map SessionDataTask.url =
      some h.2.source
  answered : ∀ d, Handed sf.downloader d → d ∉ keys sf.downloader →
    ∃ a, (d, a) ∈ sf.completionHandlers
  retrievals : ∀ r ∈ sf.collection.kf.retrievals,
    sf.retrieving = some (.cell r) ∨ .cell r ∈ sf.reading ∨
      ∃ d, (d, .cell r) ∈ sf.completionHandlers
  stored : ∀ url image, .store url image ∈ es.filterMap cacheEvent →
    Downloaded es sf url image
  shown : ∀ cell picture, (sf.collection.kf.views cell).image = some picture →
    Downloaded es sf picture.1 picture.2

omit [DecidableEq URL] [DecidableEq Image] in
theorem linked_initial :
    Linked [] (initial book start : ReadPictures URL Image) where
  found _ := rfl
  looked _ _ h := by cases h
  handlers _ h := by cases h
  answered _ h := by
    obtain ⟨_, h, -⟩ := h
    cases h
  retrievals _ h := by cases h
  stored _ _ h := by cases h
  shown _ _ h := by cases h

/-- What has been downloaded stays downloaded. -/
theorem Downloaded.step {es : List (PictureEvent URL Image)} {url : URL}
    {image : Image} (h : Downloaded es sf url image)
    (hS : Sound sf.downloader) {e : PictureEvent URL Image}
    (hs : sf.step urlInit book e = some sf') :
    Downloaded (es ++ [e]) sf' url image := by
  obtain ⟨t, hurl, hmem⟩ := h
  refine ⟨t, ?_, List.mem_append_left _ hmem⟩
  rcases downloader_cases hs with heq | ⟨d, -, hc⟩
  · rw [heq]
    exact hurl
  · exact ImageDownloader.url_step hS hc hurl

omit [DecidableEq URL] [DecidableEq Image] in
/-- A picture that a completion handler gets is a download of its requester's
URL. -/
theorem Linked.downloaded {es : List (PictureEvent URL Image)}
    (hL : Linked es sf)
    (hY : Steady (es.filterMap downloadEvent) sf.downloader)
    {d : DownloadTask} {a : Requester URL} {image : Image}
    (hmem : (d, a) ∈ sf.completionHandlers)
    (hcalled : (d, .completed (some image)) ∈ sf.downloader.called) :
    Downloaded es sf a.source image := by
  obtain ⟨result, hdid, hsame⟩ := hY.answered _ hcalled
  obtain rfl : result = some image := by
    cases hsame _ hcalled rfl
    rfl
  refine ⟨d.sessionTask, (hL.handlers _ hmem).2, ?_⟩
  obtain ⟨e, he, hde⟩ := List.mem_filterMap.mp hdid
  cases e with
  | session e =>
      obtain rfl := Option.some.inj hde
      exact he
  | downloadImage | start => cases hde
  | cell | other | imageCachedType | retrieveImage | cache | downloaded
  | read => cases hde

/-- Steps of the downloader keep what is known of the handlers. -/
theorem Linked.handlers_step {es : List (PictureEvent URL Image)}
    (hL : Linked es sf) (hS : Sound sf.downloader)
    {e : PictureEvent URL Image} (hs : sf.step urlInit book e = some sf')
    {h : DownloadTask × Requester URL} (hh : h ∈ sf.completionHandlers) :
    Handed sf'.downloader h.1 ∧
      (sf'.downloader.sessionTasks h.1.sessionTask).map SessionDataTask.url =
        some h.2.source := by
  obtain ⟨hhanded, hurl⟩ := hL.handlers h hh
  rcases downloader_cases hs with heq | ⟨d, -, hc⟩
  · rw [heq]
    exact ⟨hhanded, hurl⟩
  · exact ⟨(ImageDownloader.handed_step hS hc).mpr (Or.inl hhanded),
      ImageDownloader.url_step hS hc hurl⟩

/-- A download task that has not been called back has had its handler, unless
it has just been returned. -/
theorem Linked.answered_step {es : List (PictureEvent URL Image)}
    (hL : Linked es sf) (hS : Sound sf.downloader)
    {e : PictureEvent URL Image} (hs : sf.step urlInit book e = some sf')
    {d : DownloadTask} (hd : Handed sf'.downloader d)
    (hkey : d ∉ keys sf'.downloader) :
    (∃ a, (d, a) ∈ sf.completionHandlers) ∨
      downloadEvent e = some .start ∧ sf.downloader.downloadTask = some d := by
  rcases downloader_cases hs with heq | ⟨d', hd', hc⟩
  · rw [heq] at hd hkey
    exact Or.inl (hL.answered d hd hkey)
  · have hkey' : d ∉ keys sf.downloader :=
      fun h => hkey (ImageDownloader.keys_step hc h)
    rcases (ImageDownloader.handed_step hS hc).mp hd with hd | ⟨rfl, htask⟩
    · exact Or.inl (hL.answered d hd hkey')
    · exact Or.inr ⟨hd', htask⟩

/-- A picture that a step stores in the cache has been downloaded. -/
theorem Linked.stored_step {es : List (PictureEvent URL Image)}
    (hL : Linked es sf)
    (hY : Steady (es.filterMap downloadEvent) sf.downloader)
    (hS : Sound sf.downloader) {e : PictureEvent URL Image}
    (hs : sf.step urlInit book e = some sf') {url : URL} {image : Image}
    (h : .store url image ∈ (es ++ [e]).filterMap cacheEvent) :
    Downloaded (es ++ [e]) sf' url image := by
  rw [List.filterMap_append, List.mem_append] at h
  rcases h with h | h
  · exact (hL.stored url image h).step hS hs
  · obtain ⟨e', he', hstore⟩ := List.mem_filterMap.mp h
    obtain rfl := List.mem_singleton.mp he'
    cases pictureCase_of_step hs with
    | downloaded d a result imageCache w hfree hmem hcalled hc hw =>
        have hstore : result.map (CacheEvent.store a.source) =
            some (.store url image) := hstore
        obtain ⟨image', rfl, heq⟩ := Option.map_eq_some_iff.mp hstore
        obtain ⟨rfl, rfl⟩ := CacheEvent.store.inj heq
        exact (hL.downloaded hY hmem hcalled).step hS hs
    | cache e imageCache hstores hasks hc =>
        exact absurd (Option.some.inj hstore) (hstores url image)
    | acted | asked | found | retrieved | looked | started | session
    | read => cases hstore

theorem Linked.step {es : List (PictureEvent URL Image)} (hL : Linked es sf)
    (hY : Steady (es.filterMap downloadEvent) sf.downloader)
    (hS : Sound sf.downloader) (hV : sf.collection.kf.desk.Valid)
    (hC : cacheRun (es.filterMap cacheEvent) = some sf.imageCache)
    {e : PictureEvent URL Image} (hs : sf.step urlInit book e = some sf') :
    Linked (es ++ [e]) sf' := by
  have hhandlers := fun h hh => hL.handlers_step (h := h) hS hs hh
  have hanswered := fun d hd hkey => hL.answered_step (d := d) hS hs hd hkey
  have hstored : ∀ url image,
      .store url image ∈ (es ++ [e]).filterMap cacheEvent →
        Downloaded (es ++ [e]) sf' url image :=
    fun _ _ h => hL.stored_step hY hS hs h
  have hstays : ∀ {url image}, Downloaded es sf url image →
      Downloaded (es ++ [e]) sf' url image := fun h => h.step hS hs
  have hshown := fun cell picture h => hstays (hL.shown cell picture h)
  have hnostart : downloadEvent e ≠ some .start → ∀ d,
      Handed sf'.downloader d → d ∉ keys sf'.downloader →
        ∃ a, (d, a) ∈ sf.completionHandlers :=
    fun hne d hd hkey => (hanswered d hd hkey).resolve_right fun h => hne h.1
  -- While the main thread is free there is no lookup.
  have hlooked : sf.retrieving = none → ∀ url found,
      sf.downloader.downloading = some (url, found) → False := by
    intro hfree url found h
    obtain ⟨a, ha, -⟩ := hL.looked url found h
    rw [hfree] at ha
    cases ha
  cases pictureCase_of_step hs with
  | acted e w hfree hview hw =>
      have hold : ∀ r ∈ sf.collection.kf.retrievals, .cell r ∈ sf.reading ∨
          ∃ d, (d, .cell r) ∈ sf.completionHandlers := by
        intro r hr
        refine (hL.retrievals r hr).resolve_left fun h => ?_
        rw [hfree] at h
        cases h
      refine ⟨hL.found, fun url found h => (hlooked hfree url found h).elim,
        hhandlers, hnostart (by simp [downloadEvent]), ?_, hstored, ?_⟩
      · intro r hr
        rcases kf_of_step hview hw with hkf | ⟨cell, url, hkf⟩
        · rw [hkf] at hr
          exact Or.inr (hold r hr)
        · rw [hkf, Kingfisher.setImage, List.mem_append,
            List.mem_singleton] at hr
          rcases hr with hr | rfl
          · exact Or.inr (hold r hr)
          · refine Or.inl ?_
            show begun sf.collection.kf w.kf = _
            rw [hkf, begun_setImage]
      · intro cell picture h
        rcases kf_of_step hview hw with hkf | ⟨cell', url, hkf⟩
        · rw [hkf] at h
          exact hshown cell picture h
        · rw [hkf] at h
          by_cases hcell : cell = cell'
          · subst hcell
            simp [Kingfisher.setImage] at h
          · simp only [Kingfisher.setImage, ne_eq, hcell, not_false_eq_true,
              Function.update_of_ne] at h
            exact hshown cell picture h
  | asked source hfree =>
      refine ⟨hL.found, fun url found h => (hlooked hfree url found h).elim,
        hhandlers, hnostart (by simp [downloadEvent]), ?_, hstored, hshown⟩
      intro r hr
      refine (hL.retrievals r hr).imp_left fun h => ?_
      rw [hfree] at h
      cases h
  | found a hmain =>
      exact ⟨fun _ => hmain, hL.looked, hhandlers,
        hnostart (by simp [downloadEvent]), hL.retrievals, hstored, hshown⟩
  | retrieved a imageCache hbusy hcached hc =>
      refine ⟨fun h => absurd h Bool.false_ne_true, ?_, hhandlers,
        hnostart (by simp [downloadEvent]), ?_, hstored, hshown⟩
      · intro url found h
        have h : sf.downloader.downloading = some (url, found) := h
        rw [hL.found hcached] at h
        cases h
      · intro r hr
        refine Or.inr ?_
        rcases hL.retrievals r hr with h | h | h
        · obtain rfl := Option.some.inj (hbusy.symm.trans h)
          exact Or.inl (List.mem_append_right _ (List.mem_singleton_self _))
        · exact Or.inl (List.mem_append_left _ h)
        · exact Or.inr h
  | looked a downloader hbusy hmiss hd =>
      refine ⟨fun h => absurd (hmiss.symm.trans h) (by simp), ?_, hhandlers,
        hnostart (by simp [downloadEvent]), hL.retrievals, hstored, hshown⟩
      intro url found h
      cases ImageDownloader.downloadCase_of_step hd with
      | looked url' hmain =>
          obtain ⟨rfl, -⟩ := Prod.mk.inj (Option.some.inj h)
          exact ⟨a, hbusy, rfl⟩
  | started a d downloader hbusy htask hd =>
      have hc := ImageDownloader.downloadCase_of_step hd
      refine ⟨?_, ?_, ?_, ?_, ?_, hstored, hshown⟩
      · intro _
        cases hc with
        | appended | added => rfl
      · intro url found h
        cases hc with
        | appended | added => cases h
      · intro h hh
        rcases List.mem_append.mp hh with hh | hh
        · exact hhandlers h hh
        · obtain rfl := List.mem_singleton.mp hh
          refine ⟨(ImageDownloader.handed_step hS hc).mpr
            (Or.inr ⟨rfl, htask⟩), ?_⟩
          cases hmain : sf.downloader.downloading with
          | none => simp [ImageDownloader.downloadTask, hmain] at htask
          | some look =>
              obtain ⟨url, found⟩ := look
              obtain ⟨a', ha', rfl⟩ := hL.looked url found hmain
              obtain rfl := Option.some.inj (hbusy.symm.trans ha')
              exact ImageDownloader.url_of_start hS hmain htask hc
      · intro d' hd' hkey
        rcases hanswered d' hd' hkey with ⟨a', h⟩ | ⟨-, h⟩
        · exact ⟨a', List.mem_append_left _ h⟩
        · obtain rfl := Option.some.inj (htask.symm.trans h)
          exact ⟨a, List.mem_append_right _ (List.mem_singleton_self _)⟩
      · intro r hr
        refine Or.inr ?_
        rcases hL.retrievals r hr with h | h | ⟨d', h⟩
        · obtain rfl := Option.some.inj (hbusy.symm.trans h)
          exact Or.inr ⟨d,
            List.mem_append_right _ (List.mem_singleton_self _)⟩
        · exact Or.inl h
        · exact Or.inr ⟨d', List.mem_append_left _ h⟩
  | session e downloader hlook hstart hno hd =>
      have hmain : downloader.downloading = sf.downloader.downloading := by
        cases ImageDownloader.downloadCase_of_step hd with
        | looked url' hmain => exact absurd rfl (hlook url')
        | appended | added => exact absurd rfl hstart
        | missed | cancelled => exact hno.elim
        | ignored | found | removed | calledBack => rfl
      exact ⟨fun h => hmain.trans (hL.found h),
        fun url found h => hL.looked url found (hmain.symm.trans h), hhandlers,
        hnostart fun h => hstart (Option.some.inj h), hL.retrievals, hstored,
        hshown⟩
  | cache e imageCache hstores hasks hc =>
      exact ⟨hL.found, hL.looked, hhandlers,
        hnostart (by simp [downloadEvent]), hL.retrievals, hstored, hshown⟩
  | downloaded d a result imageCache w hfree hmem hcalled hc hw =>
      obtain ⟨hretrievals, hviews⟩ := of_handled hV hw
      refine ⟨hL.found, fun url found h => (hlooked hfree url found h).elim,
        ?_, ?_, ?_, hstored, ?_⟩
      · exact fun h hh => hhandlers h (List.mem_of_mem_erase hh)
      · intro d' hd' hkey
        obtain ⟨a', h⟩ := hnostart (by simp [downloadEvent]) d' hd' hkey
        refine ⟨a', (List.mem_erase_of_ne ?_).mpr h⟩
        rintro heq
        obtain ⟨rfl, -⟩ := Prod.mk.inj heq
        exact hkey (List.mem_map_of_mem hcalled)
      · intro r hr
        obtain ⟨hr, hne⟩ := hretrievals r hr
        refine Or.inr ?_
        rcases hL.retrievals r hr with h | h | ⟨d', h⟩
        · rw [hfree] at h
          cases h
        · exact Or.inl h
        · refine Or.inr ⟨d', (List.mem_erase_of_ne ?_).mpr h⟩
          exact fun heq => hne (Prod.mk.inj heq).2
      · intro cell picture h
        rcases hviews cell picture h with h | ⟨hsource, rfl⟩
        · exact hshown cell picture h
        · exact hsource ▸ hstays (hL.downloaded hY hmem hcalled)
  | read a result w hfree hmem hresult hw =>
      obtain ⟨hretrievals, hviews⟩ := of_handled hV hw
      refine ⟨hL.found, fun url found h => (hlooked hfree url found h).elim,
        hhandlers, hnostart (by simp [downloadEvent]), ?_, hstored, ?_⟩
      · intro r hr
        obtain ⟨hr, hne⟩ := hretrievals r hr
        refine (hL.retrievals r hr).imp_right ?_
        exact Or.imp_left fun h => (List.mem_erase_of_ne hne).mpr h
      · intro cell picture h
        rcases hviews cell picture h with h | ⟨hsource, rfl⟩
        · exact hshown cell picture h
        · have hstore := ImageCache.stored_of_answered hC
            ((List.diff_subset _ _) hresult)
          exact hsource ▸ hstays (hL.stored a.source picture.2 hstore)

theorem linked_of_run {es : List (PictureEvent URL Image)}
    (hr : pictureRun urlInit book start es = some sf) : Linked es sf := by
  refine run_induction (P := fun es sf => Linked es sf) linked_initial ?_ hr
  intro pre u e v hu hL hs
  have hV := (ReadCollection.coherent_of_run (cellRun_of_pictureRun hu)).valid
  exact hL.step
    (ImageDownloader.steady_of_run (downloadRun_of_pictureRun hu))
    (sound_of_pictureRun hu) hV (cacheRun_of_pictureRun hu) hs

theorem downloaded_of_shown {es : List (PictureEvent URL Image)}
    (hr : pictureRun urlInit book start es = some sf) {cell : Nat}
    {p : IndexPath} (hcell : (cell, p) ∈ sf.collection.cells)
    {string : String} (hstring : pageAt sf.collection.contentV p = some string)
    {url : URL} (hurl : urlInit string = some url) {picture : URL × Image}
    (hpicture : (sf.collection.kf.views cell).image = some picture) :
    Downloaded es sf url picture.2 := by
  have hC := ReadCollection.coherent_of_run (cellRun_of_pictureRun hr)
  have hown : picture.1 = url :=
    (hC.serves _ hcell string hstring url hurl).shown picture hpicture
  exact hown ▸ (linked_of_run hr).shown cell picture hpicture

/-- Another view shares the download of the first page, whose cell comes back
when the picture is on the disk only and reads it from there; the download of
the second page fails. -/
def twoPages : List (PictureEvent String String) :=
  [.cell (.answer ⟨.setUp, 1, middle⟩ true), .cell .layout,
    .cell (.cellForItemAt 0 ⟨0, 0⟩), .downloadImage (.cell ⟨1, 0, "2-1"⟩),
    .start, .other "2-1", .downloadImage (.other "2-1"), .start,
    .session (.didComplete 0 (some "first")), .session .remove,
    .session .callBack, .downloaded ⟨0, 1⟩ (.other "2-1") (some "first"),
    .cell (.cellForItemAt 1 ⟨0, 1⟩), .downloadImage (.cell ⟨2, 1, "2-2"⟩),
    .start, .cell (.enqueued 0), .cache (.io true),
    .cache (.memoryCleaned fun _ => true), .cell (.cellForItemAt 0 ⟨0, 0⟩),
    .imageCachedType (.cell ⟨3, 0, "2-1"⟩),
    .retrieveImage (.cell ⟨3, 0, "2-1"⟩), .cache (.io true),
    .downloaded ⟨0, 0⟩ (.cell ⟨1, 0, "2-1"⟩) (some "first"),
    .cache .storeRead, .read (.cell ⟨3, 0, "2-1"⟩) (some "first"),
    .session (.didComplete 1 none), .session .remove, .session .callBack,
    .downloaded ⟨1, 0⟩ (.cell ⟨2, 1, "2-2"⟩) none, .cache (.io true)]

/-- What the responses of a run have sent are the pages of the parts whose
requests were answered. -/
theorem answered_of_sent {res : List ReadEvent} {x : Request × List String}
    (h : Sent (res.map wireEvent) x) :
    .answer x.1 true ∈ res ∧ x.2 = x.1.model.partImageUrlStrArr := by
  obtain ⟨response, hmem, harr⟩ := h
  obtain ⟨e, he, hwire⟩ := List.mem_map.mp hmem
  cases e with
  | willDisplay | didEndDisplaying => cases hwire
  | answer req success =>
      cases success with
      | false =>
          obtain ⟨rfl, rfl⟩ := WireEvent.answer.inj hwire
          cases harr
      | true =>
          obtain ⟨rfl, rfl⟩ := WireEvent.answer.inj hwire
          rw [ComicReadContentV.getPartImageUrlStrArr_pageResponse] at harr
          exact ⟨he, (Option.some.inj harr).symm⟩

/-- The pages of the reader are pages of parts of the book whose requests were
answered. -/
theorem page_answered {res : List ReadEvent} {contentV : ComicReadContentV}
    (hr : readRun book start res = some contentV) {p : IndexPath}
    {string : String} (hstring : pageAt contentV p = some string) :
    ∃ req, .answer req true ∈ res ∧
      getIndexComicPart book req.index = some req.model ∧
      string ∈ req.model.partImageUrlStrArr := by
  have hwire : run (wireStep book) (ComicReadContentV.initial book start)
      (res.map wireEvent) = some contentV := by
    refine run_map (fun u e v hs => ?_) hr
    rw [ComicReadContentV.wireStep_eq (ComicReadContentV.says_wireEvent e),
      ComicReadContentV.readEvent_wireEvent, hs]
  have hW := ComicReadContentV.onWire_of_run hwire
  obtain ⟨arr, harr, hpage⟩ := Option.bind_eq_some_iff.mp hstring
  have hmem := List.mem_of_getElem? harr
  rw [hW.sections, List.mem_map] at hmem
  obtain ⟨x, hx, rfl⟩ := hmem
  obtain ⟨hsent, hpart⟩ := hW.received x hx
  obtain ⟨hanswer, hpages⟩ := answered_of_sent hsent
  exact ⟨x.1, hanswer, hpart, hpages ▸ List.mem_of_getElem? hpage⟩

/-- The requests that wait for the cache, with those it has answered, are all
that it was asked; and an answer is handed on once. -/
structure Reads (sf : ReadPictures URL Image) : Prop where
  waiting : (sf.reading.map Requester.source ++
    sf.cacheResults.map Prod.fst).Perm (retrievals sf.imageCache)
  results : List.Subperm sf.cacheResults sf.imageCache.answered

omit [DecidableEq Image] in
/-- A step of the cache that asks for nothing leaves it owing the same. -/
theorem Reads.cache_step {e : CacheEvent URL Image}
    {imageCache : ImageCache URL Image} (hR : Reads sf)
    (hasks : ImageCache.asked e = none)
    (hc : cacheStep sf.imageCache e = some imageCache) :
    Reads { sf with imageCache := imageCache } := by
  have hc := ImageCache.cacheCase_of_step hc
  have hall := ImageCache.retrievals_of_step hc
  rw [hasks, Option.toList_none, List.append_nil] at hall
  exact ⟨hR.waiting.trans hall.symm,
    hR.results.trans (ImageCache.answered_prefix hc).sublist.subperm⟩

theorem Reads.step {e : PictureEvent URL Image} (hR : Reads sf)
    (hs : sf.step urlInit book e = some sf') : Reads sf' := by
  cases pictureCase_of_step hs with
  | acted | asked | found | looked | started | session =>
      exact ⟨hR.waiting, hR.results⟩
  | retrieved a imageCache hbusy hcached hc =>
      have hc := ImageCache.cacheCase_of_step hc
      have hall := ImageCache.retrievals_of_step hc
      refine ⟨?_, hR.results.trans
        (ImageCache.answered_prefix hc).sublist.subperm⟩
      refine List.Perm.trans ?_ hall.symm
      rw [List.map_append, List.append_assoc]
      refine (List.Perm.append_left _ List.perm_append_comm).trans ?_
      rw [← List.append_assoc]
      exact hR.waiting.append_right _
  | cache e imageCache hstores hasks hc =>
      obtain ⟨hwaiting, hresults⟩ := hR.cache_step hasks hc
      exact ⟨hwaiting, hresults⟩
  | downloaded d a result imageCache w hfree hmem hcalled hc hw =>
      cases result with
      | none =>
          obtain rfl := Option.some.inj hc
          exact ⟨hR.waiting, hR.results⟩
      | some image =>
          have hc : cacheStep sf.imageCache (.store a.source image) =
              some imageCache := hc
          obtain ⟨hwaiting, hresults⟩ := hR.cache_step rfl hc
          exact ⟨hwaiting, hresults⟩
  | read a result w hfree hmem hresult hw =>
      refine ⟨?_, ?_⟩
      · refine List.Perm.trans ?_ hR.waiting
        have herase := (List.perm_cons_erase hmem).map Requester.source
        rw [List.perm_iff_count] at herase ⊢
        intro url
        have hcount := herase url
        simp only [List.map_append, List.map_cons, List.map_nil,
          List.count_append, List.count_cons, List.count_nil] at hcount ⊢
        omega
      · have hcount := List.count_pos_iff.mpr hresult
        rw [List.count_diff] at hcount
        exact (List.perm_append_singleton _ _).subperm.trans
          (hR.results.cons_left _ (Nat.lt_of_sub_pos hcount))

theorem reads_of_run {es : List (PictureEvent URL Image)}
    (hr : pictureRun urlInit book start es = some sf) : Reads sf :=
  run_induction (P := fun _ sf => Reads sf)
    ⟨.refl _, List.nil_subperm⟩ (fun _ _ _ _ _ hR hs => hR.step hs) hr

/-- No request waits for a cache that owes nothing. -/
theorem Reads.reading_nil (hR : Reads sf) (hwork : work sf.imageCache = 0)
    (hhanded : sf.imageCache.answered.diff sf.cacheResults = []) :
    sf.reading = [] := by
  have hperm := List.subperm_append_diff_self_of_count_le
    (List.subperm_ext_iff.mp hR.results)
  rw [hhanded, List.append_nil] at hperm
  have hwaiting := hR.waiting
  rw [ImageCache.retrievals_of_idle hwork] at hwaiting
  have hlength := (hwaiting.trans (hperm.map Prod.fst).symm).length_eq
  rw [List.length_append] at hlength
  exact List.map_eq_nil_iff.mp
    (List.eq_nil_of_length_eq_zero (Nat.add_eq_right.mp hlength))

/-- Nothing is under way: the main thread is free, the I/O queue has no work,
no download is going on, and what the cache has answered and the callbacks
that were called have been handed on. -/
structure AtRest (sf : ReadPictures URL Image) : Prop where
  main : sf.retrieving = none
  ioQueue : work sf.imageCache = 0
  handedOn : sf.imageCache.answered.diff sf.cacheResults = []
  completing : sf.downloader.completing = .idle
  tasks : ∀ url, sf.downloader.tasks url = none
  run : ∀ h ∈ sf.completionHandlers, h.1 ∉ keys sf.downloader

/-- A request that joins a download is in time for it. -/
def InTime (sf : ReadPictures URL Image) : PictureEvent URL Image → Prop
  | .start => Lands sf.downloader .start
  | _ => True

instance : {e : PictureEvent URL Image} → Decidable (InTime sf e)
  | .start => inferInstanceAs (Decidable (Lands sf.downloader .start))
  | .cell _ | .other _ | .imageCachedType _ | .retrieveImage _
  | .downloadImage _ | .session _ | .cache _ | .downloaded _ _ _
  | .read _ _ => inferInstanceAs (Decidable True)

/-- Requests are in time in a run exactly if they are in the run of the
downloader. -/
theorem inTime_iff {es : List (PictureEvent URL Image)}
    (hr : pictureRun urlInit book start es = some sf) :
    Lib.run (restrict InTime (step urlInit book)) (initial book start) es =
        some sf ↔
      Lib.run (restrict Lands downloadStep) ImageDownloader.initial
        (es.filterMap downloadEvent) = some sf.downloader := by
  constructor
  · intro h
    refine run_project ReadPictures.downloader downloadEvent
      (I := fun _ => True) (fun _ _ _ => trivial) ?_ h
    intro u e v _ hs
    obtain ⟨hok, hs⟩ := restrict_eq_some.mp hs
    have hseen := downloader_of_step hs
    cases hd : downloadEvent e with
    | none =>
        rw [hd] at hseen
        exact hseen
    | some d =>
        rw [hd] at hseen
        refine restrict_eq_some.mpr ⟨?_, (restrict_eq_some.mp hseen).2⟩
        cases d with
        | start =>
            cases e with
            | start => exact hok
            | session e =>
                obtain rfl := Option.some.inj hd
                cases hs
            | cell | other | imageCachedType | retrieveImage | downloadImage
            | cache | downloaded | read => cases hd
        | downloadImage | cancel | didComplete | remove | callBack => trivial
  · intro h
    refine run_restrict_iff.mpr ⟨hr, ?_⟩
    intro pre e hpre u hu
    cases e with
    | start =>
        have hmap := hpre.filterMap downloadEvent
        rw [List.filterMap_append] at hmap
        exact (run_restrict_iff.mp h).2 _ .start hmap u.downloader
          (run_of_restrict (downloadRun_of_pictureRun hu))
    | cell | other | imageCachedType | retrieveImage | downloadImage | session
    | cache | downloaded | read => trivial

/-- When nothing is under way any more, every completion handler has been run
exactly if no request came too late for the download that it joined; and then
no cell waits for a picture. -/
theorem handled_iff {es : List (PictureEvent URL Image)}
    (hr : pictureRun urlInit book start es = some sf) (hrest : AtRest sf) :
    (sf.completionHandlers = [] ↔
      Lib.run (restrict InTime (step urlInit book)) (initial book start) es =
        some sf) ∧
      (sf.completionHandlers = [] →
        ∀ cell, (sf.collection.kf.views cell).taskIdentifier = none) := by
  have hL := linked_of_run hr
  have hd := downloadRun_of_pictureRun hr
  refine ⟨?_, ?_⟩
  · rw [inTime_iff hr]
    constructor
    · intro hnil
      refine ImageDownloader.lands_of_no_lost hd fun d hlost => ?_
      obtain ⟨a, ha⟩ := hL.answered d hlost.handed hlost.uncalled
      rw [hnil] at ha
      cases ha
    · intro hlands
      refine List.eq_nil_iff_forall_not_mem.mpr fun h hh => ?_
      obtain ⟨task, htask, hlt⟩ := (hL.handlers h hh).1
      exact hrest.run h hh (ImageDownloader.called_of_lands hd hlands
        hrest.completing hrest.tasks htask hlt)
  · intro hnil cell
    by_contra hwaits
    obtain ⟨n, hn⟩ := Option.ne_none_iff_exists'.mp hwaits
    have hC := ReadCollection.coherent_of_run (cellRun_of_pictureRun hr)
    obtain ⟨-, t, ht, -, -⟩ := hC.valid.held cell n hn
    obtain ⟨r, hmem, -⟩ := List.mem_map.mp ht
    rcases hL.retrievals r hmem with h | h | ⟨d, h⟩
    · rw [hrest.main] at h
      cases h
    · rw [Reads.reading_nil (reads_of_run hr) hrest.ioQueue hrest.handedOn] at h
      cases h
    · rw [hnil] at h
      cases h

theorem handled_iff_twoPages :
    ∃ sf, pictureRun some threeParts 1 twoPages = some sf ∧
      (sf.completionHandlers = [] ↔
        Lib.run (restrict InTime (step some threeParts))
          (initial threeParts 1) twoPages = some sf) ∧
      (sf.completionHandlers = [] →
        ∀ cell, (sf.collection.kf.views cell).taskIdentifier = none) := by
  have hr : pictureRun some threeParts 1 twoPages =
      some (_ : ReadPictures String String) := rfl
  refine ⟨_, hr, handled_iff hr ⟨rfl, rfl, rfl, rfl, fun url => ?_, nofun⟩⟩
  by_cases h : url = "2-2"
  · subst h
    rfl
  · by_cases h' : url = "2-1"
    · subst h'
      rfl
    · exact (Function.update_of_ne h ..).trans
        ((Function.update_of_ne h ..).trans
          ((Function.update_of_ne h' ..).trans
            (Function.update_of_ne h' ..)))

/-- A page's request finds the download of another view's as that completes,
and adds its callback when it is over: the cell waits for ever. -/
example : (pictureRun some threeParts 1
    [.cell (.answer ⟨.setUp, 1, middle⟩ true), .cell .layout,
      .other "2-1", .downloadImage (.other "2-1"), .start,
      .session (.didComplete 0 (some "first")),
      .cell (.cellForItemAt 0 ⟨0, 0⟩), .downloadImage (.cell ⟨1, 0, "2-1"⟩),
      .session .remove, .session .callBack, .start,
      .downloaded ⟨0, 0⟩ (.other "2-1") (some "first")]).map
    (fun sf : ReadPictures String String =>
      (sf.completionHandlers, sf.collection.kf.views 0)) =
    some ([(⟨0, 1⟩, .cell ⟨1, 0, "2-1"⟩)], ⟨none, some 1⟩) := by
  decide

end ReadPictures

end ComicReader
