import ComicReader.Source.ImageCache
import ComicReader.Source.ImageDownloader
import ComicReader.Source.ReadCells

/-!
# Where the pictures come from

`setImage(with:)` retrieves its image from Kingfisher's shared manager. If the
cache says that it has a picture for the URL, the picture is retrieved from
there; otherwise it is downloaded, stored under the URL and handed to the
completion handler. Asking the cache, and starting the retrieval or the
download, is done on the main thread before `setImage` returns. The completion
handlers run there too, with the I/O queue of the cache, the session and the
delegate queue of the downloader in between, and pictures can be cleaned out
of the cache at any time.

The manager serves every image view of the application, so there are requests
besides those of the reader's cells. A session task completes with the picture
that the downloaded data decodes to, or with `none`; all requests use the
default processor, so a picture's key is its URL. The cache is empty at the
start. It may say that it does not have what it has: the disk can fail, and a
picture can get from there to the memory just when the memory has been asked.
-/

namespace ComicReader

/-- Who retrieves an image: a cell of the reader, or another image view. -/
inductive Requester (URL : Type) where
  | cell (retrieval : Retrieval URL)
  | other (source : URL)
deriving DecidableEq, Repr

def Requester.source {URL : Type} : Requester URL → URL
  | .cell retrieval => retrieval.source
  | .other source => source

/-- The reader with its cells, and the manager with its cache and its
downloader. -/
structure ReadPictures (URL Image : Type) where
  collection : ReadCollection URL Image
  /-- The `retrieveImage` that the main thread is in. -/
  retrieving : Option (Requester URL)
  /-- Whether the cache has said that it has the picture. -/
  targetImageCached : Bool
  imageCache : ImageCache URL Image
  reading : List (Requester URL)
  /-- The answers of the cache that have been handed on. -/
  cacheResults : List (URL × Option Image)
  downloader : ImageDownloader URL (Option Image)
  completionHandlers : List (DownloadTask × Requester URL)

inductive PictureEvent (URL Image : Type) where
  | cell (e : CellEvent URL Image)
  | other (source : URL)
  | imageCachedType (requester : Requester URL)
  | retrieveImage (requester : Requester URL)
  | downloadImage (requester : Requester URL)
  | start
  | session (e : DownloadEvent URL (Option Image))
  | cache (e : CacheEvent URL Image)
  | downloaded (download : DownloadTask) (requester : Requester URL)
      (result : Option Image)
  | read (requester : Requester URL) (result : Option Image)

namespace ReadPictures

variable {URL Image : Type}

def initial (book : ComickBookInfo) (index : Int) :
    ReadPictures URL Image where
  collection := ReadCollection.initial book index
  retrieving := none
  targetImageCached := false
  imageCache := ImageCache.initial
  reading := []
  cacheResults := []
  downloader := ImageDownloader.initial
  completionHandlers := []

/-- The retrieval that a step of the cells has begun. -/
def begun (kf kf' : Kingfisher URL Image) : Option (Requester URL) :=
  (kf'.retrievals.drop kf.retrievals.length).head?.map Requester.cell

variable [DecidableEq URL] [DecidableEq Image]

/-- The completion handler of `retrieveImage`, for its requester. -/
def completionHandler (urlInit : String → Option URL) (book : ComickBookInfo)
    (sf : ReadPictures URL Image) (requester : Requester URL)
    (result : Option Image) : Option (ReadPictures URL Image) :=
  match requester with
  | .cell retrieval =>
      (sf.collection.step urlInit book (.retrieved retrieval result)).map
        fun collection => { sf with collection := collection }
  | .other _ => some sf

/-- `cacheImage(_:)`, which stores a picture under the key of its source. -/
def cacheImage (sf : ReadPictures URL Image) (source : URL) :
    Option Image → Option (ReadPictures URL Image)
  | some image =>
      (cacheStep sf.imageCache (.store source image)).map fun imageCache =>
        { sf with imageCache := imageCache }
  | none => some sf

def step (urlInit : String → Option URL) (book : ComickBookInfo)
    (sf : ReadPictures URL Image) :
    PictureEvent URL Image → Option (ReadPictures URL Image)
  | .cell (.retrieved _ _) => none
  | .cell e =>
      if sf.retrieving = none then
        (sf.collection.step urlInit book e).map fun collection =>
          { sf with
            collection := collection
            retrieving := begun sf.collection.kf collection.kf }
      else none
  | .other source =>
      if sf.retrieving = none then
        some { sf with retrieving := some (.other source) }
      else none
  | .imageCachedType requester =>
      if sf.retrieving = some requester ∧ sf.downloader.downloading = none ∧
          (sf.imageCache.memoryStorage requester.source ≠ none ∨
            sf.imageCache.diskStorage requester.source ≠ none) then
        some { sf with targetImageCached := true }
      else none
  | .retrieveImage requester =>
      if sf.retrieving = some requester ∧ sf.targetImageCached then
        (cacheStep sf.imageCache (.retrieveImage requester.source)).map
          fun imageCache =>
            { sf with
              retrieving := none
              targetImageCached := false
              imageCache := imageCache
              reading := sf.reading ++ [requester] }
      else none
  | .downloadImage requester =>
      if sf.retrieving = some requester ∧ sf.targetImageCached = false then
        (downloadStep sf.downloader (.downloadImage requester.source)).map
          fun downloader => { sf with downloader := downloader }
      else none
  | .start =>
      sf.retrieving.bind fun requester =>
        sf.downloader.downloadTask.bind fun download =>
          (downloadStep sf.downloader .start).map fun downloader =>
            { sf with
              retrieving := none
              downloader := downloader
              completionHandlers :=
                sf.completionHandlers ++ [(download, requester)] }
  | .session (.downloadImage _) | .session .start | .session (.cancel _) =>
      none
  | .session e =>
      (downloadStep sf.downloader e).map fun downloader =>
        { sf with downloader := downloader }
  | .cache (.store _ _) | .cache (.removeImage _) | .cache (.retrieveImage _) =>
      none
  | .cache e =>
      (cacheStep sf.imageCache e).map fun imageCache =>
        { sf with imageCache := imageCache }
  | .downloaded download requester result =>
      if sf.retrieving = none ∧
          (download, requester) ∈ sf.completionHandlers ∧
          (download, .completed result) ∈ sf.downloader.called then
        (sf.cacheImage requester.source result).bind fun sf =>
          completionHandler urlInit book
            { sf with
              completionHandlers :=
                sf.completionHandlers.erase (download, requester) }
            requester result
      else none
  | .read requester result =>
      if sf.retrieving = none ∧ requester ∈ sf.reading ∧
          (requester.source, result) ∈
            sf.imageCache.answered.diff sf.cacheResults then
        completionHandler urlInit book
          { sf with
            reading := sf.reading.erase requester
            cacheResults := sf.cacheResults ++ [(requester.source, result)] }
          requester result
      else none

end ReadPictures

end ComicReader
