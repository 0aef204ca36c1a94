import Mathlib.Logic.Function.Basic

/-!
# Kingfisher's `ImageCache`

Pictures are kept in memory and on the disk. Storing and removing, in both as
is the default, change the memory at once and leave the disk to a serial I/O
queue, and so does a retrieval that finds nothing in memory. A picture that is
read from the disk is stored in memory again before it is handed on, both on
the I/O queue, with the main thread free to do anything in between.

A picture on the disk is what its file decodes to. A failed disk operation
changes nothing and a failed read finds nothing. Expired pictures, those over a
size limit and whatever the system or `clearMemoryCache` and `clearDiskCache`
take are `gone`; the disk is cleaned by the I/O queue too, between its jobs.
`answered` are the results of the retrievals.
-/

namespace ComicReader

inductive IOJob (Key Image : Type) where
  | store (key : Key) (image : Image)
  | remove (key : Key)
  | retrieve (key : Key)
deriving DecidableEq, Repr

def IOJob.key {Key Image : Type} : IOJob Key Image → Key
  | .store key _ | .remove key | .retrieve key => key

structure ImageCache (Key Image : Type) where
  memoryStorage : Key → Option Image
  diskStorage : Key → Option Image
  ioQueue : List (IOJob Key Image)
  /-- What the I/O queue has read and not stored in memory yet. -/
  reading : Option (Key × Image)
  answered : List (Key × Option Image)

inductive CacheEvent (Key Image : Type) where
  | store (key : Key) (image : Image)
  | removeImage (key : Key)
  | retrieveImage (key : Key)
  | io (success : Bool)
  | storeRead
  | memoryCleaned (gone : Key → Bool)
  | diskCleaned (gone : Key → Bool)

namespace ImageCache

variable {Key Image : Type}

def initial : ImageCache Key Image where
  memoryStorage := fun _ => none
  diskStorage := fun _ => none
  ioQueue := []
  reading := none
  answered := []

/-- What is left of a storage. -/
def cleaned (storage : Key → Option Image) (gone : Key → Bool) :
    Key → Option Image :=
  fun key => if gone key then none else storage key

variable [DecidableEq Key]

/-- A job of the I/O queue. -/
def perform (sf : ImageCache Key Image) (success : Bool) :
    IOJob Key Image → ImageCache Key Image
  | .store key image =>
      if success then
        { sf with
          diskStorage := Function.update sf.diskStorage key (some image) }
      else sf
  | .remove key =>
      if success then
        { sf with diskStorage := Function.update sf.diskStorage key none }
      else sf
  | .retrieve key =>
      match sf.diskStorage key with
      | some image =>
          if success then { sf with reading := some (key, image) }
          else { sf with answered := sf.answered ++ [(key, none)] }
      | none => { sf with answered := sf.answered ++ [(key, none)] }

end ImageCache

open ImageCache

def cacheStep {Key Image : Type} [DecidableEq Key] (sf : ImageCache Key Image) :
    CacheEvent Key Image → Option (ImageCache Key Image)
  | .store key image =>
      some { sf with
        memoryStorage := Function.update sf.memoryStorage key (some image)
        ioQueue := sf.ioQueue ++ [.store key image] }
  | .removeImage key =>
      some { sf with
        memoryStorage := Function.update sf.memoryStorage key none
        ioQueue := sf.ioQueue ++ [.remove key] }
  | .retrieveImage key =>
      match sf.memoryStorage key with
      | some image =>
          some { sf with answered := sf.answered ++ [(key, some image)] }
      | none => some { sf with ioQueue := sf.ioQueue ++ [.retrieve key] }
  | .io success =>
      match sf.reading, sf.ioQueue with
      | none, job :: ioQueue =>
          some (perform { sf with ioQueue := ioQueue } success job)
      | _, _ => none
  | .storeRead =>
      sf.reading.map fun read =>
        { sf with
          memoryStorage :=
            Function.update sf.memoryStorage read.1 (some read.2)
          reading := none
          answered := sf.answered ++ [(read.1, some read.2)] }
  | .memoryCleaned gone =>
      some { sf with memoryStorage := cleaned sf.memoryStorage gone }
  | .diskCleaned gone =>
      if sf.reading = none then
        some { sf with diskStorage := cleaned sf.diskStorage gone }
      else none

end ComicReader
