import Mathlib.Logic.Function.Basic

/-!
# Kingfisher's `ImageDownloader` and `SessionDelegate`

One download serves every request for its URL. `downloadImage` looks for a
session task of the URL; it adds its callback to that task, or to a new one,
and gets a `DownloadTask` that names the session task and the token of the
callback. When a session task completes, the delegate takes it out of the
dictionary and calls every callback in its store. A cancelled callback leaves
the store and is called at once; with the last one the URL is cleared.

Requests and cancellations come from the main thread, completions from the
delegate queue of the session, and either can come between two locked sections
of the other. So `downloadImage` is two steps, up to the lookup and from there,
and a completion is three, up to the test that the task is the registered one,
the removal, and the reading of the callbacks. The parts of a cancellation all
leave the delegate queue with what it would have found before or after them.

A callback has nothing to it here but its place, so `called` records which
download tasks have been called back, and with what. The session calls
`didComplete` for any task at any time.
-/

namespace ComicReader

structure SessionDataTask (URL : Type) where
  /-- The URL of the original request. -/
  url : URL
  /-- The tokens in the store. -/
  callbacksStore : List Nat
  currentToken : Nat
deriving DecidableEq, Repr

namespace SessionDataTask

variable {URL : Type}

def addCallback (sf : SessionDataTask URL) : SessionDataTask URL :=
  { sf with
    callbacksStore := sf.callbacksStore ++ [sf.currentToken]
    currentToken := sf.currentToken + 1 }

def removeCallback (sf : SessionDataTask URL) (token : Nat) :
    Option (SessionDataTask URL) :=
  if token ∈ sf.callbacksStore then
    some { sf with callbacksStore := sf.callbacksStore.erase token }
  else none

end SessionDataTask

/-- What `downloadImage` returns: a session task, by its identifier, and the
token of the callback. -/
structure DownloadTask where
  sessionTask : Nat
  cancelToken : Nat
deriving DecidableEq, Repr

/-- What a callback is called with. -/
inductive Outcome (Result : Type) where
  | completed (result : Result)
  | taskCancelled
deriving DecidableEq, Repr

/-- Where the delegate queue is with a completion. -/
inductive Completing (Result : Type) where
  | idle
  | found (task : Nat) (result : Result)
  | removed (task : Nat) (result : Result)
deriving DecidableEq, Repr

/-- The task that is being completed. -/
def Completing.task {Result : Type} : Completing Result → Option Nat
  | .idle => none
  | .found task _ | .removed task _ => some task

structure ImageDownloader (URL Result : Type) where
  /-- The session tasks created so far, by their identifiers. -/
  sessionTasks : Nat → Option (SessionDataTask URL)
  /-- The identifier of the next session task. -/
  taskIdentifier : Nat
  tasks : URL → Option Nat
  /-- The URL of a `downloadImage` that has looked, and what it found. -/
  downloading : Option (URL × Option Nat)
  completing : Completing Result
  called : List (DownloadTask × Outcome Result)

namespace ImageDownloader

variable {URL Result : Type}

def initial : ImageDownloader URL Result where
  sessionTasks := fun _ => none
  taskIdentifier := 0
  tasks := fun _ => none
  downloading := none
  completing := .idle
  called := []

variable [DecidableEq URL]

/-- `add(_:url:callback:)`, with a session task just created. -/
def add (sf : ImageDownloader URL Result) (url : URL) :
    ImageDownloader URL Result :=
  { sf with
    sessionTasks := Function.update sf.sessionTasks sf.taskIdentifier
      (some (SessionDataTask.addCallback ⟨url, [], 0⟩))
    taskIdentifier := sf.taskIdentifier + 1
    tasks := Function.update sf.tasks url (some sf.taskIdentifier) }

/-- `append(_:url:callback:)`. -/
def append (sf : ImageDownloader URL Result) (t : Nat)
    (task : SessionDataTask URL) : ImageDownloader URL Result :=
  { sf with
    sessionTasks :=
      Function.update sf.sessionTasks t (some task.addCallback) }

/-- `remove(_:)`, of a session task with this URL. -/
def remove (sf : ImageDownloader URL Result) (url : URL) :
    ImageDownloader URL Result :=
  { sf with tasks := Function.update sf.tasks url none }

/-- `DownloadTask.cancel()`. -/
def cancel (sf : ImageDownloader URL Result) (download : DownloadTask) :
    ImageDownloader URL Result :=
  match (sf.sessionTasks download.sessionTask).bind
      (SessionDataTask.removeCallback · download.cancelToken) with
  | none => sf
  | some task =>
      let sf := { sf with
        sessionTasks :=
          Function.update sf.sessionTasks download.sessionTask (some task)
        called := sf.called ++ [(download, .taskCancelled)] }
      if task.callbacksStore = [] then sf.remove task.url else sf

/-- What the `downloadImage` that has looked will return. -/
def downloadTask (sf : ImageDownloader URL Result) : Option DownloadTask :=
  match sf.downloading with
  | some (_, some t) =>
      (sf.sessionTasks t).map fun task => ⟨t, task.currentToken⟩
  | some (_, none) => some ⟨sf.taskIdentifier, 0⟩
  | none => none

/-- The callbacks of a task, with the result it completed with. -/
def callbacks (t : Nat) (task : SessionDataTask URL) (result : Result) :
    List (DownloadTask × Outcome Result) :=
  task.callbacksStore.map fun token => (⟨t, token⟩, .completed result)

end ImageDownloader

inductive DownloadEvent (URL Result : Type) where
  | downloadImage (url : URL)
  | start
  | cancel (download : DownloadTask)
  | didComplete (t : Nat) (result : Result)
  | remove
  | callBack

open ImageDownloader

def downloadStep {URL Result : Type} [DecidableEq URL]
    (sf : ImageDownloader URL Result) :
    DownloadEvent URL Result → Option (ImageDownloader URL Result)
  | .downloadImage url =>
      match sf.downloading with
      | none => some { sf with downloading := some (url, sf.tasks url) }
      | some _ => none
  | .start =>
      match sf.downloading with
      | some (_, some t) =>
          (sf.sessionTasks t).map fun task =>
            { sf.append t task with downloading := none }
      | some (url, none) => some { sf.add url with downloading := none }
      | none => none
  | .cancel download =>
      match sf.downloading with
      | none => some (sf.cancel download)
      | some _ => none
  | .didComplete t result =>
      match sf.completing with
      | .idle =>
          (sf.sessionTasks t).map fun task =>
            if sf.tasks task.url = some t then
              { sf with completing := .found t result }
            else sf
      | _ => none
  | .remove =>
      match sf.completing with
      | .found t result =>
          (sf.sessionTasks t).map fun task =>
            { sf.remove task.url with completing := .removed t result }
      | _ => none
  | .callBack =>
      match sf.completing with
      | .removed t result =>
          (sf.sessionTasks t).map fun task =>
            { sf with
              called := sf.called ++ callbacks t task result
              completing := .idle }
      | _ => none

end ComicReader
