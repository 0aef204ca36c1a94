import ComicReader.Source.DataSource

/-!
# `MK_ComickI_BookInfoV`, and the actions behind its cover

The view shows one book: three texts that it copies from the model, and a
cover that it has to ask `MK_DataSource` for. The request goes through two
actions, `comicImageAction` and the `imageGetAction` of the source it selects,
both shared by everything in the app.

An `Action` of the library executes one piece of work at a time: an `execute`
while another is outstanding fails with `notEnabled`, and the view subscribes
to the elements of an execution only, so to it a failure is silence. Which
image a URL answers with, if any, is the parameter `serves` of the run.
-/

namespace ComicReader

/-! ## `Action` -/

inductive ActionError where
  | notEnabled
  | underlyingError (error : ActionError)
deriving DecidableEq, Repr

/-- An `Action<Input, _>`: the input whose work is outstanding. -/
structure Action (Input : Type) where
  executing : Option Input
deriving DecidableEq, Repr

namespace Action

variable {Input : Type}

def create : Action Input := ⟨none⟩

def execute (action : Action Input) (value : Input) :
    Except ActionError (Action Input) :=
  match action.executing with
  | some _ => .error .notEnabled
  | none => .ok ⟨some value⟩

/-- The outstanding work is done. -/
def finish (_ : Action Input) : Action Input := ⟨none⟩

end Action

/-! ## `MK_DataSource` -/

/-- `MK_DataSource`, with the image action of its `dmzjSource`. -/
structure DataSource where
  comicImageAction : Action (DataSourceType × String)
  imageGetAction : Action String
deriving DecidableEq, Repr

namespace DataSource

def create : DataSource := ⟨.create, .create⟩

/-- `comicImageAction.execute`. The work of the action executes the image
action of the source; when that fails the work is done at once. -/
def executeComicImage (sf : DataSource) (para : DataSourceType × String) :
    Except ActionError DataSource :=
  match sf.comicImageAction.execute para with
  | .error err => .error err
  | .ok comicImageAction =>
      match para.1 with
      | .DMZJ =>
          match sf.imageGetAction.execute para.2 with
          | .error err => .error (.underlyingError err)
          | .ok imageGetAction => .ok ⟨comicImageAction, imageGetAction⟩

/-- The image request has answered, and with it both executions. -/
def finish (sf : DataSource) : DataSource :=
  ⟨sf.comicImageAction.finish, sf.imageGetAction.finish⟩

end DataSource

/-! ## `MK_ComickI_BookInfoV` -/

structure ComickI_BookInfoV (Image : Type) where
  model : Variable (Option ComickBookInfo)
  /-- The image of `comicBookImageV`. -/
  comicBookImageV : Option Image
  comicTitleLa : Option String
  comicAuthorLa : Option String
  comicDesLa : Option String
  dataSource : DataSource
deriving DecidableEq, Repr

namespace ComickI_BookInfoV

variable {Image : Type}

/-- The URL of the image request that has not answered. -/
def outstanding (sf : ComickI_BookInfoV Image) : Option String :=
  sf.dataSource.imageGetAction.executing

/-- The subscriber of `model`. -/
def onModel (sf : ComickI_BookInfoV Image) (res : Option ComickBookInfo) :
    ComickI_BookInfoV Image :=
  match res with
  | none => sf
  | some model =>
      let sf :=
        match sf.dataSource.executeComicImage
            (model.sourceType, model.bookCoverImageURLStr) with
        | .ok dataSource => { sf with dataSource := dataSource }
        | .error _ => sf
      { sf with
        comicTitleLa := some model.bookName
        comicAuthorLa := some ("作者:" ++ model.bookAuthor)
        comicDesLa := some model.bookDes }

def create : ComickI_BookInfoV Image where
  model := .init none
  comicBookImageV := none
  comicTitleLa := none
  comicAuthorLa := none
  comicDesLa := none
  dataSource := .create

/-- The assignment `model.value = res`. -/
def setModel (sf : ComickI_BookInfoV Image) (res : Option ComickBookInfo) :
    ComickI_BookInfoV Image :=
  onModel { sf with model := sf.model.set res } res

/-- The subscriber an execution that was not refused was given. -/
def onImage (sf : ComickI_BookInfoV Image) (res : Option Image) :
    ComickI_BookInfoV Image :=
  match res with
  | some im => { sf with comicBookImageV := some im }
  | none => sf

end ComickI_BookInfoV

inductive InfoEvent where
  | setModel (res : Option ComickBookInfo)
  | answer
deriving DecidableEq, Repr

/-- The view after an event. The outstanding image request answers with what
its URL serves. -/
def infoStep {Image : Type} (serves : String → Option Image)
    (sf : ComickI_BookInfoV Image) :
    InfoEvent → Option (ComickI_BookInfoV Image)
  | .setModel res => some (sf.setModel res)
  | .answer =>
      sf.outstanding.map fun url =>
        ComickI_BookInfoV.onImage
          { sf with dataSource := sf.dataSource.finish } (serves url)

end ComicReader
