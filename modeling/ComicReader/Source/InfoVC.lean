import ComicReader.Source.BookInfoV
import ComicReader.Source.DMZJ
import ComicReader.Source.MainNavigationV

/-!
# `MK_ComickInfoVC`, and the app around it

The app starts on the detail page of one book. Its controller asks for the
book once, in `viewDidLoad`, and hands what comes to the header and to the
chapter list; a failed request is not an element, and nothing asks again. A
tapped chapter goes through the navigation controller, and the reader that is
pushed creates its content view at once.

`ComickApp` is all of it, with every answer still to come from outside: the
book's, the covers' (`serves`) and those to the readers. What a server would
have for a chapter, `getComicPartInfo`, goes into the book but is not what the
readers show; they show what they are answered.
-/

namespace ComicReader

/-- A reader that has been pushed. -/
structure ShownReader where
  vc : ComicReadVC
  contentV : ComicReadContentV

structure ComickApp (Image : Type) where
  /-- The execution of `comicBookInfoAction` is outstanding. -/
  bookRequested : Bool
  bookInfoV : ComickI_BookInfoV Image
  navigation : NavigationApp Unit
  readers : List ShownReader

inductive AppEvent where
  | bookAnswer (response : Option Response)
  | imageAnswer
  | viewWillAppear
  | viewWillDisappear
  | tapOrder
  | didSelectItemAt (row : Nat)
  | reader (n : Nat) (e : WireEvent)

namespace ComickApp

variable {Image : Type}

/-- After `viewDidLoad` of the root controller. -/
def launched : ComickApp Image where
  bookRequested := true
  bookInfoV := .create
  navigation := .create
  readers := []

/-- The subscriber of the book action's elements. -/
def onBook (app : ComickApp Image) (res : Option ComickBookInfo) :
    ComickApp Image :=
  { app with
    bookInfoV := app.bookInfoV.setModel res
    navigation :=
      { app.navigation with partV := app.navigation.partV.setModel res } }

/-- The readers on the stack `new` above those of `old`, with their content
views as created. -/
def pushedReaders (old new : MainNavigationV) : List ShownReader :=
  (new.viewControllers.drop old.viewControllers.length).filterMap fun
    | .reader vc _ => some ⟨vc, vc.contentV⟩
    | .root => none

/-- The app after an event of its navigation and chapter list. -/
def navigate (app : ComickApp Image) (e : NavigationEvent Unit) :
    Option (ComickApp Image) :=
  (navigationStep app.navigation e).map fun navigation =>
    { app with
      navigation := navigation
      readers := app.readers ++
        pushedReaders (app.navigation.instances ())
          (navigation.instances ()) }

end ComickApp

open ComickApp

def appStep {Image : Type} (F : Foundation) (serves : String → Option Image)
    (getComicPartInfo : String → String → List String)
    (app : ComickApp Image) : AppEvent → Option (ComickApp Image)
  | .bookAnswer response =>
      if app.bookRequested then
        let app := { app with bookRequested := false }
        some <|
          match bookAction F response with
          | some res =>
              app.onBook <| res.map fun model =>
                model.asBookInfo (DMZJ_PartModel.deserialize F)
                  getComicPartInfo
          | none => app
      else none
  | .imageAnswer =>
      (infoStep serves app.bookInfoV .answer).map fun bookInfoV =>
        { app with bookInfoV := bookInfoV }
  | .viewWillAppear => app.navigate (.viewWillAppear ())
  | .viewWillDisappear => app.navigate (.viewWillDisappear ())
  | .tapOrder => app.navigate (.part .tapOrder)
  | .didSelectItemAt row => app.navigate (.part (.didSelectItemAt row))
  | .reader n e =>
      (app.readers[n]?).bind fun reader =>
        (wireStep reader.vc.bookModel reader.contentV e).map fun contentV =>
          { app with
            readers := app.readers.set n { reader with contentV := contentV } }

end ComicReader
