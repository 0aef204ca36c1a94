import Mathlib.Logic.Function.Basic

/-!
# Kingfisher's `setImage(with:)` on image views

An image view carries the identifier of the retrieval it waits for. Setting an
image clears the view, takes the next identifier and starts a retrieval, whose
completion handler looks at the identifier again and does nothing where the
view has moved on.

The reader passes neither a placeholder nor options, so the placeholder that
is set first is `nil`, which clears the image, there is no transition and no
failure image. `none` as the result of a retrieval is its failure. The model
keeps with every picture the source it was retrieved from, which the code
drops.
-/

namespace ComicReader

@[ext]
structure ImageView (URL Image : Type _) where
  image : Option (URL × Image)
  taskIdentifier : Option Nat
deriving DecidableEq, Repr

/-- A `retrieveImage` that has not completed. -/
structure Retrieval (URL : Type _) where
  issuedIdentifier : Nat
  base : Nat
  source : URL
deriving DecidableEq, Repr

/-- The image views, the last identifier issued (`Source.Identifier.current`)
and the retrievals in flight. -/
structure Kingfisher (URL Image : Type _) where
  current : Nat
  views : Nat → ImageView URL Image
  retrievals : List (Retrieval URL)

namespace Kingfisher

variable {URL Image : Type _}

/-- Before the first `setImage`: image views are created empty. -/
def initial : Kingfisher URL Image where
  current := 0
  views := fun _ => ⟨none, none⟩
  retrievals := []

/-- `setImage(with:)` on the image view `base`. -/
def setImage (kf : Kingfisher URL Image) (base : Nat) :
    Option URL → Kingfisher URL Image
  | none => { kf with views := Function.update kf.views base ⟨none, none⟩ }
  | some source =>
      let issuedIdentifier := kf.current + 1
      { current := issuedIdentifier
        views :=
          Function.update kf.views base ⟨none, some issuedIdentifier⟩
        retrievals := kf.retrievals ++ [⟨issuedIdentifier, base, source⟩] }

/-- The completion handler of `retrieval`. -/
def complete [DecidableEq URL] (kf : Kingfisher URL Image)
    (retrieval : Retrieval URL) (result : Option Image) :
    Kingfisher URL Image :=
  let kf := { kf with retrievals := kf.retrievals.erase retrieval }
  let view := kf.views retrieval.base
  if view.taskIdentifier = some retrieval.issuedIdentifier then
    let view := { view with taskIdentifier := none }
    let view :=
      match result with
      | some image => { view with image := some (retrieval.source, image) }
      | none => view
    { kf with views := Function.update kf.views retrieval.base view }
  else kf

end Kingfisher

end ComicReader
