import Mathlib.Data.List.Basic

/-!
# Lists that grow at both ends

Values arrive tagged with the end they are put at. Two arrivals commute if
and only if they go to different ends or carry the same value, so a batch of
arrivals can be taken in any order as soon as each end receives one value only.

Whatever arrives, the old list stays in one piece: it lies between the front
arrivals, the latest first, and the back arrivals, the latest last.
-/

namespace ComicReader.Lib

inductive End where
  | front
  | back
deriving DecidableEq, Repr

variable {α : Type _}

/-- `x` is put at the end `e` of `l`. -/
def insertAt (l : List α) (e : End) (x : α) : List α :=
  match e with
  | .front => x :: l
  | .back => l ++ [x]

theorem insertAt_comm {l : List α} {e e' : End} {x y : α} :
    insertAt (insertAt l e x) e' y = insertAt (insertAt l e' y) e x ↔
      e ≠ e' ∨ x = y := by
  cases e <;> cases e'
  case front.front =>
    simp only [insertAt, List.cons.injEq, ne_eq, not_true, false_or]
    constructor
    · intro ⟨hyx, _⟩
      exact hyx.symm
    · rintro rfl
      simp
  case back.back =>
    simp only [insertAt, List.append_assoc, List.append_cancel_left_eq,
      List.singleton_append, List.cons.injEq, ne_eq, not_true, false_or]
    constructor
    · intro ⟨hxy, _⟩
      exact hxy
    · rintro rfl
      simp
  all_goals simp [insertAt]

/-! ## The old list between the arrivals -/

theorem getElem?_between {fronts l backs : List α} {n : Nat}
    (h : n < l.length) :
    (fronts.reverse ++ l ++ backs)[n + fronts.length]? = l[n]? := by
  rw [List.append_assoc, List.getElem?_append_right (by simp),
    List.length_reverse, Nat.add_sub_cancel, List.getElem?_append_left h]

theorem take_between {fronts l backs : List α} :
    (fronts.reverse ++ l ++ backs).take fronts.length = fronts.reverse := by
  rw [List.append_assoc]
  exact List.take_left' List.length_reverse

theorem drop_between {fronts l backs : List α} :
    (fronts.reverse ++ l ++ backs).drop (fronts.length + l.length) =
      backs := by
  refine List.drop_left' ?_
  rw [List.length_append, List.length_reverse]

end ComicReader.Lib
