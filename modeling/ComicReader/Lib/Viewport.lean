import Mathlib.Data.List.Infix

/-!
# A viewport sliding along a list

What is on screen of a list is a non-empty block of consecutive elements. It
moves by one element at a time: an element comes into view next to either end
and makes a longer block of the list, or the element at either end goes out of
view, but never the last one. In a list without repetitions an element can come
into view only if it is out of view.
-/

namespace ComicReader.Lib

variable {α : Type _} {l vis vis' : List α} {x y : α}

/-- What is on screen of `l` once `x` has come into view. -/
def enter [DecidableEq α] (l vis : List α) (x : α) : Option (List α) :=
  if x :: vis <:+: l then some (x :: vis)
  else if vis ++ [x] <:+: l then some (vis ++ [x])
  else none

/-- What is on screen once `x` has gone out of view. -/
def leave [DecidableEq α] (vis : List α) (x : α) : Option (List α) :=
  if vis.head? = some x ∧ vis.tail ≠ [] then some vis.tail
  else if vis.getLast? = some x ∧ vis.dropLast ≠ [] then some vis.dropLast
  else none

variable [DecidableEq α]

theorem enter_eq_some (h : enter l vis x = some vis') :
    (vis' = x :: vis ∨ vis' = vis ++ [x]) ∧ vis' <:+: l := by
  unfold enter at h
  split at h
  · next hfront =>
      obtain rfl := Option.some.inj h
      exact ⟨Or.inl rfl, hfront⟩
  · split at h
    · next hback =>
        obtain rfl := Option.some.inj h
        exact ⟨Or.inr rfl, hback⟩
    · cases h

theorem leave_eq_some (h : leave vis x = some vis') :
    vis' ≠ [] ∧ (vis = x :: vis' ∨ vis = vis' ++ [x]) := by
  unfold leave at h
  split at h
  · next hfront =>
      obtain rfl := Option.some.inj h
      obtain ⟨rest, rfl⟩ := List.head?_eq_some_iff.mp hfront.1
      exact ⟨hfront.2, Or.inl rfl⟩
  · split at h
    · next hback =>
        obtain rfl := Option.some.inj h
        obtain ⟨rest, rfl⟩ := List.getLast?_eq_some_iff.mp hback.1
        exact ⟨hback.2, Or.inr (by simp)⟩
    · cases h

/-- An element that comes into view was not on screen. -/
theorem not_mem_of_enter (hl : l.Nodup) (h : enter l vis x = some vis') :
    x ∉ vis := by
  obtain ⟨hvis, hblock⟩ := enter_eq_some h
  have hnodup := hl.sublist hblock.sublist
  rcases hvis with rfl | rfl
  · exact (List.nodup_cons.mp hnodup).1
  · intro hx
    exact (List.nodup_append.mp hnodup).2.2 x hx x (by simp) rfl

/-- An element that is one of two on screen has come next to the other. -/
theorem enter_pair (hl : l.Nodup) (h : enter l vis x = some vis')
    (hvis' : vis' = [y, x] ∨ vis' = [x, y]) : vis = [y] := by
  have hx := not_mem_of_enter hl h
  obtain ⟨rfl | rfl, -⟩ := enter_eq_some h
  · rcases hvis' with heq | heq
    · obtain ⟨-, rfl⟩ := List.cons.inj heq
      exact absurd (List.mem_singleton_self x) hx
    · exact (List.cons.inj heq).2
  · rcases hvis' with heq | heq
    · have heq : vis ++ [x] = [y] ++ [x] := heq
      exact List.append_cancel_right heq
    · have heq : vis ++ [x] = [x] ++ [y] := heq
      obtain ⟨rfl, -⟩ := List.append_inj' heq rfl
      exact absurd (List.mem_singleton_self x) hx

theorem length_enter (h : enter l vis x = some vis') :
    vis'.length = vis.length + 1 := by
  rcases (enter_eq_some h).1 with rfl | rfl <;> simp

theorem length_leave (h : leave vis x = some vis') :
    vis.length = vis'.length + 1 := by
  rcases (leave_eq_some h).2 with rfl | rfl <;> simp

theorem mem_of_leave (h : leave vis x = some vis') : x ∈ vis := by
  rcases (leave_eq_some h).2 with rfl | rfl <;> simp

/-- An element that goes out of view is not on screen any more. -/
theorem nodup_leave (hvis : vis.Nodup) (h : leave vis x = some vis') :
    x ∉ vis' ∧ vis'.Nodup := by
  rcases (leave_eq_some h).2 with rfl | rfl
  · exact List.nodup_cons.mp hvis
  · obtain ⟨hnodup, -, hdisj⟩ := List.nodup_append.mp hvis
    exact ⟨fun hx => hdisj x hx x (List.mem_singleton_self x) rfl, hnodup⟩

end ComicReader.Lib
