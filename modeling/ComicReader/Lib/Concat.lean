import Mathlib.Data.List.Basic

/-!
# Arrays built by loops

Two loops and what they compute: a loop that rewrites every element of an
array in place maps the array, and a loop that appends array after array
concatenates them.

The rest is about indices of a concatenation. `offset L i` is where list `i`
begins, and every index of the concatenation is a place `(i, j)`, element `j`
of list `i`, for exactly one `i` and `j`; empty lists have no places and move
nothing.
-/

namespace ComicReader.Lib

variable {α : Type _}

theorem getElem?_foldl_modify {f : α → α} {l : List α} {n j : Nat} :
    ((List.range n).foldl (fun l i => l.modify i f) l)[j]? =
      if j < n then l[j]?.map f else l[j]? := by
  induction n with
  | zero => simp
  | succ n ih =>
      rw [List.range_succ, List.foldl_append, List.foldl_cons, List.foldl_nil,
        List.getElem?_modify, ih]
      by_cases hj : n = j
      · subst hj
        simp
      · have hlt : j < n + 1 ↔ j < n := by omega
        simp [hj, hlt]

/-- The loop over all indices that rewrites in place is a map. -/
theorem foldl_modify_eq_map {f : α → α} {l : List α} :
    (List.range l.length).foldl (fun l i => l.modify i f) l = l.map f := by
  refine List.ext_getElem? fun j => ?_
  rw [getElem?_foldl_modify, List.getElem?_map]
  split
  · rfl
  · next h => rw [List.getElem?_eq_none (Nat.le_of_not_lt h), Option.map_none]

theorem foldl_append_eq_flatten {L : List (List α)} :
    L.foldl (fun old new => old ++ new) [] = L.flatten := by
  have h : L.foldl (fun old new => old ++ id new) [] =
      [] ++ (L.map id).flatten := List.foldl_append_eq_append
  rwa [List.map_id, List.nil_append] at h

/-! ## Places in a concatenation -/

/-- The index at which list `i` begins in the concatenation. -/
def offset (L : List (List α)) (i : Nat) : Nat :=
  (L.take i).flatten.length

@[simp] theorem offset_zero {L : List (List α)} : offset L 0 = 0 := rfl

@[simp] theorem offset_cons_succ {l : List α} {L : List (List α)} {i : Nat} :
    offset (l :: L) (i + 1) = l.length + offset L i := by
  simp [offset]

/-- `(i, j)` is element `j` of list `i`. -/
def IsPlace (L : List (List α)) (x : Nat × Nat) : Prop :=
  ∃ l ∈ L[x.1]?, x.2 < l.length

theorem getElem?_offset {L : List (List α)} {l : List α} {i j : Nat}
    (hl : L[i]? = some l) (hj : j < l.length) :
    L.flatten[offset L i + j]? = l[j]? := by
  induction L generalizing i with
  | nil => simp at hl
  | cons a L ih =>
      rw [List.flatten_cons]
      cases i with
      | zero =>
          obtain rfl : a = l := by simpa using hl
          rw [offset_zero, Nat.zero_add, List.getElem?_append_left hj]
      | succ i =>
          rw [offset_cons_succ, List.getElem?_append_right (by omega)]
          have hindex : a.length + offset L i + j - a.length =
              offset L i + j := by omega
          rw [hindex]
          exact ih hl

theorem exists_place {L : List (List α)} {k : Nat}
    (hk : k < L.flatten.length) :
    ∃ x, IsPlace L x ∧ k = offset L x.1 + x.2 := by
  induction L generalizing k with
  | nil => simp at hk
  | cons a L ih =>
      rw [List.flatten_cons, List.length_append] at hk
      rcases Nat.lt_or_ge k a.length with hlt | hge
      · exact ⟨(0, k), ⟨a, rfl, hlt⟩, by simp⟩
      · obtain ⟨⟨i, j⟩, ⟨l, hl, hj⟩, hindex⟩ :=
          ih (k := k - a.length) (by omega)
        refine ⟨(i + 1, j), ⟨l, hl, hj⟩, ?_⟩
        simp only [offset_cons_succ] at hindex ⊢
        omega

/-- A list ends before the next one begins. -/
theorem offset_add_length_le {L : List (List α)} {l : List α} {i i' : Nat}
    (hl : L[i]? = some l) (hi : i < i') :
    offset L i + l.length ≤ offset L i' := by
  induction L generalizing i i' with
  | nil => simp at hl
  | cons a L ih =>
      obtain ⟨i', rfl⟩ := Nat.exists_eq_succ_of_ne_zero (Nat.ne_of_gt
        (Nat.lt_of_le_of_lt (Nat.zero_le i) hi))
      rw [offset_cons_succ]
      cases i with
      | zero =>
          obtain rfl : a = l := by simpa using hl
          rw [offset_zero]
          omega
      | succ i =>
          have hle := ih hl (Nat.lt_of_succ_lt_succ hi)
          rw [offset_cons_succ]
          omega

/-- The indices of two places are in the order of the places, list first. -/
theorem place_lt_iff {L : List (List α)} {x y : Nat × Nat}
    (hx : IsPlace L x) (hy : IsPlace L y) :
    offset L x.1 + x.2 < offset L y.1 + y.2 ↔
      x.1 < y.1 ∨ (x.1 = y.1 ∧ x.2 < y.2) := by
  obtain ⟨l, hl, hlt⟩ := hx
  obtain ⟨m, hm, hmt⟩ := hy
  rcases Nat.lt_trichotomy x.1 y.1 with h | h | h
  · have := offset_add_length_le hl h
    omega
  · rw [h]
    omega
  · have := offset_add_length_le hm h
    omega

theorem place_unique {L : List (List α)} {x y : Nat × Nat}
    (hx : IsPlace L x) (hy : IsPlace L y)
    (heq : offset L x.1 + x.2 = offset L y.1 + y.2) : x = y := by
  have hxy := place_lt_iff hx hy
  have hyx := place_lt_iff hy hx
  exact Prod.ext (by omega) (by omega)

/-- Every index of the concatenation is the index of exactly one place. -/
theorem existsUnique_place {L : List (List α)} {k : Nat}
    (hk : k < L.flatten.length) :
    ∃! x, IsPlace L x ∧ k = offset L x.1 + x.2 := by
  obtain ⟨x, hx, hindex⟩ := exists_place hk
  refine ⟨x, ⟨hx, hindex⟩, ?_⟩
  intro y ⟨hy, hindex'⟩
  exact place_unique hy hx (hindex'.symm.trans hindex)

end ComicReader.Lib
