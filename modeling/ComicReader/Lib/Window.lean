import Mathlib.Data.List.Range
import Mathlib.Data.List.Nodup
import Mathlib.Logic.Relation

/-!
# Windows on a numbered sequence

A sequence is numbered `0 … N - 1`, and a part of it is held in memory. What
such a cache is for is a window: a non-empty block of consecutive indices that
only ever grows by the neighbour on either side. The bounds are fields, so a
window cannot leave the sequence, and `indices` lists it from the top index
down, the order in which it is laid out.

`Grow` is the machine: one step takes in the index above the top or the index
below the bottom. The lemmas say what a step does to the listing (`indices`
gains a head or a last element, and nothing moves) and that the listing stays
free of repetitions.
-/

namespace ComicReader.Lib

/-- A non-empty block of consecutive indices of a sequence of length `N`. -/
@[ext] structure Window (N : Int) where
  top : Int
  size : Nat
  size_pos : 0 < size
  bottom_nonneg : 0 ≤ top - size + 1
  top_lt : top < N

namespace Window

variable {N : Int}

/-- The index just below the window. -/
def below (w : Window N) : Int := w.top - w.size

/-- The index just above the window. -/
def above (w : Window N) : Int := w.top + 1

/-- The window's indices, from the top down. -/
def indices (w : Window N) : List Int :=
  (List.range w.size).map fun n : Nat => w.top - n

def single (i : Int) (h : 0 ≤ i ∧ i < N) : Window N where
  top := i
  size := 1
  size_pos := by omega
  bottom_nonneg := by omega
  top_lt := h.2

def extendBelow (w : Window N) (h : 0 ≤ w.below) : Window N where
  top := w.top
  size := w.size + 1
  size_pos := by omega
  bottom_nonneg := by unfold below at h; omega
  top_lt := w.top_lt

def extendAbove (w : Window N) (h : w.above < N) : Window N where
  top := w.above
  size := w.size + 1
  size_pos := by omega
  bottom_nonneg := by have := w.bottom_nonneg; unfold above; omega
  top_lt := h

@[simp] theorem length_indices (w : Window N) : w.indices.length = w.size := by
  simp [indices]

@[simp] theorem indices_single {i : Int} (h : 0 ≤ i ∧ i < N) :
    (single i h).indices = [i] := by
  simp [indices, single]

@[simp] theorem indices_extendBelow (w : Window N) (h : 0 ≤ w.below) :
    (w.extendBelow h).indices = w.indices ++ [w.below] := by
  simp [indices, extendBelow, below, List.range_succ]

@[simp] theorem indices_extendAbove (w : Window N) (h : w.above < N) :
    (w.extendAbove h).indices = w.above :: w.indices := by
  simp only [indices, extendAbove, above, List.range_succ_eq_map,
    List.map_cons, List.map_map]
  congr 1
  · simp
  · refine List.map_congr_left fun n _ => ?_
    simp only [Function.comp_apply]
    omega

theorem getElem_indices (w : Window N) {n : Nat} (h : n < w.indices.length) :
    w.indices[n] = w.top - n := by
  simp [indices]

theorem mem_indices (w : Window N) {i : Int} :
    i ∈ w.indices ↔ w.below < i ∧ i < w.above := by
  simp only [indices, List.mem_map, List.mem_range, below, above]
  constructor
  · rintro ⟨n, hn, rfl⟩
    omega
  · intro ⟨hlo, hhi⟩
    exact ⟨(w.top - i).toNat, by omega, by omega⟩

theorem nodup_indices (w : Window N) : w.indices.Nodup := by
  refine List.Nodup.map ?_ List.nodup_range
  intro m n hmn
  have : w.top - (m : Int) = w.top - n := hmn
  omega

/-! ## Growing -/

/-- One step of the machine: the neighbour below or above is taken in. -/
inductive Grow : Window N → Window N → Prop where
  | below (w : Window N) (h : 0 ≤ w.below) : Grow w (w.extendBelow h)
  | above (w : Window N) (h : w.above < N) : Grow w (w.extendAbove h)

end Window

end ComicReader.Lib
