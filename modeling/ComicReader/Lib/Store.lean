import Mathlib.Data.List.Basic
import Mathlib.Logic.Function.Basic

/-!
# Partial maps that are written, and queues of what is to be written

A map to optional values is written one key at a time, and what is found at a
key afterwards is what was written there or what was there before.

Where the writes are jobs in a queue, taken from the front and added at the end,
`change` says what a job changes something to, where it does. The last change
in the queue is then what will be left when the queue has been worked off,
whatever is there now.
-/

namespace ComicReader.Lib

theorem update_eq_some {α β : Type _} [DecidableEq α] {f : α → Option β}
    {a₀ a : α} {b₀ : Option β} {b : β}
    (h : Function.update f a₀ b₀ a = some b) :
    a = a₀ ∧ b₀ = some b ∨ a ≠ a₀ ∧ f a = some b := by
  by_cases ha : a = a₀
  · subst ha
    rw [Function.update_self] at h
    exact Or.inl ⟨rfl, h⟩
  · rw [Function.update_of_ne ha] at h
    exact Or.inr ⟨ha, h⟩

variable {ι ν : Type _} {change : ι → Option ν} {jobs : List ι} {job : ι}

/-- The last change that is queued. -/
def pending (change : ι → Option ν) (jobs : List ι) : Option ν :=
  (jobs.filterMap change).getLast?

/-- A job that is queued comes after all others. -/
theorem pending_snoc :
    pending change (jobs ++ [job]) = (change job).or (pending change jobs) := by
  unfold pending
  rw [List.filterMap_append]
  cases h : change job with
  | none => simp [h]
  | some v => simp [h]

/-- The job at the front is overtaken by every other. -/
theorem pending_cons :
    pending change (job :: jobs) = (pending change jobs).or (change job) := by
  unfold pending
  cases h : change job with
  | none => simp [h]
  | some v =>
      rw [List.filterMap_cons_some h, List.getLast?_cons]
      cases (jobs.filterMap change).getLast? <;> rfl

/-- What remains queued was queued. -/
theorem pending_cons_of_some {v : ν} (h : pending change jobs = some v) :
    pending change (job :: jobs) = some v := by
  rw [pending_cons, h]
  rfl

end ComicReader.Lib
