import Mathlib.Algebra.BigOperators.Fin
import Mathlib.Tactic.Ring

/-!
# Horner evaluation

The digits of a number, most significant first, are evaluated by one loop that
multiplies by the base and adds. The digits are elements of a ring, so they
may be negative or exceed the base; what the loop computes is the sum of the
digits with their powers, and a concatenation is evaluated from its parts.
-/

namespace ComicReader.Lib

variable {R : Type _} [CommRing R] {b : R}

def horner (b : R) (l : List R) : R := l.foldl (fun sum d => sum * b + d) 0

@[simp] theorem horner_nil : horner b [] = 0 := rfl

/-- The loop started at `sum`. -/
theorem foldl_horner {l : List R} {sum : R} :
    l.foldl (fun sum d => sum * b + d) sum =
      sum * b ^ l.length + horner b l := by
  induction l generalizing sum with
  | nil => simp
  | cons d l ih =>
      rw [horner, List.foldl_cons, List.foldl_cons, ih, ih, List.length_cons,
        pow_succ]
      ring

theorem horner_append {l m : List R} :
    horner b (l ++ m) = horner b l * b ^ m.length + horner b m := by
  rw [horner, List.foldl_append, foldl_horner]
  rfl

theorem horner_cons {d : R} {l : List R} :
    horner b (d :: l) = d * b ^ l.length + horner b l := by
  rw [horner, List.foldl_cons, foldl_horner]
  ring

theorem horner_replicate_zero {k : Nat} {l : List R} :
    horner b (List.replicate k 0 ++ l) = horner b l := by
  induction k with
  | zero => rfl
  | succ k ih =>
      rw [List.replicate_succ, List.cons_append, horner_cons, ih]
      ring

/-- Digit `i` of `n` digits has the weight `b ^ (n - 1 - i)`. -/
theorem horner_map_eq_sum {α : Type _} {f : α → R} {l : List α} :
    horner b (l.map f) =
      ∑ i : Fin l.length, f l[i] * b ^ (l.length - 1 - i) := by
  induction l with
  | nil => simp
  | cons d l ih =>
      rw [List.map_cons, horner_cons, ih, List.length_map]
      refine Eq.trans ?_ (Fin.sum_univ_succ (n := l.length) fun i =>
        f (d :: l)[i] * b ^ (l.length - i)).symm
      refine congrArg₂ (· + ·) rfl (Finset.sum_congr rfl fun i _ => ?_)
      have hpow : l.length - 1 - (i : Nat) = l.length - (i.succ : Nat) := by
        rw [Fin.val_succ]
        omega
      rw [hpow]
      rfl

end ComicReader.Lib
