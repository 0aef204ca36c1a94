import Mathlib.Data.Option.Basic
import Mathlib.Data.List.Infix

/-!
# Runs of partial transition functions

A system is a function `step : σ → ε → Option σ`: the state after an event,
or `none` when the event cannot happen in that state. A run is a fold of
`step` over a list of events, so a concrete run is a computation and a
property of every reachable state is a property of every successful fold.

A few rules carry everything that is proved about runs here. `run_induction`
extends a property along the last event of a run, with the events seen so far
in view. `run_history` is the same rule for a history variable, a value that
is computed from the events alone and that the system cannot read.
`run_restrict_iff` reads a run whose steps all meet a condition as a run of the
restricted system, and back; `run_restrict_iff_forall` is its use where the
condition is exact for a property of states, and `run_forall_iff` is the same
for a condition on the events so far. `run_project` finds the run of one part
in a run of the whole. `run_length_add_le` bounds a run
by a weight that its steps use up, and `exists_run_rest` follows such steps to
where there is none left.
-/

namespace ComicReader.Lib

variable {σ ε η : Type _}

/-- The state after the events of `es`, taken in order from `s`. -/
def run (step : σ → ε → Option σ) (s : σ) : List ε → Option σ
  | [] => some s
  | e :: es => (step s e).bind fun t => run step t es

@[simp] theorem run_nil {step : σ → ε → Option σ} {s : σ} :
    run step s [] = some s := rfl

theorem run_append {step : σ → ε → Option σ} {s : σ} {es fs : List ε} :
    run step s (es ++ fs) = (run step s es).bind fun t => run step t fs := by
  induction es generalizing s with
  | nil => rfl
  | cons e es ih =>
      simp only [List.cons_append, run]
      cases step s e with
      | none => rfl
      | some t => exact ih

theorem run_append_some {step : σ → ε → Option σ} {s t : σ}
    {es fs : List ε} : run step s (es ++ fs) = some t ↔
      ∃ u, run step s es = some u ∧ run step u fs = some t := by
  rw [run_append, Option.bind_eq_some_iff]

theorem run_snoc {step : σ → ε → Option σ} {s : σ} {es : List ε} {e : ε} :
    run step s (es ++ [e]) = (run step s es).bind fun t => step t e := by
  rw [run_append]
  congr
  funext t
  simp [run]

theorem run_snoc_some {step : σ → ε → Option σ} {s t : σ} {es : List ε}
    {e : ε} : run step s (es ++ [e]) = some t ↔
      ∃ u, run step s es = some u ∧ step u e = some t := by
  rw [run_snoc, Option.bind_eq_some_iff]

/-- A run that succeeds has succeeded at every point on the way. -/
theorem run_prefix {step : σ → ε → Option σ} {s t : σ} {pre es : List ε}
    (hpre : pre <+: es) (h : run step s es = some t) :
    ∃ u, run step s pre = some u := by
  obtain ⟨post, rfl⟩ := hpre
  obtain ⟨u, hu, -⟩ := run_append_some.mp h
  exact ⟨u, hu⟩

/-- A property of the events so far and the state they lead to holds along
every run if it holds at the start and every step extends it. -/
theorem run_induction {step : σ → ε → Option σ} {s₀ : σ}
    {P : List ε → σ → Prop} (h0 : P [] s₀)
    (hstep : ∀ es s e t, run step s₀ es = some s → P es s →
      step s e = some t → P (es ++ [e]) t)
    {es : List ε} {s : σ} (h : run step s₀ es = some s) : P es s := by
  induction es using List.reverseRecOn generalizing s with
  | nil =>
      rw [run_nil, Option.some.injEq] at h
      exact h ▸ h0
  | append_singleton es e ih =>
      obtain ⟨u, hu, hs⟩ := run_snoc_some.mp h
      exact hstep es u e s hu (ih hu) hs

/-- A run is carried over event by event. -/
theorem run_map {δ : Type _} {step : σ → ε → Option σ}
    {step' : σ → δ → Option σ} {f : δ → ε}
    (hstep : ∀ s e t, step' s e = some t → step s (f e) = some t)
    {s t : σ} {es : List δ} (h : run step' s es = some t) :
    run step s (es.map f) = some t := by
  refine run_induction (P := fun es t => run step s (es.map f) = some t)
    rfl ?_ h
  intro es u e t _ hu hs
  rw [List.map_append]
  exact run_snoc_some.mpr ⟨u, hu, hstep u e t hs⟩

/-- A step of a system that does not see every event. -/
def stepSeen {δ : Type _} (step : σ → δ → Option σ) (s : σ) :
    Option δ → Option σ
  | some d => step s d
  | none => some s

/-- A part of a system whose steps are steps of another system, or nothing to
it, makes a run of that system. The steps may rely on `I`, which every state
on the way has. -/
theorem run_project {τ δ : Type _} {step : σ → ε → Option σ}
    {step' : τ → δ → Option τ} (part : σ → τ) (seen : ε → Option δ)
    {I : σ → Prop} {s₀ s : σ} {es : List ε}
    (hI : ∀ es s, run step s₀ es = some s → I s)
    (hstep : ∀ s e t, I s → step s e = some t →
      stepSeen step' (part s) (seen e) = some (part t))
    (h : run step s₀ es = some s) :
    run step' (part s₀) (es.filterMap seen) = some (part s) := by
  refine run_induction
    (P := fun es s =>
      run step' (part s₀) (es.filterMap seen) = some (part s)) rfl ?_ h
  intro es s e t hs ih hst
  have hpart := hstep s e t (hI es s hs) hst
  rw [List.filterMap_append, List.filterMap_cons, List.filterMap_nil]
  cases hd : seen e with
  | none =>
      rw [hd] at hpart
      rw [List.append_nil, ih]
      exact hpart
  | some d =>
      rw [hd] at hpart
      exact run_snoc_some.mpr ⟨part s, ih, hpart⟩

/-! ## History variables -/

/-- The value of a history variable after the events of `es`. -/
def history (record : η → ε → η) (h₀ : η) (es : List ε) : η :=
  es.foldl record h₀

@[simp] theorem history_snoc {record : η → ε → η} {h₀ : η} {es : List ε}
    {e : ε} : history record h₀ (es ++ [e]) =
      record (history record h₀ es) e := by
  simp [history]

/-- An invariant of a history variable and the state, kept by every step,
holds along every run. -/
theorem run_history {step : σ → ε → Option σ} {record : η → ε → η} {s₀ : σ}
    {h₀ : η} {I : η → σ → Prop} (h0 : I h₀ s₀)
    (hstep : ∀ h s e t, I h s → step s e = some t → I (record h e) t)
    {es : List ε} {s : σ} (h : run step s₀ es = some s) :
    I (history record h₀ es) s := by
  refine run_induction (P := fun es s => I (history record h₀ es) s) h0 ?_ h
  intro es s e t _ hI hs
  rw [history_snoc]
  exact hstep _ _ _ _ hI hs

/-! ## Restricted runs -/

/-- The system that takes a step only where `ok` allows it. -/
def restrict (ok : σ → ε → Prop) [∀ s e, Decidable (ok s e)]
    (step : σ → ε → Option σ) (s : σ) (e : ε) : Option σ :=
  if ok s e then step s e else none

theorem restrict_eq_some {ok : σ → ε → Prop} [∀ s e, Decidable (ok s e)]
    {step : σ → ε → Option σ} {s t : σ} {e : ε} :
    restrict ok step s e = some t ↔ ok s e ∧ step s e = some t := by
  unfold restrict
  split
  · next h => simp [h]
  · next h => simp [h]

/-- A run of the restricted system is a run. -/
theorem run_of_restrict {ok : σ → ε → Prop} [∀ s e, Decidable (ok s e)]
    {step : σ → ε → Option σ} {s t : σ} {es : List ε}
    (h : run (restrict ok step) s es = some t) : run step s es = some t := by
  refine run_induction (P := fun es t => run step s es = some t) rfl ?_ h
  intro es u e t _ hu hs
  exact run_snoc_some.mpr ⟨u, hu, (restrict_eq_some.mp hs).2⟩

/-- The runs of the restricted system are the runs whose every step meets the
condition in the state before it. -/
theorem run_restrict_iff {ok : σ → ε → Prop} [∀ s e, Decidable (ok s e)]
    {step : σ → ε → Option σ} {s t : σ} {es : List ε} :
    run (restrict ok step) s es = some t ↔
      run step s es = some t ∧
        ∀ pre e, pre ++ [e] <+: es → ∀ u, run step s pre = some u → ok u e := by
  constructor
  · intro h
    refine ⟨run_of_restrict h, ?_⟩
    intro pre e hpre u hu
    obtain ⟨post, rfl⟩ := hpre
    obtain ⟨v, hv, -⟩ := run_append_some.mp h
    obtain ⟨w, hw, hs⟩ := run_snoc_some.mp hv
    have hwu : w = u := Option.some.inj ((run_of_restrict hw).symm.trans hu)
    exact hwu ▸ (restrict_eq_some.mp hs).1
  · intro ⟨h, hok⟩
    refine run_induction
      (P := fun es t => (∀ pre e, pre ++ [e] <+: es →
        ∀ u, run step s pre = some u → ok u e) →
        run (restrict ok step) s es = some t) (fun _ => rfl) ?_ h hok
    intro es u e t hu ih hs hok
    have hpre : run (restrict ok step) s es = some u :=
      ih fun pre e' hp => hok pre e' (hp.trans (List.prefix_append es [e]))
    exact run_snoc_some.mpr ⟨u, hpre,
      restrict_eq_some.mpr ⟨hok es e (List.prefix_refl _) u hu, hs⟩⟩

/-- A run that meets the condition has met it at every point on the way. -/
theorem run_restrict_pre {ok : σ → ε → Prop} [∀ s e, Decidable (ok s e)]
    {step : σ → ε → Option σ} {s t u : σ} {pre es : List ε}
    (h : run (restrict ok step) s es = some t) (hpre : pre <+: es)
    (hu : run step s pre = some u) :
    run (restrict ok step) s pre = some u := by
  obtain ⟨v, hv⟩ := run_prefix hpre h
  rw [hv, ← run_of_restrict hv, hu]

/-- A run that meets two conditions meets both at every step. -/
theorem run_restrict_and {ok ok' : σ → ε → Prop} [∀ s e, Decidable (ok s e)]
    [∀ s e, Decidable (ok' s e)] {step : σ → ε → Option σ} {s t : σ}
    {es : List ε} (h : run (restrict ok step) s es = some t)
    (h' : run (restrict ok' step) s es = some t) :
    run (restrict (fun u e => ok u e ∧ ok' u e) step) s es = some t := by
  obtain ⟨hr, hok⟩ := run_restrict_iff.mp h
  obtain ⟨-, hok'⟩ := run_restrict_iff.mp h'
  refine run_restrict_iff.mpr ⟨hr, ?_⟩
  intro pre e hpre u hu
  exact ⟨hok pre e hpre u hu, hok' pre e hpre u hu⟩

/-- A property that a condition on the steps is exact for holds at every point
of a run if and only if every step meets the condition. -/
theorem run_restrict_iff_forall (ok : σ → ε → Prop)
    [∀ s e, Decidable (ok s e)] (P : List ε → σ → Prop)
    {step : σ → ε → Option σ} {s t : σ} {es : List ε}
    (h : run step s es = some t)
    (hsound : ∀ pre u, pre <+: es → run (restrict ok step) s pre = some u →
      P pre u)
    (hexact : ∀ pre u e v, pre ++ [e] <+: es → run step s pre = some u →
      step u e = some v → P pre u → P (pre ++ [e]) v → ok u e) :
    (∀ pre u, pre <+: es → run step s pre = some u → P pre u) ↔
      run (restrict ok step) s es = some t := by
  constructor
  · intro hall
    refine run_restrict_iff.mpr ⟨h, ?_⟩
    intro pre e hpre u hu
    obtain ⟨v, hv⟩ := run_prefix hpre h
    obtain ⟨u', hu', hs⟩ := run_snoc_some.mp hv
    obtain rfl : u' = u := Option.some.inj (hu'.symm.trans hu)
    exact hexact pre u' e v hpre hu hs
      (hall pre u' ((List.prefix_append pre [e]).trans hpre) hu)
      (hall _ v hpre hv)
  · intro hg pre u hpre hu
    exact hsound pre u hpre (run_restrict_pre hg hpre hu)

/-- A property that holds at the start, and that every step extends exactly if
the step meets a condition, holds at every point of a run if and only if every
step meets the condition. -/
theorem run_forall_iff (ok : List ε → σ → ε → Prop) (P : List ε → σ → Prop)
    {step : σ → ε → Option σ} {s t : σ} {es : List ε}
    (h : run step s es = some t) (h0 : P [] s)
    (hstep : ∀ pre u e v, run step s pre = some u →
      (∀ pre' u', pre' <+: pre → run step s pre' = some u' → P pre' u') →
        step u e = some v → (P (pre ++ [e]) v ↔ ok pre u e)) :
    (∀ pre u, pre <+: es → run step s pre = some u → P pre u) ↔
      ∀ pre e, pre ++ [e] <+: es → ∀ u, run step s pre = some u →
        ok pre u e := by
  constructor
  · intro hall pre e hpre u hu
    obtain ⟨v, hv⟩ := run_prefix hpre h
    obtain ⟨u', hu', hs⟩ := run_snoc_some.mp hv
    obtain rfl : u' = u := Option.some.inj (hu'.symm.trans hu)
    have hpast : ∀ pre' w, pre' <+: pre → run step s pre' = some w →
        P pre' w := fun pre' w hp =>
      hall pre' w (hp.trans ((List.prefix_append pre [e]).trans hpre))
    exact (hstep pre u' e v hu hpast hs).mp (hall _ v hpre hv)
  · intro hok
    -- By induction on the events so far, for all points on the way to them.
    have hpast : ∀ pre, pre <+: es → ∀ pre' w, pre' <+: pre →
        run step s pre' = some w → P pre' w := by
      intro pre
      induction pre using List.reverseRecOn with
      | nil =>
          intro _ pre' w hpre' hw
          obtain rfl := List.prefix_nil.mp hpre'
          rw [run_nil, Option.some.injEq] at hw
          exact hw ▸ h0
      | append_singleton pre e ih =>
          intro hpre pre' w hpre' hw
          have ih := ih ((List.prefix_append pre [e]).trans hpre)
          rcases List.prefix_concat_iff.mp hpre' with rfl | hpre'
          · obtain ⟨u, hu, hs⟩ := run_snoc_some.mp hw
            exact (hstep pre u e w hu ih hs).mpr (hok pre e hpre u hu)
          · exact ih pre' w hpre' hw
    exact fun pre u hpre hu => hpast pre hpre pre u (List.prefix_refl _) hu

/-! ## Runs that end -/

/-- A run whose every step uses up weight is no longer than the weight it
starts with. `I` is what the steps may rely on, and keep. -/
theorem run_length_add_le {step : σ → ε → Option σ} {weight : σ → Nat}
    {I : σ → Prop} {s t : σ} {es : List ε} (hs : I s)
    (hstep : ∀ s e t, I s → step s e = some t → I t ∧ weight t < weight s)
    (h : run step s es = some t) :
    I t ∧ es.length + weight t ≤ weight s := by
  refine run_induction
    (P := fun es t => I t ∧ es.length + weight t ≤ weight s) ?_ ?_ h
  · exact ⟨hs, Nat.le_of_eq (Nat.zero_add _)⟩
  · rintro es u e t - ⟨hu, hle⟩ hstep'
    obtain ⟨ht, hlt⟩ := hstep u e t hu hstep'
    refine ⟨ht, ?_⟩
    rw [List.length_append, List.length_singleton]
    omega

/-- Where every step uses up weight and only the states of `rest` have no
step, every state has a run that ends in `rest`. -/
theorem exists_run_rest {step : σ → ε → Option σ} {weight : σ → Nat}
    {I rest : σ → Prop}
    (hstep : ∀ s e t, I s → step s e = some t → I t ∧ weight t < weight s)
    (hmove : ∀ s, I s → ¬ rest s → ∃ e t, step s e = some t) (s : σ)
    (hs : I s) : ∃ es t, run step s es = some t ∧ rest t := by
  induction hw : weight s using Nat.strong_induction_on generalizing s with
  | _ n ih =>
      by_cases hrest : rest s
      · exact ⟨[], s, rfl, hrest⟩
      · obtain ⟨e, u, hu⟩ := hmove s hs hrest
        obtain ⟨hIu, hlt⟩ := hstep s e u hs hu
        obtain ⟨es, t, ht, hrest'⟩ := ih _ (hw ▸ hlt) u hIu rfl
        refine ⟨e :: es, t, ?_, hrest'⟩
        rw [run, hu, Option.bind_some, ht]

end ComicReader.Lib
