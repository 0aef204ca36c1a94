import ComicReader.Download.Fresh

/-!
# Every retrieval is answered once

A retrieval that finds its picture in memory is answered at once. All others
wait in the I/O queue, where one may fail, find nothing, or be read and stored
in memory before it is answered. None of them is lost on that way or answered
twice, whatever is stored, removed or cleaned in between (`answered_of_run`),
and the queue gets to them all: its work runs out, and until it has there is a
step to take (`answered_once`).
-/

namespace ComicReader

open Lib

namespace ImageCache

variable {Key Image : Type} [DecidableEq Key]
  {sf sf' : ImageCache Key Image}

/-- The key that a job looks for. -/
def sought : IOJob Key Image → Option Key
  | .retrieve key => some key
  | .store _ _ | .remove _ => none

/-- The key that an event asks for. -/
def asked : CacheEvent Key Image → Option Key
  | .retrieveImage key => some key
  | _ => none

def unanswered (sf : ImageCache Key Image) : List Key :=
  (sf.reading.map Prod.fst).toList ++ sf.ioQueue.filterMap sought

/-- All retrievals, by their keys: the answered, then the others. -/
def retrievals (sf : ImageCache Key Image) : List Key :=
  sf.answered.map Prod.fst ++ unanswered sf

/-- A job that looks for nothing answers nothing, and one that looks for a key
answers it or has read it. -/
theorem retrievals_perform {job : IOJob Key Image} {success : Bool}
    (hidle : sf.reading = none) :
    (retrievals (sf.perform success job)).Perm
      (retrievals sf ++ (sought job).toList) := by
  cases job with
  | store | remove =>
      cases success <;> simp [perform, sought, retrievals, unanswered]
  | retrieve key =>
      have hanswered : (retrievals
          { sf with answered := sf.answered ++ [(key, none)] }).Perm
            (retrievals sf ++ [key]) := by
        rw [List.perm_iff_count]
        intro key'
        simp only [retrievals, unanswered, List.map_append, List.count_append,
          List.map_cons, List.map_nil]
        omega
      cases hdisk : sf.diskStorage key with
      | none =>
          simp only [perform, hdisk]
          exact hanswered
      | some image =>
          simp only [perform, hdisk]
          cases success with
          | false => exact hanswered
          | true =>
              rw [List.perm_iff_count]
              intro key'
              simp only [if_true, retrievals, unanswered, hidle, sought,
                Option.map_some, Option.map_none, Option.toList_some,
                Option.toList_none, List.count_append, List.count_nil]
              omega

/-- A step adds the retrieval that it asks for, and otherwise changes at most
which of them are answered. -/
theorem retrievals_of_step {e : CacheEvent Key Image}
    (hc : CacheCase sf e sf') :
    (retrievals sf').Perm (retrievals sf ++ (asked e).toList) := by
  cases hc with
  | changed e job o hjob hrecord hstore hevent =>
      have hasked : asked e = none := by
        rcases hevent with ⟨image, rfl⟩ | rfl <;> rfl
      have hsought : sought job = none := by
        cases job with
        | retrieve key => cases hjob
        | store | remove => rfl
      simp [retrievals, unanswered, hasked, hsought]
  | hit key image hmemory =>
      rw [List.perm_iff_count]
      intro key'
      simp only [retrievals, unanswered, asked, List.map_append,
        List.map_cons, List.map_nil, List.count_append, Option.toList_some]
      omega
  | asked key hmemory =>
      simp [retrievals, unanswered, ImageCache.asked, sought]
  | performed success job ioQueue hidle hqueue =>
      have hidle' : ({ sf with ioQueue := ioQueue } :
          ImageCache Key Image).reading = none := hidle
      refine (retrievals_perform hidle').trans ?_
      rw [List.perm_iff_count]
      intro key
      simp only [retrievals, unanswered, asked, hqueue, hidle]
      cases hjob : sought job <;> simp [hjob, List.count_cons]
  | stored key image hread =>
      simp [retrievals, unanswered, asked, hread]
  | memoryCleaned | diskCleaned =>
      simp [retrievals, unanswered, asked]

/-- An answer that has been given stays given. -/
theorem answered_prefix {e : CacheEvent Key Image}
    (hc : CacheCase sf e sf') : sf.answered <+: sf'.answered := by
  cases hc with
  | hit | stored => exact List.prefix_append _ _
  | performed success job ioQueue hidle hqueue =>
      cases job with
      | store | remove => cases success <;> exact List.prefix_refl _
      | retrieve key =>
          cases hdisk : sf.diskStorage key with
          | none => simp [perform, hdisk]
          | some image => cases success <;> simp [perform, hdisk]
  | changed | asked | memoryCleaned | diskCleaned => exact List.prefix_refl _

/-- In every run the retrievals answered and the ones still to be answered are
together the retrievals that were asked for. -/
theorem answered_of_run {es : List (CacheEvent Key Image)}
    (hr : cacheRun es = some sf) :
    (retrievals sf).Perm (es.filterMap asked) := by
  refine run_induction (P := fun es sf =>
    (retrievals sf).Perm (es.filterMap asked)) (.refl _) ?_ hr
  intro es u e v _ hu hs
  rw [List.filterMap_append]
  refine (retrievals_of_step (cacheCase_of_step hs)).trans ?_
  refine (hu.append_right _).trans (.of_eq ?_)
  cases he : asked e <;> simp [he]

/-! ## The I/O queue gets to them all -/

/-- The steps of the I/O queue. -/
def Works (_ : ImageCache Key Image) : CacheEvent Key Image → Prop
  | .io _ | .storeRead => True
  | _ => False

instance {e : CacheEvent Key Image} : Decidable (Works sf e) :=
  match e with
  | .io _ | .storeRead => inferInstanceAs (Decidable True)
  | .store _ _ | .removeImage _ | .retrieveImage _ | .memoryCleaned _
  | .diskCleaned _ => inferInstanceAs (Decidable False)

/-- A job is one step, and storing what it has read another. -/
def work (sf : ImageCache Key Image) : Nat :=
  2 * sf.ioQueue.length + sf.reading.toList.length

/-- The queue changes which retrievals are answered, and no more. -/
theorem retrievals_of_work {fs : List (CacheEvent Key Image)}
    (hw : run (restrict Works cacheStep) sf fs = some sf') :
    (retrievals sf').Perm (retrievals sf) := by
  refine run_induction (P := fun _ v => (retrievals v).Perm (retrievals sf))
    (.refl _) ?_ hw
  intro _ u e v _ hu hs
  obtain ⟨hwork, hs⟩ := restrict_eq_some.mp hs
  have hasked : asked e = none := by
    cases e with
    | io | storeRead => rfl
    | store | removeImage | retrieveImage | memoryCleaned | diskCleaned =>
        exact hwork.elim
  have hv := retrievals_of_step (cacheCase_of_step hs)
  rw [hasked, Option.toList_none, List.append_nil] at hv
  exact hv.trans hu

/-- Every step of the queue uses up work. -/
theorem work_lt {e : CacheEvent Key Image} (hw : Works sf e)
    (hc : CacheCase sf e sf') : work sf' < work sf := by
  cases hc with
  | changed e job o hjob hrecord hstore hevent =>
      rcases hevent with ⟨image, rfl⟩ | rfl <;> exact hw.elim
  | hit | asked | memoryCleaned | diskCleaned => exact hw.elim
  | performed success job ioQueue hidle hqueue =>
      have hreading : ∀ read : Option (Key × Image),
          read.toList.length ≤ 1 := by
        rintro (_ | read) <;> simp
      have hread := hreading
        (perform { sf with ioQueue := ioQueue } success job).reading
      simp only [work, frame_perform.2, hqueue, List.length_cons]
      omega
  | stored key image hread => simp [work, hread]

omit [DecidableEq Key] in
theorem retrievals_of_idle (h : work sf = 0) :
    retrievals sf = sf.answered.map Prod.fst := by
  cases hread : sf.reading <;> cases hqueue : sf.ioQueue <;>
    simp [work, retrievals, unanswered, hread, hqueue] at h ⊢

/-- While there is work the queue has a step. -/
theorem exists_work (h : work sf ≠ 0) :
    ∃ e, Works sf e ∧ (cacheStep sf e).isSome := by
  cases hread : sf.reading with
  | some read =>
      exact ⟨.storeRead, trivial, by simp [cacheStep, hread]⟩
  | none =>
      cases hqueue : sf.ioQueue with
      | nil => simp [work, hread, hqueue] at h
      | cons job ioQueue =>
          exact ⟨.io true, trivial, by simp [cacheStep, hread, hqueue]⟩

/-- The I/O queue works for no longer than it has work, and can go on for as
long as it has. When it has none left, the answers that have been given are
those to the retrievals that were asked for, one for each. -/
theorem answered_once {es fs : List (CacheEvent Key Image)}
    (hr : cacheRun es = some sf)
    (hw : run (restrict Works cacheStep) sf fs = some sf') :
    fs.length + work sf' ≤ work sf ∧
      (work sf' = 0 → (sf'.answered.map Prod.fst).Perm (es.filterMap asked)) ∧
      ∃ gs sf'', run (restrict Works cacheStep) sf' gs = some sf'' ∧
        work sf'' = 0 := by
  have hstep : ∀ (u : ImageCache Key Image) e v, True →
      restrict Works cacheStep u e = some v → True ∧ work v < work u := by
    intro u e v _ hs
    obtain ⟨hwork, hs⟩ := restrict_eq_some.mp hs
    exact ⟨trivial, work_lt hwork (cacheCase_of_step hs)⟩
  refine ⟨(run_length_add_le (I := fun _ => True) trivial hstep hw).2, ?_, ?_⟩
  · intro hdone
    have hall := (retrievals_of_work hw).trans (answered_of_run hr)
    rwa [retrievals_of_idle hdone] at hall
  · refine exists_run_rest (I := fun _ => True) hstep ?_ sf' trivial
    intro u _ hne
    obtain ⟨e, hwork, hs⟩ := exists_work hne
    obtain ⟨v, hv⟩ := Option.isSome_iff_exists.mp hs
    exact ⟨e, v, restrict_eq_some.mpr ⟨hwork, hv⟩⟩

/-- A picture leaves the memory and is asked for twice. It is read back for the
first, which fails the second time. -/
def askedTwice : List (CacheEvent Nat String) :=
  [.store 1 "a", .memoryCleaned fun _ => true, .retrieveImage 1,
    .retrieveImage 1]

theorem answered_once_askedTwice :
    ∃ sf sf', cacheRun askedTwice = some sf ∧
      run (restrict Works cacheStep) sf
        [.io true, .io true, .storeRead, .io false] = some sf' ∧
      4 + work sf' ≤ work sf ∧
      (sf'.answered.map Prod.fst).Perm (askedTwice.filterMap asked) := by
  have hr : cacheRun askedTwice = some ((cacheRun askedTwice).get rfl) := rfl
  have hw : run (restrict Works cacheStep) ((cacheRun askedTwice).get rfl)
      [.io true, .io true, .storeRead, .io false] = some _ := rfl
  obtain ⟨hle, hall, -⟩ := answered_once hr hw
  exact ⟨_, _, hr, hw, hle, hall rfl⟩

end ImageCache

end ComicReader
