import ComicReader.Download.Calls

/-!
# A callback is not lost

A request counts on the session task it is added to being completed later, and
nothing holds the two together. A request that has found a task may add its
callback when the task has left the dictionary and been completed. A
cancellation that empties a task, and a completion that removes one, clear the
URL in the dictionary, and by then the URL may be that of another task, one
that is not being completed either. Those three steps, in those situations, are
all that can lose a callback (`kept_iff`).

Without cancellations the first situation is the only one. When the downloader
comes to rest, every callback has been called, once and with the result of its
session task, exactly if no request came too late for the task it had found
(`all_called_iff`).
-/

namespace ComicReader

open Lib

namespace ImageDownloader

variable {URL Result : Type} [DecidableEq URL]
  {sf sf' : ImageDownloader URL Result}

/-- The dictionary has the session task, or the delegate queue is at it. -/
def Live (sf : ImageDownloader URL Result) (t : Nat)
    (task : SessionDataTask URL) : Prop :=
  sf.tasks task.url = some t ∨ sf.completing.task = some t

instance {t : Nat} {task : SessionDataTask URL} : Decidable (Live sf t task) :=
  inferInstanceAs (Decidable (_ ∨ _))

/-- A callback that has not been called is one of a task that is still to be
completed. -/
def Kept (sf : ImageDownloader URL Result) : Prop :=
  ∀ t task k, sf.sessionTasks t = some task → k < task.currentToken →
    ⟨t, k⟩ ∉ keys sf → Live sf t task

/-- The session task that a `downloadImage` has found. -/
def landing (sf : ImageDownloader URL Result) : Option Nat :=
  sf.downloading.bind Prod.snd

/-- Clearing the URL for the session task `t` takes no other task out of the
dictionary, unless the delegate queue is at it. -/
def Spares (sf : ImageDownloader URL Result) (url : URL) (t : Nat) : Prop :=
  ∀ t' ∈ sf.tasks url, t' = t ∨ sf.completing.task = some t'

instance {url : URL} {t : Nat} : Decidable (Spares sf url t) :=
  inferInstanceAs (Decidable (∀ t' ∈ _, _ ∨ _))

/-- The step loses no callback. -/
def Keeps (sf : ImageDownloader URL Result) :
    DownloadEvent URL Result → Prop
  | .start => ∀ t ∈ sf.landing, ∀ task ∈ sf.sessionTasks t, Live sf t task
  | .cancel d => ∀ task ∈ sf.sessionTasks d.sessionTask,
      d.cancelToken ∈ task.callbacksStore →
        (without task d.cancelToken).callbacksStore = [] →
          Spares sf task.url d.sessionTask
  | .remove => ∀ t ∈ sf.completing.task, ∀ task ∈ sf.sessionTasks t,
      Spares sf task.url t
  | _ => True

instance : {e : DownloadEvent URL Result} → Decidable (Keeps sf e)
  | .start | .remove => inferInstanceAs (Decidable (∀ t ∈ _, ∀ task ∈ _, _))
  | .cancel _ => inferInstanceAs (Decidable (∀ task ∈ _, _ → _ → _))
  | .downloadImage _ | .didComplete _ _ | .callBack =>
      inferInstanceAs (Decidable True)

omit [DecidableEq URL] in
/-- A task in the dictionary has a callback that has not been called. -/
theorem Sound.uncalled (hS : Sound sf) {url : URL} {t : Nat}
    (hreg : sf.tasks url = some t) :
    ∃ task k, sf.sessionTasks t = some task ∧ task.url = url ∧
      k < task.currentToken ∧ ⟨t, k⟩ ∉ keys sf := by
  obtain ⟨task, htask, hurl, hne⟩ := hS.registered url t hreg
  obtain ⟨k, hk⟩ := List.exists_mem_of_ne_nil _ hne
  refine ⟨task, k, htask, hurl, (hS.tokens t task htask).2 k hk, ?_⟩
  intro hkey
  exact (hS.done t task k htask hk hkey).1 ⟨url, hreg⟩

omit [DecidableEq URL] in
theorem kept_appended (hS : Sound sf) (hkept : Kept sf) {t : Nat}
    {task : SessionDataTask URL} (htask : sf.sessionTasks t = some task) :
    Kept { sf.append t task with downloading := none } ↔ Live sf t task := by
  constructor
  · intro h
    refine h t task.addCallback task.currentToken (Function.update_self ..)
      (Nat.lt_succ_self _) fun hkey => ?_
    obtain ⟨task', htask', hlt⟩ := hS.called _ hkey
    obtain rfl : task' = task := Option.some.inj (htask'.symm.trans htask)
    exact Nat.lt_irrefl _ hlt
  · intro hlive t' task' k h hk hkey
    rcases update_eq_some h with ⟨rfl, ⟨⟩⟩ | ⟨-, h⟩
    · exact hlive
    · exact hkept t' task' k h hk hkey

theorem kept_added (hS : Sound sf) (hkept : Kept sf) {url : URL}
    (hmain : sf.downloading = some (url, none)) :
    Kept { sf.add url with downloading := none } := by
  intro t task k h hk hkey
  rcases update_eq_some h with ⟨rfl, ⟨⟩⟩ | ⟨-, h⟩
  · exact Or.inl (Function.update_self ..)
  · refine (hkept t task k h hk hkey).imp_left fun hreg => ?_
    have hurl : task.url ≠ url := by
      rintro rfl
      rw [hS.free task.url hmain] at hreg
      cases hreg
    exact (Function.update_of_ne hurl ..).trans hreg

theorem kept_cancelled (hS : Sound sf) (hkept : Kept sf) {d : DownloadTask}
    {task : SessionDataTask URL}
    (htask : sf.sessionTasks d.sessionTask = some task) :
    Kept (sf.cancelCallback d task) ↔
      ((without task d.cancelToken).callbacksStore = [] →
        Spares sf task.url d.sessionTask) := by
  have hkeys : ∀ d', d' ∈ keys (sf.cancelCallback d task) ↔
      d' ∈ keys sf ∨ d' = d := by
    intro d'
    rw [keys_cancelCallback, List.mem_append, List.mem_singleton]
  constructor
  · intro h hnil t ht
    by_contra hother
    obtain ⟨hne, hcompleting⟩ := not_or.mp hother
    obtain ⟨task', k, htask', hurl, hk, hkey⟩ := hS.uncalled ht
    have hkey' : ⟨t, k⟩ ∉ keys (sf.cancelCallback d task) := by
      rw [hkeys]
      rintro (hkey' | rfl)
      · exact hkey hkey'
      · exact hne rfl
    rcases h t task' k ((Function.update_of_ne hne ..).trans htask') hk hkey'
      with hreg | hself
    · exact (tasks_cancelCallback.mp hreg).2 hnil hurl
    · exact hcompleting hself
  · intro hspares t task' k h hk hkey
    rw [hkeys, not_or] at hkey
    -- The task stays where it was, unless the cancellation clears its URL.
    have hstays : ∀ {task'' : SessionDataTask URL}, Live sf t task'' →
        ((without task d.cancelToken).callbacksStore = [] →
          t ≠ d.sessionTask) →
        Live (sf.cancelCallback d task) t task'' := by
      rintro task'' (hreg | hself) hne
      · by_cases hclear :
          (without task d.cancelToken).callbacksStore = [] ∧
            task''.url = task.url
        · obtain ⟨hnil, hurl⟩ := hclear
          exact Or.inr ((hspares hnil t (hurl ▸ hreg)).resolve_left (hne hnil))
        · exact Or.inl (tasks_cancelCallback.mpr
            ⟨hreg, fun hnil hurl => hclear ⟨hnil, hurl⟩⟩)
      · exact Or.inr hself
    rcases update_eq_some h with ⟨rfl, ⟨⟩⟩ | ⟨ht, h⟩
    · show Live (sf.cancelCallback d task) d.sessionTask task
      refine hstays (hkept _ task k htask hk hkey.1) fun hnil => ?_
      have hk' := (hS.handed _ task k htask hk).resolve_right hkey.1
      have hkd : k ≠ d.cancelToken := by
        rintro rfl
        exact hkey.2 rfl
      have hmem : k ∈ (without task d.cancelToken).callbacksStore :=
        (List.mem_erase_of_ne hkd).mpr hk'
      rw [hnil] at hmem
      cases hmem
    · exact hstays (hkept t task' k h hk hkey.1) fun _ => ht

theorem kept_removed (hS : Sound sf) (hkept : Kept sf) {t : Nat}
    {result : Result} {task : SessionDataTask URL}
    (hfound : sf.completing = .found t result) :
    Kept { sf.remove task.url with completing := .removed t result } ↔
      Spares sf task.url t := by
  have hself : sf.completing.task = some t := by rw [hfound]; rfl
  constructor
  · intro h t' ht'
    by_contra hother
    obtain ⟨hne, -⟩ := not_or.mp hother
    obtain ⟨task', k, htask', hurl, hk, hkey⟩ := hS.uncalled ht'
    rcases h t' task' k htask' hk hkey with hreg | hself'
    · rcases update_eq_some hreg with ⟨-, ⟨⟩⟩ | ⟨hurl', -⟩
      exact hurl' hurl
    · exact hne (Option.some.inj hself').symm
  · intro hspares t' task' k h hk hkey
    rcases hkept t' task' k h hk hkey with hreg | hself'
    · by_cases hurl : task'.url = task.url
      · rcases hspares t' (hurl ▸ hreg) with rfl | hself'
        · exact Or.inr rfl
        · exact Or.inr (hself.symm.trans hself')
      · exact Or.inl ((Function.update_of_ne hurl ..).trans hreg)
    · exact Or.inr (hself.symm.trans hself')

omit [DecidableEq URL] in
/-- A task whose callbacks have been called has none left to lose. -/
theorem kept_calledBack (hS : Sound sf) (hkept : Kept sf) {t : Nat}
    {result : Result} {task : SessionDataTask URL}
    (hremoved : sf.completing = .removed t result)
    (htask : sf.sessionTasks t = some task) :
    Kept { sf with
      called := sf.called ++ callbacks t task result
      completing := .idle } := by
  have hself : sf.completing.task = some t := by rw [hremoved]; rfl
  intro t' task' k h hk hkey
  have hkey' : ⟨t', k⟩ ∉ keys sf ∧
      ⟨t', k⟩ ∉ (callbacks t task result).map Prod.fst := by
    rw [← not_or, ← List.mem_append, keys, ← List.map_append]
    exact hkey
  rcases hkept t' task' k h hk hkey'.1 with hreg | hself'
  · exact Or.inl hreg
  · obtain rfl : t = t' := Option.some.inj (hself.symm.trans hself')
    obtain rfl : task' = task := Option.some.inj (h.symm.trans htask)
    have hmem := (hS.handed t task' k h hk).resolve_right hkey'.1
    exact absurd (mem_keys_callBack.mpr ⟨rfl, hmem⟩) hkey'.2

/-- The step loses no callback exactly under the condition. -/
theorem kept_step (hS : Sound sf) (hkept : Kept sf)
    {e : DownloadEvent URL Result} (hc : DownloadCase sf e sf') :
    Kept sf' ↔ Keeps sf e := by
  cases hc with
  | looked | ignored => exact iff_of_true hkept trivial
  | found t result task hidle htask hreg =>
      refine iff_of_true (fun t' task' k h hk hkey => ?_) trivial
      refine (hkept t' task' k h hk hkey).imp_right fun hself => ?_
      rw [hidle] at hself
      cases hself
  | appended url t task hmain htask =>
      rw [kept_appended hS hkept htask]
      show _ ↔ ∀ t' ∈ sf.landing, ∀ task' ∈ sf.sessionTasks t', _
      have hlanding : sf.landing = some t := by rw [landing, hmain]; rfl
      simp [hlanding, htask]
  | added url hmain =>
      refine iff_of_true (kept_added hS hkept hmain) fun t ht => ?_
      rw [landing, hmain] at ht
      cases ht
  | missed d hmain hmiss =>
      refine iff_of_true hkept fun task htask hmem => ?_
      exact absurd hmem (hmiss task htask)
  | cancelled d task hmain htask hmem =>
      rw [kept_cancelled hS hkept htask]
      show _ ↔ ∀ task' ∈ sf.sessionTasks d.sessionTask, _
      simp [htask, hmem]
  | removed t result task hfound htask =>
      rw [kept_removed hS hkept hfound]
      show _ ↔ ∀ t' ∈ sf.completing.task, ∀ task' ∈ sf.sessionTasks t', _
      have hself : sf.completing.task = some t := by rw [hfound]; rfl
      simp [hself, htask]
  | calledBack t result task hremoved htask =>
      exact iff_of_true (kept_calledBack hS hkept hremoved htask) trivial

omit [DecidableEq URL] in
theorem kept_initial : Kept (initial : ImageDownloader URL Result) :=
  fun _ _ _ h => by cases h

theorem kept_of_run {es : List (DownloadEvent URL Result)}
    (hr : run (restrict Keeps downloadStep) initial es = some sf) :
    Kept sf := by
  refine run_induction (P := fun _ sf => Kept sf) kept_initial ?_ hr
  intro pre u e v hu hkept hs
  obtain ⟨hok, hs⟩ := restrict_eq_some.mp hs
  exact (kept_step (sound_of_run (run_of_restrict hu)) hkept
    (downloadCase_of_step hs)).mpr hok

/-- In a run, no callback is ever lost exactly if no request lands on a task
that is done with, and no URL is cleared of another task that is not being
completed. -/
theorem kept_iff {es : List (DownloadEvent URL Result)}
    (hr : downloadRun es = some sf) :
    (∀ pre u, pre <+: es → downloadRun pre = some u → Kept u) ↔
      run (restrict Keeps downloadStep) initial es = some sf := by
  refine run_restrict_iff_forall Keeps (fun _ u => Kept u) hr ?_ ?_
  · exact fun pre u _ hu => kept_of_run hu
  · intro pre u e v _ hu hs hkept hkept'
    exact (kept_step (sound_of_run hu) hkept (downloadCase_of_step hs)).mp
      hkept'

/-- Two requests share a download; a third looks while it is completing and
finds nothing. -/
def sharedDownload : List (DownloadEvent String Nat) :=
  [.downloadImage "a", .start, .downloadImage "a", .start,
    .didComplete 0 7, .remove, .downloadImage "a", .start, .callBack]

theorem kept_iff_sharedDownload :
    ∃ sf, downloadRun (sharedDownload ++ [.cancel ⟨1, 0⟩]) = some sf ∧
      ((∀ pre u, pre <+: sharedDownload ++ [.cancel ⟨1, 0⟩] →
          downloadRun pre = some u → Kept u) ↔
        run (restrict Keeps downloadStep) initial
          (sharedDownload ++ [.cancel ⟨1, 0⟩]) = some sf) := by
  have hr : downloadRun (sharedDownload ++ [.cancel ⟨1, 0⟩]) =
      some (_ : ImageDownloader String Nat) := rfl
  exact ⟨_, hr, kept_iff hr⟩

/-! ## Without cancellations -/

/-- The step cancels nothing. -/
def NoCancel (_ : ImageDownloader URL Result) :
    DownloadEvent URL Result → Prop
  | .cancel _ => False
  | _ => True

instance : {e : DownloadEvent URL Result} → Decidable (NoCancel sf e)
  | .cancel _ => inferInstanceAs (Decidable False)
  | .downloadImage _ | .start | .didComplete _ _ | .remove | .callBack =>
      inferInstanceAs (Decidable True)

/-- A request that has found a session task is in time for it. -/
def Lands (sf : ImageDownloader URL Result) :
    DownloadEvent URL Result → Prop
  | .start => ∀ t ∈ sf.landing, ∀ task ∈ sf.sessionTasks t, Live sf t task
  | _ => True

instance : {e : DownloadEvent URL Result} → Decidable (Lands sf e)
  | .start => inferInstanceAs (Decidable (∀ t ∈ _, ∀ task ∈ _, _))
  | .downloadImage _ | .cancel _ | .didComplete _ _ | .remove | .callBack =>
      inferInstanceAs (Decidable True)

/-- What holds besides after steps none of which cancels anything. -/
structure Steady (es : List (DownloadEvent URL Result))
    (sf : ImageDownloader URL Result) : Prop where
  asked : ∀ t task, sf.sessionTasks t = some task → 0 < task.currentToken
  full : ∀ t task k, sf.sessionTasks t = some task → k < task.currentToken →
    k ∈ task.callbacksStore
  found : ∀ t result task, sf.completing = .found t result →
    sf.sessionTasks t = some task → sf.tasks task.url = some t
  told : ∀ t result, sf.completing = .found t result ∨
    sf.completing = .removed t result → .didComplete t result ∈ es
  once : (keys sf).Nodup
  /-- The callbacks of a session task are called with one result. -/
  answered : ∀ p ∈ sf.called, ∃ result,
    .didComplete p.1.sessionTask result ∈ es ∧
      ∀ q ∈ sf.called, q.1.sessionTask = p.1.sessionTask →
        q.2 = .completed result

omit [DecidableEq URL] in
theorem steady_initial : Steady [] (initial : ImageDownloader URL Result) where
  asked _ _ h := by cases h
  full _ _ _ h := by cases h
  found _ _ _ h := by cases h
  told _ _ h := by rcases h with h | h <;> cases h
  once := List.nodup_nil
  answered _ h := by cases h

omit [DecidableEq URL] in
/-- A task that is being completed has not been completed before. -/
theorem Steady.uncalled {es : List (DownloadEvent URL Result)}
    (hY : Steady es sf) (hS : Sound sf) {t : Nat}
    (hself : sf.completing.task = some t) {p : DownloadTask × Outcome Result}
    (hp : p ∈ sf.called) : p.1.sessionTask ≠ t := by
  rintro rfl
  have hkey : p.1 ∈ keys sf := List.mem_map_of_mem hp
  obtain ⟨task, htask, hlt⟩ := hS.called p.1 hkey
  have hmem := hY.full _ task _ htask hlt
  exact (hS.done _ task _ htask hmem hkey).2 hself

theorem Steady.step {es : List (DownloadEvent URL Result)}
    (hY : Steady es sf) (hS : Sound sf) {e : DownloadEvent URL Result}
    (hc : DownloadCase sf e sf') (hno : NoCancel sf e) :
    Steady (es ++ [e]) sf' := by
  have honce : (keys sf').Nodup := by
    refine (nodup_keys_step hS hY.once hc).mpr ?_
    cases e with
    | cancel d => exact hno.elim
    | downloadImage | start | didComplete | remove | callBack => trivial
  have htold : ∀ t result, sf.completing = .found t result ∨
      sf.completing = .removed t result → .didComplete t result ∈ es ++ [e] :=
    fun t result h => List.mem_append_left _ (hY.told t result h)
  have hanswered : ∀ p ∈ sf.called, ∃ result,
      .didComplete p.1.sessionTask result ∈ es ++ [e] ∧
        ∀ q ∈ sf.called, q.1.sessionTask = p.1.sessionTask →
          q.2 = .completed result := by
    intro p hp
    obtain ⟨result, hmem, hsame⟩ := hY.answered p hp
    exact ⟨result, List.mem_append_left _ hmem, hsame⟩
  cases hc with
  | missed | cancelled => exact hno.elim
  | looked | ignored =>
      exact ⟨hY.asked, hY.full, hY.found, htold, honce, hanswered⟩
  | appended url t task hmain htask =>
      refine ⟨?_, ?_, ?_, htold, honce, hanswered⟩
      · intro t' task' h
        rcases update_eq_some h with ⟨-, ⟨⟩⟩ | ⟨-, h⟩
        · exact Nat.succ_pos _
        · exact hY.asked t' task' h
      · intro t' task' k h hk
        rcases update_eq_some h with ⟨-, ⟨⟩⟩ | ⟨-, h⟩
        · show k ∈ task.callbacksStore ++ [task.currentToken]
          rw [List.mem_append, List.mem_singleton]
          rcases Nat.lt_succ_iff_lt_or_eq.mp hk with hk | rfl
          · exact Or.inl (hY.full t task k htask hk)
          · exact Or.inr rfl
        · exact hY.full t' task' k h hk
      · intro t' result task' hfound h
        rcases update_eq_some h with ⟨rfl, ⟨⟩⟩ | ⟨-, h⟩
        · exact hY.found t' result task hfound htask
        · exact hY.found t' result task' hfound h
  | added url hmain =>
      refine ⟨?_, ?_, ?_, htold, honce, hanswered⟩
      · intro t task h
        rcases update_eq_some h with ⟨-, ⟨⟩⟩ | ⟨-, h⟩
        · exact Nat.one_pos
        · exact hY.asked t task h
      · intro t task k h hk
        rcases update_eq_some h with ⟨-, ⟨⟩⟩ | ⟨-, h⟩
        · show k ∈ [0]
          exact List.mem_singleton.mpr (Nat.lt_one_iff.mp hk)
        · exact hY.full t task k h hk
      · intro t result task hfound h
        obtain ⟨task', htask'⟩ :=
          hS.completing t (congrArg Completing.task hfound)
        rcases update_eq_some h with ⟨rfl, -⟩ | ⟨-, h⟩
        · exact absurd (hS.created _ task' htask') (Nat.lt_irrefl _)
        · have hreg := hY.found t result task hfound h
          have hurl : task.url ≠ url := by
            rintro rfl
            rw [hS.free task.url hmain] at hreg
            cases hreg
          exact (Function.update_of_ne hurl ..).trans hreg
  | found t result task hidle htask hreg =>
      refine ⟨hY.asked, hY.full, ?_, ?_, honce, hanswered⟩
      · intro t' result' task' h htask'
        obtain ⟨rfl, -⟩ := Completing.found.inj h
        obtain rfl : task' = task := Option.some.inj (htask'.symm.trans htask)
        exact hreg
      · rintro t' result' (h | h)
        · obtain ⟨rfl, rfl⟩ := Completing.found.inj h
          exact List.mem_append_right _ (List.mem_singleton_self _)
        · cases h
  | removed t result task hfound htask =>
      refine ⟨hY.asked, hY.full, nofun, ?_, honce, hanswered⟩
      rintro t' result' (h | h)
      · cases h
      · obtain ⟨rfl, rfl⟩ := Completing.removed.inj h
        exact htold _ _ (Or.inl hfound)
  | calledBack t result task hremoved htask =>
      have hself : sf.completing.task = some t := by rw [hremoved]; rfl
      have hnew : ∀ p ∈ callbacks t task result,
          p.1.sessionTask = t ∧ p.2 = .completed result := by
        intro p hp
        obtain ⟨k, -, rfl⟩ := List.mem_map.mp hp
        exact ⟨rfl, rfl⟩
      refine ⟨hY.asked, hY.full, nofun, ?_, honce, ?_⟩
      · rintro t' result' (h | h) <;> cases h
      · intro p hp
        rcases List.mem_append.mp hp with hp | hp
        · obtain ⟨result', hmem, hsame⟩ := hanswered p hp
          refine ⟨result', hmem, fun q hq heq => ?_⟩
          rcases List.mem_append.mp hq with hq | hq
          · exact hsame q hq heq
          · exact absurd (heq.symm.trans (hnew q hq).1)
              (hY.uncalled hS hself hp)
        · refine ⟨result, (hnew p hp).1 ▸ htold t result (Or.inr hremoved), ?_⟩
          intro q hq heq
          rcases List.mem_append.mp hq with hq | hq
          · exact absurd (heq.trans (hnew p hp).1)
              (hY.uncalled hS hself hq)
          · exact (hnew q hq).2

theorem steady_of_run {es : List (DownloadEvent URL Result)}
    (hr : run (restrict NoCancel downloadStep) initial es = some sf) :
    Steady es sf := by
  refine run_induction (P := fun es sf => Steady es sf) steady_initial ?_ hr
  intro pre u e v hu hY hs
  obtain ⟨hno, hs⟩ := restrict_eq_some.mp hs
  exact hY.step (sound_of_run (run_of_restrict hu)) (downloadCase_of_step hs)
    hno

/-- Without cancellations, only a request that comes too late loses its
callback. -/
theorem keeps_of_lands {es : List (DownloadEvent URL Result)}
    (hno : run (restrict NoCancel downloadStep) initial es = some sf)
    (hlands : run (restrict Lands downloadStep) initial es = some sf) :
    run (restrict Keeps downloadStep) initial es = some sf := by
  obtain ⟨hr, hlands⟩ := run_restrict_iff.mp hlands
  refine run_induction
    (P := fun pre u => pre <+: es →
      run (restrict Keeps downloadStep) initial pre = some u)
    (fun _ => rfl) ?_ hno (List.prefix_refl es)
  intro pre u e v hu ih hs hpre
  have hu' := run_of_restrict hu
  obtain ⟨hok, hs⟩ := restrict_eq_some.mp hs
  refine run_snoc_some.mpr ⟨u,
    ih ((List.prefix_append pre [e]).trans hpre), restrict_eq_some.mpr
      ⟨?_, hs⟩⟩
  cases downloadCase_of_step hs with
  | looked | ignored | found | calledBack => trivial
  | missed | cancelled => exact hok.elim
  | appended | added => exact hlands pre .start hpre u hu'
  | removed t result task hfound htask =>
      intro t' ht' task' htask' t'' ht''
      rw [hfound] at ht'
      obtain rfl : t = t' := Option.some.inj ht'
      have hreg := (steady_of_run hu).found t result task' hfound htask'
      exact Or.inl (Option.some.inj (ht''.symm.trans hreg))

/-- A callback that has not been called, of a task that is done with. -/
structure Lost (sf : ImageDownloader URL Result) (d : DownloadTask) :
    Prop where
  handed : ∃ task, sf.sessionTasks d.sessionTask = some task ∧
    d.cancelToken < task.currentToken
  uncalled : d ∉ keys sf
  gone : ¬ Registered sf d.sessionTask
  past : sf.completing.task ≠ some d.sessionTask

/-- A lost callback stays lost. -/
theorem Lost.step {d : DownloadTask} (hL : Lost sf d) (hS : Sound sf)
    {e : DownloadEvent URL Result} (hc : DownloadCase sf e sf')
    (hno : NoCancel sf e) : Lost sf' d := by
  obtain ⟨hhanded, huncalled, hgone, hpast⟩ := hL
  cases hc with
  | missed | cancelled => exact hno.elim
  | looked | ignored => exact ⟨hhanded, huncalled, hgone, hpast⟩
  | appended url t task hmain htask =>
      refine ⟨exists_update hhanded ?_, huncalled, hgone, hpast⟩
      rintro task' htask' hlt -
      obtain rfl : task' = task := Option.some.inj (htask'.symm.trans htask)
      exact Nat.lt_succ_of_lt hlt
  | added url hmain =>
      obtain ⟨task, htask, hlt⟩ := hhanded
      have hne : d.sessionTask ≠ sf.taskIdentifier :=
        Nat.ne_of_lt (hS.created _ task htask)
      refine ⟨⟨task, (Function.update_of_ne hne ..).trans htask, hlt⟩,
        huncalled, ?_, hpast⟩
      rintro ⟨url', hreg⟩
      rcases update_eq_some hreg with ⟨-, hnew⟩ | ⟨-, hreg⟩
      · exact hne (Option.some.inj hnew).symm
      · exact hgone ⟨url', hreg⟩
  | found t result task hidle htask hreg =>
      refine ⟨hhanded, huncalled, hgone, fun hself => ?_⟩
      obtain rfl : t = d.sessionTask := Option.some.inj hself
      exact hgone ⟨task.url, hreg⟩
  | removed t result task hfound htask =>
      refine ⟨hhanded, huncalled, ?_, ?_⟩
      · rintro ⟨url, hreg⟩
        rcases update_eq_some hreg with ⟨-, ⟨⟩⟩ | ⟨-, hreg⟩
        exact hgone ⟨url, hreg⟩
      · rw [hfound] at hpast
        exact hpast
  | calledBack t result task hremoved htask =>
      refine ⟨hhanded, fun hkey => ?_, hgone, nofun⟩
      rw [keys, List.map_append, List.mem_append, mem_keys_callBack] at hkey
      rcases hkey with hkey | ⟨ht, -⟩
      · exact huncalled hkey
      · rw [hremoved] at hpast
        exact hpast (congrArg some ht.symm)

theorem Lost.run {d : DownloadTask} (hL : Lost sf d) (hS : Sound sf)
    {es : List (DownloadEvent URL Result)}
    (hr : Lib.run (restrict NoCancel downloadStep) sf es = some sf') :
    Lost sf' d := by
  refine (run_induction (P := fun _ u => Sound u ∧ Lost u d) ⟨hS, hL⟩ ?_
    hr).2
  rintro _ u e v - ⟨hS, hL⟩ hs
  obtain ⟨hno, hs⟩ := restrict_eq_some.mp hs
  have hc := downloadCase_of_step hs
  exact ⟨hS.step hc, hL.step hS hc hno⟩

/-- A request that comes too late has lost its callback. -/
theorem lost_of_late (hS : Sound sf) {t : Nat} {task : SessionDataTask URL}
    (ht : t ∈ sf.landing) (htask : sf.sessionTasks t = some task)
    (hlate : ¬ Live sf t task)
    (hs : downloadStep sf .start = some sf') :
    Lost sf' ⟨t, task.currentToken⟩ := by
  cases downloadCase_of_step hs with
  | added url hmain =>
      rw [landing, hmain] at ht
      cases ht
  | appended url t' task' hmain htask' =>
      rw [landing, hmain] at ht
      obtain rfl : t' = t := Option.some.inj ht
      obtain rfl : task' = task := Option.some.inj (htask'.symm.trans htask)
      refine ⟨⟨_, Function.update_self .., Nat.lt_succ_self _⟩, ?_, ?_, ?_⟩
      · intro hkey
        obtain ⟨task'', htask'', hlt⟩ := hS.called _ hkey
        obtain rfl : task'' = task' :=
          Option.some.inj (htask''.symm.trans htask)
        exact Nat.lt_irrefl _ hlt
      · rintro ⟨url', hreg⟩
        obtain ⟨task'', htask'', hurl, -⟩ := hS.registered url' t' hreg
        obtain rfl : task'' = task' :=
          Option.some.inj (htask''.symm.trans htask)
        exact hlate (Or.inl (hurl ▸ hreg))
      · exact fun hself => hlate (Or.inr hself)

omit [DecidableEq URL] in
/-- Where no download task is called back twice, the calls of one are the one
call it had. -/
theorem filter_called {called : List (DownloadTask × Outcome Result)}
    (hnodup : (called.map Prod.fst).Nodup)
    {p : DownloadTask × Outcome Result} (hp : p ∈ called) :
    called.filter (·.1 = p.1) = [p] := by
  induction called with
  | nil => cases hp
  | cons q called ih =>
      rw [List.map_cons, List.nodup_cons] at hnodup
      obtain ⟨hq, hnodup⟩ := hnodup
      rcases List.mem_cons.mp hp with rfl | hp
      · have hrest : called.filter (·.1 = p.1) = [] := by
          refine List.filter_eq_nil_iff.mpr fun r hr heq => ?_
          exact hq (of_decide_eq_true heq ▸ List.mem_map_of_mem hr)
        rw [List.filter_cons_of_pos (by simp), hrest]
      · have hne : q.1 ≠ p.1 := fun heq => hq (heq ▸ List.mem_map_of_mem hp)
        rw [List.filter_cons_of_neg (by simpa using hne), ih hnodup hp]

/-- Without a request that came too late, no callback is left to be called when
the downloader is at rest. -/
theorem called_of_lands {es : List (DownloadEvent URL Result)}
    (hr : run (restrict NoCancel downloadStep) initial es = some sf)
    (hlands : run (restrict Lands downloadStep) initial es = some sf)
    (hidle : sf.completing = .idle) (hnone : ∀ url, sf.tasks url = none)
    {t : Nat} {task : SessionDataTask URL} {k : Nat}
    (htask : sf.sessionTasks t = some task) (hk : k < task.currentToken) :
    ⟨t, k⟩ ∈ keys sf := by
  by_contra hkey
  have hkept := kept_of_run (keeps_of_lands hr hlands)
  rcases hkept t task k htask hk hkey with hreg | hself
  · rw [hnone] at hreg
    cases hreg
  · rw [hidle] at hself
    cases hself

/-- A run in which a request came too late ends with its callback lost. -/
theorem lands_of_no_lost {es : List (DownloadEvent URL Result)}
    (hr : run (restrict NoCancel downloadStep) initial es = some sf)
    (hnone : ∀ d, ¬ Lost sf d) :
    run (restrict Lands downloadStep) initial es = some sf := by
  refine run_restrict_iff.mpr ⟨run_of_restrict hr, ?_⟩
  intro pre e hpre u hu
  cases e with
  | downloadImage | cancel | didComplete | remove | callBack => trivial
  | start =>
      intro t ht task htask
      by_contra hlate
      obtain ⟨post, rfl⟩ := hpre
      obtain ⟨v, hv, hpost⟩ := run_append_some.mp hr
      obtain ⟨u', hu', hs⟩ := run_snoc_some.mp hv
      obtain rfl : u' = u :=
        Option.some.inj ((run_of_restrict hu').symm.trans hu)
      obtain ⟨-, hs⟩ := restrict_eq_some.mp hs
      have hlost := lost_of_late (sound_of_run hu) ht htask hlate hs
      exact hnone _ (hlost.run (sound_of_run (run_of_restrict hv)) hpost)

/-- When the downloader comes to rest after a run without cancellations, every
session task has been completed with a result that each of its callbacks has
been called with, once, exactly if no request came too late. -/
theorem all_called_iff {es : List (DownloadEvent URL Result)}
    (hr : run (restrict NoCancel downloadStep) initial es = some sf)
    (hidle : sf.completing = .idle) (hnone : ∀ url, sf.tasks url = none) :
    (∀ t task, sf.sessionTasks t = some task → ∃ result,
      .didComplete t result ∈ es ∧ ∀ k < task.currentToken,
        sf.called.filter (·.1 = ⟨t, k⟩) = [(⟨t, k⟩, .completed result)]) ↔
      run (restrict Lands downloadStep) initial es = some sf := by
  have hY := steady_of_run hr
  constructor
  · intro hall
    refine lands_of_no_lost hr fun d hlost => ?_
    obtain ⟨task, htask, hlt⟩ := hlost.handed
    obtain ⟨result, -, hcalled⟩ := hall d.sessionTask task htask
    have hmem : (d, .completed result) ∈ sf.called.filter (·.1 = d) := by
      rw [hcalled _ hlt]
      exact List.mem_singleton_self _
    exact hlost.uncalled (List.mem_map_of_mem (List.mem_filter.mp hmem).1)
  · intro hlands t task htask
    have hcalled : ∀ k < task.currentToken, ∃ p ∈ sf.called, p.1 = ⟨t, k⟩ :=
      fun k hk => List.mem_map.mp
        (called_of_lands hr hlands hidle hnone htask hk)
    obtain ⟨p, hp, hpt⟩ := hcalled 0 (hY.asked t task htask)
    obtain ⟨result, hmem, hsame⟩ := hY.answered p hp
    rw [hpt] at hmem hsame
    refine ⟨result, hmem, fun k hk => ?_⟩
    obtain ⟨⟨d, o⟩, hq, hqt⟩ := hcalled k hk
    obtain rfl : d = ⟨t, k⟩ := hqt
    obtain rfl : o = .completed result := hsame _ hq rfl
    exact filter_called hY.once hq

theorem all_called_iff_sharedDownload :
    ∃ sf, run (restrict NoCancel downloadStep) initial
        (sharedDownload ++ [.didComplete 1 8, .remove, .callBack]) =
          some sf ∧
      ((∀ t task, sf.sessionTasks t = some task → ∃ result,
          .didComplete t result ∈
            sharedDownload ++ [.didComplete 1 8, .remove, .callBack] ∧
          ∀ k < task.currentToken, sf.called.filter (·.1 = ⟨t, k⟩) =
            [(⟨t, k⟩, .completed result)]) ↔
        run (restrict Lands downloadStep) initial
          (sharedDownload ++ [.didComplete 1 8, .remove, .callBack]) =
            some sf) := by
  have hr : run (restrict NoCancel downloadStep) initial
      (sharedDownload ++ [.didComplete 1 8, .remove, .callBack]) =
        some (_ : ImageDownloader String Nat) := rfl
  refine ⟨_, hr, all_called_iff hr rfl fun url => ?_⟩
  by_cases hurl : url = "a"
  · subst hurl
    rfl
  · exact (Function.update_of_ne hurl ..).trans
      ((Function.update_of_ne hurl ..).trans
        ((Function.update_of_ne hurl ..).trans
          (Function.update_of_ne hurl ..)))

/-- The second request finds the task of the first as that completes, and adds
its callback when the callbacks have been read: nothing calls it. -/
example : (downloadRun [.downloadImage "a", .start, .didComplete 0 7,
      .downloadImage "a", .remove, .callBack, .start]).map
    (fun sf : ImageDownloader String Nat =>
      (sf.called, (sf.sessionTasks 0).map (·.callbacksStore))) =
    some ([(⟨0, 0⟩, .completed 7)], some [0, 1]) := by
  decide

end ImageDownloader

end ComicReader
