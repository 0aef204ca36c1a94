import Mathlib.Data.List.Nodup
import ComicReader.Lib.Run
import ComicReader.Lib.Store
import ComicReader.Source.ImageDownloader

/-!
# A callback is called once

Whatever comes between what, a completion calls every callback in the store of
its task, and a task completes once. What it does not do is empty the store. A
cancellation of a download task that has been called back still finds its
callback there and calls it again, and that is the only way in which a callback
is called twice (`called_once_iff`).

`Sound` is what holds of the downloader in every run, with cancellations at any
time.
-/

namespace ComicReader

open Lib

namespace ImageDownloader

variable {URL Result : Type} [DecidableEq URL]
  {sf sf' : ImageDownloader URL Result}

/-! ## What a step does -/

/-- The task without one of its callbacks. -/
def without (task : SessionDataTask URL) (token : Nat) : SessionDataTask URL :=
  { task with callbacksStore := task.callbacksStore.erase token }

/-- The downloader after the callback of `d` in the store of `task` has been
cancelled. -/
def cancelCallback (sf : ImageDownloader URL Result) (d : DownloadTask)
    (task : SessionDataTask URL) : ImageDownloader URL Result :=
  { sf with
    sessionTasks := Function.update sf.sessionTasks d.sessionTask
      (some (without task d.cancelToken))
    called := sf.called ++ [(d, .taskCancelled)]
    tasks :=
      if (without task d.cancelToken).callbacksStore = [] then
        Function.update sf.tasks task.url none
      else sf.tasks }

inductive DownloadCase (sf : ImageDownloader URL Result) :
    DownloadEvent URL Result → ImageDownloader URL Result → Prop
  | looked (url : URL) (hmain : sf.downloading = none) :
      DownloadCase sf (.downloadImage url)
        { sf with downloading := some (url, sf.tasks url) }
  | appended (url : URL) (t : Nat) (task : SessionDataTask URL)
      (hmain : sf.downloading = some (url, some t))
      (htask : sf.sessionTasks t = some task) :
      DownloadCase sf .start { sf.append t task with downloading := none }
  | added (url : URL) (hmain : sf.downloading = some (url, none)) :
      DownloadCase sf .start { sf.add url with downloading := none }
  | missed (d : DownloadTask) (hmain : sf.downloading = none)
      (hmiss : ∀ task, sf.sessionTasks d.sessionTask = some task →
        d.cancelToken ∉ task.callbacksStore) :
      DownloadCase sf (.cancel d) sf
  | cancelled (d : DownloadTask) (task : SessionDataTask URL)
      (hmain : sf.downloading = none)
      (htask : sf.sessionTasks d.sessionTask = some task)
      (hmem : d.cancelToken ∈ task.callbacksStore) :
      DownloadCase sf (.cancel d) (sf.cancelCallback d task)
  | ignored (t : Nat) (result : Result) (task : SessionDataTask URL)
      (hidle : sf.completing = .idle) (htask : sf.sessionTasks t = some task)
      (hother : sf.tasks task.url ≠ some t) :
      DownloadCase sf (.didComplete t result) sf
  | found (t : Nat) (result : Result) (task : SessionDataTask URL)
      (hidle : sf.completing = .idle) (htask : sf.sessionTasks t = some task)
      (hreg : sf.tasks task.url = some t) :
      DownloadCase sf (.didComplete t result)
        { sf with completing := .found t result }
  | removed (t : Nat) (result : Result) (task : SessionDataTask URL)
      (hfound : sf.completing = .found t result)
      (htask : sf.sessionTasks t = some task) :
      DownloadCase sf .remove
        { sf.remove task.url with completing := .removed t result }
  | calledBack (t : Nat) (result : Result) (task : SessionDataTask URL)
      (hremoved : sf.completing = .removed t result)
      (htask : sf.sessionTasks t = some task) :
      DownloadCase sf .callBack
        { sf with
          called := sf.called ++ callbacks t task result
          completing := .idle }

theorem cancel_eq {d : DownloadTask} {task : SessionDataTask URL}
    (htask : sf.sessionTasks d.sessionTask = some task)
    (hmem : d.cancelToken ∈ task.callbacksStore) :
    sf.cancel d = sf.cancelCallback d task := by
  rw [cancel, htask, Option.bind_some, SessionDataTask.removeCallback,
    if_pos hmem]
  show (if (without task d.cancelToken).callbacksStore = [] then _ else _) = _
  unfold cancelCallback
  split <;> rfl

theorem downloadCase_of_step {e : DownloadEvent URL Result}
    (hs : downloadStep sf e = some sf') : DownloadCase sf e sf' := by
  cases e with
  | downloadImage url =>
      cases hmain : sf.downloading with
      | some x => simp [downloadStep, hmain] at hs
      | none =>
          simp only [downloadStep, hmain, Option.some.injEq] at hs
          exact hs ▸ .looked url hmain
  | start =>
      match hmain : sf.downloading with
      | none => simp [downloadStep, hmain] at hs
      | some (url, none) =>
          simp only [downloadStep, hmain, Option.some.injEq] at hs
          exact hs ▸ .added url hmain
      | some (url, some t) =>
          simp only [downloadStep, hmain, Option.map_eq_some_iff] at hs
          obtain ⟨task, htask, rfl⟩ := hs
          exact .appended url t task hmain htask
  | cancel d =>
      cases hmain : sf.downloading with
      | some x => simp [downloadStep, hmain] at hs
      | none =>
          simp only [downloadStep, hmain, Option.some.injEq] at hs
          obtain rfl := hs
          by_cases hmem : ∃ task, sf.sessionTasks d.sessionTask = some task ∧
              d.cancelToken ∈ task.callbacksStore
          · obtain ⟨task, htask, hmem⟩ := hmem
            rw [cancel_eq htask hmem]
            exact .cancelled d task hmain htask hmem
          · have hmiss : ∀ task, sf.sessionTasks d.sessionTask = some task →
                d.cancelToken ∉ task.callbacksStore :=
              fun task htask h => hmem ⟨task, htask, h⟩
            have hsame : sf.cancel d = sf := by
              unfold cancel
              cases htask : sf.sessionTasks d.sessionTask with
              | none => rfl
              | some task =>
                  rw [Option.bind_some, SessionDataTask.removeCallback,
                    if_neg (hmiss task htask)]
            rw [hsame]
            exact .missed d hmain hmiss
  | didComplete t result =>
      cases hidle : sf.completing with
      | idle =>
          simp only [downloadStep, hidle, Option.map_eq_some_iff] at hs
          obtain ⟨task, htask, hs⟩ := hs
          by_cases hreg : sf.tasks task.url = some t
          · rw [if_pos hreg] at hs
            exact hs ▸ .found t result task hidle htask hreg
          · rw [if_neg hreg] at hs
            exact hs ▸ .ignored t result task hidle htask hreg
      | found | removed => simp [downloadStep, hidle] at hs
  | remove =>
      cases hfound : sf.completing with
      | found t result =>
          simp only [downloadStep, hfound, Option.map_eq_some_iff] at hs
          obtain ⟨task, htask, rfl⟩ := hs
          exact .removed t result task hfound htask
      | idle | removed => simp [downloadStep, hfound] at hs
  | callBack =>
      cases hremoved : sf.completing with
      | removed t result =>
          simp only [downloadStep, hremoved, Option.map_eq_some_iff] at hs
          obtain ⟨task, htask, rfl⟩ := hs
          exact .calledBack t result task hremoved htask
      | idle | found => simp [downloadStep, hremoved] at hs

/-! ## What holds in every run -/

/-- The download tasks whose callbacks have been called. -/
def keys (sf : ImageDownloader URL Result) : List DownloadTask :=
  sf.called.map Prod.fst

/-- The dictionary has the task. -/
def Registered (sf : ImageDownloader URL Result) (t : Nat) : Prop :=
  ∃ url, sf.tasks url = some t

structure Sound (sf : ImageDownloader URL Result) : Prop where
  created : ∀ t task, sf.sessionTasks t = some task → t < sf.taskIdentifier
  tokens : ∀ t task, sf.sessionTasks t = some task →
    task.callbacksStore.Nodup ∧
      ∀ k ∈ task.callbacksStore, k < task.currentToken
  registered : ∀ url t, sf.tasks url = some t →
    ∃ task, sf.sessionTasks t = some task ∧ task.url = url ∧
      task.callbacksStore ≠ []
  looked : ∀ url t, sf.downloading = some (url, some t) →
    ∃ task, sf.sessionTasks t = some task ∧ task.url = url
  free : ∀ url, sf.downloading = some (url, none) → sf.tasks url = none
  completing : ∀ t, sf.completing.task = some t →
    ∃ task, sf.sessionTasks t = some task
  removed : ∀ t result, sf.completing = .removed t result →
    ¬ Registered sf t
  called : ∀ d ∈ keys sf, ∃ task, sf.sessionTasks d.sessionTask = some task ∧
    d.cancelToken < task.currentToken
  handed : ∀ t task k, sf.sessionTasks t = some task → k < task.currentToken →
    k ∈ task.callbacksStore ∨ ⟨t, k⟩ ∈ keys sf
  /-- A callback that has been called and is in its store is one of a task
  that will not be completed again. -/
  done : ∀ t task k, sf.sessionTasks t = some task →
    k ∈ task.callbacksStore → ⟨t, k⟩ ∈ keys sf →
      ¬ Registered sf t ∧ sf.completing.task ≠ some t

omit [DecidableEq URL] in
/-- What exists, exists with a session task updated. -/
theorem exists_update {f : Nat → Option (SessionDataTask URL)} {t₀ t : Nat}
    {task₀ : SessionDataTask URL} {Q : SessionDataTask URL → Prop}
    (h : ∃ task, f t = some task ∧ Q task)
    (hQ : ∀ task, f t₀ = some task → Q task → t = t₀ → Q task₀) :
    ∃ task, Function.update f t₀ (some task₀) t = some task ∧ Q task := by
  obtain ⟨task, htask, hq⟩ := h
  by_cases ht : t = t₀
  · subst ht
    exact ⟨task₀, Function.update_self .., hQ task htask hq rfl⟩
  · exact ⟨task, (Function.update_of_ne ht ..).trans htask, hq⟩

omit [DecidableEq URL] in
theorem sound_initial : Sound (initial : ImageDownloader URL Result) where
  created _ _ h := by cases h
  tokens _ _ h := by cases h
  registered _ _ h := by cases h
  looked _ _ h := by cases h
  free _ h := by cases h
  completing _ h := by cases h
  removed _ _ h := by cases h
  called _ h := by cases h
  handed _ _ _ h := by cases h
  done _ _ _ h := by cases h

omit [DecidableEq URL] in
theorem Sound.appended (hS : Sound sf) {t : Nat} {task : SessionDataTask URL}
    (htask : sf.sessionTasks t = some task) :
    Sound { sf.append t task with downloading := none } := by
  have hnew : ∀ k, k ∈ task.addCallback.callbacksStore ↔
      k ∈ task.callbacksStore ∨ k = task.currentToken := by
    intro k
    simp [SessionDataTask.addCallback]
  obtain ⟨hnodup, hlt⟩ := hS.tokens t task htask
  refine ⟨?_, ?_, ?_, nofun, nofun, ?_, hS.removed, ?_, ?_, ?_⟩
  · intro t' task' h
    rcases update_eq_some h with ⟨rfl, -⟩ | ⟨-, h⟩
    · exact hS.created t' task htask
    · exact hS.created t' task' h
  · intro t' task' h
    rcases update_eq_some h with ⟨-, ⟨⟩⟩ | ⟨-, h⟩
    · refine ⟨?_, fun k hk => ?_⟩
      · refine List.nodup_append.mpr ⟨hnodup, List.nodup_singleton _, ?_⟩
        rintro k hk k' hk' rfl
        rw [List.mem_singleton] at hk'
        exact absurd (hlt k hk) (hk' ▸ Nat.lt_irrefl _)
      · rcases (hnew k).mp hk with hk | rfl
        · exact Nat.lt_succ_of_lt (hlt k hk)
        · exact Nat.lt_succ_self _
    · exact hS.tokens t' task' h
  · intro url t' h
    refine exists_update (hS.registered url t' h) ?_
    rintro task' htask' ⟨hurl, -⟩ -
    obtain rfl : task' = task := Option.some.inj (htask'.symm.trans htask)
    exact ⟨hurl, by simp [SessionDataTask.addCallback]⟩
  · intro t' h
    obtain ⟨task', htask'⟩ := hS.completing t' h
    obtain ⟨task'', h'', -⟩ := exists_update (Q := fun _ => True)
      ⟨task', htask', trivial⟩ fun _ _ _ _ => trivial
    exact ⟨task'', h''⟩
  · intro d hd
    refine exists_update (hS.called d hd) ?_
    rintro task' htask' hlt' -
    obtain rfl : task' = task := Option.some.inj (htask'.symm.trans htask)
    exact Nat.lt_succ_of_lt hlt'
  · intro t' task' k h hk
    rcases update_eq_some h with ⟨rfl, ⟨⟩⟩ | ⟨-, h⟩
    · rw [hnew]
      rcases Nat.lt_succ_iff_lt_or_eq.mp hk with hk | rfl
      · exact (hS.handed t' task k htask hk).imp_left Or.inl
      · exact Or.inl (Or.inr rfl)
    · exact hS.handed t' task' k h hk
  · intro t' task' k h hk hkey
    rcases update_eq_some h with ⟨rfl, ⟨⟩⟩ | ⟨-, h⟩
    · rcases (hnew k).mp hk with hk | rfl
      · exact hS.done t' task k htask hk hkey
      · obtain ⟨task'', htask'', hlt'⟩ := hS.called _ hkey
        obtain rfl : task'' = task :=
          Option.some.inj (htask''.symm.trans htask)
        exact absurd hlt' (Nat.lt_irrefl _)
    · exact hS.done t' task' k h hk hkey

theorem Sound.added (hS : Sound sf) (url : URL) :
    Sound { sf.add url with downloading := none } := by
  have hfresh : ∀ t task, sf.sessionTasks t = some task →
      t ≠ sf.taskIdentifier :=
    fun t task h => Nat.ne_of_lt (hS.created t task h)
  have hkeep : ∀ {t : Nat} {Q : SessionDataTask URL → Prop},
      (∃ task, sf.sessionTasks t = some task ∧ Q task) →
      ∃ task, (sf.add url).sessionTasks t = some task ∧ Q task := by
    intro t Q h
    refine exists_update h fun task htask _ _ => ?_
    exact absurd rfl (hfresh _ task htask)
  have hregistered : ∀ t, t ≠ sf.taskIdentifier →
      (∃ url', (sf.add url).tasks url' = some t) → Registered sf t := by
    rintro t ht ⟨url', h⟩
    rcases update_eq_some h with ⟨-, hnew⟩ | ⟨-, h⟩
    · exact absurd (Option.some.inj hnew).symm ht
    · exact ⟨url', h⟩
  refine ⟨?_, ?_, ?_, nofun, nofun, ?_, ?_, ?_, ?_, ?_⟩
  · intro t task h
    rcases update_eq_some h with ⟨rfl, -⟩ | ⟨-, h⟩
    · exact Nat.lt_succ_self _
    · exact Nat.lt_succ_of_lt (hS.created t task h)
  · intro t task h
    rcases update_eq_some h with ⟨-, ⟨⟩⟩ | ⟨-, h⟩
    · simp [SessionDataTask.addCallback]
    · exact hS.tokens t task h
  · intro url' t h
    rcases update_eq_some h with ⟨rfl, ⟨⟩⟩ | ⟨-, h⟩
    · exact ⟨_, Function.update_self .., rfl,
        by simp [SessionDataTask.addCallback]⟩
    · exact hkeep (hS.registered url' t h)
  · intro t h
    obtain ⟨task, htask⟩ := hS.completing t h
    obtain ⟨task', h', -⟩ := hkeep (Q := fun _ => True) ⟨task, htask, trivial⟩
    exact ⟨task', h'⟩
  · intro t result h hreg
    obtain ⟨task, htask⟩ := hS.completing t (congrArg Completing.task h)
    exact hS.removed t result h (hregistered t (hfresh t task htask) hreg)
  · exact fun d hd => hkeep (hS.called d hd)
  · intro t task k h hk
    rcases update_eq_some h with ⟨rfl, ⟨⟩⟩ | ⟨-, h⟩
    · have hzero : k = 0 := Nat.lt_one_iff.mp hk
      exact Or.inl (by simp [SessionDataTask.addCallback, hzero])
    · exact hS.handed t task k h hk
  · intro t task k h hk hkey
    rcases update_eq_some h with ⟨rfl, -⟩ | ⟨ht, h⟩
    · obtain ⟨task', htask', -⟩ := hS.called _ hkey
      exact absurd rfl (hfresh _ task' htask')
    · obtain ⟨hnot, hother⟩ := hS.done t task k h hk hkey
      exact ⟨fun hreg => hnot (hregistered t ht hreg), hother⟩

theorem tasks_cancelCallback {d : DownloadTask} {task : SessionDataTask URL}
    {url : URL} {t : Nat} :
    (sf.cancelCallback d task).tasks url = some t ↔ sf.tasks url = some t ∧
      ((without task d.cancelToken).callbacksStore = [] → url ≠ task.url) := by
  unfold cancelCallback
  split
  · next hstore =>
      constructor
      · intro h
        rcases update_eq_some h with ⟨-, ⟨⟩⟩ | ⟨hurl, h⟩
        exact ⟨h, fun _ => hurl⟩
      · rintro ⟨h, hurl⟩
        exact (Function.update_of_ne (hurl hstore) ..).trans h
  · next hstore => exact ⟨fun h => ⟨h, fun h' => absurd h' hstore⟩, And.left⟩

theorem keys_cancelCallback (d : DownloadTask) (task : SessionDataTask URL) :
    keys (sf.cancelCallback d task) = keys sf ++ [d] :=
  List.map_append

theorem Sound.cancelled (hS : Sound sf) (hmain : sf.downloading = none)
    {d : DownloadTask} {task : SessionDataTask URL}
    (htask : sf.sessionTasks d.sessionTask = some task)
    (hmem : d.cancelToken ∈ task.callbacksStore) :
    Sound (sf.cancelCallback d task) := by
  obtain ⟨hnodup, hlt⟩ := hS.tokens _ task htask
  have hstore : ∀ k, k ∈ (without task d.cancelToken).callbacksStore ↔
      k ≠ d.cancelToken ∧ k ∈ task.callbacksStore := by
    intro k
    exact hnodup.mem_erase_iff
  have hregistered : ∀ {t}, Registered (sf.cancelCallback d task) t →
      Registered sf t :=
    fun ⟨url, h⟩ => ⟨url, (tasks_cancelCallback.mp h).1⟩
  have hkeep : ∀ {t : Nat} {Q : SessionDataTask URL → Prop},
      (Q task → Q (without task d.cancelToken)) →
      (∃ task, sf.sessionTasks t = some task ∧ Q task) →
      ∃ task', (sf.cancelCallback d task).sessionTasks t = some task' ∧
        Q task' := by
    intro t Q hQ h
    refine exists_update h fun task' htask' hq _ => ?_
    obtain rfl : task' = task := Option.some.inj (htask'.symm.trans htask)
    exact hQ hq
  refine ⟨?_, ?_, ?_, ?_, ?_, ?_, ?_, ?_, ?_, ?_⟩
  · intro t task' h
    rcases update_eq_some h with ⟨rfl, -⟩ | ⟨-, h⟩
    · exact hS.created _ task htask
    · exact hS.created t task' h
  · intro t task' h
    rcases update_eq_some h with ⟨-, ⟨⟩⟩ | ⟨-, h⟩
    · exact ⟨hnodup.erase _, fun k hk => hlt k ((hstore k).mp hk).2⟩
    · exact hS.tokens t task' h
  · intro url t h
    obtain ⟨h, hurl⟩ := tasks_cancelCallback.mp h
    obtain ⟨task', htask', hurl', hne⟩ := hS.registered url t h
    by_cases ht : t = d.sessionTask
    · subst ht
      obtain rfl : task' = task := Option.some.inj (htask'.symm.trans htask)
      refine ⟨_, Function.update_self .., hurl', fun hnil => ?_⟩
      exact hurl hnil hurl'.symm
    · exact ⟨task', (Function.update_of_ne ht ..).trans htask', hurl', hne⟩
  · intro url t h
    rw [show (sf.cancelCallback d task).downloading = none from hmain] at h
    cases h
  · intro url h
    rw [show (sf.cancelCallback d task).downloading = none from hmain] at h
    cases h
  · intro t h
    obtain ⟨task', htask'⟩ := hS.completing t h
    obtain ⟨task'', h'', -⟩ := hkeep (Q := fun _ => True) (fun h => h)
      ⟨task', htask', trivial⟩
    exact ⟨task'', h''⟩
  · exact fun t result h hreg => hS.removed t result h (hregistered hreg)
  · intro d' hd'
    rw [keys_cancelCallback] at hd'
    rcases List.mem_append.mp hd' with hd' | hd'
    · exact hkeep (fun h => h) (hS.called d' hd')
    · obtain rfl := List.mem_singleton.mp hd'
      exact hkeep (fun h => h) ⟨task, htask, hlt _ hmem⟩
  · intro t task' k h hk
    rw [keys_cancelCallback]
    rcases update_eq_some h with ⟨rfl, ⟨⟩⟩ | ⟨-, h⟩
    · rw [hstore]
      by_cases hkd : k = d.cancelToken
      · rw [hkd]
        exact Or.inr (List.mem_append_right _ (List.mem_singleton_self _))
      · exact (hS.handed _ task k htask hk).imp (fun h => ⟨hkd, h⟩)
          (List.mem_append_left _)
    · exact (hS.handed t task' k h hk).imp_right (List.mem_append_left _)
  · intro t task' k h hk hkey
    rw [keys_cancelCallback] at hkey
    have hold : ⟨t, k⟩ ∈ keys sf → ∀ task'', sf.sessionTasks t = some task'' →
        k ∈ task''.callbacksStore →
        ¬ Registered (sf.cancelCallback d task) t ∧
          sf.completing.task ≠ some t := by
      intro hkey task'' htask'' hk
      obtain ⟨hnot, hother⟩ := hS.done t task'' k htask'' hk hkey
      exact ⟨fun hreg => hnot (hregistered hreg), hother⟩
    rcases update_eq_some h with ⟨rfl, ⟨⟩⟩ | ⟨ht, h⟩
    · obtain ⟨hkd, hk⟩ := (hstore k).mp hk
      rcases List.mem_append.mp hkey with hkey | hkey
      · exact hold hkey task htask hk
      · have heq := congrArg DownloadTask.cancelToken
          (List.mem_singleton.mp hkey)
        exact absurd heq hkd
    · rcases List.mem_append.mp hkey with hkey | hkey
      · exact hold hkey task' h hk
      · have heq := congrArg DownloadTask.sessionTask
          (List.mem_singleton.mp hkey)
        exact absurd heq ht

omit [DecidableEq URL] in
theorem Sound.found (hS : Sound sf) {t : Nat} {result : Result}
    {task : SessionDataTask URL} (htask : sf.sessionTasks t = some task)
    (hreg : sf.tasks task.url = some t) :
    Sound { sf with completing := .found t result } where
  created := hS.created
  tokens := hS.tokens
  registered := hS.registered
  looked := hS.looked
  free := hS.free
  completing t' h := by
    obtain rfl := Option.some.inj h
    exact ⟨task, htask⟩
  removed _ _ h := by cases h
  called := hS.called
  handed := hS.handed
  done t' task' k h hk hkey := by
    obtain ⟨hnot, -⟩ := hS.done t' task' k h hk hkey
    refine ⟨hnot, fun hsame => ?_⟩
    obtain rfl : t = t' := Option.some.inj hsame
    exact hnot ⟨task.url, hreg⟩

/-- A task that is being removed is not in the dictionary afterwards. -/
theorem Sound.removed_step (hS : Sound sf) {t : Nat} {result : Result}
    {task : SessionDataTask URL} (hfound : sf.completing = .found t result)
    (htask : sf.sessionTasks t = some task) :
    Sound { sf.remove task.url with completing := .removed t result } := by
  have hregistered : ∀ {t'}, Registered (sf.remove task.url) t' →
      Registered sf t' := by
    rintro t' ⟨url, h⟩
    rcases update_eq_some h with ⟨-, ⟨⟩⟩ | ⟨-, h⟩
    exact ⟨url, h⟩
  have hself : sf.completing.task = some t := by rw [hfound]; rfl
  refine ⟨hS.created, hS.tokens, ?_, hS.looked, ?_, ?_, ?_, hS.called,
    hS.handed, ?_⟩
  · intro url t' h
    rcases update_eq_some h with ⟨-, ⟨⟩⟩ | ⟨-, h⟩
    exact hS.registered url t' h
  · intro url h
    by_cases hurl : url = task.url
    · exact hurl ▸ Function.update_self ..
    · exact (Function.update_of_ne hurl ..).trans (hS.free url h)
  · intro t' h
    obtain rfl := Option.some.inj h
    exact ⟨task, htask⟩
  · rintro t' result' h ⟨url, hreg⟩
    obtain ⟨rfl, rfl⟩ := Completing.removed.inj h
    rcases update_eq_some hreg with ⟨-, ⟨⟩⟩ | ⟨hurl, hreg⟩
    obtain ⟨task', htask', hurl', -⟩ := hS.registered url t hreg
    obtain rfl : task' = task := Option.some.inj (htask'.symm.trans htask)
    exact hurl hurl'.symm
  · intro t' task' k h hk hkey
    obtain ⟨hnot, hother⟩ := hS.done t' task' k h hk hkey
    refine ⟨fun hreg => hnot (hregistered hreg), ?_⟩
    rw [hself] at hother
    exact hother

omit [DecidableEq URL] in
theorem mem_keys_callBack {t : Nat} {result : Result}
    {task : SessionDataTask URL} {d : DownloadTask} :
    d ∈ (callbacks t task result).map Prod.fst ↔
      d.sessionTask = t ∧ d.cancelToken ∈ task.callbacksStore := by
  obtain ⟨t', k⟩ := d
  simp only [callbacks, List.map_map, List.mem_map, Function.comp_apply,
    DownloadTask.mk.injEq]
  constructor
  · rintro ⟨k', hk', rfl, rfl⟩
    exact ⟨rfl, hk'⟩
  · rintro ⟨rfl, hk⟩
    exact ⟨k, hk, rfl, rfl⟩

omit [DecidableEq URL] in
theorem Sound.calledBack (hS : Sound sf) {t : Nat} {result : Result}
    {task : SessionDataTask URL}
    (hremoved : sf.completing = .removed t result)
    (htask : sf.sessionTasks t = some task) :
    Sound { sf with
      called := sf.called ++ callbacks t task result
      completing := .idle } := by
  have hkeys : ∀ d, d ∈ (sf.called ++ callbacks t task result).map Prod.fst ↔
      d ∈ keys sf ∨
        d.sessionTask = t ∧ d.cancelToken ∈ task.callbacksStore := by
    intro d
    rw [List.map_append, List.mem_append, mem_keys_callBack]
    rfl
  refine ⟨hS.created, hS.tokens, hS.registered, hS.looked, hS.free, nofun,
    nofun, ?_, ?_, ?_⟩
  · intro d hd
    rcases (hkeys d).mp hd with hd | ⟨ht, hk⟩
    · exact hS.called d hd
    · exact ⟨task, ht ▸ htask, (hS.tokens t task htask).2 _ hk⟩
  · intro t' task' k h hk
    exact (hS.handed t' task' k h hk).imp_right fun h => (hkeys _).mpr (.inl h)
  · intro t' task' k h hk hkey
    refine ⟨?_, nofun⟩
    rcases (hkeys _).mp hkey with hkey | ⟨ht, -⟩
    · exact (hS.done t' task' k h hk hkey).1
    · obtain rfl : t' = t := ht
      exact hS.removed t' result hremoved

omit [DecidableEq URL] in
/-- A lookup remembers a task of the URL, or none. -/
theorem Sound.looked_step (hS : Sound sf) (url : URL) :
    Sound { sf with downloading := some (url, sf.tasks url) } where
  created := hS.created
  tokens := hS.tokens
  registered := hS.registered
  looked url' t h := by
    obtain ⟨rfl, ht⟩ := Prod.mk.inj (Option.some.inj h)
    obtain ⟨task, htask, hurl, -⟩ := hS.registered url t ht
    exact ⟨task, htask, hurl⟩
  free url' h := by
    obtain ⟨rfl, hnone⟩ := Prod.mk.inj (Option.some.inj h)
    exact hnone
  completing := hS.completing
  removed := hS.removed
  called := hS.called
  handed := hS.handed
  done := hS.done

theorem Sound.step (hS : Sound sf) {e : DownloadEvent URL Result}
    (hc : DownloadCase sf e sf') : Sound sf' := by
  cases hc with
  | looked url hmain => exact hS.looked_step url
  | appended url t task hmain htask => exact hS.appended htask
  | added url hmain => exact hS.added url
  | missed d hmain hmiss => exact hS
  | cancelled d task hmain htask hmem => exact hS.cancelled hmain htask hmem
  | ignored t result task hidle htask hother => exact hS
  | found t result task hidle htask hreg => exact hS.found htask hreg
  | removed t result task hfound htask => exact hS.removed_step hfound htask
  | calledBack t result task hremoved htask =>
      exact hS.calledBack hremoved htask

/-! ## What a step leaves behind -/

/-- The download task has been returned. -/
def Handed (sf : ImageDownloader URL Result) (d : DownloadTask) : Prop :=
  ∃ task, sf.sessionTasks d.sessionTask = some task ∧
    d.cancelToken < task.currentToken

/-- A step hands out the download task of a `downloadImage`, or none. -/
theorem handed_step (hS : Sound sf) {e : DownloadEvent URL Result}
    (hc : DownloadCase sf e sf') {d : DownloadTask} :
    Handed sf' d ↔ Handed sf d ∨ e = .start ∧ sf.downloadTask = some d := by
  cases hc with
  | looked | missed | ignored | found | removed | calledBack =>
      exact ⟨Or.inl, fun h => h.resolve_right fun h => nomatch h.1⟩
  | cancelled d' task hmain htask hmem =>
      refine ⟨fun h => Or.inl ?_, fun h => ?_⟩
      · obtain ⟨task', h, hlt⟩ := h
        rcases update_eq_some h with ⟨heq, ⟨⟩⟩ | ⟨-, h⟩
        · exact ⟨task, heq ▸ htask, hlt⟩
        · exact ⟨task', h, hlt⟩
      · refine exists_update (h.resolve_right fun h => nomatch h.1) ?_
        rintro task' htask' hlt -
        obtain rfl : task' = task := Option.some.inj (htask'.symm.trans htask)
        exact hlt
  | appended url t task hmain htask =>
      have hd : sf.downloadTask = some ⟨t, task.currentToken⟩ := by
        simp [downloadTask, hmain, htask]
      constructor
      · rintro ⟨task', h, hlt⟩
        rcases update_eq_some h with ⟨heq, ⟨⟩⟩ | ⟨-, h⟩
        · rcases Nat.lt_succ_iff_lt_or_eq.mp hlt with hlt | hlast
          · exact Or.inl ⟨task, heq ▸ htask, hlt⟩
          · refine Or.inr ⟨rfl, hd.trans ?_⟩
            rw [← heq, ← hlast]
        · exact Or.inl ⟨task', h, hlt⟩
      · rintro (h | ⟨-, h⟩)
        · refine exists_update h ?_
          rintro task' htask' hlt -
          obtain rfl : task' = task :=
            Option.some.inj (htask'.symm.trans htask)
          exact Nat.lt_succ_of_lt hlt
        · obtain rfl := Option.some.inj (hd.symm.trans h)
          exact ⟨_, Function.update_self .., Nat.lt_succ_self _⟩
  | added url hmain =>
      have hd : sf.downloadTask = some ⟨sf.taskIdentifier, 0⟩ := by
        simp [downloadTask, hmain]
      constructor
      · rintro ⟨task, h, hlt⟩
        rcases update_eq_some h with ⟨heq, ⟨⟩⟩ | ⟨-, h⟩
        · refine Or.inr ⟨rfl, hd.trans ?_⟩
          rw [← heq, ← Nat.lt_one_iff.mp hlt]
        · exact Or.inl ⟨task, h, hlt⟩
      · rintro (h | ⟨-, h⟩)
        · refine exists_update h fun task htask _ heq => ?_
          have hlt := hS.created _ task htask
          exact absurd hlt (Nat.lt_irrefl _)
        · obtain rfl := Option.some.inj (hd.symm.trans h)
          exact ⟨_, Function.update_self .., Nat.one_pos⟩

/-- A session task keeps its URL. -/
theorem url_step (hS : Sound sf) {e : DownloadEvent URL Result}
    (hc : DownloadCase sf e sf') {t : Nat} {url : URL}
    (h : (sf.sessionTasks t).map SessionDataTask.url = some url) :
    (sf'.sessionTasks t).map SessionDataTask.url = some url := by
  rw [Option.map_eq_some_iff] at h ⊢
  cases hc with
  | looked | missed | ignored | found | removed | calledBack => exact h
  | cancelled d task hmain htask hmem =>
      refine exists_update h ?_
      rintro task' htask' hurl rfl
      obtain rfl : task' = task := Option.some.inj (htask'.symm.trans htask)
      exact hurl
  | appended url' t' task hmain htask =>
      refine exists_update h ?_
      rintro task' htask' hurl rfl
      obtain rfl : task' = task := Option.some.inj (htask'.symm.trans htask)
      exact hurl
  | added url' hmain =>
      refine exists_update h fun task htask _ _ => ?_
      exact absurd (hS.created _ task htask) (Nat.lt_irrefl _)

/-- A `downloadImage` returns a download task of its own URL. -/
theorem url_of_start (hS : Sound sf) {url : URL} {found : Option Nat}
    (hmain : sf.downloading = some (url, found)) {d : DownloadTask}
    (hd : sf.downloadTask = some d)
    (hc : DownloadCase sf (.start : DownloadEvent URL Result) sf') :
    (sf'.sessionTasks d.sessionTask).map SessionDataTask.url = some url := by
  cases hc with
  | appended url' t task hmain' htask =>
      obtain ⟨rfl, rfl⟩ := Prod.mk.inj (Option.some.inj
        (hmain.symm.trans hmain'))
      obtain rfl : (⟨t, task.currentToken⟩ : DownloadTask) = d := by
        simpa [downloadTask, hmain, htask] using hd
      obtain ⟨task', htask', hurl⟩ := hS.looked url t hmain
      obtain rfl : task' = task := Option.some.inj (htask'.symm.trans htask)
      show ((Function.update sf.sessionTasks t _) t).map _ = some url
      rw [Function.update_self, ← hurl]
      rfl
  | added url' hmain' =>
      obtain ⟨rfl, rfl⟩ := Prod.mk.inj (Option.some.inj
        (hmain.symm.trans hmain'))
      obtain rfl : (⟨sf.taskIdentifier, 0⟩ : DownloadTask) = d := by
        simpa [downloadTask, hmain] using hd
      show ((Function.update sf.sessionTasks _ _) _).map _ = some url
      rw [Function.update_self]
      rfl

theorem keys_step {e : DownloadEvent URL Result}
    (hc : DownloadCase sf e sf') {d : DownloadTask} (hd : d ∈ keys sf) :
    d ∈ keys sf' := by
  cases hc with
  | looked | appended | added | missed | ignored | found | removed => exact hd
  | cancelled d' task hmain htask hmem =>
      rw [keys_cancelCallback]
      exact List.mem_append_left _ hd
  | calledBack t result task hremoved htask =>
      rw [keys, List.map_append]
      exact List.mem_append_left _ hd

/-! ## Runs -/

def downloadRun (es : List (DownloadEvent URL Result)) :
    Option (ImageDownloader URL Result) :=
  run downloadStep initial es

theorem sound_of_run {es : List (DownloadEvent URL Result)}
    (hr : downloadRun es = some sf) : Sound sf := by
  refine run_induction (P := fun _ sf => Sound sf) sound_initial ?_ hr
  exact fun _ _ _ _ _ hS hs => hS.step (downloadCase_of_step hs)

/-! ## Called twice -/

/-- A callback that is cancelled, and found, has not been called. -/
def NotCalled (sf : ImageDownloader URL Result) :
    DownloadEvent URL Result → Prop
  | .cancel d => ∀ task ∈ sf.sessionTasks d.sessionTask,
      d.cancelToken ∈ task.callbacksStore → d ∉ keys sf
  | _ => True

instance : {e : DownloadEvent URL Result} → Decidable (NotCalled sf e)
  | .cancel _ => inferInstanceAs (Decidable (∀ task ∈ _, _ → _))
  | .downloadImage _ | .start | .didComplete _ _ | .remove | .callBack =>
      inferInstanceAs (Decidable True)

/-- The step keeps callbacks from being called twice exactly if it cancels
none that has been called. -/
theorem nodup_keys_step (hS : Sound sf) (hnodup : (keys sf).Nodup)
    {e : DownloadEvent URL Result} (hc : DownloadCase sf e sf') :
    (keys sf').Nodup ↔ NotCalled sf e := by
  cases hc with
  | looked | appended | added | ignored | found | removed =>
      exact iff_of_true hnodup trivial
  | missed d hmain hmiss =>
      refine iff_of_true hnodup fun task htask hmem => ?_
      exact absurd hmem (hmiss task htask)
  | cancelled d task hmain htask hmem =>
      rw [keys_cancelCallback, List.nodup_append]
      constructor
      · rintro ⟨-, -, hdisjoint⟩ task' - - hkey
        exact hdisjoint d hkey d (List.mem_singleton_self d) rfl
      · intro hnot
        refine ⟨hnodup, List.nodup_singleton d, ?_⟩
        rintro d' hd' d'' hd'' rfl
        rw [List.mem_singleton.mp hd''] at hd'
        exact hnot task htask hmem hd'
  | calledBack t result task hremoved htask =>
      refine iff_of_true ?_ trivial
      have hself : sf.completing.task = some t := by rw [hremoved]; rfl
      show ((sf.called ++ callbacks t task result).map Prod.fst).Nodup
      rw [List.map_append, List.nodup_append]
      refine ⟨hnodup, ?_, ?_⟩
      · rw [callbacks, List.map_map]
        refine (hS.tokens t task htask).1.map fun k k' heq => ?_
        exact congrArg DownloadTask.cancelToken heq
      · rintro d hd d' hd' rfl
        obtain ⟨ht, hk⟩ := mem_keys_callBack.mp hd'
        obtain ⟨t', k⟩ := d
        obtain rfl : t' = t := ht
        exact (hS.done t' task k htask hk hd).2 hself

/-- In a run, no callback is ever called twice exactly if no download task is
cancelled that has been called back and is still in its store. -/
theorem called_once_iff {es : List (DownloadEvent URL Result)}
    (hr : downloadRun es = some sf) :
    (∀ pre u, pre <+: es → downloadRun pre = some u → (keys u).Nodup) ↔
      run (restrict NotCalled downloadStep) initial es = some sf := by
  refine run_restrict_iff_forall NotCalled (fun _ u => (keys u).Nodup) hr
    ?_ ?_
  · intro pre u _ hu
    have hstart : (keys (initial : ImageDownloader URL Result)).Nodup :=
      List.nodup_nil
    refine run_induction (P := fun _ u => (keys u).Nodup) hstart ?_ hu
    intro pre u e v hu hnodup hs
    obtain ⟨hok, hs⟩ := restrict_eq_some.mp hs
    exact (nodup_keys_step (sound_of_run (run_of_restrict hu)) hnodup
      (downloadCase_of_step hs)).mpr hok
  · intro pre u e v _ hu hs hnodup hnodup'
    exact (nodup_keys_step (sound_of_run hu) hnodup
      (downloadCase_of_step hs)).mp hnodup'

/-- Two requests for one URL share a download; the second is cancelled when
both have been called back. -/
def cancelledLate : List (DownloadEvent String Nat) :=
  [.downloadImage "a", .start, .downloadImage "a", .start,
    .didComplete 0 7, .remove, .callBack, .cancel ⟨0, 1⟩]

theorem called_once_iff_cancelledLate :
    ∃ sf, downloadRun cancelledLate = some sf ∧
      ((∀ pre u, pre <+: cancelledLate → downloadRun pre = some u →
          (keys u).Nodup) ↔
        run (restrict NotCalled downloadStep) initial cancelledLate =
          some sf) := by
  have hr : downloadRun cancelledLate = some (_ : ImageDownloader String Nat) :=
    rfl
  exact ⟨_, hr, called_once_iff hr⟩

/-- The second callback has had its image and is told of a cancellation. -/
example : (downloadRun cancelledLate).map ImageDownloader.called =
    some [(⟨0, 0⟩, .completed 7), (⟨0, 1⟩, .completed 7),
      (⟨0, 1⟩, .taskCancelled)] := by
  decide

end ImageDownloader

end ComicReader
