import ComicReader.Lib.Run
import ComicReader.Lib.Store
import ComicReader.Source.ImageCache

/-!
# What the cache has is the last that was stored

A picture in memory can be an old one. The I/O queue stores a picture that it
has read in memory without a look at what has happened since, and if the last
that happened to the key by then is the storing of another picture or a
removal, the old picture is back. On the disk an old picture stays if the last
job for its key, which was to replace or to remove it, fails. That is all that
can go wrong (`fresh_iff`).

Reading itself is not at fault. The queue is worked off in order, so a picture
that is read was the last one when it was asked for (`Queued`). Nor is anything
handed out that was not stored under its key, in whatever order things happen
(`stored_of_answered`).
-/

namespace ComicReader

open Lib

namespace ImageCache

variable {Key Image : Type} [DecidableEq Key]
  {sf sf' : ImageCache Key Image}

/-! ## The last picture -/

/-- What was stored last under each key, if it has not been removed since. -/
def record (h : Key → Option Image) :
    CacheEvent Key Image → Key → Option Image
  | .store key image => Function.update h key (some image)
  | .removeImage key => Function.update h key none
  | _ => h

def latest (es : List (CacheEvent Key Image)) : Key → Option Image :=
  history record (fun _ => none) es

theorem latest_snoc {es : List (CacheEvent Key Image)}
    {e : CacheEvent Key Image} : latest (es ++ [e]) = record (latest es) e :=
  history_snoc

/-- What a job changes the file of `key` to. -/
def change (key : Key) : IOJob Key Image → Option (Option Image)
  | .store key' image => if key' = key then some (some image) else none
  | .remove key' => if key' = key then some none else none
  | .retrieve _ => none

/-- The memory has only the last pictures, and so has the disk but for the
changes that are queued. -/
structure Fresh (es : List (CacheEvent Key Image))
    (sf : ImageCache Key Image) : Prop where
  memory : ∀ key image, sf.memoryStorage key = some image →
    latest es key = some image
  disk : ∀ key image, pending (change key) sf.ioQueue = none →
    sf.diskStorage key = some image → latest es key = some image

/-- What is queued last for a key is what happened to it last, and a picture
that has been read is still on the disk. -/
structure Queued (es : List (CacheEvent Key Image))
    (sf : ImageCache Key Image) : Prop where
  pending : ∀ key o, Lib.pending (change key) sf.ioQueue = some o →
    latest es key = o
  reading : ∀ key image, sf.reading = some (key, image) →
    sf.diskStorage key = some image

/-- The failure of a job leaves no picture where the job would have left
another, or none, and no later job is queued to do so. -/
def Harmless (sf : ImageCache Key Image) (ioQueue : List (IOJob Key Image))
    (job : IOJob Key Image) : Prop :=
  ∀ o ∈ change job.key job, Lib.pending (change job.key) ioQueue = none →
    ∀ old ∈ sf.diskStorage job.key, o = some old

/-- A picture that is stored in memory after a read is still the last one by
what is queued, and a failure is harmless. -/
def Keeps (sf : ImageCache Key Image) : CacheEvent Key Image → Prop
  | .storeRead => ∀ read ∈ sf.reading,
      ∀ o ∈ pending (change read.1) sf.ioQueue, o = some read.2
  | .io false => ∀ job ∈ sf.ioQueue.head?, Harmless sf sf.ioQueue.tail job
  | _ => True

instance [DecidableEq Image] {e : CacheEvent Key Image} :
    Decidable (Keeps sf e) :=
  match e with
  | .storeRead => inferInstanceAs (Decidable (∀ read ∈ _, ∀ o ∈ _, _))
  | .io false => inferInstanceAs (Decidable (∀ job ∈ _, ∀ o ∈ _, _ → _))
  | .io true | .store _ _ | .removeImage _ | .retrieveImage _
  | .memoryCleaned _ | .diskCleaned _ => inferInstanceAs (Decidable True)

/-! ## One step -/

/-- Storing and removing are one case: they change the memory and queue a job
that changes the disk in the same way. -/
inductive CacheCase (sf : ImageCache Key Image) :
    CacheEvent Key Image → ImageCache Key Image → Prop
  | changed (e : CacheEvent Key Image) (job : IOJob Key Image)
      (o : Option Image) (hjob : change job.key job = some o)
      (hrecord : ∀ h, record h e = Function.update h job.key o)
      (hstore : ∀ image, o = some image → e = .store job.key image)
      (hevent : (∃ image, e = .store job.key image) ∨
        e = .removeImage job.key) :
      CacheCase sf e { sf with
        memoryStorage := Function.update sf.memoryStorage job.key o
        ioQueue := sf.ioQueue ++ [job] }
  | hit (key : Key) (image : Image)
      (hmemory : sf.memoryStorage key = some image) :
      CacheCase sf (.retrieveImage key)
        { sf with answered := sf.answered ++ [(key, some image)] }
  | asked (key : Key) (hmemory : sf.memoryStorage key = none) :
      CacheCase sf (.retrieveImage key)
        { sf with ioQueue := sf.ioQueue ++ [.retrieve key] }
  | performed (success : Bool) (job : IOJob Key Image)
      (ioQueue : List (IOJob Key Image)) (hidle : sf.reading = none)
      (hqueue : sf.ioQueue = job :: ioQueue) :
      CacheCase sf (.io success)
        (perform { sf with ioQueue := ioQueue } success job)
  | stored (key : Key) (image : Image)
      (hread : sf.reading = some (key, image)) :
      CacheCase sf .storeRead
        { sf with
          memoryStorage := Function.update sf.memoryStorage key (some image)
          reading := none
          answered := sf.answered ++ [(key, some image)] }
  | memoryCleaned (gone : Key → Bool) :
      CacheCase sf (.memoryCleaned gone)
        { sf with memoryStorage := cleaned sf.memoryStorage gone }
  | diskCleaned (gone : Key → Bool) (hidle : sf.reading = none) :
      CacheCase sf (.diskCleaned gone)
        { sf with diskStorage := cleaned sf.diskStorage gone }

theorem cacheCase_of_step {e : CacheEvent Key Image}
    (hs : cacheStep sf e = some sf') : CacheCase sf e sf' := by
  cases e with
  | store key image =>
      obtain rfl := Option.some.inj hs
      refine .changed _ (.store key image) (some image) (if_pos rfl)
        (fun _ => rfl) ?_ (Or.inl ⟨image, rfl⟩)
      rintro image' ⟨⟩
      rfl
  | removeImage key =>
      obtain rfl := Option.some.inj hs
      exact .changed _ (.remove key) none (if_pos rfl) (fun _ => rfl) nofun
        (Or.inr rfl)
  | retrieveImage key =>
      cases hmemory : sf.memoryStorage key with
      | some image =>
          simp only [cacheStep, hmemory, Option.some.injEq] at hs
          exact hs ▸ .hit key image hmemory
      | none =>
          simp only [cacheStep, hmemory, Option.some.injEq] at hs
          exact hs ▸ .asked key hmemory
  | io success =>
      cases hidle : sf.reading with
      | some read => simp [cacheStep, hidle] at hs
      | none =>
          cases hqueue : sf.ioQueue with
          | nil => simp [cacheStep, hidle, hqueue] at hs
          | cons job ioQueue =>
              have hs : perform { sf with ioQueue := ioQueue } success job =
                  sf' := by
                simpa [cacheStep, hidle, hqueue] using hs
              exact hs ▸ .performed success job ioQueue hidle hqueue
  | storeRead =>
      obtain ⟨⟨key, image⟩, hread, rfl⟩ := Option.map_eq_some_iff.mp hs
      exact .stored key image hread
  | memoryCleaned gone =>
      obtain rfl := Option.some.inj hs
      exact .memoryCleaned gone
  | diskCleaned gone =>
      rw [cacheStep, Option.ite_none_right_eq_some, Option.some.injEq] at hs
      obtain ⟨hidle, rfl⟩ := hs
      exact .diskCleaned gone hidle

theorem change_of_ne {key : Key} {job : IOJob Key Image} (h : key ≠ job.key) :
    change key job = none := by
  cases job with
  | store key' image => exact if_neg (Ne.symm h)
  | remove key' => exact if_neg (Ne.symm h)
  | retrieve key' => rfl

/-- A job of the I/O queue writes what it changes, and nothing else. -/
theorem disk_perform {job : IOJob Key Image} {success : Bool} {key : Key} :
    (sf.perform success job).diskStorage key =
      if success then (change key job).getD (sf.diskStorage key)
      else sf.diskStorage key := by
  cases job with
  | store key' image | remove key' =>
      cases success with
      | false => rfl
      | true =>
          by_cases hkey : key' = key
          · subst hkey
            simp [perform, change]
          · simp [perform, change, hkey, Function.update_of_ne (Ne.symm hkey)]
  | retrieve key' =>
      cases hdisk : sf.diskStorage key' with
      | none => simp [perform, hdisk, change]
      | some image => cases success <;> simp [perform, hdisk, change]

theorem frame_perform {job : IOJob Key Image} {success : Bool} :
    (sf.perform success job).memoryStorage = sf.memoryStorage ∧
      (sf.perform success job).ioQueue = sf.ioQueue := by
  cases job with
  | store | remove => cases success <;> exact ⟨rfl, rfl⟩
  | retrieve key =>
      cases hdisk : sf.diskStorage key with
      | none => simp [perform, hdisk]
      | some image => cases success <;> simp [perform, hdisk]

/-- A picture is read from where it is. -/
theorem reading_perform {job : IOJob Key Image} {success : Bool}
    (hidle : sf.reading = none) {key : Key} {image : Image}
    (h : (sf.perform success job).reading = some (key, image)) :
    (sf.perform success job).diskStorage key = some image := by
  cases job with
  | store key' image' | remove key' =>
      cases success <;> simp [perform, hidle] at h
  | retrieve key' =>
      cases hdisk : sf.diskStorage key' with
      | none => simp [perform, hdisk, hidle] at h
      | some image' =>
          cases success with
          | false => simp [perform, hdisk, hidle] at h
          | true =>
              simp only [perform, hdisk, if_true, Option.some.injEq,
                Prod.mk.injEq] at h ⊢
              obtain ⟨rfl, rfl⟩ := h
              exact hdisk

omit [DecidableEq Key] in
theorem of_cleaned {storage : Key → Option Image} {gone : Key → Bool}
    {key : Key} {image : Image} (h : cleaned storage gone key = some image) :
    storage key = some image :=
  (Option.ite_none_left_eq_some.mp h).2

/-! ## Runs -/

def cacheRun (es : List (CacheEvent Key Image)) :
    Option (ImageCache Key Image) :=
  run cacheStep initial es

theorem Queued.step {es : List (CacheEvent Key Image)} (hQ : Queued es sf)
    {e : CacheEvent Key Image} (hc : CacheCase sf e sf') :
    Queued (es ++ [e]) sf' := by
  cases hc with
  | changed e job o hjob hrecord hstore hevent =>
      refine ⟨fun key o' h => ?_, hQ.reading⟩
      rw [latest_snoc, hrecord]
      rw [pending_snoc] at h
      by_cases hkey : key = job.key
      · subst hkey
        rw [hjob, Option.some_or, Option.some.injEq] at h
        rw [Function.update_self, h]
      · rw [change_of_ne hkey, Option.none_or] at h
        rw [Function.update_of_ne hkey]
        exact hQ.pending key o' h
  | hit key image hmemory =>
      have hlatest : latest (es ++ [.retrieveImage key]) = latest es :=
        latest_snoc
      exact ⟨hlatest ▸ hQ.pending, hQ.reading⟩
  | asked key hmemory =>
      have hlatest : latest (es ++ [.retrieveImage key]) = latest es :=
        latest_snoc
      refine ⟨fun key' o h => ?_, hQ.reading⟩
      rw [pending_snoc] at h
      exact hlatest ▸ hQ.pending key' o h
  | performed success job ioQueue hidle hqueue =>
      have hlatest : latest (es ++ [.io success]) = latest es := latest_snoc
      refine ⟨fun key o h => ?_, fun key image h => ?_⟩
      · rw [frame_perform.2] at h
        rw [hlatest]
        refine hQ.pending key o ?_
        rw [hqueue]
        exact pending_cons_of_some h
      · have hidle : ({ sf with ioQueue := ioQueue } :
            ImageCache Key Image).reading = none := hidle
        exact reading_perform hidle h
  | stored key image hread =>
      have hlatest : latest (es ++ [.storeRead]) = latest es := latest_snoc
      exact ⟨hlatest ▸ hQ.pending, nofun⟩
  | memoryCleaned gone =>
      have hlatest : latest (es ++ [.memoryCleaned gone]) = latest es :=
        latest_snoc
      exact ⟨hlatest ▸ hQ.pending, hQ.reading⟩
  | diskCleaned gone hidle =>
      have hlatest : latest (es ++ [.diskCleaned gone]) = latest es :=
        latest_snoc
      refine ⟨hlatest ▸ hQ.pending, fun key image h => ?_⟩
      rw [show sf.reading = none from hidle] at h
      cases h

theorem queued_of_run {es : List (CacheEvent Key Image)}
    (hr : cacheRun es = some sf) : Queued es sf := by
  refine run_induction (P := fun es sf => Queued es sf) ?_ ?_ hr
  · exact ⟨(fun _ _ h => by cases h), (fun _ _ h => by cases h)⟩
  · exact fun _ _ _ _ _ hQ hs => hQ.step (cacheCase_of_step hs)

/-- What a job leaves on the disk is the last picture, if it does not fail
where that does harm. -/
theorem fresh_performed {es : List (CacheEvent Key Image)}
    (hQ : Queued es sf) (hF : Fresh es sf) {success : Bool}
    {job : IOJob Key Image} {ioQueue : List (IOJob Key Image)}
    (hqueue : sf.ioQueue = job :: ioQueue) :
    Fresh (es ++ [.io success])
        (perform { sf with ioQueue := ioQueue } success job) ↔
      (success = false → Harmless sf ioQueue job) := by
  have hlatest : latest (es ++ [.io success]) = latest es := latest_snoc
  have hchange : ∀ key, pending (change key) ioQueue = none →
      pending (change key) sf.ioQueue = change key job := by
    intro key h
    rw [hqueue, pending_cons, h, Option.none_or]
  have hold : ∀ key, pending (change key) ioQueue = none →
      change key job = none → ∀ image, sf.diskStorage key = some image →
        latest es key = some image := by
    intro key hnone hjob image h
    exact hF.disk key image ((hchange key hnone).trans hjob) h
  constructor
  · rintro h rfl o hjob hnone old hdisk
    have hnew : latest es job.key = o :=
      hQ.pending job.key o ((hchange job.key hnone).trans hjob)
    have hleft : latest es job.key = some old := by
      rw [← hlatest]
      refine h.disk job.key old ?_ ?_
      · rw [frame_perform.2]
        exact hnone
      · rw [disk_perform]
        exact hdisk
    exact hnew.symm.trans hleft
  · intro hharmless
    refine ⟨?_, fun key image hnone h => ?_⟩
    · rw [frame_perform.1, hlatest]
      exact hF.memory
    · rw [frame_perform.2] at hnone
      rw [disk_perform] at h
      rw [hlatest]
      cases hjob : change key job with
      | none =>
          refine hold key hnone hjob image ?_
          cases success
          · exact h
          · rw [hjob] at h
            exact h
      | some o =>
          have hnew : latest es key = o :=
            hQ.pending key o ((hchange key hnone).trans hjob)
          cases success with
          | true =>
              rw [hjob] at h
              exact hnew.trans h
          | false =>
              have hkey : key = job.key := by
                by_contra hkey
                rw [change_of_ne hkey] at hjob
                cases hjob
              subst hkey
              exact hnew.trans (hharmless rfl o hjob hnone image h)

/-- The step keeps old pictures out exactly under the condition. -/
theorem fresh_step {es : List (CacheEvent Key Image)} (hQ : Queued es sf)
    (hF : Fresh es sf) {e : CacheEvent Key Image}
    (hc : CacheCase sf e sf') : Fresh (es ++ [e]) sf' ↔ Keeps sf e := by
  cases hc with
  | changed e job o hjob hrecord hstore hevent =>
      have hkeeps : Keeps sf e := by
        rcases hevent with ⟨image, rfl⟩ | rfl <;> trivial
      refine iff_of_true ⟨fun key image h => ?_, fun key image hnone h => ?_⟩
        hkeeps
      · rw [latest_snoc, hrecord]
        rcases update_eq_some h with ⟨rfl, ho⟩ | ⟨hkey, h⟩
        · rw [Function.update_self, ho]
        · rw [Function.update_of_ne hkey]
          exact hF.memory key image h
      · rw [pending_snoc] at hnone
        have hkey : key ≠ job.key := by
          rintro rfl
          rw [hjob] at hnone
          cases hnone
        rw [change_of_ne hkey, Option.none_or] at hnone
        rw [latest_snoc, hrecord, Function.update_of_ne hkey]
        exact hF.disk key image hnone h
  | hit key image hmemory =>
      have hlatest : latest (es ++ [.retrieveImage key]) = latest es :=
        latest_snoc
      exact iff_of_true ⟨hlatest ▸ hF.memory, hlatest ▸ hF.disk⟩ trivial
  | asked key hmemory =>
      have hlatest : latest (es ++ [.retrieveImage key]) = latest es :=
        latest_snoc
      refine iff_of_true ⟨hlatest ▸ hF.memory, fun key' image h => ?_⟩ trivial
      rw [pending_snoc] at h
      exact hlatest ▸ hF.disk key' image h
  | performed success job ioQueue hidle hqueue =>
      rw [fresh_performed hQ hF hqueue]
      cases success with
      | true => exact iff_of_true nofun trivial
      | false =>
          show _ ↔ ∀ job' ∈ sf.ioQueue.head?,
            Harmless sf sf.ioQueue.tail job'
          rw [hqueue]
          simp
  | stored key image hread =>
      have hlatest : latest (es ++ [.storeRead]) = latest es := latest_snoc
      constructor
      · intro h read hmem o ho
        obtain rfl : (key, image) = read := Option.some.inj
          (hread.symm.trans hmem)
        have hnew : latest es key = some image := by
          rw [← hlatest]
          exact h.memory key image (Function.update_self ..)
        exact (hQ.pending key o ho).symm.trans hnew
      · intro hlast
        have hnew : latest es key = some image := by
          cases hpending : pending (change key) sf.ioQueue with
          | none =>
              exact hF.disk key image hpending (hQ.reading key image hread)
          | some o =>
              rw [hQ.pending key o hpending]
              exact hlast (key, image) hread o hpending
        refine ⟨fun key' image' h => ?_, hlatest ▸ hF.disk⟩
        rw [hlatest]
        rcases update_eq_some h with ⟨rfl, himage⟩ | ⟨-, h⟩
        · exact hnew.trans himage
        · exact hF.memory key' image' h
  | memoryCleaned gone =>
      have hlatest : latest (es ++ [.memoryCleaned gone]) = latest es :=
        latest_snoc
      refine iff_of_true ⟨fun key image h => ?_, hlatest ▸ hF.disk⟩ trivial
      exact hlatest ▸ hF.memory key image (of_cleaned h)
  | diskCleaned gone hidle =>
      have hlatest : latest (es ++ [.diskCleaned gone]) = latest es :=
        latest_snoc
      refine iff_of_true ⟨hlatest ▸ hF.memory, fun key image hnone h => ?_⟩
        trivial
      exact hlatest ▸ hF.disk key image hnone (of_cleaned h)

variable [DecidableEq Image]

/-- The picture leaves the memory, is read back, and replaced in between by the
same picture from another download. -/
def readBack : List (CacheEvent Nat String) :=
  [.store 1 "a", .io true, .memoryCleaned fun _ => true, .retrieveImage 1,
    .io true, .store 1 "a", .storeRead, .io false]

/-- The key is removed while its picture is read: the picture is back in
memory. -/
example : (cacheRun [.store 1 "a", .io true, .memoryCleaned fun _ => true,
      .retrieveImage 1, .io true, .removeImage 1, .storeRead, .io true]).map
    (fun sf : ImageCache Nat String =>
      (sf.memoryStorage 1, sf.diskStorage 1)) = some (some "a", none) := by
  decide

/-! ## Nothing else is handed out -/

omit [DecidableEq Image] in
/-- Every picture anywhere in the cache was stored under its key. -/
structure Stored (es : List (CacheEvent Key Image))
    (sf : ImageCache Key Image) : Prop where
  memory : ∀ key image, sf.memoryStorage key = some image →
    .store key image ∈ es
  disk : ∀ key image, sf.diskStorage key = some image → .store key image ∈ es
  queue : ∀ key image, .store key image ∈ sf.ioQueue → .store key image ∈ es
  reading : ∀ key image, sf.reading = some (key, image) →
    .store key image ∈ es
  answered : ∀ key image, (key, some image) ∈ sf.answered →
    .store key image ∈ es

omit [DecidableEq Image] in
/-- A job hands out and writes pictures of its own key that are on the disk, or
that it was queued with. -/
theorem stored_performed {es : List (CacheEvent Key Image)}
    (hT : Stored es sf) {success : Bool} {job : IOJob Key Image}
    {ioQueue : List (IOJob Key Image)} (hqueue : sf.ioQueue = job :: ioQueue) :
    Stored es (perform { sf with ioQueue := ioQueue } success job) := by
  have hrest : ∀ key image, .store key image ∈ ioQueue →
      .store key image ∈ es := by
    intro key image h
    refine hT.queue key image ?_
    rw [hqueue]
    exact List.mem_cons_of_mem job h
  cases job with
  | store key image =>
      cases success with
      | false => exact ⟨hT.memory, hT.disk, hrest, hT.reading, hT.answered⟩
      | true =>
          refine ⟨hT.memory, fun key' image' h => ?_, hrest, hT.reading,
            hT.answered⟩
          rcases update_eq_some h with ⟨rfl, ⟨⟩⟩ | ⟨-, h⟩
          · refine hT.queue key' image ?_
            rw [hqueue]
            exact List.mem_cons_self
          · exact hT.disk key' image' h
  | remove key =>
      cases success with
      | false => exact ⟨hT.memory, hT.disk, hrest, hT.reading, hT.answered⟩
      | true =>
          refine ⟨hT.memory, fun key' image' h => ?_, hrest, hT.reading,
            hT.answered⟩
          rcases update_eq_some h with ⟨-, ⟨⟩⟩ | ⟨-, h⟩
          exact hT.disk key' image' h
  | retrieve key =>
      have hnothing : ∀ key' image', (key', some image') ∈
          sf.answered ++ [(key, none)] → .store key' image' ∈ es := by
        intro key' image' h
        rcases List.mem_append.mp h with h | h
        · exact hT.answered key' image' h
        · cases List.mem_singleton.mp h
      cases hdisk : sf.diskStorage key with
      | none =>
          simp only [perform, hdisk]
          exact ⟨hT.memory, hT.disk, hrest, hT.reading, hnothing⟩
      | some image =>
          simp only [perform, hdisk]
          cases success with
          | false => exact ⟨hT.memory, hT.disk, hrest, hT.reading, hnothing⟩
          | true =>
              refine ⟨hT.memory, hT.disk, hrest, fun key' image' h => ?_,
                hT.answered⟩
              obtain ⟨rfl, rfl⟩ := Prod.mk.inj (Option.some.inj h)
              exact hT.disk key image hdisk

omit [DecidableEq Image] in
theorem Stored.step {es : List (CacheEvent Key Image)} (hT : Stored es sf)
    {e : CacheEvent Key Image} (hc : CacheCase sf e sf') :
    Stored (es ++ [e]) sf' := by
  have hT : Stored (es ++ [e]) sf :=
    ⟨fun key image h => List.mem_append_left _ (hT.memory key image h),
      fun key image h => List.mem_append_left _ (hT.disk key image h),
      fun key image h => List.mem_append_left _ (hT.queue key image h),
      fun key image h => List.mem_append_left _ (hT.reading key image h),
      fun key image h => List.mem_append_left _ (hT.answered key image h)⟩
  cases hc with
  | changed e job o hjob hrecord hstore hevent =>
      refine ⟨fun key image h => ?_, hT.disk, fun key image h => ?_,
        hT.reading, hT.answered⟩
      · rcases update_eq_some h with ⟨rfl, ho⟩ | ⟨-, h⟩
        · rw [← hstore image ho]
          exact List.mem_append_right _ (List.mem_singleton_self _)
        · exact hT.memory key image h
      · rcases List.mem_append.mp h with h | h
        · exact hT.queue key image h
        · obtain rfl := List.mem_singleton.mp h
          have ho : some image = o := Option.some.inj
            ((if_pos rfl).symm.trans hjob)
          have he := hstore image ho.symm
          rw [he]
          exact List.mem_append_right _ (List.mem_singleton_self _)
  | hit key image hmemory =>
      refine ⟨hT.memory, hT.disk, hT.queue, hT.reading, ?_⟩
      intro key' image' h
      rcases List.mem_append.mp h with h | h
      · exact hT.answered key' image' h
      · obtain ⟨rfl, ⟨⟩⟩ := Prod.mk.inj (List.mem_singleton.mp h)
        exact hT.memory key' image hmemory
  | asked key hmemory =>
      refine ⟨hT.memory, hT.disk, fun key' image h => ?_, hT.reading,
        hT.answered⟩
      rcases List.mem_append.mp h with h | h
      · exact hT.queue key' image h
      · cases List.mem_singleton.mp h
  | performed success job ioQueue hidle hqueue =>
      exact stored_performed hT hqueue
  | stored key image hread =>
      refine ⟨fun key' image' h => ?_, hT.disk, hT.queue, nofun, ?_⟩
      · rcases update_eq_some h with ⟨rfl, ⟨⟩⟩ | ⟨-, h⟩
        · exact hT.reading key' image hread
        · exact hT.memory key' image' h
      · intro key' image' h
        rcases List.mem_append.mp h with h | h
        · exact hT.answered key' image' h
        · obtain ⟨rfl, ⟨⟩⟩ := Prod.mk.inj (List.mem_singleton.mp h)
          exact hT.reading key' image hread
  | memoryCleaned gone =>
      exact ⟨fun key image h => hT.memory key image (of_cleaned h), hT.disk,
        hT.queue, hT.reading, hT.answered⟩
  | diskCleaned gone hidle =>
      exact ⟨hT.memory, fun key image h => hT.disk key image (of_cleaned h),
        hT.queue, hT.reading, hT.answered⟩

omit [DecidableEq Image] in
/-- A picture that a retrieval is answered with was stored under its key. -/
theorem stored_of_answered {es : List (CacheEvent Key Image)}
    (hr : cacheRun es = some sf) {key : Key} {image : Image}
    (h : (key, some image) ∈ sf.answered) : .store key image ∈ es := by
  have hT : Stored es sf := by
    refine run_induction (P := fun es sf => Stored es sf) ?_ ?_ hr
    · exact ⟨(fun _ _ h => by cases h), (fun _ _ h => by cases h),
        (fun _ _ h => by cases h), (fun _ _ h => by cases h),
        (fun _ _ h => by cases h)⟩
    · exact fun _ _ _ _ _ hT hs => hT.step (cacheCase_of_step hs)
  exact hT.answered key image h

end ImageCache

end ComicReader
