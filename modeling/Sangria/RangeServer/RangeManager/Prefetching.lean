import Sangria.RangeServer.PrefetchingBuffer.Fetches
import Sangria.RangeServer.RangeManager.Moves

/-!
# Prefetches of a range

`RangeManager::prefetch`, cut at the sections under the mutex of the buffer,
next to the other handlers of the range.  A caller that is told to fetch reads
the storage without any lock and hands the value to the buffer later.  The number
of its fetch is compared with that of the key, which a commit does not change.
-/

namespace Sangria.RangeServer

open FiniteMap
open TransitionSystem

/-- The callers use the buffer of the range.  `reads` has the keys and values that
they have read from the storage and not handed over. -/
structure PrefetchingRange where
  range : RangeManager
  prefetching : Prefetching
  reads : HashMap Nat (Bytes × Option Bytes)

/-- The call with which a section of a commit updates the buffer. -/
def RangeManager.bufferCall (range : RangeManager) : Label → Option Prefetching.Label
  | .runOn id key =>
    match range.handlers.find id with
    | some (.commit _ _ (.buffering _ remaining)) =>
      (remaining.find key).map fun change =>
        match change with
        | some value => .upsert key value
        | none => .delete key
    | _ => none
  | _ => none

namespace PrefetchingRange

/-- A step of another handler, a read of the storage for a caller, or a section of
a caller under the mutex. -/
inductive Label where
  | range (label : RangeServer.Label)
  | read (id : Nat)
  | prefetch (label : Prefetching.Label)

def loaded (storage : Records) : PrefetchingRange := ⟨.loaded storage, ⟨.new, ∅⟩, ∅⟩

/-- The callers, with the buffer as the range has it. -/
def current (state : PrefetchingRange) : Prefetching :=
  { state.prefetching with
    state := { state.prefetching.state with buffer := state.range.prefetchingBuffer } }

def advance (state : PrefetchingRange) (label : Prefetching.Label) : Option PrefetchingRange :=
  (state.current.step label).map fun prefetching =>
    { state with
      range := { state.range with prefetchingBuffer := prefetching.state.buffer }
      prefetching }

/-- A section of a caller.  The value that it hands over is the one that it read. -/
def runPrefetch (state : PrefetchingRange) : Prefetching.Label → Option PrefetchingRange
  | .complete id value =>
    (state.prefetching.callers.find id).bind fun caller =>
      if state.reads.find id = some (caller.key, value) then
        { state with reads := state.reads.erase id }.advance (.complete id value)
      else none
  | .fail id => if state.reads.find id = none then state.advance (.fail id) else none
  | .upsert .. | .delete _ | .transactionComplete _ => none
  | label => state.advance label

def step (config : Configuration) (state : PrefetchingRange) :
    Label → Option PrefetchingRange
  | .range label =>
    (state.range.step config label).map fun range =>
      { state with
        range
        -- The waiters of a key are notified when a commit deletes it.
        prefetching := ((state.range.bufferCall label).bind state.current.step).getD
          state.prefetching }
  | .read id =>
    (state.prefetching.callers.find id).bind fun caller =>
      if caller.fetch ≠ none ∧ state.reads.find id = none then
        some { state with
          reads := state.reads.insert id (caller.key, state.range.storage.get caller.key) }
      else none
  | .prefetch label => state.runPrefetch label

def Initial (state : PrefetchingRange) : Prop := ∃ storage, state = loaded storage

end PrefetchingRange

/-- What a commit that wrote to the storage still has to write to the buffer. -/
def Handler.remaining : Handler → Changes
  | .commit _ _ (.buffering _ remaining) => remaining
  | _ => ∅

namespace RangeManager

/-- A commit is between its storage write and its buffer update. -/
def Updating (range : RangeManager) : Prop :=
  ∃ id ∈ range.handlers.keys, ∃ handler ∈ range.handlers.find id, handler.remaining.keys ≠ ∅

instance (range : RangeManager) : Decidable range.Updating :=
  inferInstanceAs (Decidable (∃ id ∈ range.handlers.keys, ∃ handler ∈ range.handlers.find id, _))

def BufferFresh (range : RangeManager) : Prop :=
  ∀ key value, range.prefetchingBuffer.getFromBuffer key = some value →
    range.storage.get key = some value

/-! ## What a step does to the buffer and the storage -/

/-- The changes that a section writes to the storage, and their epoch. -/
def writes (range : RangeManager) : Label → Option (Changes × Nat)
  | .run id =>
    match range.handlers.find id with
    | some (.commit _ epoch (.storing records)) => some (allChanges records, epoch)
    | _ => none
  | _ => none

theorem writes_of_storing {range : RangeManager} {id epoch : Nat} {txs : List Uuid}
    {records : List (Uuid × Changes)}
    (found : range.handlers.find id = some (.commit txs epoch (.storing records))) :
    range.writes (.run id) = some (allChanges records, epoch) := by
  rw [writes, found]

/-- Only a commit writes to them, first to the storage and then to the buffer. -/
inductive Effect (range : RangeManager) : Label → RangeManager → Prop where
  | idle {label next id} {result : Option Handler} :
      next.storage = range.storage →
      next.prefetchingBuffer = range.prefetchingBuffer →
      (∀ other, next.handlers.find other =
        if other = id then result else range.handlers.find other) →
      (∀ handler, range.handlers.find id = some handler → handler.remaining = ∅) →
      (∀ handler, result = some handler → handler.remaining = ∅) →
      Effect range label next
  | stored {id transactions epoch records} :
      range.handlers.find id = some (.commit transactions epoch (.storing records)) →
      (∀ key, (allChanges records).find key ≠ some none) →
      Effect range (.run id) ((range.store records epoch).put id
        (.commit transactions epoch (.buffering records (allChanges records))))
  | updated {id key transactions epoch records remaining change} :
      range.handlers.find id = some (.commit transactions epoch (.buffering records remaining)) →
      find remaining key = some change →
      Effect range (.runOn id key)
        ({ range with
          prefetchingBuffer := match change with
            | some val => range.prefetchingBuffer.upsert key val
            | none => range.prefetchingBuffer.delete key }.put id
              (.commit transactions epoch (.buffering records (remaining.erase key))))

section

variable {config : Configuration} {range next : RangeManager} {label : Label} {id : Nat}
  {handler handler' : Handler}

theorem Effect.put (storage : next.storage = range.storage)
    (buffer : next.prefetchingBuffer = range.prefetchingBuffer)
    (handlers : next.handlers = range.handlers.insert id handler')
    (before : ∀ handler, range.handlers.find id = some handler → handler.remaining = ∅)
    (after : handler'.remaining = ∅) : Effect range label next := by
  refine @Effect.idle range label next id (some handler') storage buffer ?_ before ?_
  · intro other
    rw [handlers, find_insert]
  · intro handler same
    cases same
    exact after

theorem Quiet.remaining (quiet : Quiet config range id label handler handler') :
    handler.remaining = ∅ ∧ handler'.remaining = ∅ := by
  cases quiet with
  | collected =>
    refine ⟨rfl, ?_⟩
    split <;> rfl
  | verified =>
    refine ⟨rfl, ?_⟩
    split <;> rfl
  | chosen =>
    refine ⟨rfl, ?_⟩
    split <;> rfl
  | _ => exact ⟨rfl, rfl⟩

theorem Effect.replace (found : range.handlers.find id = some handler)
    (storage : next.storage = range.storage)
    (buffer : next.prefetchingBuffer = range.prefetchingBuffer)
    (handlers : next.handlers = range.handlers.insert id handler')
    (before : handler.remaining = ∅) (after : handler'.remaining = ∅) :
    Effect range label next := by
  apply Effect.put storage buffer handlers _ after
  intro other same
  rw [found] at same
  cases same
  exact before

theorem remaining_of_isReturned (finished : handler.isReturned = true) :
    handler.remaining = ∅ := by
  unfold Handler.remaining
  split
  next => cases finished
  next => rfl

theorem effect_of_failHandler {error : Error} (found : range.handlers.find id = some handler)
    (failed : range.failHandler id error false handler = some next) : Effect range label next := by
  unfold failHandler at failed
  split at failed
  all_goals cases failed
  all_goals exact .replace found rfl rfl rfl rfl rfl

theorem effect_of_arrive (unused : range.handlers.find id = none)
    (after : handler'.remaining = ∅) : Effect range label (range.put id handler') := by
  refine .put rfl rfl rfl ?_ after
  intro other same
  rw [unused] at same
  cases same

theorem effect_of_step (taken : range.step config label = some next)
    (puts : ∀ write ∈ range.writes label, ¬ Deletes write.1)
    (intact : ∀ id error, label ≠ .fail id error true) : Effect range label next := by
  cases moves_of_step taken with
  | arrivedGet unused | arrivedPrepare unused | arrivedAbort unused | arrivedCommit unused =>
    apply effect_of_arrive unused
    rfl
  | quiet found quiet => exact .replace found rfl rfl rfl quiet.remaining.1 quiet.remaining.2
  | @failed id error effective handler handler' found fails =>
    cases effective with
    | true => exact absurd rfl (intact id error)
    | false =>
      simp only [step, found, Option.bind_some] at taken
      exact effect_of_failHandler found taken
  | lockedGet found | lockedPrepare found | wokenGet found | wokenPrepare found | read found
  | releasedPrepare found | softReleased found | releasedAbort found | releasedCommit found
  | cleaned found => exact .replace found rfl rfl rfl rfl rfl
  | saved found =>
    unfold save
    simp only
    split <;> exact .replace found rfl rfl rfl rfl rfl
  | stored found kept => exact .stored found kept
  | deleteRefused found deletes => exact absurd deletes (puts _ (writes_of_storing found))
  | @storeTimedOut id error _ _ _ found => exact absurd rfl (intact id error)
  | updatedBuffer found changed => exact .updated found changed
  | @cleared _ _ _ _ remaining found empty =>
    exact .replace found rfl rfl rfl (eq_empty_of_keys empty) rfl
  | @delivered id handler found finished =>
    refine @Effect.idle range _ _ id none rfl rfl ?_ ?_ ?_
    · intro other
      exact find_erase ..
    · intro other same
      rw [found] at same
      cases same
      exact remaining_of_isReturned finished
    · intro other same
      cases same

end

end RangeManager

/-! ## Fetches and commits that do not overlap -/

namespace PrefetchingRange

variable {config : Configuration} {state next : PrefetchingRange} {label : Label}
variable {id epoch : Nat} {txs : List Uuid} {records : List (Uuid × Changes)} {key : Bytes}

def writes (state : PrefetchingRange) : Label → Option (Changes × Nat)
  | .range label => state.range.writes label
  | _ => none

def Label.timesOut : Label → Bool
  | .range (.fail _ _ effective) => effective
  | _ => false

/-- Commits put values, and a batch that is written is not reported as failed. -/
def Puts (state : PrefetchingRange) (label : Label) : Prop :=
  (∀ write ∈ state.writes label, ¬ Deletes write.1) ∧ label.timesOut = false

instance (state : PrefetchingRange) (label : Label) : Decidable (Puts state label) :=
  inferInstanceAs (Decidable ((∀ write ∈ state.writes label, _) ∧ _))

/-- A batch is written when no fetch has read one of its keys and not handed it
over, when no other commit still has one of its keys to write to the buffer, and
when its epoch, as `i64`, is not below those of the rows of its keys. -/
def Apart (state : PrefetchingRange) (label : Label) : Prop :=
  ∀ write ∈ state.writes label, ∀ key ∈ write.1.keys,
    (∀ other ∈ state.reads.keys, ∀ read ∈ state.reads.find other, read.1 ≠ key) ∧
    (∀ other ∈ state.range.handlers.keys, ∀ handler ∈ state.range.handlers.find other,
      key ∉ handler.remaining.keys) ∧
    ∀ record ∈ state.range.storage key, record.epoch ≤ asI64 write.2

instance (state : PrefetchingRange) (label : Label) : Decidable (Apart state label) :=
  inferInstanceAs (Decidable (∀ write ∈ state.writes label, ∀ key ∈ write.1.keys, _ ∧ _ ∧ _))

/-- The values on their way to the buffer are those of the storage. -/
structure Fresh (state : PrefetchingRange) : Prop where
  fetched : ∀ id read, state.reads.find id = some read →
    state.range.storage.get read.1 = read.2
  remaining : ∀ id handler key change, state.range.handlers.find id = some handler →
    handler.remaining.find key = some change →
    ∃ value, change = some value ∧ state.range.storage.get key = some value
  buffer : ∀ key value, state.range.prefetchingBuffer.getFromBuffer key = some value →
    state.range.storage.get key = some value ∨
      ∃ id handler change, state.range.handlers.find id = some handler ∧
        handler.remaining.find key = some change

theorem Fresh.initial (state : PrefetchingRange) (started : Initial state) : Fresh state := by
  obtain ⟨storage, rfl⟩ := started
  refine ⟨?_, ?_, ?_⟩
  · intro id read found
    simp [loaded] at found
  · intro id handler key change found
    simp [loaded, RangeManager.loaded] at found
  · intro key value found
    simp [loaded, RangeManager.loaded, PrefetchingBuffer.new,
      PrefetchingBuffer.getFromBuffer] at found

theorem Fresh.idle (fresh : Fresh state) {res : Option Handler}
    (reads : next.reads = state.reads)
    (storage : next.range.storage = state.range.storage)
    (buffer : next.range.prefetchingBuffer = state.range.prefetchingBuffer)
    (handlers : ∀ other, next.range.handlers.find other =
      if other = id then res else state.range.handlers.find other)
    (before : ∀ handler, state.range.handlers.find id = some handler → handler.remaining = ∅)
    (after : ∀ handler, res = some handler → handler.remaining = ∅) : Fresh next := by
  refine ⟨?_, ?_, ?_⟩
  · rw [reads, storage]
    exact fresh.fetched
  · intro other handler key change found pending
    rw [handlers] at found
    split at found
    next =>
      rw [after handler found] at pending
      simp at pending
    next =>
      rw [storage]
      exact fresh.remaining other handler key change found pending
  · intro key value found
    rw [buffer] at found
    rw [storage]
    rcases fresh.buffer key value found with stored | ⟨other, handler, change, running, pending⟩
    · exact .inl stored
    · refine .inr ⟨other, handler, change, ?_, pending⟩
      rw [handlers, if_neg]
      · exact running
      · intro same
        subst same
        rw [before handler running] at pending
        simp at pending

theorem Fresh.stored (fresh : Fresh state)
    (found : state.range.handlers.find id = some (.commit txs epoch (.storing records)))
    (puts : ∀ key, (RangeManager.allChanges records).find key ≠ some none)
    (apart : Apart state (.range (.run id))) (reads : next.reads = state.reads)
    (range : next.range = (state.range.store records epoch).put id
      (.commit txs epoch (.buffering records (RangeManager.allChanges records)))) :
    Fresh next := by
  have unread := apart _ (RangeManager.writes_of_storing found)
  -- The value of a key in the batch is found in the storage afterwards.
  have visible : ∀ key change, (RangeManager.allChanges records).find key = some change →
      ∃ value, change = some value ∧ (state.range.storage.batchUpsert
        (RangeManager.allChanges records) (asI64 epoch)).get key = some value := by
    intro key change changed
    have current := (unread key (mem_keys.mpr ⟨change, changed⟩)).2.2
    cases change with
    | none => exact absurd changed (puts key)
    | some value => exact ⟨value, rfl, Records.get_batchUpsert_of_put changed current⟩
  have outside : ∀ key, key ∉ (RangeManager.allChanges records).keys →
      (state.range.storage.batchUpsert (RangeManager.allChanges records) (asI64 epoch)).get key =
        state.range.storage.get key := by
    intro key absent
    rw [Finmap.mem_keys, ← find_eq_none] at absent
    rw [Records.get, Records.batchUpsert_of_join (by rw [absent]; rfl), Records.get]
  refine ⟨?_, ?_, ?_⟩
  · rw [reads, range]
    intro other read reading
    refine (outside read.1 ?_).trans (fresh.fetched other read reading)
    intro present
    exact (unread read.1 present).1 other (mem_keys.mpr ⟨_, reading⟩) _ reading rfl
  · rw [range]
    intro other handler key change running pending
    rcases eq_or_find_of_insert running with ⟨_, rfl⟩ | ⟨_, before⟩
    · exact visible key change pending
    · obtain ⟨value, rfl, stored⟩ := fresh.remaining other handler key change before pending
      refine ⟨value, rfl, (outside key ?_).trans stored⟩
      intro present
      exact (unread key present).2.1 other (mem_keys.mpr ⟨_, before⟩) _ before
        (mem_keys.mpr ⟨_, pending⟩)
  · rw [range]
    intro key value buffered
    by_cases present : key ∈ (RangeManager.allChanges records).keys
    · obtain ⟨change, changed⟩ := mem_keys.mp present
      exact .inr ⟨id, _, change, find_insert_self .., changed⟩
    · rcases fresh.buffer key value buffered with
        stored | ⟨other, handler, change, running, pending⟩
      · exact .inl ((outside key present).trans stored)
      · have ne : other ≠ id := by
          rintro rfl
          cases found.symm.trans running
          simp [Handler.remaining] at pending
        exact .inr ⟨other, handler, change, (find_insert_of_ne _ ne).trans running, pending⟩

theorem Fresh.updated (fresh : Fresh state) {remaining : Changes} {value : Bytes}
    (found : state.range.handlers.find id =
      some (.commit txs epoch (.buffering records remaining)))
    (changed : remaining.find key = some (some value))
    (reads : next.reads = state.reads)
    (range : next.range = RangeManager.put
      { state.range with prefetchingBuffer := state.range.prefetchingBuffer.upsert key value } id
        (.commit txs epoch (.buffering records (remaining.erase key)))) :
    Fresh next := by
  refine ⟨?_, ?_, ?_⟩
  · rw [reads, range]
    exact fresh.fetched
  · rw [range]
    intro other handler changedKey change running pending
    rcases eq_or_find_of_insert running with ⟨_, rfl⟩ | ⟨_, before⟩
    · exact fresh.remaining id _ changedKey change found (find_of_erase pending).2
    · exact fresh.remaining other handler changedKey change before pending
  · rw [range]
    intro other found' buffered
    change (state.range.prefetchingBuffer.upsert key value).getFromBuffer other = _ at buffered
    rw [PrefetchingBuffer.getFromBuffer_upsert] at buffered
    split at buffered
    next same =>
      subst same
      cases buffered
      obtain ⟨_, same, stored⟩ := fresh.remaining id _ other (some value) found changed
      cases same
      exact .inl stored
    next ne =>
      rcases fresh.buffer other found' buffered with
        stored | ⟨otherId, handler, change, running, pending⟩
      · exact .inl stored
      · right
        by_cases same : otherId = id
        · subst same
          cases found.symm.trans running
          exact ⟨otherId, _, change, find_insert_self .., (find_erase_of_ne ne).trans pending⟩
        · exact ⟨otherId, handler, change, (find_insert_of_ne _ same).trans running, pending⟩

/-! ## The sections of a prefetch -/

/-- A section of a caller puts no other value into the buffer than the one that is handed over. -/
theorem Fresh.advance (fresh : Fresh state) {label : Prefetching.Label}
    (advanced : state.advance label = some next) (own : ∀ key value, label ≠ .upsert key value)
    (read : ∀ id caller value, label = .complete id (some value) →
      state.prefetching.callers.find id = some caller →
        state.range.storage.get caller.key = some value) : Fresh next := by
  obtain ⟨prefetching, taken, rfl⟩ := Option.map_eq_some_iff.mp advanced
  refine ⟨fresh.fetched, fresh.remaining, ?_⟩
  intro key value buffered
  rcases Prefetching.getFromBuffer_of_step taken buffered with
    before | ⟨id, caller, complete, found, rfl⟩ | upsert
  · exact fresh.buffer key value before
  · exact .inl (read id caller value complete found)
  · exact absurd upsert (own key value)

theorem Fresh.runPrefetch (fresh : Fresh state) {label : Prefetching.Label}
    (ran : state.runPrefetch label = some next) : Fresh next := by
  cases label with
  | complete id value =>
    obtain ⟨caller, found, ran⟩ := Option.bind_eq_some_iff.mp ran
    split at ran
    next here =>
      have handed : Fresh { state with reads := state.reads.erase id } := by
        refine ⟨?_, fresh.remaining, fresh.buffer⟩
        intro other read reading
        rw [find_erase] at reading
        split at reading
        next => cases reading
        next => exact fresh.fetched other read reading
      refine handed.advance ran (fun _ _ => nofun) ?_
      rintro _ other value same present
      cases same
      cases found.symm.trans present
      exact fresh.fetched id _ here
    next => cases ran
  | fail id =>
    simp only [PrefetchingRange.runPrefetch] at ran
    split at ran
    next => exact fresh.advance ran (fun _ _ => nofun) fun _ _ _ => nofun
    next => cases ran
  | request | cloneWatcher | wake | retry =>
    exact fresh.advance ran (fun _ _ => nofun) fun _ _ _ => nofun
  | upsert | delete | transactionComplete => cases ran

/-- A fetch reads what the storage holds. -/
theorem Fresh.read (fresh : Fresh state) (taken : step config state (.read id) = some next) :
    Fresh next := by
  obtain ⟨caller, found, taken⟩ := Option.bind_eq_some_iff.mp taken
  split at taken
  next =>
    cases taken
    refine ⟨?_, fresh.remaining, fresh.buffer⟩
    intro other read reading
    rw [find_insert] at reading
    split at reading
    next =>
      cases reading
      rfl
    next => exact fresh.fetched other read reading
  next => cases taken

/-! ## Runs -/

theorem Fresh.effect (fresh : Fresh state) {label : RangeServer.Label}
    (effect : state.range.Effect label next.range) (reads : next.reads = state.reads)
    (apart : Apart state (.range label)) : Fresh next := by
  generalize reached : next.range = range at effect
  cases effect with
  | idle storage buffer handlers before after =>
    rw [← reached] at storage buffer handlers
    exact fresh.idle reads storage buffer handlers before after
  | stored found puts => exact fresh.stored found puts apart reads reached
  | @updated id key txs epoch records remaining change found changed =>
    obtain ⟨value, rfl, _⟩ := fresh.remaining id _ key change found changed
    exact fresh.updated found changed reads reached

theorem Fresh.step (config : Configuration) (state next : PrefetchingRange) (label : Label)
    (fresh : Fresh state) (permitted : Puts state label ∧ Apart state label)
    (taken : PrefetchingRange.step config state label = some next) : Fresh next := by
  cases label with
  | range label =>
    obtain ⟨range, stepped, rfl⟩ := Option.map_eq_some_iff.mp taken
    refine fresh.effect (RangeManager.effect_of_step stepped permitted.1.1 ?_) rfl permitted.2
    rintro id error rfl
    cases permitted.1.2
  | read id => exact fresh.read taken
  | prefetch label => exact fresh.runPrefetch taken

/-- The buffer never serves stale data when batches and fetches do not overlap. -/
theorem buffer_fresh {config : Configuration} {state : PrefetchingRange}
    (reached : Reachable (PrefetchingRange.step config)
      (fun state label => Puts state label ∧ Apart state label) Initial state)
    (settled : ¬ state.range.Updating) : state.range.BufferFresh := by
  have fresh := reached.invariant Fresh.initial (Fresh.step config)
  intro key value buffered
  rcases fresh.buffer key value buffered with stored | ⟨id, handler, change, running, pending⟩
  · exact stored
  · refine absurd ⟨id, mem_keys.mpr ⟨_, running⟩, handler, running, ?_⟩ settled
    exact Finset.ne_empty_of_mem (mem_keys.mpr ⟨_, pending⟩)

/-- A transaction puts a value; its commit goes up to the write of the batch. -/
def commitSchedule : List Label :=
  [.range (.prepare 0 1 ⟨false, [([1], [8])], [], none, 0⟩), .range (.run 0), .range (.run 0),
    .range (.runOn 0 [1]), .range (.run 0), .range (.runOn 0 [1]), .range (.run 0),
    .range (.commit 1 [1] 0), .range (.run 1), .range (.run 1), .range (.run 1)]

def storedRecords : Records := fun key => if key = [1] then some ⟨0, some [7]⟩ else none

/-- The fetch reads the old value before the batch and hands it over afterwards. -/
def staleSchedule : List Label :=
  commitSchedule ++
    [.prefetch (.request 0 2 [1]), .read 0, .range (.run 1), .range (.runOn 1 [1]),
      .range (.run 1), .prefetch (.complete 0 (some [7]))]

theorem buffer_stale : ∃ (config : Configuration) (state : PrefetchingRange),
    Reachable (PrefetchingRange.step config) Puts Initial state ∧
      ¬ state.range.Updating ∧ ¬ state.range.BufferFresh := by
  obtain ⟨state, reached, passed⟩ := @exists_reachable_of_run _ _
    (PrefetchingRange.step ⟨.traditional, .openClients, .all, 0⟩) Puts Initial _
    (loaded storedRecords) ⟨storedRecords, rfl⟩ staleSchedule
    (fun state => decide (¬ state.range.Updating ∧
      state.range.prefetchingBuffer.getFromBuffer [1] = some [7] ∧
      state.range.storage.get [1] = some [8])) (by decide +kernel)
  obtain ⟨settled, buffered, stored⟩ := of_decide_eq_true passed
  refine ⟨_, state, reached, settled, ?_⟩
  intro fresh
  have same := fresh [1] [7] buffered
  rw [stored] at same
  cases same

theorem buffer_fresh_committed : ∃ (config : Configuration) (state : PrefetchingRange),
    Reachable (PrefetchingRange.step config)
      (fun state label => Puts state label ∧ Apart state label) Initial state ∧
    state.range.prefetchingBuffer.getFromBuffer [1] = some [8] ∧ state.range.BufferFresh := by
  obtain ⟨state, reached, passed⟩ := @exists_reachable_of_run _ _
    (PrefetchingRange.step ⟨.traditional, .openClients, .all, 0⟩)
    (fun state label => Puts state label ∧ Apart state label) Initial _
    (loaded storedRecords) ⟨storedRecords, rfl⟩
    (commitSchedule ++ [.prefetch (.request 0 2 [1]), .range (.run 1), .read 0,
      .prefetch (.complete 0 (some [8])), .range (.runOn 1 [1]), .range (.run 1)])
    (fun state => decide (¬ state.range.Updating ∧
      state.range.prefetchingBuffer.getFromBuffer [1] = some [8])) (by decide +kernel)
  obtain ⟨settled, buffered⟩ := of_decide_eq_true passed
  exact ⟨_, state, reached, buffered, buffer_fresh reached settled⟩

end PrefetchingRange

end Sangria.RangeServer
