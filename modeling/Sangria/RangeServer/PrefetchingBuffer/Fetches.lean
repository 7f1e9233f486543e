import Sangria.RangeServer.PrefetchingBuffer.Bookkeeping

/-!
# The fetches of the prefetching buffer

Callers of `process_prefetch_request`, section by section.  A caller that is told
`Requested` fetches the key and reports back; the others wait on the channel of
the key.  The channel keeps its last value when the key is evicted or loaded
anew, and a deletion looks only at keys that have a state.
-/

namespace Sangria.RangeServer

open FiniteMap
open TransitionSystem (Reachable)

structure Caller where
  transaction : Uuid
  key : Bytes
  progress : Progress

/-- The fetch that the caller was told to make and has not reported on. -/
def Caller.fetch (caller : Caller) : Option Nat :=
  match caller.progress with
  | .told (.requested number) => some number
  | _ => none

/-- The number that the caller goes by. -/
def Caller.number (caller : Caller) : Option Nat :=
  match caller.progress with
  | .told (.requested number) | .asking number | .waiting number | .retrying number => some number
  | _ => none

def KeyState.number : KeyState → Option Nat
  | .loading number | .requested number => some number
  | .fetched => none

def KeyState.isRequested : KeyState → Bool
  | .requested _ => true
  | _ => false

structure Prefetching where
  state : PrefetchState
  callers : HashMap Nat Caller

namespace Prefetching

inductive Label where
  | request (id : Nat) (transaction : Uuid) (key : Bytes)
  | cloneWatcher (id : Nat)
  | wake (id : Nat)
  | retry (id : Nat)
  | complete (id : Nat) (value : Option Bytes)
  | fail (id : Nat)
  | upsert (key value : Bytes)
  | delete (key : Bytes)
  | transactionComplete (transaction : Uuid)

variable {prefetching next : Prefetching} {label : Label} {key other : Bytes} {id : Nat}

def set (prefetching : Prefetching) (id : Nat) (caller : Caller) (progress : Progress) :
    HashMap Nat Caller :=
  prefetching.callers.insert id { caller with progress := progress }

/-- The step of a caller that has come so far. -/
def advance (prefetching : Prefetching) (id : Nat) (caller : Caller) :
    Label → Option Prefetching
  | .cloneWatcher _ =>
    match caller.progress with
    | .asking number =>
      some ⟨prefetching.state, prefetching.set id caller
        (if caller.key ∈ prefetching.state.keyStateWatcher then .waiting number
          else .told (.loading number))⟩
    | _ => none
  | .wake _ =>
    match caller.progress, prefetching.state.keyStateWatcher.find caller.key with
    | .waiting number, some channel =>
      if channel.sent = 0 then none
      else some ⟨prefetching.state, prefetching.set id caller
        (if channel.value = .fetched then .told .fetched else .retrying number)⟩
    | _, _ => none
  | .retry _ =>
    match caller.progress with
    | .retrying number =>
      let changed := prefetching.state.changeKeystateToLoading caller.key number
      some ⟨changed.1, prefetching.set id caller
        (if changed.2 then .told (.requested number) else .panicked)⟩
    | _ => none
  | .complete _ value =>
    caller.fetch.map fun number =>
      ⟨prefetching.state.fetchComplete caller.key value number,
        prefetching.set id caller .finished⟩
  | .fail _ =>
    caller.fetch.map fun number =>
      ⟨prefetching.state.fetchFailed caller.key number, prefetching.set id caller .finished⟩
  | _ => none

def step (prefetching : Prefetching) : Label → Option Prefetching
  | .request id transaction key =>
    if id ∈ prefetching.callers then none
    else
      let entered := prefetching.state.processPrefetchRequest transaction key
      some ⟨entered.1, prefetching.callers.insert id ⟨transaction, key, entered.2⟩⟩
  | .upsert key value => some ⟨prefetching.state.upsert key value, prefetching.callers⟩
  | .delete key => some ⟨prefetching.state.delete key, prefetching.callers⟩
  | .transactionComplete transaction =>
    some ⟨prefetching.state.processTransactionComplete transaction, prefetching.callers⟩
  | .cloneWatcher id =>
    (prefetching.callers.find id).bind (prefetching.advance id · (.cloneWatcher id))
  | .wake id => (prefetching.callers.find id).bind (prefetching.advance id · (.wake id))
  | .retry id => (prefetching.callers.find id).bind (prefetching.advance id · (.retry id))
  | .complete id value =>
    (prefetching.callers.find id).bind (prefetching.advance id · (.complete id value))
  | .fail id => (prefetching.callers.find id).bind (prefetching.advance id · (.fail id))

end Prefetching

/-! ## The state of a key -/

namespace PrefetchState

variable {state : PrefetchState} {transaction : Uuid} {key other : Bytes} {number : Nat}

def isLoading (state : PrefetchState) (key : Bytes) : Bool :=
  match state.buffer.keyState.find key with
  | some (.loading _) => true
  | _ => false

/-- The channel of the key holds a value that says that it was fetched. -/
def announces (state : PrefetchState) (key : Bytes) : Bool :=
  match state.keyStateWatcher.find key with
  | some channel => decide (channel.sent ≠ 0 ∧ channel.value = .fetched)
  | none => false

theorem announces_changeKeystateToLoading :
    (state.changeKeystateToLoading key number).1.announces other = state.announces other := by
  unfold changeKeystateToLoading
  split
  · dsimp only
    split
    · rfl
    next absent =>
      unfold announces
      rw [find_insert]
      by_cases same : other = key
      · subst same
        have none : state.keyStateWatcher.find other = none := by
          rw [← Option.not_isSome_iff_eq_none, Option.isSome_iff_exists]
          exact fun found => absent (mem_iff.mpr found)
        simp [none]
      · rw [if_neg same]
  · rfl

theorem announces_send (value : KeyState)
    (announces : (state.send key value).announces other = true) :
    (other = key ∧ value = .fetched) ∨ (other ≠ key ∧ state.announces other = true) := by
  cases found : state.keyStateWatcher.find key <;> by_cases same : other = key <;>
    simp_all [send, PrefetchState.announces, find_insert]

theorem fetchSequenceNumber_send (value : KeyState) :
    (state.send key value).fetchSequenceNumber = state.fetchSequenceNumber := by
  unfold send
  split <;> rfl

theorem find_fetchComplete (value : Option Bytes)
    (loading : state.buffer.keyState.find key = some (.loading number)) (other : Bytes) :
    (state.fetchComplete key value number).buffer.keyState.find other =
      if other = key then some .fetched else state.buffer.keyState.find other := by
  simp only [fetchComplete, if_pos loading, buffer_send, find_setKeyState]
  cases value <;> rfl

theorem announces_fetchComplete (value : Option Bytes)
    (loading : state.buffer.keyState.find key = some (.loading number)) (other : Bytes)
    (announces : (state.fetchComplete key value number).announces other = true) :
    other = key ∨ state.announces other = true := by
  simp only [fetchComplete, if_pos loading] at announces
  rcases announces_send _ announces with same | old
  · exact .inl same.1
  · cases value <;> exact .inr old.2

theorem fetchComplete_keeps (value : Option Bytes)
    (loading : state.buffer.keyState.find key = some (.loading number)) :
    (state.fetchComplete key value number).fetchSequenceNumber = state.fetchSequenceNumber ∧
    ∀ other, other ≠ key → (state.fetchComplete key value number).buffer.prefetchStore.find other =
      state.buffer.prefetchStore.find other := by
  simp only [fetchComplete, if_pos loading, buffer_send]
  constructor
  · rw [fetchSequenceNumber_send]
    cases value <;> rfl
  · intro other ne
    cases value
    · rfl
    · exact (find_insert ..).trans (if_neg ne)

theorem fetchFailed_keeps (loading : state.buffer.keyState.find key = some (.loading number)) :
    (state.fetchFailed key number).fetchSequenceNumber = state.fetchSequenceNumber ∧
    (state.fetchFailed key number).buffer.prefetchStore = state.buffer.prefetchStore := by
  rw [fetchFailed, if_pos loading, fetchSequenceNumber_send, buffer_send]
  exact ⟨rfl, rfl⟩

theorem buffer_delete : (state.delete key).buffer = state.buffer.delete key := by
  unfold delete
  split
  · exact buffer_send _
  · rfl

theorem fetchSequenceNumber_delete :
    (state.delete key).fetchSequenceNumber = state.fetchSequenceNumber := by
  unfold delete
  split
  · exact fetchSequenceNumber_send _
  · rfl

theorem find_store_delete : (state.delete key).buffer.prefetchStore.find other =
    if other = key ∧ state.buffer.keyState.find key ≠ none then none
    else state.buffer.prefetchStore.find other := by
  rw [buffer_delete]
  unfold PrefetchingBuffer.delete
  split
  next found => simp [found]
  next found => simp [found, find_erase]

theorem find_keyState_delete {keyState : KeyState} {number : Nat}
    (found : (state.delete key).buffer.keyState.find other = some keyState)
    (numbered : keyState.number = some number) :
    state.buffer.keyState.find other = some keyState ∧
      (other = key → keyState.isRequested = true) := by
  rw [buffer_delete] at found
  unfold PrefetchingBuffer.delete at found
  split at found
  next absent =>
    refine ⟨found, ?_⟩
    rintro rfl
    cases absent.symm.trans found
  next before present =>
    dsimp only at found
    split at found
    next =>
      rw [find_insert] at found
      split at found
      next =>
        cases found
        cases numbered
      next ne => exact ⟨found, fun same => absurd same ne⟩
    next idle =>
      refine ⟨found, ?_⟩
      rintro rfl
      cases keyState with
      | fetched => cases numbered
      | loading earlier =>
        cases present.symm.trans found
        exact absurd rfl (idle earlier)
      | requested => rfl

theorem find_fetchFailed (loading : state.buffer.keyState.find key = some (.loading number))
    (other : Bytes) : (state.fetchFailed key number).buffer.keyState.find other =
      if other = key then some (.requested number) else state.buffer.keyState.find other := by
  rw [fetchFailed, if_pos loading, buffer_send, find_setKeyState]

theorem announces_fetchFailed (loading : state.buffer.keyState.find key = some (.loading number))
    (other : Bytes) (announces : (state.fetchFailed key number).announces other = true) :
    state.announces other = true := by
  rw [fetchFailed, if_pos loading] at announces
  rcases announces_send _ announces with ⟨-, fetched⟩ | old
  · cases fetched
  · exact old.2

/-- What the first section of a request does, by the state of the key. -/
inductive Enters (state next : PrefetchState) (key : Bytes) : Progress → Prop where
  | fetched : state.buffer.keyState.find key = some .fetched →
      next.buffer.keyState.find = state.buffer.keyState.find →
      next.fetchSequenceNumber = state.fetchSequenceNumber →
      Enters state next key (.told .fetched)
  | loading {number : Nat} : state.buffer.keyState.find key = some (.loading number) →
      next.buffer.keyState.find = state.buffer.keyState.find →
      next.fetchSequenceNumber = state.fetchSequenceNumber →
      Enters state next key (.asking number)
  | requested {number : Nat} :
      (state.buffer.keyState.find key = some (.requested number) ∧
        next.fetchSequenceNumber = state.fetchSequenceNumber ∨
      state.buffer.keyState.find key = none ∧ number = state.fetchSequenceNumber + 1 ∧
        next.fetchSequenceNumber = number) →
      (∀ other, next.buffer.keyState.find other =
        if other = key then some (.loading number) else state.buffer.keyState.find other) →
      Enters state next key (.told (.requested number))

theorem fetchSequenceNumber_change :
    (state.changeKeystateToLoading key number).1.fetchSequenceNumber =
      state.fetchSequenceNumber := by
  unfold changeKeystateToLoading
  split
  · dsimp only
    split <;> rfl
  · rfl

theorem prefetchStore_change :
    (state.changeKeystateToLoading key number).1.buffer.prefetchStore =
      state.buffer.prefetchStore := by
  unfold changeKeystateToLoading
  split
  · dsimp only
    split <;> rfl
  · rfl

theorem changed_of_some {keyState : KeyState}
    (found : state.buffer.keyState.find key = some keyState) :
    (state.changeKeystateToLoading key number).2 = true := by
  unfold changeKeystateToLoading
  rw [found]

theorem enter_spec : (state.enter transaction key).keyStateWatcher = state.keyStateWatcher ∧
    (state.enter transaction key).buffer.prefetchStore = state.buffer.prefetchStore ∧
    (state.enter transaction key).fetchSequenceNumber = state.fetchSequenceNumber +
      if (state.buffer.keyState.find key).isSome then 0 else 1 := by
  unfold enter
  dsimp only
  split
  next present =>
    have found := Option.isSome_iff_exists.mpr (mem_iff.mp present)
    simp [found]
  next absent =>
    have none : ¬ (state.buffer.keyState.find key).isSome = true := by
      rw [Option.isSome_iff_exists]
      exact fun found => absent (mem_iff.mpr found)
    simp only [if_neg none]
    exact ⟨rfl, rfl, rfl⟩

theorem enters_processPrefetchRequest (transaction : Uuid) (key : Bytes) :
    Enters state (state.processPrefetchRequest transaction key).1 key
      (state.processPrefetchRequest transaction key).2 := by
  have entered := fun other => @find_keyState_enter state transaction key other
  have number := (@enter_spec state transaction key).2.2
  have same : ∀ keyState, state.buffer.keyState.find key = some keyState →
      (state.enter transaction key).buffer.keyState.find = state.buffer.keyState.find := by
    intro keyState found
    funext other
    rw [entered, found]
    split
    next here => rw [here, found]; rfl
    next => rfl
  have here := entered key
  rw [if_pos rfl] at here
  unfold processPrefetchRequest
  simp only [here]
  cases found : state.buffer.keyState.find key with
  | none =>
    rw [found] at number here
    simp only [Option.getD_none, changed_of_some here, if_true]
    refine .requested (.inr ⟨found, rfl, ?_⟩) fun other => ?_
    · rw [fetchSequenceNumber_change, number]
      rfl
    · rw [find_changeKeystateToLoading, entered]
      split <;> rfl
  | some keyState =>
    rw [found] at number here
    cases keyState with
    | fetched => exact .fetched found (same _ found) number
    | loading => exact .loading found (same _ found) number
    | requested =>
      simp only [Option.getD_some, changed_of_some here, if_true]
      refine .requested (.inl ⟨found, ?_⟩) fun other => ?_
      · rw [fetchSequenceNumber_change, number]
        rfl
      · rw [find_changeKeystateToLoading, same _ found]

theorem request_keeps (transaction : Uuid) (key : Bytes) :
    (∀ other, (state.processPrefetchRequest transaction key).1.announces other =
      state.announces other) ∧
    (state.processPrefetchRequest transaction key).1.buffer.prefetchStore =
      state.buffer.prefetchStore := by
  obtain ⟨watcher, store, -⟩ := @enter_spec state transaction key
  have announced : ∀ other, (state.enter transaction key).announces other =
      state.announces other := by
    intro other
    unfold announces
    rw [watcher]
  unfold processPrefetchRequest
  dsimp only
  split
  · exact ⟨announced, store⟩
  · exact ⟨announced, store⟩
  · refine ⟨fun other => ?_, prefetchStore_change.trans store⟩
    exact announces_changeKeystateToLoading.trans (announced other)
  · exact ⟨announced, store⟩

/-- A key is evicted or left alone. -/
theorem evicted_or_kept (transaction : Uuid) (key : Bytes) :
    ((state.processTransactionComplete transaction).buffer.prefetchStore.find key = none ∧
      (state.processTransactionComplete transaction).buffer.keyState.find key = none ∧
      ∃ keys, state.transactionKeys.find transaction = some keys ∧ key ∈ keys ∧
        leave transaction (state.keyTransactions.find key) = none) ∨
    (state.processTransactionComplete transaction).buffer.prefetchStore.find key =
        state.buffer.prefetchStore.find key ∧
      (state.processTransactionComplete transaction).buffer.keyState.find key =
        state.buffer.keyState.find key := by
  unfold processTransactionComplete
  dsimp only
  split
  next keys found =>
    have entry := @entry_foldl_removeKey state transaction keys key
    split at entry
    next listed =>
      unfold dropped at entry
      split at entry
      next last =>
        have parts := Prod.mk.inj (Prod.mk.inj entry).2
        exact .inl ⟨parts.1, parts.2, keys, found, listed, last⟩
      next => exact .inr (Prod.mk.inj (Prod.mk.inj entry).2)
    next => exact .inr (Prod.mk.inj (Prod.mk.inj entry).2)
  next => exact .inr ⟨rfl, rfl⟩

theorem complete_keeps (transaction : Uuid) :
    (state.processTransactionComplete transaction).keyStateWatcher = state.keyStateWatcher ∧
    (state.processTransactionComplete transaction).fetchSequenceNumber =
      state.fetchSequenceNumber := by
  have removed : ∀ (keys : List Bytes) (state : PrefetchState),
      (keys.foldl (removeKey transaction) state).keyStateWatcher = state.keyStateWatcher ∧
      (keys.foldl (removeKey transaction) state).fetchSequenceNumber =
        state.fetchSequenceNumber := by
    intro keys
    induction keys with
    | nil => exact fun _ => ⟨rfl, rfl⟩
    | cons key rest ih =>
      intro state
      refine (ih _).imp (·.trans ?_) (·.trans ?_) <;>
        · unfold removeKey
          dsimp only
          split <;> rfl
  unfold processTransactionComplete
  dsimp only
  split
  · exact removed ..
  · exact ⟨rfl, rfl⟩

end PrefetchState

/-! ## The steps -/

namespace Prefetching

inductive Moves (prefetching : Prefetching) : Label → Prefetching → Prop where
  | request {id transaction key state progress} : prefetching.callers.find id = none →
      PrefetchState.Enters prefetching.state state key progress →
      (∀ other, state.announces other = prefetching.state.announces other) →
      state.buffer.prefetchStore = prefetching.state.buffer.prefetchStore →
      Moves prefetching (.request id transaction key)
        ⟨state, prefetching.callers.insert id ⟨transaction, key, progress⟩⟩
  | clone {id caller number progress} : prefetching.callers.find id = some caller →
      caller.progress = .asking number →
      (progress = .waiting number ∨ progress = .told (.loading number)) →
      Moves prefetching (.cloneWatcher id) ⟨prefetching.state, prefetching.set id caller progress⟩
  | wake {id caller number progress} : prefetching.callers.find id = some caller →
      caller.progress = .waiting number →
      (progress = .told .fetched ∧ prefetching.state.announces caller.key = true ∨
        progress = .retrying number) →
      Moves prefetching (.wake id) ⟨prefetching.state, prefetching.set id caller progress⟩
  | retry {id caller number} : prefetching.callers.find id = some caller →
      caller.progress = .retrying number →
      Moves prefetching (.retry id)
        ⟨(prefetching.state.changeKeystateToLoading caller.key number).1, prefetching.set id caller
          (if (prefetching.state.changeKeystateToLoading caller.key number).2 then
            .told (.requested number) else .panicked)⟩
  | complete {id caller number value} : prefetching.callers.find id = some caller →
      caller.fetch = some number →
      Moves prefetching (.complete id value)
        ⟨prefetching.state.fetchComplete caller.key value number,
          prefetching.set id caller .finished⟩
  | fail {id caller number} : prefetching.callers.find id = some caller →
      caller.fetch = some number →
      Moves prefetching (.fail id)
        ⟨prefetching.state.fetchFailed caller.key number, prefetching.set id caller .finished⟩
  | upsert {key value} :
      Moves prefetching (.upsert key value)
        ⟨prefetching.state.upsert key value, prefetching.callers⟩
  | delete {key} :
      Moves prefetching (.delete key) ⟨prefetching.state.delete key, prefetching.callers⟩
  | transactionComplete {transaction} : Moves prefetching (.transactionComplete transaction)
      ⟨prefetching.state.processTransactionComplete transaction, prefetching.callers⟩

variable {prefetching next : Prefetching} {label : Label} {key other : Bytes} {id : Nat}

theorem Moves.of_step (taken : prefetching.step label = some next) :
    Moves prefetching label next := by
  cases label with
  | request id transaction key =>
    simp only [step] at taken
    split at taken
    next => cases taken
    next absent =>
      cases taken
      obtain ⟨announces, store⟩ := @PrefetchState.request_keeps prefetching.state transaction key
      refine .request ?_ (PrefetchState.enters_processPrefetchRequest transaction key) announces
        store
      rw [← Option.not_isSome_iff_eq_none, Option.isSome_iff_exists]
      exact fun found => absent (mem_iff.mpr found)
  | upsert | delete | transactionComplete =>
    cases taken
    constructor
  | cloneWatcher id =>
    obtain ⟨caller, found, advanced⟩ := Option.bind_eq_some_iff.mp taken
    simp only [advance] at advanced
    split at advanced
    next asking =>
      cases advanced
      refine .clone found asking ?_
      split <;> simp
    next => cases advanced
  | wake id =>
    obtain ⟨caller, found, advanced⟩ := Option.bind_eq_some_iff.mp taken
    simp only [advance] at advanced
    split at advanced
    next channel waiting watched =>
      split at advanced
      next => cases advanced
      next sent =>
        cases advanced
        refine .wake found waiting ?_
        simp only [PrefetchState.announces, watched]
        split <;> simp_all
    next => cases advanced
  | retry id =>
    obtain ⟨caller, found, advanced⟩ := Option.bind_eq_some_iff.mp taken
    simp only [advance] at advanced
    split at advanced
    next retrying =>
      cases advanced
      exact .retry found retrying
    next => cases advanced
  | complete id value =>
    obtain ⟨caller, found, advanced⟩ := Option.bind_eq_some_iff.mp taken
    obtain ⟨number, fetch, rfl⟩ := Option.map_eq_some_iff.mp advanced
    exact .complete found fetch
  | fail id =>
    obtain ⟨caller, found, advanced⟩ := Option.bind_eq_some_iff.mp taken
    obtain ⟨number, fetch, rfl⟩ := Option.map_eq_some_iff.mp advanced
    exact .fail found fetch

/-- A value enters the buffer by the end of a fetch or by an upsert. -/
theorem getFromBuffer_of_step {value : Bytes} (taken : prefetching.step label = some next)
    (buffered : next.state.buffer.getFromBuffer key = some value) :
    prefetching.state.buffer.getFromBuffer key = some value ∨
      (∃ id caller, label = .complete id (some value) ∧
        prefetching.callers.find id = some caller ∧ caller.key = key) ∨
      label = .upsert key value := by
  unfold PrefetchingBuffer.getFromBuffer at buffered ⊢
  cases Moves.of_step taken with
  | request _ _ _ store => exact .inl (store ▸ buffered)
  | clone | wake => exact .inl buffered
  | retry =>
    rw [PrefetchState.prefetchStore_change] at buffered
    exact .inl buffered
  | @complete id caller number handed found =>
    by_cases loading : prefetching.state.buffer.keyState.find caller.key = some (.loading number)
    · by_cases same : key = caller.key
      · subst same
        simp only [PrefetchState.fetchComplete, if_pos loading, PrefetchState.buffer_send]
          at buffered
        cases handed with
        | none => exact .inl buffered
        | some data =>
          cases (find_insert_self ..).symm.trans buffered
          exact .inr (.inl ⟨id, caller, rfl, found, rfl⟩)
      · rw [(PrefetchState.fetchComplete_keeps handed loading).2 key same] at buffered
        exact .inl buffered
    · simp only [PrefetchState.fetchComplete, if_neg loading] at buffered
      exact .inl buffered
  | @fail id caller number =>
    by_cases loading : prefetching.state.buffer.keyState.find caller.key = some (.loading number)
    · rw [(PrefetchState.fetchFailed_keeps loading).2] at buffered
      exact .inl buffered
    · rw [PrefetchState.fetchFailed, if_neg loading] at buffered
      exact .inl buffered
  | @upsert other data =>
    rcases eq_or_find_of_insert buffered with ⟨rfl, rfl⟩ | ⟨_, before⟩
    · exact .inr (.inr rfl)
    · exact .inl before
  | delete =>
    rw [PrefetchState.find_store_delete] at buffered
    split at buffered
    next => cases buffered
    next => exact .inl buffered
  | @transactionComplete transaction =>
    rcases @PrefetchState.evicted_or_kept prefetching.state transaction key with gone | kept
    · cases gone.1.symm.trans buffered
    · exact .inl (kept.1 ▸ buffered)

/-- The callers that fetch the key. -/
def fetching (prefetching : Prefetching) (key : Bytes) : Finset Nat :=
  prefetching.callers.keys.filter fun id => (prefetching.callers.find id).any fun caller =>
    decide (caller.key = key ∧ caller.fetch ≠ none)

/-- The callers whose key is fetched. -/
def sees (prefetching : Prefetching) : Finset Nat :=
  prefetching.callers.keys.filter fun id => (prefetching.callers.find id).any fun caller =>
    decide (prefetching.state.buffer.keyState.find caller.key = some .fetched)

theorem mem_fetching : id ∈ prefetching.fetching key ↔ ∃ caller,
    prefetching.callers.find id = some caller ∧ caller.key = key ∧ caller.fetch ≠ none := by
  rw [fetching, Finset.mem_filter, mem_keys]
  cases prefetching.callers.find id <;> simp

theorem mem_sees : id ∈ prefetching.sees ↔ ∃ caller, prefetching.callers.find id = some caller ∧
    prefetching.state.buffer.keyState.find caller.key = some .fetched := by
  rw [sees, Finset.mem_filter, mem_keys]
  cases prefetching.callers.find id <;> simp

end Prefetching

end Sangria.RangeServer
