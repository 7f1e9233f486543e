import Sangria.Lib.TransitionSystem
import Sangria.RangeServer.PrefetchingBuffer

/-!
# The bookkeeping of the prefetching buffer

The whole state behind the mutex of the buffer, and its methods cut at the
mutex: a request that finds its key loading gives the mutex back and waits on
the watch channel of the key.  Who requested what is kept in two maps that are
the inverse of each other.
-/

namespace Sangria.RangeServer

open FiniteMap
open TransitionSystem (Reachable)

/-- A watch channel.  The stored receiver, and so each clone of it, has seen nothing sent. -/
structure WatchChannel where
  sent : Nat
  value : KeyState
  deriving DecidableEq

structure PrefetchState where
  buffer : PrefetchingBuffer
  transactionKeys : HashMap Uuid (List Bytes)
  keyTransactions : HashMap Bytes (Finset Uuid)
  keyStateWatcher : HashMap Bytes WatchChannel
  fetchSequenceNumber : Nat

/-- How far a section of `process_prefetch_request` came. -/
inductive Progress where
  | told (state : KeyState)
  | asking (fetchSequenceNumber : Nat)
  | waiting (fetchSequenceNumber : Nat)
  | retrying (fetchSequenceNumber : Nat)
  | finished
  | panicked
  deriving DecidableEq

namespace PrefetchState

def new : PrefetchState := ⟨.new, ∅, ∅, ∅, 0⟩

variable {state : PrefetchState} {transaction : Uuid} {key other : Bytes} {number : Nat}

/-! ## The methods -/

def addToTransactionKeys (transactionKeys : HashMap Uuid (List Bytes)) (transaction : Uuid)
    (key : Bytes) : HashMap Uuid (List Bytes) :=
  match transactionKeys.find transaction with
  | some keys => transactionKeys.insert transaction (keys.insert key)
  | none => transactionKeys.insert transaction [key]

def addToKeyTransactions (keyTransactions : HashMap Bytes (Finset Uuid)) (transaction : Uuid)
    (key : Bytes) : HashMap Bytes (Finset Uuid) :=
  match keyTransactions.find key with
  | some transactions => keyTransactions.insert key (insert transaction transactions)
  | none => keyTransactions.insert key {transaction}

def setKeyState (state : PrefetchState) (key : Bytes) (keyState : KeyState) : PrefetchState :=
  { state with buffer :=
    { state.buffer with keyState := state.buffer.keyState.insert key keyState } }

/-- The state is set in any case; the flag is false where the source returns an error. -/
def changeKeystateToLoading (state : PrefetchState) (key : Bytes) (number : Nat) :
    PrefetchState × Bool :=
  let changed := state.setKeyState key (.loading number)
  match state.buffer.keyState.find key with
  | some _ =>
    (if key ∈ state.keyStateWatcher then changed
      else { changed with
        keyStateWatcher := state.keyStateWatcher.insert key ⟨0, .loading number⟩ }, true)
  | none => (changed, false)

/-- The requests are logged and the key gets a state. -/
def enter (state : PrefetchState) (transaction : Uuid) (key : Bytes) : PrefetchState :=
  let logged := { state with
    transactionKeys := addToTransactionKeys state.transactionKeys transaction key
    keyTransactions := addToKeyTransactions state.keyTransactions transaction key }
  if key ∈ state.buffer.keyState then logged
  else { logged with fetchSequenceNumber := state.fetchSequenceNumber + 1 }.setKeyState key
    (.requested (state.fetchSequenceNumber + 1))

/-- The first section of a request. -/
def processPrefetchRequest (state : PrefetchState) (transaction : Uuid) (key : Bytes) :
    PrefetchState × Progress :=
  let entered := state.enter transaction key
  match entered.buffer.keyState.find key with
  | some .fetched => (entered, .told .fetched)
  | some (.loading number) => (entered, .asking number)
  | some (.requested number) =>
    ((entered.changeKeystateToLoading key number).1,
      if (entered.changeKeystateToLoading key number).2 then .told (.requested number)
      else .panicked)
  | none => (entered, .panicked)

def send (state : PrefetchState) (key : Bytes) (value : KeyState) : PrefetchState :=
  match state.keyStateWatcher.find key with
  | some channel =>
    { state with keyStateWatcher := state.keyStateWatcher.insert key ⟨channel.sent + 1, value⟩ }
  | none => state

def fetchComplete (state : PrefetchState) (key : Bytes) (value : Option Bytes) (number : Nat) :
    PrefetchState :=
  if state.buffer.keyState.find key = some (.loading number) then
    let stored := match value with
      | some data => { state with buffer := state.buffer.upsert key data }
      | none => state
    (stored.setKeyState key .fetched).send key .fetched
  else state

def fetchFailed (state : PrefetchState) (key : Bytes) (number : Nat) : PrefetchState :=
  if state.buffer.keyState.find key = some (.loading number) then
    (state.setKeyState key (.requested number)).send key (.requested number)
  else state

def upsert (state : PrefetchState) (key value : Bytes) : PrefetchState :=
  { state with buffer := state.buffer.upsert key value }

def delete (state : PrefetchState) (key : Bytes) : PrefetchState :=
  let deleted := { state with buffer := state.buffer.delete key }
  match state.buffer.keyState.find key with
  | some (.loading _) => deleted.send key .fetched
  | _ => deleted

def evictKey (state : PrefetchState) (key : Bytes) : PrefetchState :=
  { state with buffer := ⟨state.buffer.prefetchStore.erase key, state.buffer.keyState.erase key⟩ }

def removeFromKeyTransactions (keyTransactions : HashMap Bytes (Finset Uuid)) (transaction : Uuid)
    (key : Bytes) : HashMap Bytes (Finset Uuid) :=
  match keyTransactions.find key with
  | some transactions =>
    if transactions.erase transaction = ∅ then keyTransactions.erase key
    else keyTransactions.insert key (transactions.erase transaction)
  | none => keyTransactions

def removeKey (transaction : Uuid) (state : PrefetchState) (key : Bytes) : PrefetchState :=
  let removed := { state with
    keyTransactions := removeFromKeyTransactions state.keyTransactions transaction key }
  if key ∈ removed.keyTransactions then removed else removed.evictKey key

def processTransactionComplete (state : PrefetchState) (transaction : Uuid) : PrefetchState :=
  let removed := match state.transactionKeys.find transaction with
    | some keys => keys.foldl (removeKey transaction) state
    | none => state
  { removed with transactionKeys := removed.transactionKeys.erase transaction }

/-- What runs under the mutex: the first and the last section of a request, with any key and
number, and the other methods. -/
inductive Call where
  | request (transaction : Uuid) (key : Bytes)
  | retry (key : Bytes) (number : Nat)
  | fetchComplete (key : Bytes) (value : Option Bytes) (number : Nat)
  | fetchFailed (key : Bytes) (number : Nat)
  | upsert (key value : Bytes)
  | delete (key : Bytes)
  | transactionComplete (transaction : Uuid)

def call (state : PrefetchState) : Call → PrefetchState
  | .request transaction key => (state.processPrefetchRequest transaction key).1
  | .retry key number => (state.changeKeystateToLoading key number).1
  | .fetchComplete key value number => state.fetchComplete key value number
  | .fetchFailed key number => state.fetchFailed key number
  | .upsert key value => state.upsert key value
  | .delete key => state.delete key
  | .transactionComplete transaction => state.processTransactionComplete transaction

/-! ## What a call does to a key -/

@[simp]
theorem find_setKeyState (keyState : KeyState) :
    (state.setKeyState key keyState).buffer.keyState.find other =
      if other = key then some keyState else state.buffer.keyState.find other :=
  find_insert ..

theorem send_eq (value : KeyState) : ∃ channels,
    state.send key value = { state with keyStateWatcher := channels } := by
  unfold send
  split
  · exact ⟨_, rfl⟩
  · exact ⟨state.keyStateWatcher, rfl⟩

@[simp]
theorem buffer_send (value : KeyState) : (state.send key value).buffer = state.buffer := by
  unfold send
  split <;> rfl

@[simp]
theorem find_changeKeystateToLoading :
    (state.changeKeystateToLoading key number).1.buffer.keyState.find other =
      if other = key then some (.loading number) else state.buffer.keyState.find other := by
  unfold changeKeystateToLoading
  split
  · dsimp only
    split <;> exact find_setKeyState _
  · exact find_setKeyState _

theorem find_keyState_enter : (state.enter transaction key).buffer.keyState.find other =
    if other = key then
      some ((state.buffer.keyState.find key).getD (.requested (state.fetchSequenceNumber + 1)))
    else state.buffer.keyState.find other := by
  unfold enter
  split
  next present =>
    obtain ⟨keyState, found⟩ := mem_iff.mp present
    split
    next same =>
      rw [same, found]
      rfl
    next => rfl
  next absent =>
    have none : state.buffer.keyState.find key = none := by
      rw [← Option.not_isSome_iff_eq_none, Option.isSome_iff_exists]
      exact fun found => absent (mem_iff.mpr found)
    rw [find_setKeyState, none]
    rfl

/-! ## The two maps -/

/-- What remains of the transactions of a key, which has no empty set. -/
def leave (transaction : Uuid) : Option (Finset Uuid) → Option (Finset Uuid)
  | some transactions =>
    if transactions.erase transaction = ∅ then none else some (transactions.erase transaction)
  | none => none

/-- The transactions, the value and the state of a key. -/
abbrev Entry := Option (Finset Uuid) × Option Bytes × Option KeyState

def entry (state : PrefetchState) (key : Bytes) : Entry :=
  (state.keyTransactions.find key, state.buffer.prefetchStore.find key,
    state.buffer.keyState.find key)

def dropped (transaction : Uuid) (entry : Entry) : Entry :=
  if leave transaction entry.1 = none then (none, none, none)
  else (leave transaction entry.1, entry.2)

theorem leave_leave (txs : Option (Finset Uuid)) :
    leave transaction (leave transaction txs) = leave transaction txs := by
  cases txs with
  | none => rfl
  | some txs =>
    by_cases last : txs.erase transaction = ∅
    · simp [leave, last]
    · simp [leave, last]

theorem dropped_dropped (entry : Entry) :
    dropped transaction (dropped transaction entry) = dropped transaction entry := by
  unfold dropped
  split
  next => rfl
  next some => simp only [leave_leave, if_neg some]

theorem find_removeFromKeyTransactions {keyTransactions : HashMap Bytes (Finset Uuid)} :
    (removeFromKeyTransactions keyTransactions transaction key).find other =
      if other = key then leave transaction (keyTransactions.find key)
      else keyTransactions.find other := by
  unfold removeFromKeyTransactions leave
  split
  next txs found =>
    by_cases last : txs.erase transaction = ∅
    · rw [if_pos last, if_pos last, find_erase]
    · rw [if_neg last, if_neg last, find_insert]
  next found =>
    split
    next same => rw [same, found]
    next => rfl

theorem entry_removeKey : (removeKey transaction state key).entry other =
    if other = key then dropped transaction (state.entry key) else state.entry other := by
  have left := fun other => @find_removeFromKeyTransactions transaction key other
    state.keyTransactions
  unfold removeKey dropped
  dsimp only
  split
  next present =>
    obtain ⟨txs, found⟩ := mem_iff.mp present
    rw [left key, if_pos rfl] at found
    unfold entry
    rw [left, found]
    split
    next same => rw [same, if_neg (Option.some_ne_none _)]
    next => rfl
  next absent =>
    have gone : leave transaction (state.keyTransactions.find key) = none := by
      rw [← Option.not_isSome_iff_eq_none, Option.isSome_iff_exists]
      intro found
      refine absent (mem_iff.mpr ?_)
      rw [left key, if_pos rfl]
      exact found
    unfold entry evictKey
    simp only [left, gone, find_erase, if_true]
    split <;> rfl

theorem entry_foldl_removeKey (keys : List Bytes) (other : Bytes) :
    (keys.foldl (removeKey transaction) state).entry other =
      if other ∈ keys then dropped transaction (state.entry other) else state.entry other := by
  induction keys generalizing state with
  | nil => rfl
  | cons key rest ih =>
    rw [List.foldl_cons, ih, entry_removeKey]
    by_cases same : other = key
    · subst same
      simp [dropped_dropped]
    · simp [same]

theorem transactionKeys_foldl_removeKey (keys : List Bytes) :
    (keys.foldl (removeKey transaction) state).transactionKeys = state.transactionKeys := by
  induction keys generalizing state with
  | nil => rfl
  | cons key rest ih =>
    rw [List.foldl_cons, ih]
    unfold removeKey
    dsimp only
    split <;> rfl

/-- The bookkeeping, beside the requests of the transactions that are not complete. -/
structure Books (state : PrefetchState) (requested : Finset (Uuid × Bytes)) : Prop where
  keys : ∀ transaction key, (∃ keys, state.transactionKeys.find transaction = some keys ∧
    key ∈ keys) ↔ (transaction, key) ∈ requested
  transactions : ∀ transaction key, (∃ transactions,
    state.keyTransactions.find key = some transactions ∧ transaction ∈ transactions) ↔
      (transaction, key) ∈ requested
  nonempty : ∀ key transactions, state.keyTransactions.find key = some transactions →
    transactions ≠ ∅
  stated : ∀ key transactions, state.keyTransactions.find key = some transactions →
    ∃ keyState, state.buffer.keyState.find key = some keyState

variable {requested : Finset (Uuid × Bytes)} {next : PrefetchState}

/-- The maps are unchanged, and no key loses its state. -/
structure Keeps (state next : PrefetchState) : Prop where
  transactionKeys : next.transactionKeys = state.transactionKeys
  keyTransactions : next.keyTransactions = state.keyTransactions
  stated : ∀ key keyState, state.buffer.keyState.find key = some keyState →
    ∃ keyState, next.buffer.keyState.find key = some keyState

theorem Keeps.trans {last : PrefetchState} (first : Keeps state next) (second : Keeps next last) :
    Keeps state last where
  transactionKeys := second.transactionKeys.trans first.transactionKeys
  keyTransactions := second.keyTransactions.trans first.keyTransactions
  stated := fun key keyState found =>
    let ⟨later, found⟩ := first.stated key keyState found
    second.stated key later found

theorem Keeps.setKeyState (keyState : KeyState) : Keeps state (state.setKeyState key keyState) := by
  refine ⟨rfl, rfl, fun other old found => ?_⟩
  rw [find_setKeyState]
  split
  · exact ⟨keyState, rfl⟩
  · exact ⟨old, found⟩

theorem Keeps.send (value : KeyState) : Keeps state (state.send key value) := by
  obtain ⟨channels, sent⟩ := @send_eq state key value
  rw [sent]
  exact ⟨rfl, rfl, fun _ old found => ⟨old, found⟩⟩

theorem Keeps.changeKeystateToLoading :
    Keeps state (state.changeKeystateToLoading key number).1 := by
  have set := @Keeps.setKeyState state key (.loading number)
  unfold PrefetchState.changeKeystateToLoading
  split
  · dsimp only
    split
    · exact set
    · exact set.trans ⟨rfl, rfl, fun _ old found => ⟨old, found⟩⟩
  · exact set

theorem Keeps.delete : Keeps state (state.delete key) := by
  have erased : Keeps state { state with buffer := state.buffer.delete key } := by
    refine ⟨rfl, rfl, fun other old found => ?_⟩
    simp only [PrefetchingBuffer.delete]
    split
    next => exact ⟨old, found⟩
    next =>
      dsimp only
      split
      · exact (@Keeps.setKeyState state key .fetched).stated other old found
      · exact ⟨old, found⟩
  unfold PrefetchState.delete
  split
  · exact erased.trans (.send _)
  · exact erased

theorem Books.keep (books : Books state requested) (keeps : Keeps state next) :
    Books next requested where
  keys := by
    rw [keeps.transactionKeys]
    exact books.keys
  transactions := by
    rw [keeps.keyTransactions]
    exact books.transactions
  nonempty := by
    rw [keeps.keyTransactions]
    exact books.nonempty
  stated := by
    rw [keeps.keyTransactions]
    intro key txs found
    obtain ⟨keyState, stated⟩ := books.stated key txs found
    exact keeps.stated key keyState stated

theorem find_addToTransactionKeys {transactionKeys : HashMap Uuid (List Bytes)} {owner : Uuid} :
    (∃ keys, (addToTransactionKeys transactionKeys transaction key).find owner = some keys ∧
      other ∈ keys) ↔
      (owner = transaction ∧ other = key) ∨
        ∃ keys, transactionKeys.find owner = some keys ∧ other ∈ keys := by
  unfold addToTransactionKeys
  split <;> rw [find_insert] <;> by_cases same : owner = transaction <;> simp_all

theorem find_addToKeyTransactions {keyTransactions : HashMap Bytes (Finset Uuid)} :
    (addToKeyTransactions keyTransactions transaction key).find other =
      if other = key then some (insert transaction ((keyTransactions.find key).getD ∅))
      else keyTransactions.find other := by
  unfold addToKeyTransactions
  split <;> rename_i found <;> rw [find_insert, found] <;> rfl

theorem Books.enter (books : Books state requested) :
    Books (state.enter transaction key) (insert (transaction, key) requested) := by
  have keys : (state.enter transaction key).transactionKeys =
      addToTransactionKeys state.transactionKeys transaction key := by
    unfold PrefetchState.enter
    dsimp only
    split <;> rfl
  have txs : (state.enter transaction key).keyTransactions =
      addToKeyTransactions state.keyTransactions transaction key := by
    unfold PrefetchState.enter
    dsimp only
    split <;> rfl
  constructor
  · intro owner other
    rw [keys, find_addToTransactionKeys, books.keys, Finset.mem_insert, Prod.mk.injEq]
  · intro owner other
    rw [txs, find_addToKeyTransactions, Finset.mem_insert, Prod.mk.injEq,
      ← books.transactions]
    by_cases same : other = key
    · subst same
      cases found : state.keyTransactions.find other <;> simp
    · simp [same]
  · intro other owners found
    rw [txs, find_addToKeyTransactions] at found
    split at found
    · cases found
      exact Finset.insert_ne_empty _ _
    · exact books.nonempty other owners found
  · intro other owners found
    rw [txs, find_addToKeyTransactions] at found
    rw [find_keyState_enter]
    split at found
    next same => exact ⟨_, if_pos same⟩
    next ne =>
      rw [if_neg ne]
      exact books.stated other owners found

theorem entry_processTransactionComplete (books : Books state requested) :
    ((transaction, key) ∈ requested →
      (state.processTransactionComplete transaction).entry key =
        dropped transaction (state.entry key)) ∧
    ((transaction, key) ∉ requested →
      (state.processTransactionComplete transaction).entry key = state.entry key) := by
  rw [← books.keys]
  cases found : state.transactionKeys.find transaction with
  | none =>
    have same : (state.processTransactionComplete transaction).entry key = state.entry key := by
      simp only [processTransactionComplete, found]
      rfl
    simp [same]
  | some keys =>
    have same : (state.processTransactionComplete transaction).entry key =
        (keys.foldl (removeKey transaction) state).entry key := by
      simp only [processTransactionComplete, found]
      rfl
    simp +contextual [same, entry_foldl_removeKey]

theorem find_transactionKeys_complete (owner : Uuid) :
    (state.processTransactionComplete transaction).transactionKeys.find owner =
      if owner = transaction then none else state.transactionKeys.find owner := by
  unfold processTransactionComplete
  split
  · dsimp only
    rw [transactionKeys_foldl_removeKey, find_erase]
  · dsimp only
    rw [find_erase]

theorem mem_leave {owner : Uuid} {txs : Option (Finset Uuid)} :
    (∃ owners, leave transaction txs = some owners ∧ owner ∈ owners) ↔
      owner ≠ transaction ∧ ∃ owners, txs = some owners ∧ owner ∈ owners := by
  cases txs with
  | none => simp [leave]
  | some owners =>
    by_cases last : owners.erase transaction = ∅
    · have only : owner ≠ transaction → owner ∉ owners := by
        intro ne member
        have kept := Finset.mem_erase.mpr ⟨ne, member⟩
        rw [last] at kept
        exact Finset.notMem_empty _ kept
      simpa [leave, last] using only
    · simp [leave, last]

theorem find_keyTransactions_complete (books : Books state requested) (key : Bytes) :
    (state.processTransactionComplete transaction).keyTransactions.find key =
      leave transaction (state.keyTransactions.find key) := by
  obtain ⟨removed, kept⟩ := @entry_processTransactionComplete state transaction key requested books
  by_cases req : (transaction, key) ∈ requested
  · have fst := congrArg Prod.fst (removed req)
    change _ = (dropped transaction (state.entry key)).1 at fst
    refine fst.trans ?_
    unfold dropped
    split
    next none => exact none.symm
    next => rfl
  · refine (congrArg Prod.fst (kept req)).trans ?_
    change state.keyTransactions.find key = _
    rw [← books.transactions] at req
    cases found : state.keyTransactions.find key with
    | none => rfl
    | some owners =>
      have absent : transaction ∉ owners := fun member => req ⟨owners, found, member⟩
      rw [leave, Finset.erase_eq_of_notMem absent, if_neg (books.nonempty key owners found)]

theorem Books.complete (books : Books state requested) :
    Books (state.processTransactionComplete transaction)
      (requested.filter fun req => req.1 ≠ transaction) := by
  constructor
  · intro owner key
    rw [find_transactionKeys_complete, Finset.mem_filter, ← books.keys]
    split <;> simp_all
  · intro owner key
    rw [find_keyTransactions_complete books, mem_leave, Finset.mem_filter, ← books.transactions,
      and_comm]
  · intro key owners found
    rw [find_keyTransactions_complete books] at found
    unfold leave at found
    split at found
    next =>
      split at found
      next => cases found
      next some =>
        cases found
        exact some
    next => cases found
  · intro key owners found
    rw [find_keyTransactions_complete books] at found
    obtain ⟨before, old⟩ : ∃ before, state.keyTransactions.find key = some before := by
      cases old : state.keyTransactions.find key with
      | none =>
        rw [old] at found
        cases found
      | some before => exact ⟨before, rfl⟩
    obtain ⟨keyState, stated⟩ := books.stated key before old
    refine ⟨keyState, Eq.trans ?_ stated⟩
    obtain ⟨removed, kept⟩ :=
      @entry_processTransactionComplete state transaction key requested books
    by_cases req : (transaction, key) ∈ requested
    · refine (congrArg (·.2.2) (removed req)).trans ?_
      unfold dropped
      rw [if_neg]
      · rfl
      · change leave transaction (state.keyTransactions.find key) ≠ none
        rw [found]
        exact Option.some_ne_none _
    · exact congrArg (·.2.2) (kept req)

end PrefetchState

/-- A buffer, and an observer: the requests of the transactions that are not complete. -/
structure RecordedPrefetch where
  state : PrefetchState
  requested : Finset (Uuid × Bytes)

namespace RecordedPrefetch

open PrefetchState (Books Call Keeps)

variable {recorded : RecordedPrefetch}

def step (recorded : RecordedPrefetch) (call : Call) : Option RecordedPrefetch :=
  some ⟨recorded.state.call call, match call with
    | .request transaction key => insert (transaction, key) recorded.requested
    | .transactionComplete transaction =>
      recorded.requested.filter fun request => request.1 ≠ transaction
    | _ => recorded.requested⟩

def Initial (recorded : RecordedPrefetch) : Prop := recorded = ⟨.new, ∅⟩

/-- The transaction requests the key, and no other one that is not complete does. -/
def OnlyBy (recorded : RecordedPrefetch) (transaction : Uuid) (key : Bytes) : Prop :=
  (transaction, key) ∈ recorded.requested ∧
    ∀ other, (other, key) ∈ recorded.requested → other = transaction

theorem keeps_processPrefetchRequest {state : PrefetchState} {transaction : Uuid} {key : Bytes} :
    Keeps (state.enter transaction key) (state.processPrefetchRequest transaction key).1 := by
  have same : Keeps (state.enter transaction key) (state.enter transaction key) :=
    ⟨rfl, rfl, fun _ old found => ⟨old, found⟩⟩
  unfold PrefetchState.processPrefetchRequest
  dsimp only
  split
  · exact same
  · exact same
  · exact .changeKeystateToLoading
  · exact same

theorem books_step {next : RecordedPrefetch} {call : Call}
    (books : Books recorded.state recorded.requested) (taken : recorded.step call = some next) :
    Books next.state next.requested := by
  cases taken
  cases call with
  | request => exact books.enter.keep keeps_processPrefetchRequest
  | retry => exact books.keep .changeKeystateToLoading
  | fetchComplete key value number =>
    refine books.keep ?_
    simp only [PrefetchState.call, PrefetchState.fetchComplete]
    split
    · refine Keeps.trans ?_ (.send _)
      split
      next data =>
        have stored : Keeps recorded.state (recorded.state.upsert key data) :=
          ⟨rfl, rfl, fun _ old found => ⟨old, found⟩⟩
        exact stored.trans (.setKeyState _)
      next => exact .setKeyState _
    · exact ⟨rfl, rfl, fun _ old found => ⟨old, found⟩⟩
  | fetchFailed =>
    refine books.keep ?_
    simp only [PrefetchState.call, PrefetchState.fetchFailed]
    split
    · exact (Keeps.setKeyState _).trans (.send _)
    · exact ⟨rfl, rfl, fun _ old found => ⟨old, found⟩⟩
  | upsert => exact books.keep ⟨rfl, rfl, fun _ old found => ⟨old, found⟩⟩
  | delete => exact books.keep .delete
  | transactionComplete => exact books.complete

/-- The maps agree with the requests, and a complete transaction takes along the keys that
only it requests. -/
theorem books_consistent (reached : Reachable step (fun _ _ => True) Initial recorded) :
    Books recorded.state recorded.requested ∧ ∀ transaction key,
      (recorded.OnlyBy transaction key →
        (recorded.state.processTransactionComplete transaction).buffer.prefetchStore.find key =
          none ∧
        (recorded.state.processTransactionComplete transaction).buffer.keyState.find key = none) ∧
      (¬ recorded.OnlyBy transaction key →
        (recorded.state.processTransactionComplete transaction).buffer.prefetchStore.find key =
          recorded.state.buffer.prefetchStore.find key ∧
        (recorded.state.processTransactionComplete transaction).buffer.keyState.find key =
          recorded.state.buffer.keyState.find key) := by
  have books : Books recorded.state recorded.requested := by
    refine @Reachable.invariant _ _ step (fun _ _ => True) Initial
      (fun recorded => Books recorded.state recorded.requested) ?_ ?_ _ reached
    · rintro _ rfl
      constructor <;> simp [PrefetchState.new]
    · intro state next call books _ taken
      exact books_step books taken
  refine ⟨books, fun transaction key => ?_⟩
  obtain ⟨removed, kept⟩ :=
    @PrefetchState.entry_processTransactionComplete recorded.state transaction key _ books
  by_cases request : (transaction, key) ∈ recorded.requested
  · obtain ⟨owners, found, member⟩ := (books.transactions transaction key).mpr request
    have entry := congrArg Prod.snd (removed request)
    change (_, _) = (PrefetchState.dropped transaction _).2 at entry
    have last : PrefetchState.leave transaction (recorded.state.entry key).1 = none ↔
        recorded.OnlyBy transaction key := by
      change PrefetchState.leave transaction (recorded.state.keyTransactions.find key) = none ↔ _
      rw [found]
      unfold PrefetchState.leave OnlyBy
      simp only [request, true_and, ← books.transactions, found, ite_eq_left_iff,
        Finset.eq_empty_iff_forall_notMem, Finset.mem_erase, Option.some.injEq, exists_eq_left']
      grind
    unfold PrefetchState.dropped at entry
    constructor
    · intro only
      rw [if_pos (last.mpr only)] at entry
      exact Prod.mk.inj entry
    · intro shared
      rw [if_neg (shared ∘ last.mp)] at entry
      exact Prod.mk.inj entry
  · refine ⟨fun only => absurd only.1 request, fun _ => ?_⟩
    exact Prod.mk.inj (congrArg Prod.snd (kept request))

/-- Two transactions request a key and the first one is complete. -/
theorem books_consistent_shared :
    ∃ recorded, Reachable step (fun _ _ => True) Initial recorded ∧
      recorded.requested = {(2, [1])} ∧
      (∃ keys, recorded.state.transactionKeys.find 2 = some keys ∧ [1] ∈ keys) := by
  obtain ⟨recorded, reached, passed⟩ :=
    @TransitionSystem.exists_reachable_of_run _ _ step (fun _ _ => True) Initial _ ⟨.new, ∅⟩ rfl
      [.request 1 [1], .request 1 [2], .request 2 [1], .fetchComplete [1] (some [3]) 1,
        .transactionComplete 1]
      (fun recorded => decide (recorded.requested = {(2, [1])})) (by decide +kernel)
  have requested := of_decide_eq_true passed
  refine ⟨recorded, reached, requested, ((books_consistent reached).1.keys 2 [1]).mpr ?_⟩
  rw [requested]
  exact Finset.mem_singleton_self _

end RecordedPrefetch

end Sangria.RangeServer
