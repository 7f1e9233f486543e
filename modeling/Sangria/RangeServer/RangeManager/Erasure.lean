import Sangria.RangeServer.RangeManager.Moves

/-!
# Runs without some of the handlers

Handlers share the lock table, the pending state, the buffer and the storage.
Handlers that leave all of these as they are can be taken out of a run, and the
others do not see the difference.
-/

namespace Sangria.RangeServer

open FiniteMap

def Label.handler : Label → Nat
  | .get id .. | .prepare id .. | .abort id .. | .commit id .. => id
  | .run id | .runOn id _ | .fail id .. | .deliver id => id

namespace LockTable

/-- The same lock table; messages may lie in different channels of handlers that
are left out of account. -/
structure Alike (apart : Finset Nat) (table other : LockTable) : Prop where
  currentHolder : table.currentHolder = other.currentHolder
  waitingForRelease : table.waitingForRelease = other.waitingForRelease
  waitingToAcquire : table.waitingToAcquire = other.waitingToAcquire
  softReleased : table.softReleased = other.softReleased
  signalled : ∀ sender ∉ apart, sender ∈ table.signalled ↔ sender ∈ other.signalled

section Alike

variable {apart : Finset Nat} {table other third : LockTable}

theorem Alike.refl (apart : Finset Nat) (table : LockTable) : Alike apart table table :=
  ⟨rfl, rfl, rfl, rfl, fun _ _ => Iff.rfl⟩

theorem Alike.trans {inner : Finset Nat} (first : Alike inner table other)
    (second : Alike apart other third) (inside : inner ⊆ apart) : Alike apart table third where
  currentHolder := first.currentHolder.trans second.currentHolder
  waitingForRelease := first.waitingForRelease.trans second.waitingForRelease
  waitingToAcquire := first.waitingToAcquire.trans second.waitingToAcquire
  softReleased := first.softReleased.trans second.softReleased
  signalled := fun sender outside =>
    (first.signalled sender fun member => outside (inside member)).trans
      (second.signalled sender outside)

variable (alike : Alike apart table other)

include alike

theorem Alike.acquire (tx : Uuid) (sender : Nat) :
    Alike apart (table.acquire tx sender) (other.acquire tx sender) := by
  obtain ⟨holder, released, acquiring, soft, signals⟩ := table
  obtain ⟨holder', released', acquiring', soft', signals'⟩ := other
  obtain ⟨rfl, rfl, rfl, rfl, signalled⟩ := alike
  have inserted : ∀ channel ∉ apart,
      channel ∈ insert sender signals ↔ channel ∈ insert sender signals' := by
    intro channel outside
    rw [Finset.mem_insert, Finset.mem_insert]
    exact or_congr_right (signalled channel outside)
  cases holder with
  | none => exact ⟨rfl, rfl, rfl, rfl, inserted⟩
  | some =>
    simp only [LockTable.acquire]
    split
    next => exact ⟨rfl, rfl, rfl, rfl, inserted⟩
    next => exact ⟨rfl, rfl, rfl, rfl, signalled⟩

theorem Alike.release (mark : Option Bool) :
    Alike apart (table.release mark) (other.release mark) := by
  obtain ⟨holder, released, acquiring, soft, signals⟩ := table
  obtain ⟨holder', released', acquiring', soft', signals'⟩ := other
  obtain ⟨rfl, rfl, rfl, rfl, signalled⟩ := alike
  have woken : ∀ channel ∉ apart,
      channel ∈ signals ∪ (released.map LockRequest.sender).toFinset ↔
        channel ∈ signals' ∪ (released.map LockRequest.sender).toFinset := by
    intro channel outside
    rw [Finset.mem_union, Finset.mem_union]
    exact or_congr_left (signalled channel outside)
  cases acquiring with
  | nil => exact ⟨rfl, rfl, rfl, rfl, woken⟩
  | cons =>
    refine ⟨rfl, rfl, rfl, rfl, ?_⟩
    intro channel outside
    simp only [LockTable.release]
    rw [Finset.mem_insert, Finset.mem_insert]
    exact or_congr_right (woken channel outside)

theorem Alike.receive (sender : Nat) : Alike apart (table.receive sender)
    (other.receive sender) := by
  obtain ⟨holder, released, acquiring, soft, signalled⟩ := alike
  refine ⟨holder, released, acquiring, soft, ?_⟩
  intro channel outside
  rw [LockTable.receive, LockTable.receive, Finset.mem_erase, Finset.mem_erase,
    signalled channel outside]

theorem Alike.cleanSoftReleased (txs : List Uuid) :
    Alike apart (table.cleanSoftReleased txs) (other.cleanSoftReleased txs) := by
  obtain ⟨holder, released, acquiring, soft, signalled⟩ := alike
  exact ⟨holder, released, acquiring, congrArg (Finset.filter _) soft, signalled⟩

theorem Alike.isCurrentlyHolding (txs : List Uuid) :
    table.isCurrentlyHolding txs = other.isCurrentlyHolding txs := by
  rw [LockTable.isCurrentlyHolding, LockTable.isCurrentlyHolding, alike.currentHolder]

theorem Alike.doEarlyLockRelease (config : Configuration) (load : F64) (clients : Nat) :
    RangeManager.doEarlyLockRelease config table load clients =
      RangeManager.doEarlyLockRelease config other load clients := by
  simp only [RangeManager.doEarlyLockRelease, getNumWaitersAndPending, alike.waitingToAcquire,
    alike.softReleased]

end Alike

end LockTable

namespace RangeManager

variable {config : Configuration} {range next other : RangeManager}
variable {label : Label} {id : Nat} {apart : Finset Nat}

theorem Moves.handlers_of_ne (moves : Moves config range label next)
    (ne : id ≠ label.handler) : next.handlers.find id = range.handlers.find id := by
  cases moves with
  | quiet _ quiet => cases quiet <;> exact find_insert_of_ne _ ne
  | saved =>
    rw [save]
    split <;> exact find_insert_of_ne _ ne
  | delivered => exact find_erase_of_ne ne
  | _ => exact find_insert_of_ne _ ne

/-- The same range but for some of the handlers, and for the trace. -/
structure Same (apart : Finset Nat) (range other : RangeManager) : Prop where
  lockTable : LockTable.Alike apart range.lockTable other.lockTable
  pendingState : range.pendingState = other.pendingState
  prefetchingBuffer : range.prefetchingBuffer = other.prefetchingBuffer
  storage : range.storage = other.storage
  handlers : ∀ id ∉ apart, range.handlers.find id = other.handlers.find id

/-- Both make a step that keeps them the same, or none of them does. -/
inductive Agree (apart : Finset Nat) : Option RangeManager → Option RangeManager → Prop where
  | neither : Agree apart none none
  | both {range other : RangeManager} :
      Same apart range other → Agree apart (some range) (some other)

section Agree

variable {apart : Finset Nat} {lockTable lockTable' : LockTable} {pendingState : PendingState}
  {prefetchingBuffer : PrefetchingBuffer} {storage : Records}
  {handlers handlers' : HashMap Nat Handler} {trace trace' : List Event}

theorem Agree.put (alike : LockTable.Alike apart lockTable lockTable')
    (same : ∀ id ∉ apart, handlers.find id = handlers'.find id) (id : Nat) (handler : Handler) :
    Agree apart
      (some ⟨lockTable, pendingState, prefetchingBuffer, storage, handlers.insert id handler,
        trace⟩)
      (some ⟨lockTable', pendingState, prefetchingBuffer, storage, handlers'.insert id handler,
        trace'⟩) := by
  refine .both ⟨alike, rfl, rfl, rfl, ?_⟩
  intro other outside
  rw [find_insert, find_insert, same other outside]

variable (alike : LockTable.Alike apart lockTable lockTable')
  (same : ∀ id ∉ apart, handlers.find id = handlers'.find id) {id : Nat}

include alike same

theorem Agree.runHandler (outside : id ∉ apart) (handler : Handler) :
    Agree apart
      (RangeManager.runHandler config
        ⟨lockTable, pendingState, prefetchingBuffer, storage, handlers, trace⟩ id handler)
      (RangeManager.runHandler config
        ⟨lockTable', pendingState, prefetchingBuffer, storage, handlers', trace'⟩ id handler) := by
  cases handler with
  | get tx _ stage =>
    cases stage with
    | locking => exact .put (alike.acquire tx id) same id _
    | waiting =>
      simp only [RangeManager.runHandler, runGet, alike.signalled id outside]
      split
      · exact .put (alike.receive id) same id _
      · exact .neither
    | checking =>
      simp only [RangeManager.runHandler, runGet]
      split
      · exact .put alike same id _
      · split <;> exact .put alike same id _
    | buffered =>
      simp only [RangeManager.runHandler, runGet]
      split <;> exact .put alike same id _
    | stored => exact .put alike same id _
    | returned => exact .neither
  | prepare tx _ stage =>
    cases stage with
    | verifying =>
      simp only [RangeManager.runHandler, runPrepare, alike.isCurrentlyHolding]
      exact .put alike same id _
    | releasing => exact .put (alike.release none) same id _
    | locking => exact .put (alike.acquire tx id) same id _
    | waiting =>
      simp only [RangeManager.runHandler, runPrepare, alike.signalled id outside]
      split
      · exact .put (alike.receive id) same id _
      · exact .neither
    | deciding =>
      simp only [RangeManager.runHandler, runPrepare]
      split
      · simp only [save]
        split <;> exact .put alike same id _
      · exact .neither
    | appending | returned => exact .neither
    | softReleasing => exact .put (alike.release (some true)) same id _
    | flushing => exact .put alike same id _
  | abort _ stage =>
    cases stage with
    | verifying =>
      simp only [RangeManager.runHandler, runAbort, alike.isCurrentlyHolding]
      exact .put alike same id _
    | releasing => exact .put (alike.release none) same id _
    | returned => exact .neither
    | _ => exact .put alike same id _
  | commit txs _ stage =>
    cases stage with
    | buffering =>
      simp only [RangeManager.runHandler, runCommit]
      split
      · exact .put alike same id _
      · exact .neither
    | inspecting =>
      simp only [RangeManager.runHandler, runCommit, LockTable.getCurrentHolderId,
        alike.currentHolder]
      exact .put alike same id _
    | releasing => exact .put (alike.release none) same id _
    | cleaning => exact .put (alike.cleanSoftReleased txs) same id _
    | returned => exact .neither
    | _ => exact .put alike same id _

theorem Agree.runHandlerOn (key : Bytes) (handler : Handler) :
    Agree apart
      (RangeManager.runHandlerOn config
        ⟨lockTable, pendingState, prefetchingBuffer, storage, handlers, trace⟩ id key handler)
      (RangeManager.runHandlerOn config
        ⟨lockTable', pendingState, prefetchingBuffer, storage, handlers', trace'⟩ id key
          handler) := by
  cases handler with
  | prepare _ _ stage =>
    cases stage with
    | deciding =>
      simp only [RangeManager.runHandlerOn, runPrepareOn, alike.doEarlyLockRelease]
      split
      · exact .put alike same id _
      · exact .neither
    | appending =>
      simp only [RangeManager.runHandlerOn, runPrepareOn]
      split
      · exact .put alike same id _
      · exact .neither
    | _ => exact .neither
  | commit _ _ stage =>
    cases stage with
    | buffering =>
      simp only [RangeManager.runHandlerOn, runCommitOn]
      split
      · exact .neither
      · exact .put alike same id _
    | _ => exact .neither
  | _ => exact .neither

theorem Agree.failHandler (error : Error) (effective : Bool) (handler : Handler) :
    Agree apart
      (RangeManager.failHandler
        ⟨lockTable, pendingState, prefetchingBuffer, storage, handlers, trace⟩ id error effective
          handler)
      (RangeManager.failHandler
        ⟨lockTable', pendingState, prefetchingBuffer, storage, handlers', trace'⟩ id error effective
          handler) := by
  cases handler with
  | get _ _ stage =>
    cases stage with
    | stored => exact .put alike same id _
    | _ => exact .neither
  | prepare _ _ stage | abort _ stage =>
    cases stage with
    | appending | flushing => exact .put alike same id _
    | _ => exact .neither
  | commit _ _ stage =>
    cases stage with
    | appending | flushing => exact .put alike same id _
    | storing => cases effective <;> exact .put alike same id _
    | _ => exact .neither

theorem Agree.arrive (outside : id ∉ apart) (handler : Handler) :
    Agree apart
      (RangeManager.arrive ⟨lockTable, pendingState, prefetchingBuffer, storage, handlers, trace⟩ id
        handler)
      (RangeManager.arrive
        ⟨lockTable', pendingState, prefetchingBuffer, storage, handlers', trace'⟩ id handler) := by
  simp only [RangeManager.arrive, same id outside]
  split
  · exact .put alike same id _
  · exact .neither

end Agree

theorem Same.agree (same : Same apart range other) (outside : label.handler ∉ apart) :
    Agree apart (step config range label) (step config other label) := by
  obtain ⟨lockTable, pendingState, prefetchingBuffer, storage, handlers, trace⟩ := range
  obtain ⟨lockTable', pendingState', prefetchingBuffer', storage', handlers', trace'⟩ := other
  obtain ⟨alike, rfl, rfl, rfl, same⟩ := same
  simp only at alike same
  cases label with
  | get id | prepare id | abort id | commit id => exact .arrive alike same outside _
  | run id =>
    simp only [step, same id outside]
    cases handlers'.find id with
    | none => exact .neither
    | some handler => exact .runHandler alike same outside handler
  | runOn id key =>
    simp only [step, same id outside]
    cases handlers'.find id with
    | none => exact .neither
    | some handler => exact .runHandlerOn alike same key handler
  | fail id error effective =>
    simp only [step, same id outside]
    cases handlers'.find id with
    | none => exact .neither
    | some handler => exact .failHandler alike same error effective handler
  | deliver id =>
    simp only [step, same id outside]
    split
    · exact .neither
    · split
      · refine .both ⟨alike, rfl, rfl, rfl, ?_⟩
        intro other outside'
        rw [find_erase, find_erase, same other outside']
      · exact .neither

theorem Same.step (same : Same apart range other) (outside : label.handler ∉ apart)
    (taken : RangeManager.step config range label = some next) :
    ∃ next', RangeManager.step config other label = some next' ∧ Same apart next next' := by
  have agree : Agree apart (RangeManager.step config range label)
      (RangeManager.step config other label) := same.agree outside
  rw [taken] at agree
  generalize RangeManager.step config other label = result at agree
  cases agree with
  | both after => exact ⟨_, rfl, after⟩

/-- A step that changes nothing but the handler, and what lies in its channel. -/
structure Absorbs (id : Nat) (range next : RangeManager) : Prop where
  lockTable : LockTable.Alike {id} next.lockTable range.lockTable
  pendingState : next.pendingState = range.pendingState
  prefetchingBuffer : next.prefetchingBuffer = range.prefetchingBuffer
  storage : next.storage = range.storage
  handlers : ∀ other ≠ id, next.handlers.find other = range.handlers.find other

theorem absorbs_of_put {handler : Handler} {kept : Handler → Prop}
    (handlers : next.handlers = range.handlers.insert id handler)
    (lockTable : LockTable.Alike {id} next.lockTable range.lockTable)
    (pendingState : next.pendingState = range.pendingState)
    (prefetchingBuffer : next.prefetchingBuffer = range.prefetchingBuffer)
    (storage : next.storage = range.storage) (here : kept handler) :
    Absorbs id range next ∧ ∀ found, next.handlers.find id = some found → kept found := by
  refine ⟨⟨lockTable, pendingState, prefetchingBuffer, storage, ?_⟩, ?_⟩
  · intro other ne
    rw [handlers, find_insert_of_ne _ ne]
  · intro found inserted
    rw [handlers, find_insert_self] at inserted
    cases inserted
    exact here

theorem Same.absorbed (same : Same apart range other)
    (member : id ∈ apart) (absorbs : Absorbs id range next) : Same apart next other where
  lockTable := absorbs.lockTable.trans same.lockTable (Finset.singleton_subset_iff.mpr member)
  pendingState := absorbs.pendingState.trans same.pendingState
  prefetchingBuffer := absorbs.prefetchingBuffer.trans same.prefetchingBuffer
  storage := absorbs.storage.trans same.storage
  handlers := fun foreign outside =>
    (absorbs.handlers foreign fun here => outside (here ▸ member)).trans
      (same.handlers foreign outside)

end RangeManager

end Sangria.RangeServer
