import Sangria.RangeServer.RangeManager.Moves

/-!
# The queue in front of the lock

A handler that waits in `acquire_range_lock` has a request in the queue of the
lock table or a message in its channel, and never both.
-/

namespace Sangria.RangeServer

open FiniteMap

def Handler.awaits : Handler → Option Uuid
  | .get transaction _ .waiting | .prepare transaction _ .waiting => some transaction
  | _ => none

/-- Queued requests belong to waiting handlers that were not signalled yet. -/
structure Lined (table : LockTable) (handlers : HashMap Nat Handler) : Prop where
  queued : ∀ request ∈ table.waitingToAcquire, request.sender ∉ table.signalled ∧
    ∃ handler, handlers.find request.sender = some handler ∧
      handler.awaits = some request.transaction
  queuedOnce : (table.waitingToAcquire.map LockRequest.sender).Nodup
  signalled : ∀ id ∈ table.signalled, ∃ handler, handlers.find id = some handler ∧
    handler.awaits ≠ none
  unobserved : table.waitingForRelease = []

theorem lined_loaded (storage : Records) :
    Lined (RangeManager.loaded storage).lockTable (RangeManager.loaded storage).handlers := by
  refine ⟨?_, List.nodup_nil, ?_, rfl⟩
  · intro req mem
    cases mem
  · intro id mem
    exact absurd mem (Finset.notMem_empty id)

namespace Lined

variable {table : LockTable} {handlers : HashMap Nat Handler} {id : Nat} {handler : Handler}
variable {handler' : Handler} {config : Configuration} {range : RangeManager} {label : Label}

def Absent (table : LockTable) (id : Nat) : Prop :=
  id ∉ table.signalled ∧ ∀ request ∈ table.waitingToAcquire, request.sender ≠ id

theorem absent_of_find (lined : Lined table handlers)
    (free : ∀ handler, handlers.find id = some handler → handler.awaits = none) :
    Absent table id := by
  refine ⟨?_, ?_⟩
  · intro signalled
    obtain ⟨handler, found, awaits⟩ := lined.signalled id signalled
    exact awaits (free handler found)
  · intro req mem same
    obtain ⟨_, handler, found, awaits⟩ := lined.queued req mem
    rw [same] at found
    rw [free handler found] at awaits
    cases awaits

theorem absent_of_none (lined : Lined table handlers) (missing : handlers.find id = none) :
    Absent table id :=
  lined.absent_of_find fun handler found => by simp [missing] at found

theorem absent_of_some (lined : Lined table handlers) (found : handlers.find id = some handler)
    (active : handler.awaits = none) : Absent table id := by
  apply lined.absent_of_find
  intro other same
  rw [found, Option.some.injEq] at same
  rwa [← same]

theorem change {handlers' : HashMap Nat Handler} (lined : Lined table handlers)
    (absent : Absent table id) (others : ∀ other, other ≠ id →
      handlers'.find other = handlers.find other) : Lined table handlers' where
  queued := by
    intro req mem
    obtain ⟨unsignalled, handler, found, awaits⟩ := lined.queued req mem
    refine ⟨unsignalled, handler, ?_, awaits⟩
    rw [others _ (absent.2 req mem), found]
  queuedOnce := lined.queuedOnce
  signalled := by
    intro other mem
    obtain ⟨handler, found, awaits⟩ := lined.signalled other mem
    refine ⟨handler, ?_, awaits⟩
    rw [others other (fun same => absent.1 (same ▸ mem)), found]
  unobserved := lined.unobserved

theorem insert (lined : Lined table handlers) (absent : Absent table id) (handler : Handler) :
    Lined table (handlers.insert id handler) :=
  lined.change absent fun other ne => by
    rw [find_insert, if_neg ne]

theorem erase (lined : Lined table handlers) (absent : Absent table id) :
    Lined table (handlers.erase id) :=
  lined.change absent fun other ne => by
    rw [find_erase, if_neg ne]

/-- The request is granted at once or put at the end of the queue. -/
theorem acquire {transaction : Uuid} (lined : Lined table handlers) (absent : Absent table id)
    (awaits : handler.awaits = some transaction) :
    Lined (table.acquire transaction id) (handlers.insert id handler) := by
  have inserted := lined.insert absent handler
  have here : find (handlers.insert id handler) id = some handler :=
    find_insert_self ..
  have granted (holder : Option Uuid) :
      Lined { table with
        currentHolder := holder
        signalled := Insert.insert id table.signalled } (handlers.insert id handler) := by
    refine ⟨?_, inserted.queuedOnce, ?_, inserted.unobserved⟩
    · intro req mem
      obtain ⟨unsignalled, found⟩ := inserted.queued req mem
      refine ⟨?_, found⟩
      rw [Finset.mem_insert, not_or]
      exact ⟨absent.2 req mem, unsignalled⟩
    · intro other mem
      rcases Finset.mem_insert.mp mem with same | before
      · rw [same]
        exact ⟨handler, here, by simp [awaits]⟩
      · exact inserted.signalled other before
  unfold LockTable.acquire
  split
  · exact granted _
  · split
    · exact granted _
    · refine ⟨?_, ?_, inserted.signalled, inserted.unobserved⟩
      · intro req mem
        rcases List.mem_append.mp mem with before | new
        · exact inserted.queued req before
        · rw [List.mem_singleton.mp new]
          exact ⟨absent.1, handler, here, awaits⟩
      · rw [List.map_append, List.nodup_append]
        refine ⟨inserted.queuedOnce, by simp, ?_⟩
        intro first mem second same
        obtain ⟨req, queued, rfl⟩ := List.mem_map.mp mem
        rw [List.map_singleton, List.mem_singleton] at same
        rw [same]
        exact absent.2 req queued

theorem receive (lined : Lined table handlers) (signalled : id ∈ table.signalled)
    (handler : Handler) : Lined (table.receive id) (handlers.insert id handler) where
  queued := by
    intro req mem
    obtain ⟨unsignalled, found⟩ := lined.queued req mem
    have ne : req.sender ≠ id := fun same => unsignalled (same ▸ signalled)
    refine ⟨fun kept => unsignalled (Finset.mem_of_mem_erase kept), ?_⟩
    rwa [find_insert, if_neg ne]
  queuedOnce := lined.queuedOnce
  signalled := by
    intro other mem
    obtain ⟨ne, kept⟩ := Finset.mem_erase.mp mem
    rw [find_insert, if_neg ne]
    exact lined.signalled other kept
  unobserved := lined.unobserved

theorem release (lined : Lined table handlers) (mark : Option Bool) :
    Lined (table.release mark) handlers := by
  have queued := lined.queued
  have once := lined.queuedOnce
  unfold LockTable.release
  simp only [lined.unobserved, List.map_nil, List.toFinset_nil, Finset.union_empty]
  split
  next =>
    exact ⟨by simp, by simp, lined.signalled, rfl⟩
  next first _ split =>
    rw [split] at queued once
    rw [List.map_cons, List.nodup_cons] at once
    refine ⟨?_, once.2, ?_, rfl⟩
    · intro req mem
      obtain ⟨unsignalled, found⟩ := queued req (List.mem_cons_of_mem _ mem)
      refine ⟨?_, found⟩
      rw [Finset.mem_insert, not_or]
      refine ⟨?_, unsignalled⟩
      intro same
      exact once.1 (List.mem_map.mpr ⟨req, mem, same⟩)
    · intro id mem
      rcases Finset.mem_insert.mp mem with same | before
      · obtain ⟨_, handler, found, awaits⟩ := queued first List.mem_cons_self
        exact ⟨handler, same ▸ found, by simp [awaits]⟩
      · exact lined.signalled id before

theorem cleanSoftReleased (lined : Lined table handlers) (txs : List Uuid) :
    Lined (table.cleanSoftReleased txs) handlers :=
  ⟨lined.queued, lined.queuedOnce, lined.signalled, lined.unobserved⟩

/-- The lock table stays, and a handler that does not wait changes. -/
theorem put (lined : Lined table handlers)
    (found : handlers.find id = some handler) (active : handler.awaits = none) :
    Lined table (handlers.insert id handler') :=
  lined.insert (lined.absent_of_some found active) handler'

open RangeManager

theorem awaits_of_quiet (quiet : Quiet config range id label handler handler') :
    handler.awaits = none := by
  cases quiet <;> rfl

theorem awaits_of_fails (fails : Fails handler handler') : handler.awaits = none := by
  cases fails <;> rfl

theorem awaits_of_isReturned (returned : handler.isReturned = true) : handler.awaits = none := by
  unfold Handler.isReturned at returned
  split at returned
  iterate 4
    next => rfl
  next => cases returned

theorem moves {next : RangeManager}
    (lined : Lined range.lockTable range.handlers) (moves : Moves config range label next) :
    Lined next.lockTable next.handlers := by
  cases moves with
  | arrivedGet unused | arrivedPrepare unused | arrivedAbort unused | arrivedCommit unused =>
    exact lined.insert (lined.absent_of_none unused) _
  | quiet found quiet => exact lined.put found (awaits_of_quiet quiet)
  | failed found fails => exact lined.put found (awaits_of_fails fails)
  | lockedGet found | lockedPrepare found =>
    exact lined.acquire (lined.absent_of_some found rfl) rfl
  | wokenGet found signalled | wokenPrepare found signalled => exact lined.receive signalled _
  | read found reads =>
    cases reads with
    | record | buffer | storage => exact lined.put found rfl
  | releasedPrepare found | releasedAbort found | releasedCommit found =>
    exact (lined.put found rfl).release none
  | softReleased found => exact (lined.put found rfl).release (some true)
  | saved found =>
    unfold save
    simp only
    split <;> exact lined.put found rfl
  | stored found | deleteRefused found | storeTimedOut found | updatedBuffer found
  | cleared found =>
    exact lined.put found rfl
  | cleaned found => exact (lined.put found rfl).cleanSoftReleased _
  | delivered found returned =>
    exact lined.erase (lined.absent_of_some found (awaits_of_isReturned returned))

end Lined

/-! ## Who can get the lock -/

def Handler.concerns (transaction : Uuid) : Handler → Bool
  | .get owner _ _ | .prepare owner _ _ | .abort owner _ => decide (owner = transaction)
  | .commit transactions _ _ => decide (transaction ∈ transactions)

/-- The handler asks for the lock on behalf of the transaction. -/
def Handler.seeks (transaction : Uuid) : Handler → Bool
  | .get owner _ .locking | .get owner _ .waiting
  | .prepare owner _ .locking | .prepare owner _ .waiting => decide (owner = transaction)
  | _ => false

theorem Handler.seeks_of_awaits {handler : Handler} {transaction : Uuid}
    (awaits : handler.awaits = some transaction) : handler.seeks transaction = true := by
  unfold Handler.awaits at awaits
  split at awaits
  next =>
    cases awaits
    exact decide_eq_true rfl
  next =>
    cases awaits
    exact decide_eq_true rfl
  next => cases awaits

def RangeManager.Unsought (range : RangeManager) (transaction : Uuid) : Prop :=
  ∀ id handler, range.handlers.find id = some handler → handler.seeks transaction = false

namespace RangeManager.Unsought

variable {config : Configuration} {range next : RangeManager} {transaction : Uuid}

theorem ne_of_queued (unsought : range.Unsought transaction)
    (lined : Lined range.lockTable range.handlers) {req : LockRequest}
    (queued : req ∈ range.lockTable.waitingToAcquire) : req.transaction ≠ transaction := by
  obtain ⟨_, handler, found, awaits⟩ := lined.queued req queued
  intro same
  have seeks := Handler.seeks_of_awaits (awaits.trans (congrArg some same))
  cases (unsought _ _ found).symm.trans seeks

theorem holder_release (unsought : range.Unsought transaction)
    (lined : Lined range.lockTable range.handlers) (mark : Option Bool) :
    (range.lockTable.release mark).currentHolder ≠ some transaction := by
  unfold LockTable.release
  simp only
  split
  next => nofun
  next queued =>
    intro same
    exact unsought.ne_of_queued lined (queued ▸ List.mem_cons_self) (Option.some.inj same)

theorem holder_acquire {id : Nat} {owner : Uuid} (ne : owner ≠ transaction)
    (held : (range.lockTable.acquire owner id).currentHolder = some transaction) :
    range.lockTable.currentHolder = some transaction := by
  rw [LockTable.currentHolder_acquire] at held
  cases holder : range.lockTable.currentHolder with
  | none =>
    rw [holder] at held
    exact absurd (Option.some.inj held) ne
  | some =>
    rw [holder] at held
    exact held

theorem holder {label : Label} (unsought : range.Unsought transaction)
    (lined : Lined range.lockTable range.handlers) (moves : Moves config range label next)
    (held : next.lockTable.currentHolder = some transaction) :
    range.lockTable.currentHolder = some transaction := by
  cases moves with
  | lockedGet found | lockedPrepare found =>
    exact holder_acquire (of_decide_eq_false (unsought _ _ found)) held
  | releasedPrepare | softReleased | releasedAbort | releasedCommit =>
    exact absurd held (unsought.holder_release lined _)
  | saved =>
    unfold RangeManager.save at held
    simp only at held
    split at held <;> exact held
  | _ => exact held

end RangeManager.Unsought

end Sangria.RangeServer
