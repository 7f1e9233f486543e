import Sangria.Common.Types

/-!
# The lock table of a range

One lock for all keys of the range.  A request that cannot be granted is queued
with the sender of a oneshot channel; a channel is named by the handler that
waits at its other end.  `signalled` are the channels in which a message lies
that the handler has not received yet.
-/

namespace Sangria.RangeServer

structure LockRequest where
  transaction : Uuid
  sender : Nat
  deriving DecidableEq

structure LockTable where
  currentHolder : Option Uuid
  waitingForRelease : List LockRequest
  waitingToAcquire : List LockRequest
  softReleased : Finset Uuid
  signalled : Finset Nat

namespace LockTable

variable {table : LockTable} {tx : Uuid} {other : Nat}

def new : LockTable := ⟨none, [], [], ∅, ∅⟩

def getNumWaitersAndPending (table : LockTable) : Nat :=
  table.waitingToAcquire.length + table.softReleased.card

def getCurrentHolderId (table : LockTable) : Option Uuid := table.currentHolder

def maybeWaitForCurrentHolder (table : LockTable) (transaction : Uuid) (sender : Nat) :
    LockTable :=
  match table.currentHolder with
  | none => { table with signalled := insert sender table.signalled }
  | some _ =>
    { table with waitingForRelease := table.waitingForRelease ++ [⟨transaction, sender⟩] }

/-- The check against deadlocks is commented out: every other request is queued. -/
def acquire (table : LockTable) (transaction : Uuid) (sender : Nat) : LockTable :=
  match table.currentHolder with
  | none =>
    { table with
      currentHolder := some transaction
      signalled := insert sender table.signalled }
  | some holder =>
    if holder = transaction then { table with signalled := insert sender table.signalled }
    else { table with waitingToAcquire := table.waitingToAcquire ++ [⟨transaction, sender⟩] }

/-- The lock is taken from whoever holds it and handed to the first in line. -/
def release (table : LockTable) (markAsViolatable : Option Bool) : LockTable :=
  let softReleased :=
    match markAsViolatable.getD false, table.currentHolder with
    | true, some holder => insert holder table.softReleased
    | _, _ => table.softReleased
  let signalled :=
    table.signalled ∪ (table.waitingForRelease.map LockRequest.sender).toFinset
  match table.waitingToAcquire with
  | [] => ⟨none, [], [], softReleased, signalled⟩
  | request :: rest =>
    ⟨some request.transaction, [], rest, softReleased, insert request.sender signalled⟩

def softRelease (table : LockTable) : LockTable := table.release (some true)

def cleanSoftReleased (table : LockTable) (transactions : List Uuid) : LockTable :=
  { table with softReleased := table.softReleased.filter fun id => id ∉ transactions }

def isCurrentlyHolding (table : LockTable) (transactions : List Uuid) : Bool :=
  match table.currentHolder with
  | none => false
  | some holder => decide (holder ∈ transactions)

def receive (table : LockTable) (sender : Nat) : LockTable :=
  { table with signalled := table.signalled.erase sender }

theorem currentHolder_of_isCurrentlyHolding
    (holds : table.isCurrentlyHolding [tx] = true) :
    table.currentHolder = some tx := by
  unfold isCurrentlyHolding at holds
  split at holds
  next => cases holds
  next here =>
    rw [decide_eq_true_eq, List.mem_singleton] at holds
    rw [here, holds]

theorem currentHolder_acquire (table : LockTable) (tx : Uuid) (sender : Nat) :
    (table.acquire tx sender).currentHolder =
      some (table.currentHolder.getD tx) := by
  unfold acquire
  split
  next free => simp [free]
  next held =>
    split <;> simp [held]

theorem mem_signalled_acquire {sender : Nat}
    (signalled : other ∈ (table.acquire tx sender).signalled) :
    other ∈ table.signalled ∨
      other = sender ∧ (table.acquire tx sender).currentHolder = some tx := by
  rw [currentHolder_acquire]
  unfold acquire at signalled
  split at signalled
  next free =>
    rcases Finset.mem_insert.mp signalled with same | before
    · exact .inr ⟨same, by simp [free]⟩
    · exact .inl before
  next held =>
    split at signalled
    next same =>
      rcases Finset.mem_insert.mp signalled with here | before
      · exact .inr ⟨here, by simp [held, same]⟩
      · exact .inl before
    next => exact .inl signalled

theorem mem_signalled_release {mark : Option Bool} (unobserved : table.waitingForRelease = [])
    (signalled : other ∈ (table.release mark).signalled) :
    other ∈ table.signalled ∨ ∃ req ∈ table.waitingToAcquire, req.sender = other ∧
      (table.release mark).currentHolder = some req.transaction := by
  unfold release at signalled ⊢
  simp only [unobserved, List.map_nil, List.toFinset_nil, Finset.union_empty] at signalled ⊢
  split at signalled
  next => exact .inl signalled
  next req _ queued =>
    rcases Finset.mem_insert.mp signalled with same | before
    · exact .inr ⟨req, by simp [queued], same.symm, rfl⟩
    · exact .inl before

theorem softReleased_acquire (table : LockTable) (tx : Uuid) (sender : Nat) :
    (table.acquire tx sender).softReleased = table.softReleased := by
  unfold acquire
  split
  next => rfl
  next => split <;> rfl

theorem softReleased_release (table : LockTable) :
    (table.release none).softReleased = table.softReleased := by
  unfold release
  simp only
  split <;> rfl

theorem mem_softReleased_softRelease (marked : tx ∈ table.softRelease.softReleased) :
    tx ∈ table.softReleased ∨ table.currentHolder = some tx := by
  have either : tx ∈ (match table.currentHolder with
      | some holder => insert holder table.softReleased
      | none => table.softReleased) := by
    unfold softRelease release at marked
    simp only [Option.getD_some] at marked
    cases holder : table.currentHolder <;> rw [holder] at marked <;> split at marked <;>
      exact marked
  split at either
  next held =>
    rcases Finset.mem_insert.mp either with same | before
    · exact .inr (same ▸ held)
    · exact .inl before
  next => exact .inl either

end LockTable

end Sangria.RangeServer
