import Sangria.TxStateStore.Cassandra

/-!
# The contract of the transaction state store

What the comments on the client promise: a transaction is decided once, and
every later attempt is told the decision and changes nothing.
-/

namespace Sangria.TxStateStore

/-- The decisions taken so far. -/
abbrev Outcomes := HashMap Uuid OpResult

namespace Outcomes

def outcome (outcomes : Outcomes) (id : Uuid) (attempt : OpResult) : OpResult :=
  (outcomes.find id).getD attempt

def settle (outcomes : Outcomes) (id : Uuid) (attempt : OpResult) : Outcomes :=
  outcomes.insert id (outcomes.outcome id attempt)

def tryCommitTransaction (outcomes : Outcomes) (id : Uuid) (epoch : UInt64) :
    OpResult × Outcomes :=
  (outcomes.outcome id (.transactionIsCommitted ⟨epoch⟩),
    outcomes.settle id (.transactionIsCommitted ⟨epoch⟩))

def tryAbortTransaction (outcomes : Outcomes) (id : Uuid) : OpResult × Outcomes :=
  (outcomes.outcome id .transactionIsAborted, outcomes.settle id .transactionIsAborted)

def tryBatchCommitTransactions (outcomes : Outcomes) (ids : List Uuid) (epoch : UInt64) :
    Outcomes :=
  ids.foldl (fun outcomes id => (outcomes.tryCommitTransaction id epoch).2) outcomes

def Committed (outcomes : Outcomes) (id : Uuid) : Prop :=
  ∃ info, outcomes.find id = some (.transactionIsCommitted info)

variable {outcomes : Outcomes} {id other : Uuid} {attempt : OpResult}
variable {ids : List Uuid} {decision : OpResult} {epoch : UInt64}

theorem find_settle : (outcomes.settle id attempt).find other =
    if other = id then some (outcomes.outcome id attempt) else outcomes.find other :=
  FiniteMap.find_insert ..

theorem find_settle_of_some (decided : outcomes.find other = some decision) :
    (outcomes.settle id attempt).find other = some decision := by
  rw [find_settle]
  split
  next same => rw [outcome, ← same, decided, Option.getD_some]
  next => exact decided

theorem Committed.settle (committed : outcomes.Committed other) :
    (outcomes.settle id attempt).Committed other := by
  obtain ⟨info, decided⟩ := committed
  exact ⟨info, find_settle_of_some decided⟩

theorem committed_of_tryCommit (epoch : UInt64)
    (unaborted : outcomes.find id ≠ some .transactionIsAborted) :
    (outcomes.tryCommitTransaction id epoch).2.Committed id := by
  unfold Committed tryCommitTransaction
  simp only [find_settle, if_true, outcome]
  cases decided : outcomes.find id with
  | none => exact ⟨_, rfl⟩
  | some decision =>
    cases decision with
    | transactionIsAborted => exact absurd decided unaborted
    | transactionIsCommitted info => exact ⟨info, rfl⟩

theorem Committed.ne_aborted (committed : outcomes.Committed id) :
    outcomes.find id ≠ some .transactionIsAborted := by
  obtain ⟨info, decided⟩ := committed
  rw [decided]
  intro same
  cases same

theorem ne_aborted_of_tryCommit (epoch : UInt64)
    (unaborted : outcomes.find id ≠ some .transactionIsAborted)
    (before : outcomes.find other ≠ some .transactionIsAborted) :
    (outcomes.tryCommitTransaction id epoch).2.find other ≠ some .transactionIsAborted := by
  by_cases same : other = id
  · rw [same]
    exact (committed_of_tryCommit epoch unaborted).ne_aborted
  · change (outcomes.settle id _).find other ≠ _
    rw [find_settle, if_neg same]
    exact before

theorem Committed.tryBatchCommit (ids : List Uuid) (epoch : UInt64)
    (committed : outcomes.Committed other) :
    (outcomes.tryBatchCommitTransactions ids epoch).Committed other := by
  induction ids generalizing outcomes with
  | nil => exact committed
  | cons _ _ ih => exact ih committed.settle

theorem committed_of_tryBatchCommit (epoch : UInt64)
    (unaborted : ∀ id ∈ ids, outcomes.find id ≠ some .transactionIsAborted)
    (listed : other ∈ ids) :
    (outcomes.tryBatchCommitTransactions ids epoch).Committed other := by
  induction ids generalizing outcomes with
  | nil => cases listed
  | cons id rest ih =>
    have first := unaborted id List.mem_cons_self
    cases listed with
    | head => exact (committed_of_tryCommit epoch first).tryBatchCommit rest epoch
    | tail _ behind =>
      refine ih ?_ behind
      intro later mem
      exact ne_aborted_of_tryCommit epoch first
        (unaborted later (List.mem_cons_of_mem id mem))

end Outcomes

end Sangria.TxStateStore
