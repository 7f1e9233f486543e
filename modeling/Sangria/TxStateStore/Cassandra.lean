import Sangria.Common.Types

/-!
# The transaction state store over Cassandra

Rows of `atomix.transactions`, the four CQL statements, and the operations of
`impl Storage for Cassandra` cut at their statements.  Every statement is one
atomic step; the operations of different clients interleave between them.
-/

namespace Sangria.TxStateStore

/-- The values the queries write into the `status` column. -/
inductive Status where
  | started
  | committed
  | aborted
  deriving DecidableEq

/-- A row of `atomix.transactions`; `epoch` is a nullable `bigint`. -/
structure Row where
  status : Status
  epoch : Option Int64
  deriving DecidableEq

abbrev Transactions := HashMap Uuid Row

structure CommitInfo where
  epoch : UInt64
  deriving DecidableEq

inductive OpResult where
  | transactionIsAborted
  | transactionIsCommitted (info : CommitInfo)
  deriving DecidableEq

/-! ## The statements -/

def startTransactionQuery (rows : Transactions) (transactionId : Uuid) : Transactions :=
  if transactionId ∈ rows then rows
  else rows.insert transactionId ⟨.started, none⟩

/-- `UPDATE … SET status = 'committed', epoch = ?`.  There is no `IF`: a CQL
update without a condition creates the row when it is absent. -/
def commitTransactionQuery (rows : Transactions) (epoch : Int64)
    (transactionId : Uuid) : Transactions :=
  rows.insert transactionId ⟨.committed, some epoch⟩

/-- `UPDATE … SET status = 'aborted' IF status IN ('started', 'aborted')`,
with the `[applied]` column of its answer. -/
def abortTransactionQuery (rows : Transactions) (transactionId : Uuid) :
    Transactions × Bool :=
  match rows.find transactionId with
  | none => (rows, false)
  | some row =>
    if row.status = .started ∨ row.status = .aborted then
      (rows.insert transactionId { row with status := .aborted }, true)
    else
      (rows, false)

/-- `SELECT epoch … AND status = 'committed'`: at most one row. -/
def getCommitEpochQuery (rows : Transactions) (transactionId : Uuid) :
    Option (Option Int64) :=
  match rows.find transactionId with
  | none => none
  | some row => if row.status = .committed then some row.epoch else none

/-- The answer of `maybe_get_commit_epoch`; `none` is the panic on a committed
row whose epoch column is null. -/
def maybeGetCommitEpoch (rows : Transactions) (transactionId : Uuid) : Option OpResult :=
  match getCommitEpochQuery rows transactionId with
  | none => some .transactionIsAborted
  | some none => none
  | some (some epoch) => some (.transactionIsCommitted ⟨epoch.toUInt64⟩)

/-! ## Operations in flight -/

inductive Operation where
  | startTransaction (transactionId : Uuid)
  | commitTransaction (transactionId : Uuid) (epoch : UInt64)
  | batchCommitTransactions (transactionIds : List Uuid) (epoch : UInt64)
  | abortTransaction (transactionId : Uuid)
  deriving DecidableEq

/-- Where an operation stands between two of its statements. -/
inductive Call where
  | start (transactionId : Uuid)
  | commit (transactionId : Uuid) (epoch : UInt64)
  | batchCommit (transactionIds remaining : List Uuid) (epoch : UInt64)
  | abort (transactionId : Uuid)
  /-- The conditional update was not applied; the epoch is looked up next. -/
  | abortLookup (transactionId : Uuid)
  deriving DecidableEq

def Operation.call : Operation → Call
  | .startTransaction transactionId => .start transactionId
  | .commitTransaction transactionId epoch => .commit transactionId epoch
  | .batchCommitTransactions transactionIds epoch =>
    .batchCommit transactionIds transactionIds epoch
  | .abortTransaction transactionId => .abort transactionId

/-- The store together with the operations of all clients.  `answers` collects
what was returned for each id.  `outcomes` is an observer: the first decision
taken for each id, as the contract of the client words it. -/
structure Store where
  rows : Transactions
  calls : HashMap Nat Call
  answers : List (Uuid × OpResult)
  outcomes : HashMap Uuid OpResult

inductive Label where
  | invoke (client : Nat) (operation : Operation)
  /-- Execute the next statement of a call.  The statements of a batch go to
  different partitions, so `pick` says which of them comes next. -/
  | execute (client : Nat) (pick : Uuid)

/-- The decision a commit stands for: only a started transaction commits, an
unknown one is presumed aborted. -/
def commitDecision (rows : Transactions) (transactionId : Uuid) (epoch : UInt64) : OpResult :=
  match rows.find transactionId with
  | none => .transactionIsAborted
  | some row =>
    if row.status = .started then .transactionIsCommitted ⟨epoch⟩
    else .transactionIsAborted

def observe (outcomes : HashMap Uuid OpResult) (transactionId : Uuid)
    (decision : OpResult) : HashMap Uuid OpResult :=
  if transactionId ∈ outcomes then outcomes else outcomes.insert transactionId decision

def Store.answer (store : Store) (transactionId : Uuid) (result : OpResult) : Store :=
  { store with answers := store.answers ++ [(transactionId, result)] }

def Store.finish (store : Store) (client : Nat) : Store :=
  { store with calls := store.calls.erase client }

def Store.become (store : Store) (client : Nat) (call : Call) : Store :=
  { store with calls := store.calls.insert client call }

/-- Execute one commit statement and observe the decision it stands for. -/
def Store.commitStatement (store : Store) (transactionId : Uuid) (epoch : UInt64) : Store :=
  { store with
    rows := commitTransactionQuery store.rows epoch.toInt64 transactionId
    outcomes := observe store.outcomes transactionId
      (commitDecision store.rows transactionId epoch) }

def Store.execute (store : Store) (client : Nat) (pick : Uuid) : Call → Option Store
  | .start transactionId =>
    some ({ store with rows := startTransactionQuery store.rows transactionId }.finish client)
  | .commit transactionId epoch =>
    -- the answer is `TransactionIsCommitted` whatever the row was
    some (((store.commitStatement transactionId epoch).answer transactionId
      (.transactionIsCommitted ⟨epoch⟩)).finish client)
  | .batchCommit transactionIds remaining epoch =>
    if remaining = [] then
      some ({ store with
        answers := store.answers ++ transactionIds.map fun transactionId =>
          (transactionId, OpResult.transactionIsCommitted ⟨epoch⟩) }.finish client)
    else if pick ∈ remaining then
      some ((store.commitStatement pick epoch).become client
        (.batchCommit transactionIds (remaining.erase pick) epoch))
    else
      none
  | .abort transactionId =>
    match abortTransactionQuery store.rows transactionId with
    | (rows, true) =>
      some (({ store with
        rows := rows
        outcomes := observe store.outcomes transactionId .transactionIsAborted }.answer
          transactionId .transactionIsAborted).finish client)
    | (rows, false) =>
      some ({ store with rows := rows }.become client (.abortLookup transactionId))
  | .abortLookup transactionId =>
    match maybeGetCommitEpoch store.rows transactionId with
    | none => some (store.finish client)
    | some result =>
      some (({ store with
        outcomes := observe store.outcomes transactionId result }.answer
          transactionId result).finish client)

def step (store : Store) : Label → Option Store
  | .invoke client operation =>
    if client ∈ store.calls then none
    else some (store.become client operation.call)
  | .execute client pick =>
    match store.calls.find client with
    | none => none
    | some call => store.execute client pick call

def Row.outcome : Row → Option OpResult
  | ⟨.started, _⟩ => none
  | ⟨.aborted, _⟩ => some .transactionIsAborted
  | ⟨.committed, none⟩ => none
  | ⟨.committed, some epoch⟩ => some (.transactionIsCommitted ⟨epoch.toUInt64⟩)

end Sangria.TxStateStore
