import Sangria.Coordinator.Transaction

/-!
# The transactions that a range server knows

The requests of a range server, around the calls of its range managers.  The
server keeps a table of transactions: a read enters its transaction, a commit
removes it, and a prepare only looks it up.  What a range manager answers, and
whether the range could be loaded, are parameters here.
-/

namespace Sangria.RangeServer.Server

open Coordinator (unsetLeaderSequenceNumber invalidLeaderSequenceNumber)

inductive Error where
  | invalidRequestFormat
  | rangeIsNotLoaded
  | unknownTransaction
  /-- What a range manager returned. -/
  | manager (error : RangeServer.Error)
  deriving DecidableEq

inductive Load where
  | loaded
  | notLoaded
  | failed (error : RangeServer.Error)

def Load.result : Load → Except Error Unit
  | .loaded => .ok ()
  | .notLoaded => .error .rangeIsNotLoaded
  | .failed error => .error (.manager error)

structure TransactionInfo where
  id : Uuid
  started : Int
  overallTimeout : Nat
  deriving DecidableEq

structure FlatbufTransactionInfo where
  overallTimeoutUs : UInt32
  deriving DecidableEq

abbrev TransactionTable := HashMap Uuid TransactionInfo

def maybeStartTransaction (table : TransactionTable) (now : Int) (id : Uuid) :
    Option FlatbufTransactionInfo → TransactionTable
  | none => table
  | some info =>
    if id ∈ table then table else table.insert id ⟨id, now, info.overallTimeoutUs.toNat⟩

def getTransactionInfo (table : TransactionTable) (id : Uuid) : Except Error TransactionInfo :=
  match table.find id with
  | some info => .ok info
  | none => .error .unknownTransaction

def removeTransactions (table : TransactionTable) (ids : List Uuid) : TransactionTable :=
  ids.foldl (fun table id => table.erase id) table

/-! ## The messages -/

structure GetMessage where
  requestId : Option Uuid
  transactionId : Option Uuid
  rangeId : Option FullRangeId
  transactionInfo : Option FlatbufTransactionInfo
  keys : List Bytes

structure PrepareMessage where
  requestId : Option Uuid
  transactionId : Option Uuid
  rangeId : Option FullRangeId
  request : PrepareRequest

structure CommitMessage where
  requestId : Option Uuid
  transactionIds : Option (List Uuid)
  rangeId : Option FullRangeId
  epoch : UInt64

/-! ## The requests -/

/-- What the reads of a request have found so far; the dependencies are a set. -/
structure Reads where
  leaderSequenceNumber : Int
  reads : List (Bytes × Option Bytes)
  dependencies : List Uuid

def Reads.add (found : Reads) (key : Bytes) (result : GetResult) : Reads where
  leaderSequenceNumber :=
    if found.leaderSequenceNumber = unsetLeaderSequenceNumber then result.leaderSequenceNumber
    else if found.leaderSequenceNumber ≠ result.leaderSequenceNumber then
      invalidLeaderSequenceNumber
    else found.leaderSequenceNumber
  reads := found.reads ++ [(key, result.val)]
  dependencies := found.dependencies ∪ result.dependencies

/-- The keys with the answers of the range manager; the first error ends the
request. -/
def executeReads : Reads → List (Bytes × Except RangeServer.Error GetResult) → Except Error Reads
  | found, [] => .ok found
  | _, (_, .error error) :: _ => .error (.manager error)
  | found, (key, .ok result) :: rest => executeReads (found.add key result) rest

def getInner (table : TransactionTable) (now : Int) (message : GetMessage)
    (load : Load) (answers : List (Except RangeServer.Error GetResult)) :
    TransactionTable × Except Error Reads :=
  match message.rangeId, message.transactionId, message.requestId with
  | some _, some id, some _ =>
    let table := maybeStartTransaction table now id message.transactionInfo
    (table, do
      load.result
      let _ ← getTransactionInfo table id
      executeReads ⟨unsetLeaderSequenceNumber, [], []⟩ (message.keys.zip answers))
  | _, _, _ => (table, .error .invalidRequestFormat)

def prepareInner (table : TransactionTable) (message : PrepareMessage) (load : Load)
    (answer : TransactionInfo → PrepareRequest → Except RangeServer.Error PrepareResult) :
    Except Error PrepareResult :=
  match message.rangeId, message.transactionId with
  | some _, some id => do
      load.result
      let transaction ← getTransactionInfo table id
      (answer transaction message.request).mapError .manager
  | _, _ => .error .invalidRequestFormat

def commitInner (table : TransactionTable) (message : CommitMessage) (load : Load)
    (answer : List Uuid → UInt64 → Except RangeServer.Error Unit) :
    TransactionTable × Except Error Unit :=
  match message.rangeId, message.transactionIds with
  | some _, some ids =>
    match (do load.result; (answer ids message.epoch).mapError .manager) with
    | .ok _ => (removeTransactions table ids, .ok ())
    | .error error => (table, .error error)
  | _, _ => (table, .error .invalidRequestFormat)

/-! ## What the range client sends -/

def getMessage (requestId : Uuid) (transaction : TransactionInfo) (range : FullRangeId)
    (keys : List Bytes) : GetMessage :=
  ⟨some requestId, some transaction.id, some range,
    some ⟨UInt32.ofNat transaction.overallTimeout⟩, keys⟩

def prepareMessage (requestId : Uuid) (transaction : TransactionInfo) (range : FullRangeId)
    (request : PrepareRequest) : PrepareMessage :=
  ⟨some requestId, some transaction.id, some range, request⟩

def commitMessage (requestId : Uuid) (transactions : List Uuid) (range : FullRangeId)
    (epoch : UInt64) : CommitMessage :=
  ⟨some requestId, some transactions, some range, epoch⟩

/-! ## Who is in the table -/

section Table

variable {table : TransactionTable} {id other : Uuid}
variable {load : Load} {now : Int} {answers : List (Except RangeServer.Error GetResult)}
  {requestId : Uuid} {transaction : TransactionInfo} {range : FullRangeId}

theorem mem_maybeStartTransaction (now : Int) (info : Option FlatbufTransactionInfo)
    (listed : other ∈ table) : other ∈ maybeStartTransaction table now id info := by
  unfold maybeStartTransaction
  split
  next => exact listed
  next =>
    split
    next => exact listed
    next => exact Finmap.mem_insert.mpr (.inr listed)

theorem mem_maybeStartTransaction_self (now : Int) (info : FlatbufTransactionInfo) :
    id ∈ maybeStartTransaction table now id (some info) := by
  simp only [maybeStartTransaction]
  split
  next listed => exact listed
  next => exact Finmap.mem_insert.mpr (.inl rfl)

theorem mem_removeTransactions {ids : List Uuid} (kept : id ∉ ids) (listed : id ∈ table) :
    id ∈ removeTransactions table ids := by
  unfold removeTransactions
  induction ids generalizing table with
  | nil => exact listed
  | cons _ _ ih =>
    rw [List.mem_cons, not_or] at kept
    exact ih kept.2 (Finmap.mem_erase.mpr ⟨kept.1, listed⟩)

theorem exists_getTransactionInfo (listed : id ∈ table) :
    ∃ info, getTransactionInfo table id = .ok info := by
  obtain ⟨info, found⟩ := FiniteMap.mem_iff.mp listed
  exact ⟨info, by rw [getTransactionInfo, found]⟩

theorem mem_getInner {message : GetMessage} (listed : other ∈ table) :
    other ∈ (getInner table now message load answers).1 := by
  unfold getInner
  split
  next => exact mem_maybeStartTransaction now _ listed
  next => exact listed

theorem mem_getInner_getMessage {keys : List Bytes} : transaction.id ∈
      (getInner table now (getMessage requestId transaction range keys) load answers).1 :=
  mem_maybeStartTransaction_self now _

theorem mem_commitInner {message : CommitMessage}
    {answer : List Uuid → UInt64 → Except RangeServer.Error Unit}
    (kept : ∀ ids, message.transactionIds = some ids → id ∉ ids) (listed : id ∈ table) :
    id ∈ (commitInner table message load answer).1 := by
  unfold commitInner
  split
  next ids _ named =>
    split
    next => exact mem_removeTransactions (kept ids named) listed
    next => exact listed
  next => exact listed

theorem prepareInner_ne_unknown {req : PrepareRequest}
    {answer : TransactionInfo → PrepareRequest → Except RangeServer.Error PrepareResult}
    (listed : transaction.id ∈ table) :
    prepareInner table (prepareMessage requestId transaction range req) load answer ≠
      .error .unknownTransaction := by
  obtain ⟨info, found⟩ := exists_getTransactionInfo listed
  simp only [prepareInner, prepareMessage, found]
  cases load with
  | notLoaded | failed error =>
    intro same
    cases same
  | loaded =>
    change ((answer info req).mapError Error.manager) ≠ _
    intro same
    cases answered : answer info req with
    | ok | error =>
      rw [answered] at same
      cases same

end Table

end Sangria.RangeServer.Server
