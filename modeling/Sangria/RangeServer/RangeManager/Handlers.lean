import Sangria.RangeServer.PrefetchingBuffer
import Sangria.RangeServer.RangeManager.LockTable
import Sangria.RangeServer.Storage.Records

/-!
# The range manager

A loaded `RangeManager` and its handlers `get`, `prepare`, `abort` and `commit`,
cut at their waits.  Any number of handlers run at the same time; a label runs
one of them through its next section, that is one access to the lock table, the
pending state, the buffer or the storage, or one call of the write-ahead log.
-/

namespace Sangria.RangeServer

open FiniteMap

/-- `f64` as far as comparisons see it; `none` is not a number. -/
abbrev F64 := Option Rat

def F64.le : F64 → F64 → Bool
  | some left, some right => decide (left ≤ right)
  | _, _ => false

def F64.lt : F64 → F64 → Bool
  | some left, some right => decide (left < right)
  | _, _ => false

inductive TransactionAbortReason where
  | waitDie
  | transactionLockLost
  | other
  deriving DecidableEq

inductive Error where
  | rangeDoesNotExist
  | keyIsOutOfRange
  | rangeOwnershipLost
  | timeout
  | unknownTransaction
  | transactionAborted (reason : TransactionAbortReason)
  | internalError
  deriving DecidableEq

inductive Failure where
  | error (error : Error)
  | panicked
  deriving DecidableEq

structure GetResult where
  val : Option Bytes
  leaderSequenceNumber : Int
  dependencies : List Uuid

structure PrepareResult where
  dependencies : Finset Uuid
  releasedLockEarly : Bool

/-- What a range reads of its configuration and of its `RangeInfo`. -/
structure Configuration where
  commitStrategy : CommitStrategy
  heuristic : Heuristic
  keyRange : KeyRange
  leaderSequenceNumber : Nat

structure PrepareRequest where
  hasReads : Bool
  puts : List (Bytes × Bytes)
  deletes : List Bytes
  resolverAverageLoad : F64
  numOpenClients : Nat

namespace PrepareRequest

def hasWrites (request : PrepareRequest) : Bool :=
  !(request.puts.isEmpty && request.deletes.isEmpty)

def within (request : PrepareRequest) (keyRange : KeyRange) : Bool :=
  request.puts.all (fun put => keyRange.includes put.1) &&
    request.deletes.all keyRange.includes

def changes (request : PrepareRequest) : Changes :=
  request.deletes.foldl (fun changes key => changes.insert key none)
    (request.puts.foldl (fun changes put => changes.insert put.1 (some put.2)) ∅)

end PrepareRequest

structure PendingState where
  pendingPrepareRecords : HashMap Uuid Changes
  pendingCommitTable : HashMap Bytes Uuid

/-! ## Handlers in flight -/

inductive GetStage where
  | locking
  | waiting
  | checking
  | buffered
  | stored
  | returned (result : Except Failure GetResult)

inductive PrepareStage where
  | verifying
  /-- The release by a participant that only reads. -/
  | releasing
  | locking
  | waiting
  | deciding (earlyLockReleasePerKey : HashMap Bytes Bool)
  | appending (earlyLockReleasePerKey : HashMap Bytes Bool) (dependencies : Finset Uuid)
  | softReleasing (dependencies : Finset Uuid)
  | flushing (dependencies : Finset Uuid) (releasedLockEarly : Bool)
  | returned (result : Except Failure PrepareResult)

inductive AbortStage where
  | verifying
  | appending
  | flushing
  | releasing
  | returned (result : Except Failure Unit)

inductive CommitStage where
  | appending
  | flushing
  | collecting
  | storing (records : List (Uuid × Changes))
  | buffering (records : List (Uuid × Changes)) (remaining : Changes)
  | inspecting
  | releasing
  | cleaning
  | returned (result : Except Failure Unit)

inductive Handler where
  | get (transaction : Uuid) (key : Bytes) (stage : GetStage)
  | prepare (transaction : Uuid) (request : PrepareRequest) (stage : PrepareStage)
  | abort (transaction : Uuid) (stage : AbortStage)
  | commit (transactions : List Uuid) (epoch : Nat) (stage : CommitStage)

/-- What happens to the data of the range: a value is read, a prepare record is
saved, the puts of a batch are applied to the storage. -/
inductive Event where
  | read (transaction : Uuid) (key : Bytes) (value : Option Bytes)
  | saved (transaction : Uuid) (record : Changes)
  | stored (records : List (Uuid × Changes))

structure RangeManager where
  lockTable : LockTable
  pendingState : PendingState
  prefetchingBuffer : PrefetchingBuffer
  storage : Records
  handlers : HashMap Nat Handler
  trace : List Event

/-- A request that arrives, a section of a handler, a failing call, or a
response that leaves.  `runOn` names the entry of a map that an iteration takes
next. -/
inductive Label where
  | get (id : Nat) (transaction : Uuid) (key : Bytes)
  | prepare (id : Nat) (transaction : Uuid) (request : PrepareRequest)
  | abort (id : Nat) (transaction : Uuid)
  | commit (id : Nat) (transactions : List Uuid) (epoch : Nat)
  | run (id : Nat)
  | runOn (id : Nat) (key : Bytes)
  | fail (id : Nat) (error : Error) (effective : Bool)
  | deliver (id : Nat)

namespace RangeManager

def loaded (storage : Records) : RangeManager :=
  ⟨.new, ⟨∅, ∅⟩, .new, storage, ∅, []⟩

def put (range : RangeManager) (id : Nat) (handler : Handler) : RangeManager :=
  { range with handlers := range.handlers.insert id handler }

def log (range : RangeManager) (event : Event) : RangeManager :=
  { range with trace := range.trace ++ [event] }

/-! ## The decision on an early release -/

/-- Both heuristics compare a measure of contention with two bounds. -/
def exceeds (resolverAverageLoad : F64) (contention high low : Nat) : Bool :=
  if F64.le (some 5000) resolverAverageLoad then false
  else if F64.le (some 200) resolverAverageLoad && F64.lt resolverAverageLoad (some 5000) then
    decide (high < contention)
  else if F64.le (some 50) resolverAverageLoad && F64.lt resolverAverageLoad (some 200) then
    decide (low < contention)
  else true

def doEarlyLockRelease (config : Configuration) (lockTable : LockTable)
    (resolverAverageLoad : F64) (numOpenClients : Nat) : Bool :=
  match config.commitStrategy with
  | .pipelined => true
  | .traditional => false
  | .adaptive =>
    match config.heuristic with
    | .openClients => exceeds resolverAverageLoad numOpenClients 100 50
    | .lockContention =>
      exceeds resolverAverageLoad lockTable.getNumWaitersAndPending 40 20

/-! ## `get` -/

def returnRead (config : Configuration) (range : RangeManager) (id : Nat) (transaction : Uuid)
    (key : Bytes) (val : Option Bytes) (dependencies : List Uuid) : RangeManager :=
  (range.put id (.get transaction key (.returned
    (.ok ⟨val, config.leaderSequenceNumber, dependencies⟩)))).log (.read transaction key val)

def runGet (config : Configuration) (range : RangeManager) (id : Nat) (transaction : Uuid)
    (key : Bytes) : GetStage → Option RangeManager
  | .locking =>
    some ({ range with lockTable := range.lockTable.acquire transaction id }.put id
      (.get transaction key .waiting))
  | .waiting =>
    if id ∈ range.lockTable.signalled then
      some ({ range with lockTable := range.lockTable.receive id }.put id
        (.get transaction key
          (if config.commitStrategy = CommitStrategy.traditional then .buffered else .checking)))
    else none
  | .checking =>
    match range.pendingState.pendingCommitTable.find key with
    | none => some (range.put id (.get transaction key .buffered))
    | some dependency =>
      -- Both the missing record and the missing key are panics.
      match (range.pendingState.pendingPrepareRecords.find dependency).bind
          (fun record => record.find key) with
      | some val => some (range.returnRead config id transaction key val [dependency])
      | none => some (range.put id (.get transaction key (.returned (.error .panicked))))
  | .buffered =>
    match range.prefetchingBuffer.getFromBuffer key with
    | some val => some (range.returnRead config id transaction key (some val) [])
    | none => some (range.put id (.get transaction key .stored))
  | .stored => some (range.returnRead config id transaction key (range.storage.get key) [])
  | .returned _ => none

/-! ## `prepare` -/

def arrivePrepare (config : Configuration) (request : PrepareRequest) : PrepareStage :=
  if request.hasWrites then
    if request.within config.keyRange then
      if request.hasReads then .verifying else .locking
    else .returned (.error (.error .keyIsOutOfRange))
  else if request.hasReads then .verifying
  else .returned (.ok ⟨∅, false⟩)

/-- The dependencies found in the table under the keys of the record. -/
def collect (table : HashMap Bytes Uuid) (decisions : HashMap Bytes Bool) : Finset Uuid :=
  decisions.keys.biUnion fun key => (table.find key).toFinset

/-- A key that is released early gets an entry in the table, any other key of
the record loses its entry. -/
def publish (table : HashMap Bytes Uuid) (decisions : HashMap Bytes Bool) (transaction : Uuid) :
    HashMap Bytes Uuid :=
  filterMap (fun _ early => if early then some transaction else none) decisions ∪
    filterMap (fun key last => if key ∈ decisions then none else some last) table

def save (config : Configuration) (range : RangeManager) (id : Nat) (transaction : Uuid)
    (request : PrepareRequest) (decisions : HashMap Bytes Bool) : RangeManager :=
  let table := range.pendingState.pendingCommitTable
  let records := range.pendingState.pendingPrepareRecords.insert transaction request.changes
  if config.commitStrategy = .traditional then
    ({ range with pendingState := ⟨records, table⟩ }.put id
      (.prepare transaction request (.appending decisions ∅))).log
        (.saved transaction request.changes)
  else
    ({ range with pendingState := ⟨records, publish table decisions transaction⟩ }.put id
      (.prepare transaction request (.appending decisions (collect table decisions)))).log
        (.saved transaction request.changes)

def runPrepare (config : Configuration) (range : RangeManager) (id : Nat) (transaction : Uuid)
    (request : PrepareRequest) : PrepareStage → Option RangeManager
  | .verifying =>
    some (range.put id (.prepare transaction request
      (if range.lockTable.isCurrentlyHolding [transaction] then
        if request.hasWrites then .locking else .releasing
      else .returned (.error (.error (.transactionAborted .transactionLockLost))))))
  | .releasing =>
    some ({ range with lockTable := range.lockTable.release none }.put id
      (.prepare transaction request (.returned (.ok ⟨∅, false⟩))))
  | .locking =>
    some ({ range with lockTable := range.lockTable.acquire transaction id }.put id
      (.prepare transaction request .waiting))
  | .waiting =>
    if id ∈ range.lockTable.signalled then
      some ({ range with lockTable := range.lockTable.receive id }.put id
        (.prepare transaction request (.deciding ∅)))
    else none
  | .deciding decisions =>
    if decisions.keys = request.changes.keys then
      some (range.save config id transaction request decisions)
    else none
  | .appending .. => none
  | .softReleasing dependencies =>
    some ({ range with lockTable := range.lockTable.softRelease }.put id
      (.prepare transaction request (.flushing dependencies true)))
  | .flushing dependencies early =>
    some (range.put id (.prepare transaction request (.returned (.ok ⟨dependencies, early⟩))))
  | .returned _ => none

/-- The decision for a key, and the release by the decision for whichever key
comes first in the map. -/
def runPrepareOn (config : Configuration) (range : RangeManager) (id : Nat) (transaction : Uuid)
    (request : PrepareRequest) (key : Bytes) : PrepareStage → Option RangeManager
  | .deciding decisions =>
    if key ∈ request.changes ∧ key ∉ decisions then
      some (range.put id (.prepare transaction request (.deciding (decisions.insert key
        (doEarlyLockRelease config range.lockTable request.resolverAverageLoad
          request.numOpenClients)))))
    else none
  | .appending decisions dependencies =>
    match decisions.find key with
    | some early =>
      some (range.put id (.prepare transaction request
        (if early then .softReleasing dependencies else .flushing dependencies false)))
    | none => none
  | _ => none

/-! ## `abort` -/

def runAbort (range : RangeManager) (id : Nat) (transaction : Uuid) :
    AbortStage → Option RangeManager
  | .verifying =>
    some (range.put id (.abort transaction
      (if range.lockTable.isCurrentlyHolding [transaction] then .appending
      else .returned (.ok ()))))
  | .appending => some (range.put id (.abort transaction .flushing))
  | .flushing => some (range.put id (.abort transaction .releasing))
  | .releasing =>
    some ({ range with lockTable := range.lockTable.release none }.put id
      (.abort transaction (.returned (.ok ()))))
  | .returned _ => none

/-! ## `commit` -/

def collectRecords (records : HashMap Uuid Changes) :
    List Uuid → Option (List (Uuid × Changes))
  | [] => some []
  | transaction :: rest =>
    match records.find transaction, collectRecords records rest with
    | some record, some others => some ((transaction, record) :: others)
    | _, _ => none

def allChanges (records : List (Uuid × Changes)) : Changes :=
  records.foldl (fun all entry => entry.2 ∪ all) ∅

def lastTxPerKey (records : List (Uuid × Changes)) : HashMap Bytes Uuid :=
  records.foldl (fun last entry =>
    filterMap (fun _ _ => some entry.1) entry.2 ∪ last) ∅

def unpublish (table : HashMap Bytes Uuid) (last : HashMap Bytes Uuid) : HashMap Bytes Uuid :=
  filterMap (fun key dependee =>
    if last.find key = some dependee then none else some dependee) table

def clear (config : Configuration) (pending : PendingState) (transactions : List Uuid)
    (records : List (Uuid × Changes)) : PendingState where
  pendingPrepareRecords := filterMap (fun transaction record =>
    if transaction ∈ transactions then none else some record) pending.pendingPrepareRecords
  pendingCommitTable :=
    if config.commitStrategy = .traditional then pending.pendingCommitTable
    else unpublish pending.pendingCommitTable (lastTxPerKey records)

def store (range : RangeManager) (records : List (Uuid × Changes)) (epoch : Nat) :
    RangeManager :=
  { range with storage := range.storage.batchUpsert (allChanges records) (asI64 epoch) }.log
    (.stored records)

def runCommit (config : Configuration) (range : RangeManager) (id : Nat)
    (transactions : List Uuid) (epoch : Nat) : CommitStage → Option RangeManager
  | .appending => some (range.put id (.commit transactions epoch .flushing))
  | .flushing => some (range.put id (.commit transactions epoch .collecting))
  | .collecting =>
    some (range.put id (.commit transactions epoch
      (match collectRecords range.pendingState.pendingPrepareRecords transactions with
      | none => .returned (.error .panicked)
      | some records =>
        if (allChanges records).keys = ∅ then .buffering records ∅ else .storing records)))
  | .storing records =>
    some ((range.store records epoch).put id (.commit transactions epoch
      (if Deletes (allChanges records) then .returned (.error (.error .internalError))
      else .buffering records (allChanges records))))
  | .buffering records remaining =>
    if remaining.keys = ∅ then
      some ({ range with
        pendingState := clear config range.pendingState transactions records }.put id
          (.commit transactions epoch .inspecting))
    else none
  | .inspecting =>
    some (range.put id (.commit transactions epoch
      (match range.lockTable.getCurrentHolderId with
      | none => .cleaning
      | some holder => if holder ∈ transactions then .releasing else .cleaning)))
  | .releasing =>
    some ({ range with lockTable := range.lockTable.release none }.put id
      (.commit transactions epoch .cleaning))
  | .cleaning =>
    some ({ range with lockTable := range.lockTable.cleanSoftReleased transactions }.put id
      (.commit transactions epoch (.returned (.ok ()))))
  | .returned _ => none

def runCommitOn (range : RangeManager) (id : Nat) (transactions : List Uuid) (epoch : Nat)
    (key : Bytes) : CommitStage → Option RangeManager
  | .buffering records remaining =>
    match remaining.find key with
    | none => none
    | some change =>
      some ({ range with
        prefetchingBuffer := match change with
          | some val => range.prefetchingBuffer.upsert key val
          | none => range.prefetchingBuffer.delete key }.put id
            (.commit transactions epoch (.buffering records (remaining.erase key))))
  | _ => none

/-! ## Failing calls -/

/-- A call of the storage or of the write-ahead log returns an error; one that
timed out may have been executed.  The result of a flush is unwrapped. -/
def failHandler (range : RangeManager) (id : Nat) (error : Error) (effective : Bool) :
    Handler → Option RangeManager
  | .get transaction key .stored =>
    some (range.put id (.get transaction key (.returned (.error (.error error)))))
  | .prepare transaction request (.appending ..) =>
    some (range.put id (.prepare transaction request (.returned (.error (.error error)))))
  | .prepare transaction request (.flushing ..) =>
    some (range.put id (.prepare transaction request (.returned (.error .panicked))))
  | .abort transaction .appending =>
    some (range.put id (.abort transaction (.returned (.error (.error error)))))
  | .abort transaction .flushing =>
    some (range.put id (.abort transaction (.returned (.error .panicked))))
  | .commit transactions epoch .appending =>
    some (range.put id (.commit transactions epoch (.returned (.error (.error error)))))
  | .commit transactions epoch .flushing =>
    some (range.put id (.commit transactions epoch (.returned (.error .panicked))))
  | .commit transactions epoch (.storing records) =>
    some ((if effective then range.store records epoch else range).put id
      (.commit transactions epoch (.returned (.error (.error error)))))
  | _ => none

end RangeManager

def Handler.isReturned : Handler → Bool
  | .get _ _ (.returned _) | .prepare _ _ (.returned _)
  | .abort _ (.returned _) | .commit _ _ (.returned _) => true
  | _ => false

namespace RangeManager

/-! ## Steps -/

def arrive (range : RangeManager) (id : Nat) (handler : Handler) : Option RangeManager :=
  if range.handlers.find id = none then some (range.put id handler) else none

def runHandler (config : Configuration) (range : RangeManager) (id : Nat) :
    Handler → Option RangeManager
  | .get transaction key stage => range.runGet config id transaction key stage
  | .prepare transaction request stage => range.runPrepare config id transaction request stage
  | .abort transaction stage => range.runAbort id transaction stage
  | .commit transactions epoch stage => range.runCommit config id transactions epoch stage

def runHandlerOn (config : Configuration) (range : RangeManager) (id : Nat) (key : Bytes) :
    Handler → Option RangeManager
  | .prepare transaction request stage =>
    range.runPrepareOn config id transaction request key stage
  | .commit transactions epoch stage => range.runCommitOn id transactions epoch key stage
  | _ => none

def step (config : Configuration) (range : RangeManager) : Label → Option RangeManager
  | .get id transaction key =>
    range.arrive id (.get transaction key
      (if config.keyRange.includes key then .locking
      else .returned (.error (.error .keyIsOutOfRange))))
  | .prepare id transaction request =>
    range.arrive id (.prepare transaction request (arrivePrepare config request))
  | .abort id transaction => range.arrive id (.abort transaction .verifying)
  | .commit id transactions epoch => range.arrive id (.commit transactions epoch .appending)
  | .run id => (range.handlers.find id).bind (range.runHandler config id)
  | .runOn id key => (range.handlers.find id).bind (range.runHandlerOn config id key)
  | .fail id error effective =>
    (range.handlers.find id).bind (range.failHandler id error effective)
  | .deliver id =>
    match range.handlers.find id with
    | none => none
    | some handler =>
      if handler.isReturned then
        some { range with handlers := range.handlers.erase id }
      else none

end RangeManager

end Sangria.RangeServer
