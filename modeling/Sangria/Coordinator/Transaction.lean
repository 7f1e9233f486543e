import Sangria.Lib.Enumeration
import Sangria.RangeServer.RangeManager.Handlers
import Sangria.Resolver.Dependencies
import Sangria.TxStateStore.Cassandra

/-!
# A transaction of the coordinator

`Transaction` of the coordinator, cut at its waits.  One call of the client runs
at a time; a label is a call or the answer it waits for.  The calls of a join
set to the ranges are sent when the set is filled and answered in any order.
-/

namespace Sangria.Coordinator

open RangeServer (F64 GetResult PrepareRequest PrepareResult)
open TxStateStore (OpResult)

inductive TransactionAbortReason where
  | rangeLeadershipChanged
  | prepareFailed
  | other
  deriving DecidableEq

inductive Error where
  | keyspaceDoesNotExist
  | transactionNoLongerRunning
  | transactionAborted (reason : TransactionAbortReason)
  /-- What a call of the resolver returned. -/
  | resolverFailed
  deriving DecidableEq

inductive Failure where
  | error (error : Error)
  | panicked
  deriving DecidableEq

inductive Response where
  | value (val : Option Bytes)
  | done
  | failed (failure : Failure)
  deriving DecidableEq

/-- The answer of a range, an error of the range client, or the panic of the
task that made the call. -/
inductive Reply (α : Type) where
  | ok (result : α)
  | error
  | panicked

inductive State where
  | running
  | preparing
  | aborted
  | committed
  deriving DecidableEq

structure ParticipantRange where
  readset : Finset Bytes
  writeset : HashMap Bytes Bytes
  deleteset : Finset Bytes
  leaderSequenceNumber : Nat

namespace ParticipantRange

def new : ParticipantRange := ⟨∅, ∅, ∅, 0⟩

/-- `!info.writeset.is_empty()`, wherever a commit is sent or delegated. -/
def hasWrites (participant : ParticipantRange) : Bool := decide (participant.writeset.keys ≠ ∅)

/-- The request of a prepare; the iteration orders of the sets are open. -/
structure Asks (participant : ParticipantRange) (request : PrepareRequest) : Prop where
  hasReads : request.hasReads = decide (participant.readset ≠ ∅)
  puts : ∀ key val, (key, val) ∈ request.puts ↔ participant.writeset.find key = some val
  deletes : ∀ key, key ∈ request.deletes ↔ key ∈ participant.deleteset

theorem asks_iff {participant : ParticipantRange} {req : PrepareRequest} :
    participant.Asks req ↔
      req.hasReads = decide (participant.readset ≠ ∅) ∧
        (∀ put ∈ req.puts, participant.writeset.find put.1 = some put.2) ∧
        (∀ key ∈ participant.writeset.keys, key ∈ req.puts.map Prod.fst) ∧
        req.deletes.toFinset = participant.deleteset := by
  constructor
  · intro asks
    refine ⟨asks.hasReads, fun put listed => (asks.puts put.1 put.2).mp listed, ?_, ?_⟩
    · intro key listed
      obtain ⟨val, found⟩ := FiniteMap.mem_keys.mp listed
      exact List.mem_map.mpr ⟨(key, val), (asks.puts key val).mpr found, rfl⟩
    · ext key
      rw [List.mem_toFinset, asks.deletes]
  · rintro ⟨hasReads, puts, keys, deletes⟩
    refine ⟨hasReads, fun key val => ⟨puts (key, val), ?_⟩, ?_⟩
    · intro found
      obtain ⟨⟨key, other⟩, listed, rfl⟩ :=
        List.mem_map.mp (keys key (FiniteMap.mem_keys.mpr ⟨val, found⟩))
      cases (puts _ listed).symm.trans found
      exact listed
    · intro key
      rw [← deletes, List.mem_toFinset]

instance (participant : ParticipantRange) (request : PrepareRequest) :
    Decidable (participant.Asks request) := decidable_of_iff' _ asks_iff

end ParticipantRange

inductive Stage where
  | started
  | getting (range : FullRangeId) (key : Bytes)
  | preparing (resolverAverageLoad : F64) (numOpenClients : Nat) (waiting : Finset FullRangeId)
      (anyEarlyLockReleases : Bool)
  | committing (waiting : Finset FullRangeId) (anyEarlyLockReleases : Bool)
  | delegating
  | recordingAbort (waiting : Finset FullRangeId) (response : Response)
  | aborting (waiting : Finset FullRangeId) (response : Response)
  | returned (response : Response)

/-- The last three fields are observers: whether `commit` has returned `Ok`, the
ranges that were sent a commit, and those that answered it with success. -/
structure Transaction where
  id : Uuid
  commitStrategy : CommitStrategy
  state : State
  participantRanges : HashMap FullRangeId ParticipantRange
  dependencies : Finset Uuid
  stage : Stage
  acknowledged : Bool
  sent : Finset FullRangeId
  replied : Finset FullRangeId

/-- The calls of the client and the answers from outside.  A key is given with
the range that the assignment oracle finds for it. -/
inductive Label where
  | get (range : Option FullRangeId) (key : Bytes)
  | put (range : Option FullRangeId) (key val : Bytes)
  | del (range : Option FullRangeId) (key : Bytes)
  | commit (resolverAverageLoad : F64) (numOpenClients : Nat)
  | abort
  | gotten (reply : Reply GetResult)
  | prepared (range : FullRangeId) (reply : Reply PrepareResult)
  | recorded (answer : Option OpResult)
  | committed (range : FullRangeId) (reply : Reply Unit)
  | joined
  | delegated
  | resolved (ok : Bool)
  | abortRecorded (answer : Option OpResult)
  | aborted (range : FullRangeId)
  | abortJoined

def Label.isCall : Label → Bool
  | .get .. | .put .. | .del .. | .commit .. | .abort => true
  | _ => false

def Label.ofAbort : Label → Bool
  | .abortRecorded _ | .aborted _ | .abortJoined => true
  | _ => false

def Label.dependencies : Label → Finset Uuid
  | .gotten (.ok result) => result.dependencies.toFinset
  | .prepared _ (.ok result) => result.dependencies
  | _ => ∅

def asU64 (number : Int) : Nat := (number % 2 ^ 64).toNat

def invalidLeaderSequenceNumber : Int := -1

def unsetLeaderSequenceNumber : Int := 0

/-- The number of the leader that the participant was first served by. -/
def ParticipantRange.leaderAfter (participant : ParticipantRange) (current : Int) : Nat :=
  if current ≠ invalidLeaderSequenceNumber ∧
      participant.leaderSequenceNumber = asU64 unsetLeaderSequenceNumber then asU64 current
  else participant.leaderSequenceNumber

namespace Transaction

def new (id : Uuid) (commitStrategy : CommitStrategy) : Transaction :=
  ⟨id, commitStrategy, .running, ∅, ∅, .started, false, ∅, ∅⟩

def idle (transaction : Transaction) : Bool :=
  match transaction.stage with
  | .started | .returned _ => true
  | _ => false

def respond (transaction : Transaction) (response : Response) : Transaction :=
  { transaction with stage := .returned response }

def checkStillRunning (transaction : Transaction) : Except Error Unit :=
  match transaction.state with
  | .running => .ok ()
  | .aborted => .error (.transactionAborted .other)
  | .preparing | .committed => .error .transactionNoLongerRunning

def getParticipantRange (transaction : Transaction) (range : FullRangeId) : ParticipantRange :=
  (transaction.participantRanges.find range).getD .new

def setParticipantRange (transaction : Transaction) (range : FullRangeId)
    (participant : ParticipantRange) : Transaction :=
  { transaction with participantRanges := transaction.participantRanges.insert range participant }

def writers (transaction : Transaction) : Finset FullRangeId :=
  transaction.participantRanges.keys.filter fun range =>
    (transaction.getParticipantRange range).hasWrites = true

/-! ## The calls of the client -/

def resolveFullRecordKey (transaction : Transaction) (range : Option FullRangeId) :
    Except Error FullRangeId :=
  match transaction.checkStillRunning, range with
  | .error error, _ => .error error
  | .ok _, none => .error .keyspaceDoesNotExist
  | .ok _, some range => .ok range

def get (transaction : Transaction) (range : Option FullRangeId) (key : Bytes) : Transaction :=
  match transaction.resolveFullRecordKey range with
  | .error error => transaction.respond (.failed (.error error))
  | .ok range =>
    let participant := transaction.getParticipantRange range
    let entered := transaction.setParticipantRange range participant
    match participant.writeset.find key with
    | some val => entered.respond (.value (some val))
    | none =>
      if key ∈ participant.deleteset then entered.respond (.value none)
      else { entered with stage := .getting range key }

def put (transaction : Transaction) (range : Option FullRangeId) (key val : Bytes) :
    Transaction :=
  match transaction.resolveFullRecordKey range with
  | .error error => transaction.respond (.failed (.error error))
  | .ok range =>
    let participant := transaction.getParticipantRange range
    (transaction.setParticipantRange range { participant with
      deleteset := participant.deleteset.erase key
      writeset := participant.writeset.insert key val }).respond .done

def del (transaction : Transaction) (range : Option FullRangeId) (key : Bytes) : Transaction :=
  match transaction.resolveFullRecordKey range with
  | .error error => transaction.respond (.failed (.error error))
  | .ok range =>
    let participant := transaction.getParticipantRange range
    (transaction.setParticipantRange range { participant with
      writeset := participant.writeset.erase key
      deleteset := insert key participant.deleteset }).respond .done

def recordAbort (transaction : Transaction) (response : Response) : Transaction :=
  { transaction with
    state := .aborted
    stage := .recordingAbort transaction.participantRanges.keys response }

def abort (transaction : Transaction) : Transaction :=
  match transaction.state with
  | .aborted => transaction.respond .done
  | _ =>
    match transaction.checkStillRunning with
    | .error error => transaction.respond (.failed (.error error))
    | .ok _ => transaction.recordAbort .done

def commit (transaction : Transaction) (resolverAverageLoad : F64) (numOpenClients : Nat) :
    Transaction :=
  match transaction.checkStillRunning with
  | .error error => transaction.respond (.failed (.error error))
  | .ok _ =>
    { transaction with
      state := .preparing
      stage := .preparing resolverAverageLoad numOpenClients transaction.participantRanges.keys
        false }

/-! ## The answers -/

def receiveGet (transaction : Transaction) (range : FullRangeId) (key : Bytes) :
    Reply GetResult → Transaction
  | .error | .panicked => transaction.respond (.failed .panicked)
  | .ok result =>
    let participant := transaction.getParticipantRange range
    let leader := participant.leaderAfter result.leaderSequenceNumber
    let received := { transaction with
      dependencies := transaction.dependencies ∪ result.dependencies.toFinset }
    if result.leaderSequenceNumber ≠ asI64 leader then
      (received.setParticipantRange range
        { participant with leaderSequenceNumber := leader }).recordAbort
          (.failed (.error (.transactionAborted .rangeLeadershipChanged)))
    else
      (received.setParticipantRange range { participant with
        leaderSequenceNumber := leader
        readset := insert key participant.readset }).respond (.value result.val)

/-- The error of the range client is not translated yet: it panics. -/
def receivePrepare (transaction : Transaction) (resolverAverageLoad : F64)
    (numOpenClients : Nat) (waiting : Finset FullRangeId) (anyEarlyLockReleases : Bool)
    (range : FullRangeId) : Reply PrepareResult → Transaction
  | .panicked =>
    transaction.recordAbort (.failed (.error (.transactionAborted .prepareFailed)))
  | .error => transaction.respond (.failed .panicked)
  | .ok result =>
    { transaction with
      dependencies := transaction.dependencies ∪ result.dependencies
      stage := .preparing resolverAverageLoad numOpenClients (waiting.erase range)
        (anyEarlyLockReleases || result.releasedLockEarly) }

def notifyParticipants (transaction : Transaction) (anyEarlyLockReleases : Bool) : Transaction :=
  { transaction with
    state := .committed
    stage := .committing transaction.writers anyEarlyLockReleases
    sent := transaction.sent ∪ transaction.writers }

/-- The answer of `try_commit_transaction`, which only the traditional strategy
looks at; `none` is an error of the store, which is unwrapped. -/
def receiveRecord (transaction : Transaction) (anyEarlyLockReleases : Bool) :
    Option OpResult → Transaction
  | none => transaction.respond (.failed .panicked)
  | some answer =>
    match transaction.commitStrategy, answer with
    | .traditional, .transactionIsAborted =>
      transaction.respond (.failed (.error (.transactionAborted .other)))
    | .traditional, .transactionIsCommitted info =>
      if info.epoch = 0 then transaction.notifyParticipants anyEarlyLockReleases
      else transaction.respond (.failed .panicked)
    | _, _ => transaction.notifyParticipants anyEarlyLockReleases

def receiveCommit (transaction : Transaction) (waiting : Finset FullRangeId)
    (anyEarlyLockReleases : Bool) (range : FullRangeId) (reply : Reply Unit) : Transaction :=
  { transaction with
    stage := .committing (waiting.erase range) anyEarlyLockReleases
    replied := match reply with
      | .ok _ => insert range transaction.replied
      | _ => transaction.replied }

def acknowledge (transaction : Transaction) : Transaction :=
  { transaction with
    stage := .returned .done
    acknowledged := true }

def receiveAbortRecord (transaction : Transaction) (waiting : Finset FullRangeId)
    (response : Response) : Option OpResult → Transaction
  | some .transactionIsAborted => { transaction with stage := .aborting waiting response }
  | some (.transactionIsCommitted _) | none => transaction.respond (.failed .panicked)

def delegates (transaction : Transaction) : Bool :=
  decide (transaction.commitStrategy ≠ .traditional ∧ transaction.dependencies ≠ ∅)

def step (transaction : Transaction) : Label → Option Transaction
  | .get range key => if transaction.idle then some (transaction.get range key) else none
  | .put range key val => if transaction.idle then some (transaction.put range key val) else none
  | .del range key => if transaction.idle then some (transaction.del range key) else none
  | .commit load clients =>
    if transaction.idle then some (transaction.commit load clients) else none
  | .abort => if transaction.idle then some transaction.abort else none
  | .gotten reply =>
    match transaction.stage with
    | .getting range key => some (transaction.receiveGet range key reply)
    | _ => none
  | .prepared range reply =>
    match transaction.stage with
    | .preparing load clients waiting early =>
      if range ∈ waiting then
        some (transaction.receivePrepare load clients waiting early range reply)
      else none
    | _ => none
  | .recorded answer =>
    match transaction.stage with
    | .preparing _ _ waiting early =>
      if waiting = ∅ ∧ transaction.delegates = false then
        some (transaction.receiveRecord early answer)
      else none
    | _ => none
  | .delegated =>
    match transaction.stage with
    | .preparing _ _ waiting _ =>
      if waiting = ∅ ∧ transaction.delegates = true then
        some { transaction with stage := .delegating }
      else none
    | _ => none
  | .committed range reply =>
    match transaction.stage with
    | .committing waiting early =>
      if range ∈ waiting then some (transaction.receiveCommit waiting early range reply)
      else none
    | _ => none
  | .joined =>
    match transaction.stage with
    | .committing waiting _ => if waiting = ∅ then some transaction.acknowledge else none
    | _ => none
  | .resolved ok =>
    match transaction.stage with
    | .delegating =>
      some (if ok then transaction.acknowledge
        else transaction.respond (.failed (.error .resolverFailed)))
    | _ => none
  | .abortRecorded answer =>
    match transaction.stage with
    | .recordingAbort waiting response =>
      some (transaction.receiveAbortRecord waiting response answer)
    | _ => none
  | .aborted range =>
    match transaction.stage with
    | .recordingAbort waiting response =>
      some { transaction with stage := .recordingAbort (waiting.erase range) response }
    | .aborting waiting response =>
      some { transaction with stage := .aborting (waiting.erase range) response }
    | _ => none
  | .abortJoined =>
    match transaction.stage with
    | .aborting waiting response =>
      if waiting = ∅ then some (transaction.respond response) else none
    | _ => none

end Transaction

end Sangria.Coordinator
