import Sangria.Resolver.DependencyGraph
import Sangria.Resolver.GroupCommit

/-!
# The resolver process

All tasks of the resolver and their interleavings: `Resolver::commit`,
`register_committed_transactions`, the steps of `add_transactions`, the rounds
of `trigger_commit` with `GroupCommit::commit`, and the batch tasks of a round.
A label runs one task up to its next wait for a lock, a call or another task.

Two locks are held across such waits.  `adding` is the caller of
`add_transactions`, which holds the write lock of the resolver state; `locked`
are the groups whose write lock a batch task holds.
-/

namespace Sangria.Resolver

inductive AddStage where
  | reading
  | inserting (missing : List FullRangeId)
  | counting
  | extending (remaining : List FullRangeId)
  deriving DecidableEq

structure Add where
  transactions : List TransactionInfo
  stage : AddStage
  deriving DecidableEq

/-- Where a batch task stands, by what it does next. -/
inductive TaskStage where
  | taking
  | unmarking
  | recording
  | issuing
  | applying
  | completing
  | returning
  deriving DecidableEq

structure Task where
  stage : TaskStage
  transactions : List TransactionInfo
  deriving DecidableEq

inductive Round where
  | started
  | spawning (remaining spawned : Finset FullRangeId)
  | collected (transactions : List TransactionInfo)
  | notifying (finished : List TransactionInfo)
  deriving DecidableEq

/-- What the process does to the outside, in the order in which it happens. -/
inductive Event where
  | recordedDirectly (transactionId : Uuid)
  | recorded (range : FullRangeId) (transactionIds : List Uuid)
  | issued (range : FullRangeId) (transactionIds : List Uuid)
  | applied (range : FullRangeId) (transactionIds : List Uuid)
  | completed (range : FullRangeId) (transactionIds : List Uuid)
  | notified (transactionId : Uuid)
  deriving DecidableEq

/-- The last four fields are observers: the dependencies each transaction was
submitted with, the ids registered by coordinators, the transactions of batch
tasks that failed, and the history. -/
structure Process where
  graph : Graph
  waitingTransactions : Finset Uuid
  droppedReceivers : Finset Uuid
  group : GroupCommit
  locked : Finset FullRangeId
  adding : Option Add
  rounds : HashMap Nat Round
  tasks : HashMap (Nat × FullRangeId) Task
  registers : List (List Uuid)
  dependencies : HashMap Uuid (List Uuid)
  external : Finset Uuid
  lost : List TransactionInfo
  history : List Event

namespace Process

def empty : Process :=
  ⟨Graph.empty, ∅, ∅, GroupCommit.empty, ∅, none, ∅, ∅, [], ∅, ∅, [], []⟩

/-- A `commit` or `register` call of a client, a client that goes away, a
coordinator that records a commit itself, or a step of a spawned task. -/
inductive Label where
  | commit (transactionId : Uuid) (dependencies : List Uuid)
      (participants : List ParticipantRangeInfo) (fake : Bool)
  | drop (transactionId : Uuid)
  | recordDirectly (transactionId : Uuid)
  | registerExternal (transactionIds : List Uuid) (order : IterationOrder)
  | register (transactionIds : List Uuid) (order : IterationOrder)
  | readRanges
  | insertRanges
  | countPending
  | extend (range : FullRangeId)
  | markNonEmpty (round : Nat)
  | snapshot (round : Nat)
  | spawn (round : Nat) (range : FullRangeId)
  | join (round : Nat)
  | countDown (round : Nat)
  | notify (round : Nat)
  | advance (round : Nat) (range : FullRangeId)
  | fail (round : Nat) (range : FullRangeId) (effective : Bool)

def Label.internal : Label → Bool
  | .commit .. | .drop .. | .recordDirectly .. | .registerExternal .. | .fail .. => false
  | _ => true

def setAdding (process : Process) (add : Add) : Process :=
  { process with adding := some add }

def setRound (process : Process) (round : Nat) (stage : Round) : Process :=
  { process with rounds := process.rounds.insert round stage }

def endRound (process : Process) (round : Nat) : Process :=
  { process with rounds := process.rounds.erase round }

def setTask (process : Process) (key : Nat × FullRangeId) (task : Task) : Process :=
  { process with tasks := process.tasks.insert key task }

def endTask (process : Process) (key : Nat × FullRangeId) : Process :=
  { process with tasks := process.tasks.erase key }

def log (process : Process) (events : List Event) : Process :=
  { process with history := process.history ++ events }

def dependenciesOf (process : Process) (id : Uuid) : List Uuid :=
  (process.dependencies.find id).getD []

/-! ### Calls -/

def commit (process : Process) (transactionId : Uuid) (dependencies : List Uuid)
    (participants : List ParticipantRangeInfo) (fake : Bool) : Option Process :=
  if readOnly participants then some process
  else if process.adding = none then
    let (state, info) :=
      process.graph.state.enroll transactionId dependencies participants fake
    some { process with
      graph :=
        { state := state
          submitted := insert transactionId process.graph.submitted
          handed := if info.numDependencies = 0 then
            insert transactionId process.graph.handed else process.graph.handed }
      waitingTransactions := insert transactionId process.waitingTransactions
      adding := if info.numDependencies = 0 then some ⟨[info], .reading⟩ else none
      dependencies := process.dependencies.insert transactionId dependencies }
  else none

/-- `register_committed_transactions` up to its call of `add_transactions`. -/
def registerCommitted (process : Process) (transactionIds : List Uuid)
    (order : IterationOrder) : Option Process :=
  if process.adding = none then
    match process.graph.state.registerCommittedTransactions order transactionIds with
    | none => none
    | some (state, ready) =>
      some { process with
        graph := { process.graph with
          state := state
          handed := process.graph.handed ∪ (ready.map (·.id)).toFinset }
        adding := if ready = [] then none else some ⟨ready, .reading⟩ }
  else none

/-! ### `add_transactions` -/

def readRanges (process : Process) : Option Process :=
  match process.adding with
  | some ⟨transactions, .reading⟩ =>
    let missing := process.group.missingRanges (tmpRanges transactions)
    some (process.setAdding ⟨transactions,
      if missing = [] then .counting else .inserting missing⟩)
  | _ => none

def insertRanges (process : Process) : Option Process :=
  match process.adding with
  | some ⟨transactions, .inserting missing⟩ =>
    some { process with
      group := process.group.insertRanges missing
      adding := some ⟨transactions, .counting⟩ }
  | _ => none

def countPending (process : Process) : Option Process :=
  match process.adding with
  | some ⟨transactions, .counting⟩ =>
    some { process with
      group := process.group.countPending transactions
      adding := some ⟨transactions, .extending (tmpRanges transactions)⟩ }
  | _ => none

def extend (process : Process) (range : FullRangeId) : Option Process :=
  match process.adding with
  | some ⟨transactions, .extending remaining⟩ =>
    if range ∈ remaining ∧ range ∉ process.locked then
      some { process with
        group := process.group.extend range (tmpGroup transactions range)
        adding := some ⟨transactions, .extending (remaining.erase range)⟩ }
    else none
  | _ => none

/-- The last section of `add_transactions`; then the caller spawns
`trigger_commit` and gives up the lock of the resolver state. -/
def markNonEmpty (process : Process) (round : Nat) : Option Process :=
  match process.adding with
  | some ⟨transactions, .extending []⟩ =>
    if process.rounds.find round = none then
      some ({ process with
        group := process.group.markNonEmpty (tmpRanges transactions)
        adding := none }.setRound round .started)
    else none
  | _ => none

/-! ### `trigger_commit` and `GroupCommit::commit` -/

def snapshot (process : Process) (round : Nat) : Option Process :=
  match process.rounds.find round with
  | some .started => some (process.setRound round (.spawning process.group.nonEmptyGroups ∅))
  | _ => none

/-- The `unwrap` on the group of a marked range has no successor when it fails. -/
def spawn (process : Process) (round : Nat) (range : FullRangeId) : Option Process :=
  match process.rounds.find round with
  | some (.spawning remaining spawned) =>
    if range ∈ remaining ∧ process.group.groupPerParticipant.find range ≠ none then
      some ((process.setRound round
        (.spawning (remaining.erase range) (insert range spawned))).setTask (round, range)
          ⟨.taking, []⟩)
    else none
  | _ => none

/-- All tasks of the round have ended; results and panics alike are dropped. -/
def join (process : Process) (round : Nat) : Option Process :=
  match process.rounds.find round with
  | some (.spawning remaining spawned) =>
    if remaining = ∅ ∧ ∀ range ∈ spawned, process.tasks.find (round, range) = none then
      some ({ process with group := process.group.takeReturned }.setRound round
        (.collected process.group.returnedTransactions))
    else none
  | _ => none

def countDown (process : Process) (round : Nat) : Option Process :=
  match process.rounds.find round with
  | some (.collected transactions) =>
    let result := GroupCommit.countDown
      process.group.numPendingParticipantCommitsPerTransaction transactions
    let counted := { process with
      group := { process.group with
        numPendingParticipantCommitsPerTransaction := result.1 } }
    match result.2 with
    | some finished => some (counted.setRound round (.notifying finished))
    | none => some (counted.endRound round)
  | _ => none

/-- The loop over the finished transactions: the senders that are left, the ids
that were notified and whether all `unwrap`s succeeded. -/
def notifyAll (waiting dropped : Finset Uuid) :
    List TransactionInfo → Finset Uuid × List Uuid × Bool
  | [] => (waiting, [], true)
  | transaction :: rest =>
    if transaction.id ∉ waiting then (waiting, [], false)
    else if transaction.id ∈ dropped then (waiting.erase transaction.id, [], false)
    else
      let result := notifyAll (waiting.erase transaction.id) dropped rest
      (result.1, transaction.id :: result.2.1, result.2.2)

def notify (process : Process) (round : Nat) : Option Process :=
  match process.rounds.find round with
  | some (.notifying finished) =>
    let result := notifyAll process.waitingTransactions process.droppedReceivers finished
    some (({ process with
      waitingTransactions := result.1
      registers := if result.2.2 ∧ finished ≠ [] then
        process.registers ++ [finished.map TransactionInfo.id]
        else process.registers }.endRound round).log (result.2.1.map .notified))
  | _ => none

/-! ### Batch tasks -/

/-- A task that found its group empty ends; a fake batch is only given back. -/
def afterUnmarking (tasks : HashMap (Nat × FullRangeId) Task) (key : Nat × FullRangeId)
    (transactions : List TransactionInfo) : HashMap (Nat × FullRangeId) Task :=
  match transactions with
  | [] => tasks.erase key
  | first :: _ =>
    tasks.insert key ⟨if first.fake then .returning else .recording, transactions⟩

def advance (process : Process) (round : Nat) (range : FullRangeId) : Option Process :=
  match process.tasks.find (round, range) with
  | none => none
  | some ⟨stage, transactions⟩ =>
    let ids := transactions.map (·.id)
    match stage with
    | .taking =>
      if range ∈ process.locked then none
      else
        some ({ process with
          group := process.group.clearGroup range
          locked := insert range process.locked }.setTask (round, range)
            ⟨.unmarking, process.group.groupOf range⟩)
    | .unmarking =>
      some { process with
        group := process.group.unmark range
        locked := process.locked.erase range
        tasks := afterUnmarking process.tasks (round, range) transactions }
    | .recording =>
      some ((process.setTask (round, range) ⟨.issuing, transactions⟩).log
        [.recorded range ids])
    | .issuing =>
      some ((process.setTask (round, range) ⟨.applying, transactions⟩).log
        [.issued range ids])
    | .applying =>
      some ((process.setTask (round, range) ⟨.completing, transactions⟩).log
        [.applied range ids])
    | .completing =>
      some ((process.setTask (round, range) ⟨.returning, transactions⟩).log
        [.completed range ids])
    | .returning =>
      some ({ process with group := process.group.giveBack transactions }.endTask
        (round, range))

/-- A call of the store or of the range client fails and the task panics.  The
store may have executed the batch all the same. -/
def fail (process : Process) (round : Nat) (range : FullRangeId) (effective : Bool) :
    Option Process :=
  match process.tasks.find (round, range) with
  | none => none
  | some ⟨stage, transactions⟩ =>
    let failed := { process with lost := process.lost ++ transactions }.endTask (round, range)
    match stage with
    | .recording =>
      some (if effective then failed.log [.recorded range (transactions.map (·.id))]
        else failed)
    | .applying | .completing => some failed
    | _ => none

def step (process : Process) : Label → Option Process
  | .commit transactionId dependencies participants fake =>
    process.commit transactionId dependencies participants fake
  | .drop transactionId =>
    some { process with
      droppedReceivers := insert transactionId process.droppedReceivers }
  | .recordDirectly transactionId => some (process.log [.recordedDirectly transactionId])
  | .registerExternal transactionIds order =>
    { process with
      external := process.external ∪ transactionIds.toFinset }.registerCommitted
        transactionIds order
  | .register transactionIds order =>
    if transactionIds ∈ process.registers then
      { process with registers := process.registers.erase transactionIds }.registerCommitted
        transactionIds order
    else none
  | .readRanges => process.readRanges
  | .insertRanges => process.insertRanges
  | .countPending => process.countPending
  | .extend range => process.extend range
  | .markNonEmpty round => process.markNonEmpty round
  | .snapshot round => process.snapshot round
  | .spawn round range => process.spawn round range
  | .join round => process.join round
  | .countDown round => process.countDown round
  | .notify round => process.notify round
  | .advance round range => process.advance round range
  | .fail round range effective => process.fail round range effective

end Process

end Sangria.Resolver
