import Sangria.Coordinator.Phases
import Sangria.Resolver.CommitOrder
import Sangria.Resolver.Trail
import Sangria.TxStateStore.Contract

/-!
# Coordinators, the resolver and the store

The transactions of all coordinators, the resolver that they share, and a
transaction state store that keeps its contract.  The ranges answer as they
like.  A call of the store is one step with its answer.
-/

namespace Sangria.Resolver.Process

def recording (process : Process) : Label → List Uuid
  | .advance round range | .fail round range true =>
    match process.tasks.find (round, range) with
    | some ⟨.recording, transactions⟩ => transactions.map (·.id)
    | _ => []
  | _ => []

def Label.requested : Label → Bool
  | .commit .. | .recordDirectly _ | .registerExternal .. => true
  | _ => false

end Sangria.Resolver.Process

namespace Sangria.Coordinator

open Resolver (Process ParticipantRangeInfo IterationOrder)
open TxStateStore (Outcomes OpResult)
open Resolver.Process (idsAt)

def Label.fromOutside : Label → Bool
  | .get .. | .put .. | .del .. | .commit .. | .abort | .gotten _ | .prepared .. | .committed ..
  | .aborted _ | .abortJoined => true
  | .recorded _ | .joined | .delegated | .resolved _ | .abortRecorded _ => false

namespace Transaction

def participantsInfo (transaction : Transaction) (ranges : List FullRangeId) :
    List ParticipantRangeInfo :=
  ranges.map fun range => ⟨range, (transaction.getParticipantRange range).hasWrites⟩

/-- A call of `register_committed_transactions` is spawned at the end. -/
def registers (transaction : Transaction) : Bool :=
  match transaction.stage with
  | .committing _ early => early && decide (transaction.commitStrategy ≠ .traditional)
  | _ => false

end Transaction

/-- `registering` are the calls of `register_committed_transactions` that were
spawned and have not run.  `reported` is an observer: all dependencies that the
ranges returned to a transaction. -/
structure Coordination where
  transactions : HashMap Uuid Transaction
  outcomes : Outcomes
  resolver : Process
  registering : Finset Uuid
  reported : HashMap Uuid (Finset Uuid)

namespace Coordination

/-- `effective` says whether a call of the store was executed although it
failed.  `dependencies` and `ranges` are the iteration orders of the sets that a
delegation passes on. -/
inductive Label where
  | start (id : Uuid) (commitStrategy : CommitStrategy)
  | act (id : Uuid) (label : Coordinator.Label)
  | record (id : Uuid)
  | recordFails (id : Uuid) (effective : Bool)
  | delegate (id : Uuid) (dependencies : List Uuid) (ranges : List FullRangeId)
  | delegateLost (id : Uuid)
  | answer (id : Uuid)
  | refuse (id : Uuid)
  | finish (id : Uuid)
  | register (id : Uuid) (order : IterationOrder)
  | recordAbort (id : Uuid)
  | recordAbortFails (id : Uuid) (effective : Bool)
  /-- Somebody else aborts the transaction at the store. -/
  | abortElsewhere (id : Uuid)
  | resolve (label : Process.Label)

def empty : Coordination := ⟨∅, ∅, .empty, ∅, ∅⟩

def put (system : Coordination) (id : Uuid) (transaction : Transaction) : Coordination :=
  { system with transactions := system.transactions.insert id transaction }

def advance (system : Coordination) (id : Uuid) (label : Coordinator.Label) :
    Option Coordination :=
  ((system.transactions.find id).bind (·.step label)).map (system.put id)

def report (system : Coordination) (id : Uuid) (dependencies : Finset Uuid) : Coordination :=
  { system with
    reported := system.reported.insert id ((system.reported.find id).getD ∅ ∪ dependencies) }

def settle (system : Coordination) (id : Uuid) (attempt : OpResult) : Coordination :=
  { system with outcomes := system.outcomes.settle id attempt }

/-- The store answers `try_commit_transaction`; what a coordinator of another
strategy than the traditional one records is known to the resolver. -/
def record (system : Coordination) (id : Uuid) : Option Coordination :=
  match system.transactions.find id with
  | none => none
  | some transaction =>
    (system.advance id
      (.recorded (some (system.outcomes.tryCommitTransaction id 0).1))).map fun next =>
        { next with
          outcomes := (system.outcomes.tryCommitTransaction id 0).2
          resolver := if transaction.commitStrategy = .traditional then system.resolver
            else system.resolver.log [.recordedDirectly id] }

def delegate (system : Coordination) (id : Uuid) (dependencies : List Uuid)
    (ranges : List FullRangeId) : Option Coordination :=
  match system.transactions.find id with
  | none => none
  | some transaction =>
    if Enumerates dependencies transaction.dependencies ∧
        Enumerates ranges transaction.participantRanges.keys then
      match system.advance id .delegated, system.resolver.step
          (.commit id dependencies (transaction.participantsInfo ranges) false) with
      | some next, some resolver => some { next with resolver := resolver }
      | _, _ => none
    else none

/-- The resolver answers at once if there is nothing to write. -/
def answer (system : Coordination) (id : Uuid) : Option Coordination :=
  match system.transactions.find id with
  | none => none
  | some transaction =>
    if transaction.writers = ∅ ∨ .notified id ∈ system.resolver.history then
      system.advance id (.resolved true)
    else none

def finish (system : Coordination) (id : Uuid) : Option Coordination :=
  match system.transactions.find id with
  | none => none
  | some transaction => (system.advance id .joined).map fun next =>
    { next with
      registering := if transaction.registers then insert id system.registering
        else system.registering }

def register (system : Coordination) (id : Uuid) (order : IterationOrder) :
    Option Coordination :=
  if id ∈ system.registering then
    (system.resolver.step (.registerExternal [id] order)).map fun resolver =>
      { system with
        resolver := resolver
        registering := system.registering.erase id }
  else none

def resolve (system : Coordination) (label : Process.Label) : Option Coordination :=
  if label.requested then none
  else (system.resolver.step label).map fun resolver =>
    { system with
      resolver := resolver
      outcomes := system.outcomes.tryBatchCommitTransactions (system.resolver.recording label) 0 }

def step (system : Coordination) : Label → Option Coordination
  | .start id commitStrategy =>
    if system.transactions.find id = none then some (system.put id (.new id commitStrategy))
    else none
  | .act id label =>
    if label.fromOutside then
      (system.advance id label).map fun next => next.report id label.dependencies
    else none
  | .record id => system.record id
  | .recordFails id effective =>
    (system.advance id (.recorded none)).map fun next =>
      if effective then next.settle id (.transactionIsCommitted ⟨0⟩) else next
  | .delegate id dependencies ranges => system.delegate id dependencies ranges
  | .delegateLost id => system.advance id .delegated
  | .answer id => system.answer id
  | .refuse id => system.advance id (.resolved false)
  | .finish id => system.finish id
  | .register id order => system.register id order
  | .recordAbort id =>
    (system.advance id
      (.abortRecorded (some (system.outcomes.tryAbortTransaction id).1))).map fun next =>
        next.settle id .transactionIsAborted
  | .recordAbortFails id effective =>
    (system.advance id (.abortRecorded none)).map fun next =>
      if effective then next.settle id .transactionIsAborted else next
  | .abortElsewhere id => some (system.settle id .transactionIsAborted)
  | .resolve label => system.resolve label

/-! ## What happened at the ranges -/

/-- The range was sent `commit_transactions` with the transaction. -/
def SentCommit (system : Coordination) (id : Uuid) (range : FullRangeId) : Prop :=
  range ∈ (system.transactions.find id).elim ∅ Transaction.sent ∨
    id ∈ idsAt .issuing range system.resolver.history

def RepliedCommit (system : Coordination) (id : Uuid) (range : FullRangeId) : Prop :=
  range ∈ (system.transactions.find id).elim ∅ Transaction.replied ∨
    id ∈ idsAt .completing range system.resolver.history

def Acknowledged (system : Coordination) (id : Uuid) : Prop :=
  (system.transactions.find id).elim false Transaction.acknowledged = true

instance (system : Coordination) (id : Uuid) (range : FullRangeId) :
    Decidable (system.SentCommit id range) := inferInstanceAs (Decidable (_ ∨ _))

instance (system : Coordination) (id : Uuid) (range : FullRangeId) :
    Decidable (system.RepliedCommit id range) := inferInstanceAs (Decidable (_ ∨ _))

def Initial (system : Coordination) : Prop := system = empty

/-! ## Steps taken apart -/

def failing : Coordinator.Label → Bool
  | .recorded none | .resolved false | .abortRecorded _ => true
  | _ => false

inductive Moves : Coordination → Label → Coordination → Prop where
  | start {system id commitStrategy} :
      system.transactions.find id = none →
      Moves system (.start id commitStrategy) (system.put id (.new id commitStrategy))
  | act {system id label transaction transaction'} :
      label.fromOutside = true →
      system.transactions.find id = some transaction →
      transaction.Moves label transaction' →
      Moves system (.act id label) ((system.put id transaction').report id label.dependencies)
  | record {system id transaction transaction'} :
      system.transactions.find id = some transaction →
      transaction.Moves (.recorded (some (system.outcomes.tryCommitTransaction id 0).1))
        transaction' →
      Moves system (.record id)
        { system.put id transaction' with
          outcomes := (system.outcomes.tryCommitTransaction id 0).2
          resolver := if transaction.commitStrategy = .traditional then system.resolver
            else system.resolver.log [.recordedDirectly id] }
  | fail {system label id answer transaction transaction' outcomes} :
      failing answer = true →
      system.transactions.find id = some transaction →
      transaction.Moves answer transaction' →
      (outcomes = system.outcomes ∨ ∃ attempt, outcomes = system.outcomes.settle id attempt) →
      Moves system label { system.put id transaction' with outcomes := outcomes }
  | delegate {system id dependencies ranges transaction transaction' resolver} :
      system.transactions.find id = some transaction →
      Enumerates dependencies transaction.dependencies →
      Enumerates ranges transaction.participantRanges.keys →
      transaction.Moves .delegated transaction' →
      system.resolver.Moves
        (.commit id dependencies (transaction.participantsInfo ranges) false) resolver →
      Moves system (.delegate id dependencies ranges)
        { system.put id transaction' with resolver := resolver }
  | delegateLost {system id transaction transaction'} :
      system.transactions.find id = some transaction →
      transaction.Moves .delegated transaction' →
      Moves system (.delegateLost id) (system.put id transaction')
  | answer {system id transaction transaction'} :
      system.transactions.find id = some transaction →
      (transaction.writers = ∅ ∨ .notified id ∈ system.resolver.history) →
      transaction.Moves (.resolved true) transaction' →
      Moves system (.answer id) (system.put id transaction')
  | finish {system id transaction transaction'} :
      system.transactions.find id = some transaction →
      transaction.Moves .joined transaction' →
      Moves system (.finish id)
        { system.put id transaction' with
          registering := if transaction.registers then insert id system.registering
            else system.registering }
  | register {system id order resolver} :
      id ∈ system.registering →
      system.resolver.Moves (.registerExternal [id] order) resolver →
      Moves system (.register id order)
        { system with
          resolver := resolver
          registering := system.registering.erase id }
  | abortElsewhere {system id} :
      Moves system (.abortElsewhere id) (system.settle id .transactionIsAborted)
  | resolve {system label resolver} :
      label.requested = false →
      system.resolver.Moves label resolver →
      Moves system (.resolve label)
        { system with
          resolver := resolver
          outcomes :=
            system.outcomes.tryBatchCommitTransactions (system.resolver.recording label) 0 }

section Inversion

variable {system next : Coordination}

theorem of_advance {id : Uuid} {label : Coordinator.Label}
    (taken : system.advance id label = some next) :
    ∃ tx tx', system.transactions.find id = some tx ∧
      tx.Moves label tx' ∧ next = system.put id tx' := by
  unfold advance at taken
  obtain ⟨tx', stepped, rfl⟩ := Option.map_eq_some_iff.mp taken
  obtain ⟨tx, found, taken'⟩ := Option.bind_eq_some_iff.mp stepped
  exact ⟨tx, tx', found, .of_step taken', rfl⟩

theorem Moves.of_record {id : Uuid} (taken : system.record id = some next) :
    Moves system (.record id) next := by
  unfold Coordination.record at taken
  split at taken
  next => cases taken
  next tx found =>
    obtain ⟨between, advanced, rfl⟩ := Option.map_eq_some_iff.mp taken
    obtain ⟨tx, tx', found', moves, rfl⟩ := of_advance advanced
    cases found.symm.trans found'
    exact .record found moves

theorem Moves.of_delegate {id : Uuid} {deps : List Uuid} {ranges : List FullRangeId}
    (taken : system.delegate id deps ranges = some next) :
    Moves system (.delegate id deps ranges) next := by
  unfold Coordination.delegate at taken
  split at taken
  next => cases taken
  next tx found =>
    split at taken
    next enumerates =>
      split at taken
      next advanced stepped =>
        cases taken
        obtain ⟨tx, tx', found', moves, rfl⟩ := of_advance advanced
        cases found.symm.trans found'
        exact .delegate found enumerates.1 enumerates.2 moves (.of_step stepped)
      next => cases taken
    next => cases taken

theorem Moves.of_answer {id : Uuid} (taken : system.answer id = some next) :
    Moves system (.answer id) next := by
  unfold Coordination.answer at taken
  split at taken
  next => cases taken
  next tx found =>
    split at taken
    next told =>
      obtain ⟨tx, tx', found', moves, rfl⟩ := of_advance taken
      cases found.symm.trans found'
      exact .answer found told moves
    next => cases taken

theorem Moves.of_finish {id : Uuid} (taken : system.finish id = some next) :
    Moves system (.finish id) next := by
  unfold Coordination.finish at taken
  split at taken
  next => cases taken
  next tx found =>
    obtain ⟨between, advanced, rfl⟩ := Option.map_eq_some_iff.mp taken
    obtain ⟨tx, tx', found', moves, rfl⟩ := of_advance advanced
    cases found.symm.trans found'
    exact .finish found moves

theorem Moves.of_fails {id : Uuid} {answer : Coordinator.Label} {attempt : OpResult}
    {effective : Bool} (label : Label) (failing : failing answer = true)
    (taken : (system.advance id answer).map (fun next =>
      if effective then next.settle id attempt else next) = some next) :
    Moves system label next := by
  obtain ⟨between, advanced, rfl⟩ := Option.map_eq_some_iff.mp taken
  obtain ⟨tx, tx', found, moves, rfl⟩ := of_advance advanced
  cases effective with
  | true => exact .fail failing found moves (.inr ⟨attempt, rfl⟩)
  | false => exact .fail failing found moves (.inl rfl)

theorem Moves.of_step {label : Label} (taken : system.step label = some next) :
    Moves system label next := by
  cases label with
  | start =>
    simp only [step] at taken
    split at taken
    next unused =>
      cases taken
      exact .start unused
    next => cases taken
  | act =>
    simp only [step] at taken
    split at taken
    next outside =>
      obtain ⟨between, advanced, rfl⟩ := Option.map_eq_some_iff.mp taken
      obtain ⟨tx, tx', found, moves, rfl⟩ := of_advance advanced
      exact .act outside found moves
    next => cases taken
  | record => exact .of_record taken
  | recordFails | recordAbortFails => exact .of_fails _ rfl taken
  | delegate => exact .of_delegate taken
  | delegateLost =>
    obtain ⟨tx, tx', found, moves, rfl⟩ := of_advance taken
    exact .delegateLost found moves
  | answer => exact .of_answer taken
  | refuse =>
    obtain ⟨tx, tx', found, moves, rfl⟩ := of_advance taken
    exact .fail rfl found moves (.inl rfl)
  | finish => exact .of_finish taken
  | register =>
    simp only [step, Coordination.register] at taken
    split at taken
    next listed =>
      obtain ⟨resolver, stepped, rfl⟩ := Option.map_eq_some_iff.mp taken
      exact .register listed (.of_step stepped)
    next => cases taken
  | recordAbort =>
    obtain ⟨between, advanced, rfl⟩ := Option.map_eq_some_iff.mp taken
    obtain ⟨tx, tx', found, moves, rfl⟩ := of_advance advanced
    exact .fail rfl found moves (.inr ⟨_, rfl⟩)
  | abortElsewhere =>
    cases taken
    exact .abortElsewhere
  | resolve =>
    simp only [step, Coordination.resolve] at taken
    split at taken
    next => cases taken
    next own =>
      obtain ⟨resolver, stepped, rfl⟩ := Option.map_eq_some_iff.mp taken
      exact .resolve (Bool.eq_false_iff.mpr own) (.of_step stepped)

end Inversion

end Coordination

end Sangria.Coordinator
