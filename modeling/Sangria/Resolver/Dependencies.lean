import Mathlib.Data.List.Sort
import Sangria.Common.Types

/-!
# The dependency state of the resolver

`TransactionInfo` and `State` of `core/resolver.rs`, with the two sections that
run under the write lock of the state: the enrolment in `Resolver::commit` and
the worklist of `register_committed_transactions`.  A failed `unwrap` or
`assert!` is `none`.
-/

namespace Sangria.Resolver

structure ParticipantRangeInfo where
  participantRange : FullRangeId
  hasWrites : Bool
  deriving DecidableEq

structure TransactionInfo where
  id : Uuid
  numDependencies : Nat
  dependents : Finset Uuid
  participantRangesInfo : List ParticipantRangeInfo
  fake : Bool
  deriving DecidableEq

def TransactionInfo.default (id : Uuid) (fake : Bool) : TransactionInfo :=
  ⟨id, 0, ∅, [], fake⟩

structure State where
  infoPerTransaction : HashMap Uuid TransactionInfo
  resolvedTransactions : Finset Uuid

namespace State

def empty : State := ⟨∅, ∅⟩

/-- `entry(id).or_insert(TransactionInfo::default(id, fake))`. -/
def entry (state : State) (id : Uuid) (fake : Bool) : TransactionInfo :=
  (state.infoPerTransaction.find id).getD (TransactionInfo.default id fake)

def put (state : State) (id : Uuid) (info : TransactionInfo) : State :=
  { state with infoPerTransaction := state.infoPerTransaction.insert id info }

/-- Add `transactionId` to the dependents of an unresolved dependency.  The
entry of a dependency that was not submitted yet is a placeholder. -/
def addDependent (state : State) (dependency transactionId : Uuid) (fake : Bool) : State :=
  let info := state.entry dependency fake
  state.put dependency { info with dependents := insert transactionId info.dependents }

/-- The loop over the dependencies, with the number of pending ones. -/
def addDependencies (transactionId : Uuid) (fake : Bool) :
    State → Nat → List Uuid → State × Nat
  | state, pending, [] => (state, pending)
  | state, pending, dependency :: rest =>
    if dependency ∈ state.resolvedTransactions then
      addDependencies transactionId fake state pending rest
    else
      addDependencies transactionId fake
        (state.addDependent dependency transactionId fake) (pending + 1) rest

def enroll (state : State) (transactionId : Uuid) (dependencies : List Uuid)
    (participants : List ParticipantRangeInfo) (fake : Bool) : State × TransactionInfo :=
  let (state, pending) := addDependencies transactionId fake state 0 dependencies
  let info := { state.entry transactionId fake with
    numDependencies := pending
    participantRangesInfo := participants }
  (state.put transactionId info, info)

end State

/-- A transaction without a writing participant has no commit phase. -/
def readOnly (participants : List ParticipantRangeInfo) : Bool :=
  participants.all fun info => !info.hasWrites

/-- The order in which a `HashSet` is iterated is not specified.  One call of
`register_committed_transactions` empties the dependents of a transaction once,
so an order for each transaction covers all iterations of the call. -/
structure IterationOrder where
  list : Uuid → Finset Uuid → List Uuid
  nodup : ∀ transactionId dependents, (list transactionId dependents).Nodup
  mem_list : ∀ transactionId dependents dependent,
    dependent ∈ list transactionId dependents ↔ dependent ∈ dependents

def IterationOrder.ascending : IterationOrder where
  list _ dependents := Quot.liftOn dependents.val
    (List.insertionSort fun (first second : Uuid) => first ≤ second) (by
      intro left right same
      refine List.Perm.eq_of_pairwise ?_ (List.pairwise_insertionSort _ left)
        (List.pairwise_insertionSort _ right) ?_
      · exact fun first second _ _ below above => @BitVec.le_antisymm 128 first second below above
      · exact (List.perm_insertionSort _ left).trans
          (same.trans (List.perm_insertionSort _ right).symm))
  nodup _ dependents := by
    obtain ⟨⟨listed⟩, distinct⟩ := dependents
    exact (List.perm_insertionSort _ listed).nodup_iff.mpr distinct
  mem_list _ dependents dependent := by
    obtain ⟨⟨listed⟩, distinct⟩ := dependents
    exact List.mem_insertionSort _

/-- The variables of the worklist loop.  `newResolvedDependencies` is a vector
used as a stack; its top is the head here. -/
structure Worklist where
  state : State
  newResolvedDependencies : List Uuid
  newReadyToCommit : List TransactionInfo

namespace Worklist

def release (work : Worklist) (dependent : Uuid) : Option Worklist :=
  match work.state.infoPerTransaction.find dependent with
  | none => none
  | some info =>
    if info.numDependencies = 0 then none
    else
      let info := { info with numDependencies := info.numDependencies - 1 }
      let state := work.state.put dependent info
      if info.numDependencies = 0 then
        -- ready now, and from here on treated like a resolved dependency
        some ⟨state, dependent :: work.newResolvedDependencies,
          work.newReadyToCommit ++ [info]⟩
      else
        some { work with state := state }

def releaseAll : Worklist → List Uuid → Option Worklist
  | work, [] => some work
  | work, dependent :: rest =>
    match work.release dependent with
    | none => none
    | some next => next.releaseAll rest

/-- One iteration of the outer loop for the transaction just popped. -/
def visit (order : IterationOrder) (work : Worklist) (transactionId : Uuid) :
    Option Worklist :=
  match work.state.infoPerTransaction.find transactionId with
  | none => some work
  | some info =>
    let state := work.state.put transactionId { info with dependents := ∅ }
    { work with state := state }.releaseAll (order.list transactionId info.dependents)

/-- The outer loop.  `drain_finished` shows that `size` iterations empty the
stack. -/
def drain (order : IterationOrder) : Nat → Worklist → Option Worklist
  | 0, work => some work
  | iterations + 1, work =>
    match work.newResolvedDependencies with
    | [] => some work
    | transactionId :: rest =>
      match visit order { work with newResolvedDependencies := rest } transactionId with
      | none => none
      | some next => drain order iterations next

/-- Entries of the stack and dependents that can still get there. -/
def size (work : Worklist) : Nat :=
  work.newResolvedDependencies.length +
    work.state.infoPerTransaction.tally fun _ info => info.dependents.card

end Worklist

/-- The section of `register_committed_transactions` under the write lock: the
state after it and the transactions that became ready. -/
def State.registerCommittedTransactions (order : IterationOrder) (state : State)
    (transactionIds : List Uuid) : Option (State × List TransactionInfo) :=
  let work : Worklist :=
    { state := { state with
        resolvedTransactions := state.resolvedTransactions ∪ transactionIds.toFinset }
      newResolvedDependencies := transactionIds.reverse
      newReadyToCommit := [] }
  (work.drain order work.size).map fun finished =>
    (finished.state, finished.newReadyToCommit)

end Sangria.Resolver
