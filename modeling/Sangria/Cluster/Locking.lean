import Sangria.Cluster.Links
import Sangria.Lib.TwoPhase

/-!
# When a transaction takes locks

A transaction takes the lock of a range on account of a read, while it is
running, or on account of a prepare at a range that it writes without having
read there.  What it does at a range happens while it holds the lock.
-/

namespace Sangria

open Coordinator (Transaction ParticipantRange)
open RangeServer (Configuration Event Handler PrepareRequest Service)

namespace Coordinator

def ReadsFirst (participants : HashMap FullRangeId ParticipantRange) : Prop :=
  ∀ range ∈ participants.keys, ∀ participant ∈ participants.find range,
    participant.changes = true → participant.reads = true

instance : DecidablePred ReadsFirst := fun participants =>
  inferInstanceAs (Decidable (∀ range ∈ participants.keys, _))

namespace Transaction

variable {tx next : Transaction} {label : Label}

theorem find_of_getParticipantRange {range : FullRangeId}
    {property : ParticipantRange → Bool} (new : property .new = false)
    (here : property (tx.getParticipantRange range) = true) :
    tx.participantRanges.find range = some (tx.getParticipantRange range) := by
  rw [getParticipantRange] at here ⊢
  cases found : tx.participantRanges.find range with
  | none =>
    rw [found] at here
    cases new.symm.trans here
  | some => rfl

theorem find_of_changes {range : FullRangeId}
    (changes : (tx.getParticipantRange range).changes = true) :
    tx.participantRanges.find range = some (tx.getParticipantRange range) :=
  find_of_getParticipantRange rfl changes

theorem find_of_reads {range : FullRangeId}
    (reads : (tx.getParticipantRange range).reads = true) :
    tx.participantRanges.find range = some (tx.getParticipantRange range) :=
  find_of_getParticipantRange rfl reads

theorem Moves.participantRanges (moves : Moves tx label next)
    (coherent : Coherent tx) (decided : tx.state ≠ .running) :
    next.participantRanges = tx.participantRanges ∧ next.state ≠ .running := by
  have apart {stage : Stage} (here : tx.stage = stage)
      (implied : stateAt stage = some .running) : False :=
    decided (coherent.state_of_stage here implied)
  cases moves with
  | access idle call running | ask idle running | abort idle running | prepare idle running =>
    exact absurd running decided
  | receive getting | leaderChanged getting => exact (apart getting rfl).elim
  | prepareFailed | record =>
    refine ⟨rfl, ?_⟩
    intro running
    cases running
  | _ => exact ⟨rfl, decided⟩

theorem Moves.prepares (moves : Moves tx label next) (coherent : Coherent tx)
    (after : next.state = .preparing) :
    next.participantRanges = tx.participantRanges ∧
      (tx.state = .preparing ∨ ∃ load clients, label = .commit load clients) := by
  cases moves with
  | access idle call running | ask idle running => cases running.symm.trans after
  | receive getting =>
    have running : tx.state = .running := coherent.state_of_stage getting rfl
    cases running.symm.trans after
  | abort | leaderChanged | prepareFailed | record => cases after
  | prepare => exact ⟨rfl, .inr ⟨_, _, rfl⟩⟩
  | _ => exact ⟨rfl, .inl after⟩

end Transaction

end Coordinator

namespace Cluster

variable {config : FullRangeId → Configuration} {cluster next : Cluster} {label : Label}
variable {range : FullRangeId} {service : Service} {manager : RangeServer.RangeManager}
  {request : RangeServer.Label}

/-! ## Conditions on calls of commit -/

def CommitsWith (property : HashMap FullRangeId ParticipantRange → Prop) (cluster : Cluster) :
    Label → Prop
  | .act id (.commit _ _) => ∀ transaction ∈ cluster.transactions.find id,
      property transaction.participantRanges
  | _ => True

instance {property : HashMap FullRangeId ParticipantRange → Prop} [DecidablePred property]
    (cluster : Cluster) (label : Label) : Decidable (CommitsWith property cluster label) :=
  match label with
  | .act id (.commit _ _) =>
    inferInstanceAs (Decidable (∀ transaction ∈ cluster.transactions.find id,
      property transaction.participantRanges))
  | .act _ (.get _ _) | .act _ (.put _ _ _) | .act _ (.del _ _) | .act _ .abort
  | .act _ (.gotten _) | .act _ (.prepared _ _) | .act _ (.recorded _) | .act _ (.committed _ _)
  | .act _ .joined | .act _ .delegated | .act _ (.resolved _) | .act _ (.abortRecorded _)
  | .act _ (.aborted _) | .act _ .abortJoined => isTrue trivial
  | .start .. | .send .. | .serve .. | .deliver .. => isTrue trivial

def Uses (commitStrategy : CommitStrategy) (_ : Cluster) : Label → Prop
  | .start _ other => other = commitStrategy
  | _ => True

instance (commitStrategy : CommitStrategy) (cluster : Cluster) (label : Label) :
    Decidable (Uses commitStrategy cluster label) :=
  match label with
  | .start _ other => inferInstanceAs (Decidable (other = commitStrategy))
  | .act .. | .send .. | .serve .. | .deliver .. => isTrue trivial

def Prepares (property : HashMap FullRangeId ParticipantRange → Prop) (cluster : Cluster) : Prop :=
  ∀ id transaction, cluster.transactions.find id = some transaction →
    transaction.state = .preparing → property transaction.participantRanges

theorem Prepares.step {property : HashMap FullRangeId ParticipantRange → Prop}
    (prepares : Prepares property cluster) (joined : Joined cluster)
    (permitted : CommitsWith property cluster label)
    (taken : cluster.step config label = some next) : Prepares property next := by
  have moved {id : Uuid} {tx tx' : Transaction} {answer : Coordinator.Label}
      (found : cluster.transactions.find id = some tx)
      (moves : tx.Moves answer tx')
      (allowed : ∀ load clients, answer = .commit load clients →
        property tx.participantRanges) :
      Prepares property (cluster.put id tx') := by
    intro other after found' preparing
    rcases FiniteMap.eq_or_find_of_insert found' with ⟨_, rfl⟩ | ⟨_, before⟩
    · obtain ⟨same, earlier | ⟨load, clients, called⟩⟩ :=
        moves.prepares (joined.coherent id tx found) preparing
      · rw [same]
        exact prepares id tx found earlier
      · rw [same]
        exact allowed load clients called
    · exact prepares other after before preparing
  cases Moves.of_step taken with
  | start =>
    intro other after found preparing
    rcases FiniteMap.eq_or_find_of_insert found with ⟨_, rfl⟩ | ⟨_, before⟩
    · cases preparing
    · exact prepares other after before preparing
  | act _ found moves =>
    apply moved found moves
    rintro load clients rfl
    exact permitted _ found
  | send | serve | drop => exact prepares
  | @deliver range id handler service owner answer tx tx' found served answered
      known moves =>
      have after : Prepares property (cluster.put owner tx') := by
        apply moved known moves
        rintro load clients rfl
        cases replied_of_reply answered
      exact after

/-! ## What happens at the ranges -/

def Still (cluster next : Cluster) : Prop :=
  ∀ range, (next.ranges range).manager.lockTable = (cluster.ranges range).manager.lockTable ∧
    (next.ranges range).manager.pendingState = (cluster.ranges range).manager.pendingState ∧
    (next.ranges range).manager.trace = (cluster.ranges range).manager.trace

theorem Still.putRange {before : Cluster} (ranges : before.ranges = cluster.ranges)
    (same : (cluster.ranges range).manager = manager)
    (lockTable : service.manager.lockTable = manager.lockTable)
    (pendingState : service.manager.pendingState = manager.pendingState)
    (trace : service.manager.trace = manager.trace) :
    Still cluster (before.putRange range service) := by
  subst same
  intro other
  rw [ranges_putRange, ranges]
  split
  next here =>
    subst here
    exact ⟨lockTable, pendingState, trace⟩
  next => exact ⟨rfl, rfl, rfl⟩

theorem still_of_sends (asked : cluster.sends range request = true)
    (served : (cluster.ranges range).step (config range) request = some service) :
    Still cluster (cluster.putRange range service) := by
  obtain ⟨manager, moved, rfl⟩ := Option.map_eq_some_iff.mp served
  cases request with
  | get | prepare | commit =>
    simp only [RangeServer.RangeManager.step, RangeServer.RangeManager.arrive] at moved
    split at moved
    next =>
      cases moved
      exact .putRange rfl rfl rfl rfl rfl
    next => cases moved
  | _ => cases asked

/-! ## Holders and visits -/

def holder (cluster : Cluster) (range : FullRangeId) : Option Uuid :=
  (cluster.ranges range).manager.lockTable.currentHolder

def visits (visit : Event → List (Uuid × Bool)) (cluster : Cluster) (range : FullRangeId) :
    List (Uuid × Bool) :=
  (cluster.ranges range).manager.trace.flatMap visit

section Visits

variable {visit : Event → List (Uuid × Bool)} {points : List Uuid}

theorem holder_putRange (range other : FullRangeId) (service : Service) :
    (cluster.putRange range service).holder other =
      if other = range then service.manager.lockTable.currentHolder else cluster.holder other := by
  rw [holder, ranges_putRange]
  split <;> rfl

theorem visits_putRange (range other : FullRangeId) (service : Service) :
    (cluster.putRange range service).visits visit other =
      if other = range then service.manager.trace.flatMap visit
      else cluster.visits visit other := by
  rw [visits, ranges_putRange]
  split <;> rfl

theorem twoPhase_initial (starts : Initial cluster) :
    TwoPhase cluster.holder (cluster.visits visit) [] := by
  have holder : cluster.holder = fun _ => none := by
    funext range
    obtain ⟨storage, here⟩ := starts.2 range
    rw [Cluster.holder, here]
    rfl
  have visits : cluster.visits visit = fun _ => [] := by
    funext range
    obtain ⟨storage, here⟩ := starts.2 range
    rw [Cluster.visits, here]
    rfl
  rw [holder, visits]
  exact .initial

theorem Still.twoPhase (still : Still cluster next)
    (twoPhase : TwoPhase cluster.holder (cluster.visits visit) points) :
    TwoPhase next.holder (next.visits visit) points := by
  have holder : next.holder = cluster.holder := by
    funext range
    exact congrArg _ (still range).1
  have visits : next.visits visit = cluster.visits visit := by
    funext range
    exact congrArg _ (still range).2.2
  rw [holder, visits]
  exact twoPhase

theorem visits_of_silent {range : FullRangeId} {service : Service}
    (silent : service.manager.trace.flatMap visit = cluster.visits visit range) :
    (cluster.putRange range service).visits visit = cluster.visits visit := by
  funext other
  rw [visits_putRange]
  split
  next here =>
    subst here
    exact silent
  next => rfl

theorem visited (twoPhase : TwoPhase cluster.holder (cluster.visits visit) points)
    {range : FullRangeId} {service : Service} {id : Uuid} {event : Event}
    (holds : cluster.holder range = some id)
    (lockTable : service.manager.lockTable = (cluster.ranges range).manager.lockTable)
    (trace : service.manager.trace = (cluster.ranges range).manager.trace ++ [event])
    (own : ∀ item ∈ visit event, item.1 = id) :
    TwoPhase (cluster.putRange range service).holder
      ((cluster.putRange range service).visits visit) points := by
  have holder : (cluster.putRange range service).holder = cluster.holder := by
    funext other
    rw [holder_putRange, lockTable]
    split
    next here =>
      subst here
      rfl
    next => rfl
  rw [holder]
  refine twoPhase.visitAll holds own ?_ ?_
  · rw [visits_putRange, if_pos rfl, trace, List.flatMap_append, List.flatMap_singleton]
    rfl
  · intro other ne
    rw [visits_putRange, if_neg ne]

end Visits

/-! ## Taking a lock -/

/-- The transaction writes at the range without having read there. -/
def Blind (transaction : Transaction) (range : FullRangeId) : Prop :=
  (transaction.getParticipantRange range).changes = true ∧
    (transaction.getParticipantRange range).reads = false

/-- Who becomes the holder is reading, or is about to write blindly. -/
theorem Joined.gained (joined : Joined cluster) {id : Uuid}
    (moves : RangeServer.RangeManager.Moves (config range) (cluster.ranges range).manager request
      manager)
    (unheld : cluster.holder range ≠ some id)
    (held : manager.lockTable.currentHolder = some id) :
    ∃ tx, cluster.transactions.find id = some tx ∧
      (tx.state = .running ∨ tx.state = .preparing ∧ Blind tx range ∧
        ∃ handler request stage, (cluster.ranges range).manager.handlers.find handler =
            some (.prepare id request stage) ∧ (stage = .locking ∨ stage = .waiting)) := by
  have kept := joined.kept range
  obtain ⟨number, handler, found, seeks⟩ := kept.owned.gained moves unheld held
  have idle (owns : handler.owns ((cluster.ranges range).sessions id)
      (number ∈ (cluster.ranges range).manager.lockTable.signalled) id = true) : False :=
    unheld (kept.owned.holder id (kept.owned.owns_of_handler id found owns))
  have placed := kept.owned.placed number handler found
  cases handler with
  | get owner _ stage =>
    obtain rfl : owner = id := by
      cases stage with
      | locking | waiting => exact of_decide_eq_true seeks
      | _ => cases seeks
    obtain ⟨tx, known, getting⟩ :=
      joined.linked range number _ found owner (decide_eq_true rfl)
    refine ⟨tx, known, .inl ?_⟩
    exact (joined.coherent owner tx known).state_of_stage getting rfl
  | prepare owner request stage =>
    obtain ⟨rfl, seeking⟩ : owner = id ∧ (stage = .locking ∨ stage = .waiting) := by
      cases stage with
      | locking => exact ⟨of_decide_eq_true seeks, .inl rfl⟩
      | waiting => exact ⟨of_decide_eq_true seeks, .inr rfl⟩
      | _ => cases seeks
    obtain ⟨tx, known, preparing, asks, _⟩ :=
      joined.linked range number _ found owner (decide_eq_true rfl)
    have writes : request.hasWrites = true := by
      rcases seeking with rfl | rfl <;> exact placed.2.2
    have unread : request.hasReads = false := by
      rw [Bool.eq_false_iff]
      intro reads
      apply idle
      rcases seeking with rfl | rfl
      · simp [Handler.owns, RangeServer.PrepareStage.owns, ← placed.2.1, reads]
      · have signalled := kept.attentive number _ found reads
        simp [Handler.owns, RangeServer.PrepareStage.owns, signalled]
    refine ⟨tx, known, .inr ⟨preparing, ⟨?_, ?_⟩, number, request, stage, found, seeking⟩⟩
    · exact asks.hasWrites.symm.trans writes
    · exact asks.hasReads.symm.trans unread
  | abort | commit => cases seeks

end Cluster

end Sangria
