import Sangria.Cluster.Locking
import Sangria.Lib.TransitionSystem
import Sangria.RangeServer.RangeManager.Recording

/-!
# The order behind the dependencies

A transaction depends on another one that has saved a record at a range before
it got the lock there.  When nobody takes a lock after it has saved a record,
the order of the first records agrees with all dependencies.
-/

namespace Sangria

open FiniteMap
open Coordinator (Transaction ParticipantRange)
open RangeServer (Configuration Event Handler PrepareRequest Recording Service)
open TransitionSystem

namespace RangeServer

variable {range next : RangeManager} {transaction : Uuid} {config : Configuration} {label : Label}
  {handler : Handler}

/-! ## Dependencies at a range -/

def Handler.looksUp : Handler → Bool
  | .get _ _ .checking | .prepare _ _ (.deciding _) => true
  | _ => false

theorem RangeManager.Moves.dependencies (moves : RangeManager.Moves config range label next)
    (isLocal : label.isLocal = true) :
    ∃ id handler handler', range.handlers.find id = some handler ∧
      next.handlers = range.handlers.insert id handler' ∧
      (∀ transaction, handler'.concerns transaction = handler.concerns transaction) ∧
      ∀ dep ∈ handler'.dependencies, dep ∈ handler.dependencies ∨
        handler.looksUp = true ∧
          ∃ key, range.pendingState.pendingCommitTable.find key = some dep := by
  have none {handler handler' : Handler} (empty : handler'.dependencies = ∅) :
      ∀ dep ∈ handler'.dependencies,
      dep ∈ handler.dependencies ∨ handler.looksUp = true ∧
        ∃ key, range.pendingState.pendingCommitTable.find key = some dep := by
    intro dep member
    rw [empty] at member
    cases member
  cases moves with
  | arrivedGet | arrivedPrepare | arrivedAbort | arrivedCommit | delivered => cases isLocal
  | quiet found quiet =>
    refine ⟨_, _, _, found, rfl, quiet.goes.concerns, ?_⟩
    cases quiet with
    | verified => split <;> exact none rfl
    | chosen =>
      split <;> exact fun _ member => .inl member
    | flushed => exact fun _ member => .inl member
    | _ => exact none rfl
  | failed found fails =>
    cases fails <;> exact ⟨_, _, _, found, rfl, fun _ => rfl, none rfl⟩
  | @read id transaction key stage val deps found reads =>
    refine ⟨_, _, _, found, rfl, fun _ => rfl, ?_⟩
    intro dep member
    cases reads with
    | record published =>
      obtain rfl := List.mem_singleton.mp (List.mem_toFinset.mp member)
      exact .inr ⟨rfl, _, published⟩
    | buffer | storage => cases List.mem_toFinset.mp member
  | @saved id transaction request decisions found complete =>
    unfold RangeManager.save
    simp only
    split
    next => exact ⟨_, _, _, found, rfl, fun _ => rfl, none rfl⟩
    next =>
      refine ⟨_, _, _, found, rfl, fun _ => rfl, ?_⟩
      intro dep member
      obtain ⟨key, _, published⟩ := mem_collect.mp member
      exact .inr ⟨rfl, key, published⟩
  | softReleased found => exact ⟨_, _, _, found, rfl, fun _ => rfl, fun _ member => .inl member⟩
  | wokenGet found =>
    refine ⟨_, _, _, found, rfl, fun _ => rfl, none ?_⟩
    split <;> rfl
  | lockedGet found | lockedPrepare found | wokenPrepare found | releasedPrepare found
  | releasedAbort found | stored found | deleteRefused found | storeTimedOut found
  | updatedBuffer found | cleared found
  | releasedCommit found | cleaned found =>
    exact ⟨_, _, _, found, rfl, fun _ => rfl, none rfl⟩

theorem RangeManager.Moves.dependencies_of_arrival
    (moves : RangeManager.Moves config range label next)
    (arrives : label.isLocal = false) (other : ∀ id, label ≠ .deliver id) (id : Nat)
    (handler : Handler) (found : next.handlers.find id = some handler) :
    range.handlers.find id = some handler ∨ handler.dependencies = ∅ := by
  have put {number : Nat} {handler' : Handler} (empty : handler'.dependencies = ∅)
      (handlers : next.handlers = range.handlers.insert number handler') :
      range.handlers.find id = some handler ∨ handler.dependencies = ∅ := by
    rw [handlers] at found
    rcases eq_or_find_of_insert found with ⟨_, rfl⟩ | ⟨_, before⟩
    · exact .inr empty
    · exact .inl before
  cases moves with
  | @arrivedPrepare number transaction request =>
    refine put ?_ rfl
    unfold RangeManager.arrivePrepare
    split
    next =>
      split
      next => split <;> rfl
      next => rfl
    next => split <;> rfl
  | arrivedGet =>
    refine put ?_ rfl
    split <;> rfl
  | arrivedAbort | arrivedCommit => exact put rfl rfl
  | delivered => exact absurd rfl (other _)
  | quiet _ quiet => cases quiet <;> cases arrives
  | _ => cases arrives

theorem Handler.unsaved_of_looksUp (looksUp : handler.looksUp = true)
    (concerned : handler.concerns transaction = true) :
    handler.unsaved transaction = true := by
  unfold Handler.looksUp at looksUp
  split at looksUp
  next => exact concerned
  next => exact (Bool.and_eq_true _ _).mpr ⟨concerned, rfl⟩
  next => cases looksUp

theorem Owned.holder_of_looksUp {service : Service} (owned : Owned service) {id : Nat}
    (found : service.manager.handlers.find id = some handler)
    (looksUp : handler.looksUp = true)
    (concerned : handler.concerns transaction = true) :
    service.manager.lockTable.currentHolder = some transaction := by
  apply owned.holder
  apply owned.owns_of_handler transaction found
  unfold Handler.looksUp at looksUp
  split at looksUp
  next => exact (Bool.and_eq_true _ _).mpr ⟨concerned, rfl⟩
  next => exact (Bool.and_eq_true _ _).mpr ⟨concerned, rfl⟩
  next => cases looksUp

def Event.visit : Event → List (Uuid × Bool)
  | .read transaction _ _ => [(transaction, false)]
  | .saved transaction _ => [(transaction, true)]
  | .stored _ => []

theorem RangeManager.mem_visits :
    (transaction, true) ∈ range.trace.flatMap Event.visit ↔ range.Saved transaction := by
  rw [List.mem_flatMap]
  constructor
  · rintro ⟨event, member, visited⟩
    cases event with
    | saved _ record =>
      cases List.mem_singleton.mp visited
      exact ⟨record, member⟩
    | read => cases List.mem_singleton.mp visited
    | stored => cases visited
  · rintro ⟨record, member⟩
    exact ⟨_, member, List.mem_singleton_self _⟩

end RangeServer

namespace Coordinator

def WritesOnce (participants : HashMap FullRangeId ParticipantRange) : Prop :=
  ∀ range ∈ participants.keys, ∀ participant ∈ participants.find range,
    ∀ other ∈ participants.keys, ∀ participant' ∈ participants.find other,
      participant.changes = true → participant'.changes = true → range = other

end Coordinator

namespace Cluster

variable {config : FullRangeId → Configuration} {cluster next : Cluster} {label : Label}
  {points : List Uuid}
variable {range : FullRangeId} {request : RangeServer.Label} {manager : RangeServer.RangeManager}
  {id owner : Uuid} {sessions : Uuid → RangeServer.Session} {answer : Coordinator.Label}
  {transaction transaction' : Transaction} {service : Service} {handler : Handler}

/-- `points` are the transactions that have saved a record, in the order of their
first ones.  All dependencies agree with it. -/
structure Ranked (cluster : Cluster) (points : List Uuid) : Prop where
  twoPhase : TwoPhase cluster.holder (cluster.visits Event.visit) points
  passed : ∀ id ∈ points, ∃ range, (cluster.ranges range).manager.Saved id
  saved : ∀ range id, (cluster.ranges range).manager.Saved id → id ∈ points ∧
    ∃ transaction, cluster.transactions.find id = some transaction ∧
      transaction.state ≠ .running ∧ (transaction.getParticipantRange range).changes = true
  handlers : ∀ range number handler id dependency,
    (cluster.ranges range).manager.handlers.find number = some handler →
    handler.concerns id = true → dependency ∈ handler.dependencies →
    points.idxOf dependency < points.idxOf id
  coordinators : ∀ id transaction dependency, cluster.transactions.find id = some transaction →
    dependency ∈ transaction.dependencies → points.idxOf dependency < points.idxOf id

structure Arranged (cluster : Cluster) : Prop where
  joined : Joined cluster
  recording : ∀ range, Recording (cluster.ranges range)
  prepares : Prepares (fun participants => Coordinator.ReadsFirst participants ∨
    Coordinator.WritesOnce participants) cluster
  ranked : ∃ points, Ranked cluster points

theorem Arranged.not_mem_of_gained (arranged : Arranged cluster) (ranked : Ranked cluster points)
    (moves : RangeServer.RangeManager.Moves (config range) (cluster.ranges range).manager request
      manager)
    (unheld : cluster.holder range ≠ some id)
    (held : manager.lockTable.currentHolder = some id) : id ∉ points := by
  intro passed
  obtain ⟨range', saved⟩ := ranked.passed id passed
  obtain ⟨_, transaction, known, decided, changes⟩ := ranked.saved range' id saved
  obtain ⟨transaction', known', running | ⟨preparing, ⟨writes, unread⟩, number, request, stage,
    found, seeking⟩⟩ := arranged.joined.gained moves unheld held
  · cases known.symm.trans known'
    exact decided running
  · cases known.symm.trans known'
    have here := Transaction.find_of_changes writes
    have there := Transaction.find_of_changes changes
    have listed := mem_keys.mpr ⟨_, here⟩
    rcases arranged.prepares id transaction known preparing with readsFirst | writesOnce
    · cases unread.symm.trans (readsFirst range listed _ here writes)
    · obtain rfl := writesOnce range listed _ here range' (mem_keys.mpr ⟨_, there⟩) _
        there writes changes
      apply (arranged.recording range).handlers number _ id found ?_ saved
      rcases seeking with rfl | rfl <;> exact (Bool.and_eq_true _ _).mpr ⟨decide_eq_true rfl, rfl⟩

/-! ## Steps that leave locks and data alone -/

theorem Ranked.still (ranked : Ranked cluster points) (still : Still cluster next)
    (txs : ∀ id transaction, cluster.transactions.find id = some transaction →
      transaction.state ≠ .running → ∃ transaction',
        next.transactions.find id = some transaction' ∧ transaction'.state ≠ .running ∧
          transaction'.participantRanges = transaction.participantRanges)
    (handlers : ∀ range number handler,
      (next.ranges range).manager.handlers.find number = some handler →
      (cluster.ranges range).manager.handlers.find number = some handler ∨
        handler.dependencies = ∅)
    (coordinators : ∀ id transaction dep, next.transactions.find id = some transaction →
      dep ∈ transaction.dependencies → points.idxOf dep < points.idxOf id) :
    Ranked next points := by
  have saved (range : FullRangeId) (id : Uuid) :
      (next.ranges range).manager.Saved id ↔ (cluster.ranges range).manager.Saved id := by
    unfold RangeServer.RangeManager.Saved
    rw [(still range).2.2]
  refine ⟨still.twoPhase ranked.twoPhase, ?_, ?_, ?_, coordinators⟩
  · intro id passed
    obtain ⟨range, here⟩ := ranked.passed id passed
    exact ⟨range, (saved range id).mpr here⟩
  · intro range id here
    obtain ⟨passed, transaction, known, decided, changes⟩ :=
      ranked.saved range id ((saved range id).mp here)
    obtain ⟨transaction', known', decided', same⟩ := txs id transaction known decided
    refine ⟨passed, transaction', known', decided', ?_⟩
    rw [Transaction.getParticipantRange, same]
    exact changes
  · intro range number handler id dep found concerned member
    rcases handlers range number handler found with before | none
    · exact ranked.handlers range number handler id dep before concerned member
    · rw [none] at member
      cases member

theorem Ranked.start (ranked : Ranked cluster points)
    {commitStrategy : CommitStrategy} (unused : cluster.transactions.find id = none) :
    Ranked (cluster.put id (.new id commitStrategy)) points := by
  refine ranked.still (fun _ => ⟨rfl, rfl, rfl⟩) ?_ (fun _ _ _ here => .inl here) ?_
  · intro other transaction known decided
    have ne : other ≠ id := by
      rintro rfl
      cases unused.symm.trans known
    exact ⟨transaction, (find_insert_of_ne _ ne).trans known, decided, rfl⟩
  · intro other transaction dep known member
    rcases eq_or_find_of_insert known with ⟨_, rfl⟩ | ⟨_, before⟩
    · cases member
    · exact ranked.coordinators other transaction dep before member

theorem Ranked.transact (ranked : Ranked cluster points) (joined : Joined cluster)
    (found : cluster.transactions.find id = some transaction)
    (moves : transaction.Moves answer transaction')
    (reported : ∀ dep ∈ answer.dependencies, points.idxOf dep < points.idxOf id)
    (still : Still cluster next)
    (txs : next.transactions = cluster.transactions.insert id transaction')
    (remaining : ∀ range other handler,
      (next.ranges range).manager.handlers.find other = some handler →
      (cluster.ranges range).manager.handlers.find other = some handler) :
    Ranked next points := by
  refine ranked.still still ?_ (fun range other handler here =>
    .inl (remaining range other handler here)) ?_
  · intro other before known decided
    rw [txs, find_insert]
    split
    next same =>
      subst same
      cases found.symm.trans known
      obtain ⟨participants, after⟩ :=
        moves.participantRanges (joined.coherent other transaction found) decided
      exact ⟨transaction', rfl, after, participants⟩
    next => exact ⟨before, known, decided, rfl⟩
  · intro other after dep known member
    rw [txs] at known
    rcases eq_or_find_of_insert known with ⟨rfl, rfl⟩ | ⟨_, before⟩
    · rw [moves.dependencies] at member
      rcases Finset.mem_union.mp member with earlier | now
      · exact ranked.coordinators other transaction dep found earlier
      · exact reported dep now
    · exact ranked.coordinators other after dep before member

theorem Ranked.act (ranked : Ranked cluster points) (joined : Joined cluster)
    (own : answer.ofRange = false) (found : cluster.transactions.find id = some transaction)
    (moves : transaction.Moves answer transaction') :
    Ranked (cluster.put id transaction') points := by
  refine ranked.transact joined found moves ?_ (fun _ => ⟨rfl, rfl, rfl⟩) rfl
    (fun _ _ _ here => here)
  intro dep member
  cases answer with
  | gotten | prepared => cases own
  | _ => cases member

theorem Ranked.send (ranked : Ranked cluster points) (asked : cluster.sends range request = true)
    (served : (cluster.ranges range).step (config range) request = some service) :
    Ranked (cluster.putRange range service) points := by
  have still := still_of_sends asked served
  obtain ⟨manager, moved, rfl⟩ := Option.map_eq_some_iff.mp served
  have moves := RangeServer.RangeManager.moves_of_step moved
  refine ranked.still still (fun _ transaction known decided => ⟨transaction, known, decided, rfl⟩)
    ?_ ranked.coordinators
  intro other number handler found
  rw [ranges_putRange] at found
  split at found
  next same =>
    subst same
    refine moves.dependencies_of_arrival ?_ ?_ number handler found
    · cases request with
      | run | runOn | fail => cases asked
      | _ => rfl
    · rintro id rfl
      cases asked
  next => exact .inl found

theorem Replied.dependencies (replied : Replied range owner handler answer) :
    answer.dependencies ⊆ handler.dependencies := by
  cases replied with
  | get | prepare => exact Finset.Subset.refl _
  | getFailed | prepareFailed | commit => exact Finset.empty_subset _

theorem Ranked.drop (ranked : Ranked cluster points) {id : Nat}
    (found : (cluster.ranges range).manager.handlers.find id = some handler)
    (served : (cluster.ranges range).step (config range) (.deliver id) = some service) :
    Ranked (cluster.putRange range service) points := by
  obtain rfl := deliver_spec found served
  refine ranked.still (.putRange rfl rfl rfl rfl rfl)
    (fun _ transaction known decided => ⟨transaction, known, decided, rfl⟩)
    ?_ ranked.coordinators
  intro other number candidate found'
  rw [ranges_putRange] at found'
  split at found'
  next same =>
    subst same
    exact .inl (find_of_erase found').2
  next => exact .inl found'

theorem Ranked.deliver (ranked : Ranked cluster points) (joined : Joined cluster) {id : Nat}
    (found : (cluster.ranges range).manager.handlers.find id = some handler)
    (served : (cluster.ranges range).step (config range) (.deliver id) = some service)
    (replied : Replied range owner handler answer)
    (known : cluster.transactions.find owner = some transaction)
    (moves : transaction.Moves answer transaction') :
    Ranked ((cluster.put owner transaction').putRange range service) points := by
  obtain rfl := deliver_spec found served
  refine ranked.transact joined known moves ?_ (.putRange rfl rfl rfl rfl rfl) rfl ?_
  · intro dep member
    exact ranked.handlers range id handler owner dep found replied.concerns
      (replied.dependencies member)
  · intro other number candidate found'
    rw [ranges_putRange] at found'
    split at found'
    next same =>
      subst same
      exact (find_of_erase found').2
    next => exact found'

/-! ## Sections of handlers -/

theorem Arranged.handlers_after (arranged : Arranged cluster) (ranked : Ranked cluster points)
    (moves : RangeServer.RangeManager.Moves (config range) (cluster.ranges range).manager request
      manager)
    (isLocal : request.isLocal = true) (number : Nat) (handler : Handler) (id dep : Uuid)
    (found : manager.handlers.find number = some handler) (concerned : handler.concerns id = true)
    (member : dep ∈ handler.dependencies) :
    points.idxOf dep < points.idxOf id := by
  obtain ⟨number', handler', after, found', handlers, same, origin⟩ := moves.dependencies isLocal
  rw [handlers] at found
  rcases eq_or_find_of_insert found with ⟨_, rfl⟩ | ⟨_, before⟩
  · rw [same] at concerned
    rcases origin dep member with earlier | ⟨looksUp, key, published⟩
    · exact ranked.handlers range number' handler' id dep found' concerned earlier
    · have saved := (arranged.recording range).table key dep published
      have unsaved := (arranged.recording range).handlers number' handler' id found'
        (Handler.unsaved_of_looksUp looksUp concerned)
      have holds := (arranged.joined.kept range).owned.holder_of_looksUp found' looksUp concerned
      apply ranked.twoPhase.behind range id dep holds
      · rintro rfl
        exact unsaved saved
      · exact RangeServer.RangeManager.mem_visits.mpr saved
  · exact ranked.handlers range number handler id dep before concerned member

theorem Arranged.put (arranged : Arranged cluster) (ranked : Ranked cluster points)
    {points' : List Uuid}
    (moves : RangeServer.RangeManager.Moves (config range) (cluster.ranges range).manager request
      manager)
    (isLocal : request.isLocal = true)
    (order : ∀ first second, points.idxOf first < points.idxOf second →
      points'.idxOf first < points'.idxOf second)
    (twoPhase : TwoPhase (cluster.putRange range ⟨manager, sessions⟩).holder
      ((cluster.putRange range ⟨manager, sessions⟩).visits Event.visit) points')
    (kept : ∀ id, (cluster.ranges range).manager.Saved id → manager.Saved id)
    (passed : ∀ id, id ∈ points' ↔ id ∈ points ∨ manager.Saved id)
    (fresh : ∀ id, manager.Saved id → (cluster.ranges range).manager.Saved id ∨
      ∃ transaction, cluster.transactions.find id = some transaction ∧
        transaction.state ≠ .running ∧ (transaction.getParticipantRange range).changes = true) :
    Ranked (cluster.putRange range ⟨manager, sessions⟩) points' := by
  refine ⟨twoPhase, ?_, ?_, ?_, ?_⟩
  · intro id member
    rcases (passed id).mp member with before | now
    · obtain ⟨other, saved⟩ := ranked.passed id before
      refine ⟨other, ?_⟩
      rw [ranges_putRange]
      split
      next same =>
        subst same
        exact kept id saved
      next => exact saved
    · refine ⟨range, ?_⟩
      rw [ranges_putRange, if_pos rfl]
      exact now
  · intro other id saved
    rw [ranges_putRange] at saved
    split at saved
    next same =>
      subst same
      refine ⟨(passed id).mpr (.inr saved), ?_⟩
      rcases fresh id saved with before | now
      · exact (ranked.saved other id before).2
      · exact now
    next =>
      obtain ⟨before, known⟩ := ranked.saved other id saved
      exact ⟨(passed id).mpr (.inl before), known⟩
  · intro other number handler id dep found concerned member
    apply order
    rw [ranges_putRange] at found
    split at found
    next =>
      exact arranged.handlers_after ranked moves isLocal number handler id dep found
        concerned member
    next => exact ranked.handlers other number handler id dep found concerned member
  · intro id transaction dep known member
    exact order _ _ (ranked.coordinators id transaction dep known member)

theorem Arranged.unsaved (arranged : Arranged cluster) (ranked : Ranked cluster points)
    (moves : RangeServer.RangeManager.Moves (config range) (cluster.ranges range).manager request
      manager)
    (isLocal : request.isLocal = true)
    (twoPhase : TwoPhase (cluster.putRange range ⟨manager, sessions⟩).holder
      ((cluster.putRange range ⟨manager, sessions⟩).visits Event.visit) points)
    (saved : ∀ id, manager.Saved id ↔ (cluster.ranges range).manager.Saved id) :
    Ranked (cluster.putRange range ⟨manager, sessions⟩) points := by
  refine arranged.put ranked moves isLocal (fun _ _ before => before) twoPhase
    (fun id => (saved id).mpr) ?_ fun id here => .inl ((saved id).mp here)
  intro id
  refine ⟨.inl, ?_⟩
  rintro (here | here)
  · exact here
  · exact (ranked.saved range id ((saved id).mp here)).1

theorem Arranged.released (arranged : Arranged cluster) (ranked : Ranked cluster points)
    (moves : RangeServer.RangeManager.Moves (config range) (cluster.ranges range).manager request
      manager)
    (silent : manager.trace.flatMap Event.visit = cluster.visits Event.visit range) :
    TwoPhase (cluster.putRange range ⟨manager, sessions⟩).holder
      ((cluster.putRange range ⟨manager, sessions⟩).visits Event.visit) points := by
  rw [visits_of_silent silent]
  refine ranked.twoPhase.pass ?_ ?_
  · intro other id held
    rw [holder_putRange] at held
    split at held
    next here =>
      subst here
      by_cases before : cluster.holder other = some id
      · exact .inl before
      · exact .inr (arranged.not_mem_of_gained ranked moves before held)
    next => exact .inl held
  · intro other id _ _ visited
    exact (ranked.saved other id (RangeServer.RangeManager.mem_visits.mp visited)).1

theorem Arranged.saves (arranged : Arranged cluster) (ranked : Ranked cluster points)
    {record : RangeServer.Changes}
    (moves : RangeServer.RangeManager.Moves (config range) (cluster.ranges range).manager request
      manager)
    (isLocal : request.isLocal = true)
    (trace : manager.trace = (cluster.ranges range).manager.trace ++ [.saved id record])
    (permitted : (Event.saved id record).Permitted (cluster.ranges range))
    (lockTable : manager.lockTable = (cluster.ranges range).manager.lockTable) :
    ∃ points', Ranked (cluster.putRange range ⟨manager, sessions⟩) points' := by
  obtain ⟨holds, number, prepare, decisions, found, rfl⟩ := permitted
  have own : ∀ item ∈ Event.visit (.saved id prepare.changes), item.1 = id := by
    intro item member
    rw [List.mem_singleton.mp member]
  have earlier (other : Uuid) : manager.Saved other ↔
      (cluster.ranges range).manager.Saved other ∨ other = id := by
    rw [← RangeServer.RangeManager.mem_visits, ← RangeServer.RangeManager.mem_visits, trace,
      List.flatMap_append, List.mem_append]
    exact or_congr_right (List.mem_singleton.trans (by simp))
  have fresh (other : Uuid) (saved : manager.Saved other) :
      (cluster.ranges range).manager.Saved other ∨
        ∃ transaction, cluster.transactions.find other = some transaction ∧
          transaction.state ≠ .running ∧
          (transaction.getParticipantRange range).changes = true := by
    rcases (earlier other).mp saved with before | rfl
    · exact .inl before
    · obtain ⟨transaction, known, preparing, asks, _⟩ :=
        arranged.joined.linked range number _ found other (decide_eq_true rfl)
      refine .inr ⟨transaction, known, ?_, ?_⟩
      · rw [preparing]
        decide
      · rw [← asks.hasWrites]
        exact ((arranged.joined.kept range).owned.placed number _ found).2.2
  by_cases before : id ∈ points
  · refine ⟨points, arranged.put ranked moves isLocal (fun _ _ here => here)
      (visited ranked.twoPhase holds lockTable trace own)
      (fun other here => (earlier other).mpr (.inl here)) ?_ fresh⟩
    intro other
    rw [earlier]
    refine ⟨.inl, ?_⟩
    rintro (here | here | rfl)
    · exact here
    · exact (ranked.saved range other here).1
    · exact before
  · refine ⟨points ++ [id], arranged.put ranked moves isLocal
      (fun _ _ here => TwoPhase.idxOf_lt_concat here)
      (visited (ranked.twoPhase.point id) holds lockTable trace own)
      (fun other here => (earlier other).mpr (.inl here)) ?_ fresh⟩
    intro other
    rw [earlier, List.mem_append, List.mem_singleton]
    refine ⟨Or.imp_right .inr, ?_⟩
    rintro (here | here | rfl)
    · exact .inl here
    · exact .inl (ranked.saved range other here).1
    · exact .inr rfl

theorem Arranged.serve (arranged : Arranged cluster) (ranked : Ranked cluster points)
    (moves : RangeServer.RangeManager.Moves (config range) (cluster.ranges range).manager request
      manager)
    (isLocal : request.isLocal = true) :
    ∃ points', Ranked (cluster.putRange range ⟨manager, sessions⟩) points' := by
  have quiet (silent : manager.trace.flatMap Event.visit = cluster.visits Event.visit range) :
      ∃ points', Ranked (cluster.putRange range ⟨manager, sessions⟩) points' := by
    refine ⟨points, arranged.unsaved ranked moves isLocal
      (arranged.released ranked moves silent) ?_⟩
    intro id
    rw [← RangeServer.RangeManager.mem_visits, silent, visits, RangeServer.RangeManager.mem_visits]
  rcases (arranged.joined.kept range).owned.traced moves with
    same | ⟨event, trace, permitted, lockTable⟩
  · exact quiet (congrArg _ same)
  · cases event with
    | read id key val =>
      have own : ∀ item ∈ Event.visit (.read id key val), item.1 = id := by
        intro item member
        rw [List.mem_singleton.mp member]
      refine ⟨points, arranged.unsaved ranked moves isLocal
        (visited ranked.twoPhase permitted.1 lockTable trace own) ?_⟩
      intro other
      rw [← RangeServer.RangeManager.mem_visits, trace, List.flatMap_append, List.mem_append,
        RangeServer.RangeManager.mem_visits]
      refine or_iff_left fun now => ?_
      cases List.mem_singleton.mp now
    | saved => exact arranged.saves ranked moves isLocal trace permitted lockTable
    | stored =>
      apply quiet
      rw [trace, List.flatMap_append]
      exact List.append_nil _

/-! ## Whole runs -/

theorem Arranged.initial (starts : Initial cluster) : Arranged cluster := by
  have none := starts.1
  have loaded := starts.2
  refine ⟨.initial starts, ?_, ?_, [], twoPhase_initial starts, ?_, ?_, ?_, ?_⟩
  · intro range
    obtain ⟨storage, here⟩ := loaded range
    rw [here]
    exact .loaded storage
  · intro id transaction known
    rw [none] at known
    cases (find_empty id).symm.trans known
  · intro id passed
    cases passed
  · rintro range id ⟨record, saved⟩
    obtain ⟨storage, here⟩ := loaded range
    rw [here] at saved
    cases saved
  · intro range number handler id dep found
    obtain ⟨storage, here⟩ := loaded range
    rw [here] at found
    cases (find_empty number).symm.trans found
  · intro id transaction dep known
    rw [none] at known
    cases (find_empty id).symm.trans known

/-- Every transaction that commits has read wherever it writes, or writes at one
range. -/
def LocksFirst : Cluster → Label → Prop :=
  CommitsWith fun participants =>
    Coordinator.ReadsFirst participants ∨ Coordinator.WritesOnce participants

theorem Arranged.recording_after (arranged : Arranged cluster)
    (moves : Moves config cluster label next) (range : FullRangeId) :
    Recording (next.ranges range) := by
  have put {before : Cluster} {other : FullRangeId} {service : Service}
      {request : RangeServer.Label} (ranges : before.ranges = cluster.ranges)
      (orderly : (cluster.ranges other).Orderly request)
      (served : (cluster.ranges other).step (config other) request = some service) :
      Recording ((before.putRange other service).ranges range) := by
    rw [ranges_putRange, ranges]
    split
    next =>
      exact (arranged.recording other).step (arranged.joined.kept other).owned orderly served
    next => exact arranged.recording range
  cases moves with
  | start | act => exact arranged.recording range
  | send asked served => exact put rfl (arranged.joined.asked asked) served
  | serve isLocal served => exact put rfl (orderly_of_isLocal isLocal) served
  | drop _ served | deliver _ served =>
    refine put rfl ?_ served
    trivial

theorem Arranged.step (arranged : Arranged cluster) (permitted : LocksFirst cluster label)
    (taken : cluster.step config label = some next) : Arranged next := by
  have moves := Moves.of_step taken
  refine ⟨arranged.joined.step taken, arranged.recording_after moves,
    arranged.prepares.step arranged.joined permitted taken, ?_⟩
  obtain ⟨points, ranked⟩ := arranged.ranked
  cases moves with
  | start unused => exact ⟨points, ranked.start unused⟩
  | act own found moves => exact ⟨points, ranked.act arranged.joined own found moves⟩
  | send asked served =>
    exact ⟨points, ranked.send asked served⟩
  | serve isLocal served =>
    obtain ⟨manager, moved, rfl⟩ := Option.map_eq_some_iff.mp served
    exact arranged.serve ranked (RangeServer.RangeManager.moves_of_step moved) isLocal
  | drop found served =>
    exact ⟨points, ranked.drop found served⟩
  | deliver found served answered known moves =>
    exact ⟨points, ranked.deliver arranged.joined found served (replied_of_reply answered) known
      moves⟩

def DependsOn (cluster : Cluster) (waiting dependency : Uuid) : Prop :=
  ∃ transaction, cluster.transactions.find waiting = some transaction ∧
    dependency ∈ transaction.dependencies

instance (cluster : Cluster) (waiting dependency : Uuid) :
    Decidable (cluster.DependsOn waiting dependency) :=
  decidable_of_iff ((cluster.transactions.find waiting).any (fun transaction =>
    decide (dependency ∈ transaction.dependencies)) = true) (by
      simp only [Option.any_eq_true, decide_eq_true_eq, DependsOn])

theorem dependencies_acyclic (config : FullRangeId → Configuration) {cluster : Cluster}
    (reached : Reachable (step config) LocksFirst Initial cluster) :
    Acyclic cluster.DependsOn := by
  have arranged : Arranged cluster := by
    refine reached.invariant (fun _ starts => .initial starts) ?_
    intro before next label arranged permitted taken
    exact arranged.step permitted taken
  obtain ⟨points, ranked⟩ := arranged.ranked
  refine .of_rank (fun id => OrderDual.toDual (points.idxOf id)) ?_
  rintro waiting dependency ⟨transaction, known, member⟩
  exact ranked.coordinators waiting transaction dependency known member

instance : DecidablePred Coordinator.WritesOnce := fun participants =>
  inferInstanceAs (Decidable (∀ range ∈ participants.keys, _))

instance (cluster : Cluster) (label : Label) : Decidable (LocksFirst cluster label) :=
  inferInstanceAs (Decidable (CommitsWith _ cluster label))

def pipelined (_ : FullRangeId) : Configuration := ⟨.pipelined, .openClients, .all, 0⟩

/-- A transaction that has not read at the range prepares one key. -/
def prepareAt (range : FullRangeId) (id : Uuid) : List Label :=
  [.send range (.prepare 0 id ⟨false, [([1], [1])], [], none, 0⟩), .serve range (.run 0),
    .serve range (.run 0), .serve range (.runOn 0 [1]), .serve range (.run 0),
    .serve range (.runOn 0 [1]), .serve range (.run 0), .serve range (.run 0), .deliver range 0]

def getAt (range : FullRangeId) (id : Uuid) : List Label :=
  [.act id (.get (some range) [1]), .send range (.get 0 id [1]), .serve range (.run 0),
    .serve range (.run 0), .serve range (.run 0), .deliver range 0]

/-- A transaction reads what another one has written. -/
theorem dependencies_acyclic_dirtyRead :
    ∃ cluster, Reachable (step pipelined) LocksFirst Initial cluster ∧ cluster.DependsOn 2 1 ∧
      Acyclic cluster.DependsOn := by
  obtain ⟨cluster, reached, observed⟩ :=
    @exists_reachable_of_run _ _ (step pipelined) LocksFirst Initial _ empty initial_empty
      ([.start 1 .pipelined, .act 1 (.put (some (shard 1)) [1] [1]), .act 1 (.commit none 0)] ++
        prepareAt (shard 1) 1 ++ [.start 2 .pipelined] ++ getAt (shard 1) 2)
      (fun cluster => decide (cluster.DependsOn 2 1)) (by decide +kernel)
  exact ⟨cluster, reached, of_decide_eq_true observed, dependencies_acyclic pipelined reached⟩

/-- Two transactions write two ranges without having read there, and get the locks
in different orders. -/
theorem blind_writes_depend_on_each_other :
    ¬ ∀ cluster, Reachable (step pipelined) (Uses .pipelined) Initial cluster →
      Acyclic cluster.DependsOn := by
  intro always
  let writes (id : Uuid) : List Label :=
    [.start id .pipelined, .act id (.put (some (shard 1)) [1] [1]),
      .act id (.put (some (shard 2)) [1] [1]), .act id (.commit none 0)]
  obtain ⟨cluster, reached, observed⟩ :=
    @exists_reachable_of_run _ _ (step pipelined) (Uses .pipelined) Initial _ empty initial_empty
      (writes 1 ++ writes 2 ++ prepareAt (shard 1) 1 ++ prepareAt (shard 2) 2 ++
        prepareAt (shard 1) 2 ++ prepareAt (shard 2) 1)
      (fun cluster => decide (cluster.DependsOn 1 2 ∧ cluster.DependsOn 2 1)) (by decide +kernel)
  obtain ⟨forth, back⟩ := of_decide_eq_true observed
  exact always cluster reached 1 (.tail (.single forth) back)

end Cluster

end Sangria
