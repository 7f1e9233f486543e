import Sangria.Cluster.Locking
import Sangria.Lib.TransitionSystem

/-!
# Conflicts of transactions

Without early release a transaction keeps its locks until its prepare has
released the lock of a range that it only read, or until it is committed.  When
no transaction both has such a range and takes a lock in another prepare, the
order of the first releases agrees with all conflicts.
-/

namespace Sangria

open FiniteMap
open Coordinator (Transaction ParticipantRange)
open RangeServer (Configuration Event Handler Service)
open TransitionSystem

namespace RangeServer

/-! ## Ranges that release no lock early -/

def PrepareStage.Patient : PrepareStage → Prop
  | .deciding decisions | .appending decisions _ =>
    ∀ key early, decisions.find key = some early → early = false
  | .softReleasing _ => False
  | .flushing _ early => early = false
  | .returned (.ok result) => result.releasedLockEarly = false
  | _ => True

def Handler.Patient : Handler → Prop
  | .prepare _ _ stage => stage.Patient
  | _ => True

structure Patient (service : Service) : Prop where
  handlers : ∀ id handler, service.manager.handlers.find id = some handler → handler.Patient
  sessions : ∀ transaction, (service.sessions transaction).stage.early = false

theorem Handler.Patient.goes {config : Configuration} {handler handler' : Handler}
    (patient : handler.Patient) (traditional : config.commitStrategy = .traditional)
    (goes : handler.Goes config handler') : handler'.Patient := by
  cases goes with
  | get | abort | commit | give | lock => trivial
  | verify =>
    change PrepareStage.Patient (if _ then _ else _)
    split <;> trivial
  | release => rfl
  | wake =>
    intro key early found
    cases (find_empty key).symm.trans found
  | @decide transaction request decisions key early never =>
    intro key' early' found
    rcases eq_or_find_of_insert found with ⟨_, rfl⟩ | ⟨_, before⟩
    · exact never traditional
    · exact patient key' early' before
  | save | flush => exact patient
  | @choose transaction request decisions deps key early found =>
    obtain rfl := patient key early found
    rfl
  | soften => cases patient

theorem Handler.Patient.arrivePrepare (config : Configuration) (transaction : Uuid)
    (request : PrepareRequest) :
    (Handler.prepare transaction request (RangeManager.arrivePrepare config request)).Patient := by
  change PrepareStage.Patient (RangeManager.arrivePrepare config request)
  unfold RangeManager.arrivePrepare
  split
  next =>
    split
    next => split <;> trivial
    next => trivial
  next =>
    split
    next => trivial
    next => rfl

namespace Patient

variable {config : Configuration} {service next : Service} {label : Label}

theorem loaded (storage : Records) : Patient (.loaded storage) where
  handlers := by
    intro id handler found
    cases (find_empty id).symm.trans found
  sessions := fun _ => rfl

theorem insert (patient : Patient service) {id : Nat} {handler' : Handler}
    {manager : RangeManager}
    (handlers : manager.handlers = service.manager.handlers.insert id handler')
    (here : handler'.Patient) (other : Nat) (handler : Handler)
    (found : manager.handlers.find other = some handler) : handler.Patient := by
  rw [handlers] at found
  rcases eq_or_find_of_insert found with ⟨_, rfl⟩ | ⟨_, before⟩
  · exact here
  · exact patient.handlers other handler before

theorem update (patient : Patient service) {transaction : Uuid} {session : Session}
    (unreleased : session.stage.early = false) (other : Uuid) :
    (Function.update service.sessions transaction session other).stage.early = false := by
  by_cases same : other = transaction
  · rw [same, Function.update_self]
    exact unreleased
  · rw [Function.update_of_ne same]
    exact patient.sessions other

theorem answer (patient : Patient service) {handler : Handler} (here : handler.Patient)
    (transaction : Uuid) : (handler.answer service.sessions transaction).stage.early = false := by
  cases handler with
  | get _ _ stage =>
    cases stage with
    | returned res => cases res <;> exact patient.update rfl transaction
    | _ => exact patient.sessions transaction
  | prepare _ _ stage =>
    cases stage with
    | returned res =>
      cases res with
      | ok =>
        apply patient.update
        split
        next => exact here
        next => rfl
      | error => exact patient.update rfl transaction
    | _ => exact patient.sessions transaction
  | abort => exact patient.sessions transaction
  | commit _ _ stage =>
    cases stage with
    | returned res =>
      cases res with
      | ok | error =>
        simp only [Handler.answer]
        split
        next => rfl
        next => exact patient.sessions transaction
    | _ => exact patient.sessions transaction

theorem committing (patient : Patient service) (id : Nat) (transaction : Uuid) :
    (Service.committing id (service.sessions transaction)).stage.early = false := by
  have before := patient.sessions transaction
  unfold Service.committing
  split
  next prepared =>
    rw [prepared] at before
    exact before
  next => rfl

theorem step (patient : Patient service) (traditional : config.commitStrategy = .traditional)
    (taken : service.step config label = some next) : Patient next := by
  obtain ⟨manager, moved, rfl⟩ := Option.map_eq_some_iff.mp taken
  have moves := RangeManager.moves_of_step moved
  cases isLocal : label.isLocal with
  | true =>
    obtain ⟨id, handler, handler', found, goes, handlers⟩ := moves.goes isLocal
    refine ⟨patient.insert handlers ((patient.handlers id handler found).goes traditional goes),
      ?_⟩
    cases label with
    | run | runOn | fail => exact patient.sessions
    | _ => cases isLocal
  | false =>
    cases moves with
    | arrivedGet => exact ⟨patient.insert rfl trivial, patient.update rfl⟩
    | arrivedPrepare =>
      exact ⟨patient.insert rfl (.arrivePrepare config _ _), patient.update rfl⟩
    | arrivedAbort => exact ⟨patient.insert rfl trivial, patient.sessions⟩
    | arrivedCommit =>
      refine ⟨patient.insert rfl trivial, ?_⟩
      intro transaction
      simp only [Service.sessionsAfter]
      split
      next => exact patient.committing _ transaction
      next => exact patient.sessions transaction
    | @delivered number handler found returned =>
      refine ⟨?_, ?_⟩
      · intro other candidate here
        exact patient.handlers other candidate (find_of_erase here).2
      · intro transaction
        simp only [Service.sessionsAfter, found]
        exact patient.answer (patient.handlers number handler found) transaction
    | quiet _ quiet => cases quiet <;> cases isLocal
    | _ => cases isLocal

theorem holder_of_stored (patient : Patient service) (kept : Kept service)
    {records : List (Uuid × Changes)} (permitted : (Event.stored records).Permitted service)
    {entry : Uuid × Changes} (listed : entry ∈ records) :
    service.manager.lockTable.currentHolder = some entry.1 := by
  obtain ⟨id, txs, epoch, found⟩ := permitted
  have member : entry.1 ∈ txs := kept.sound id _ found entry listed
  apply kept.owned.holder
  apply kept.owned.owns_of_handler entry.1 found
  simp [Handler.owns, CommitStage.owns, member, patient.sessions entry.1]

end Patient

/-! ## Accesses -/

structure Access where
  transaction : Uuid
  keys : Finset Bytes
  isWrite : Bool
  deriving DecidableEq

/-- A record is written when its prepare saves it, and again when it is
stored. -/
def Event.accesses : Event → List Access
  | .read transaction key _ => [⟨transaction, {key}, false⟩]
  | .saved transaction record => [⟨transaction, record.keys, true⟩]
  | .stored records => records.map fun entry => ⟨entry.1, entry.2.keys, true⟩

def Event.touches (event : Event) : List (Uuid × Bool) :=
  event.accesses.map fun access => (access.transaction, true)

end RangeServer

namespace Coordinator

def WritesBack (participants : HashMap FullRangeId ParticipantRange) : Prop :=
  ∀ range ∈ participants.keys, ∀ participant ∈ participants.find range,
    participant.reads = true → participant.changes = true

instance : DecidablePred WritesBack := fun participants =>
  inferInstanceAs (Decidable (∀ range ∈ participants.keys, _))

theorem Transaction.Moves.preparing_before {transaction next : Transaction} {label : Label}
    (moves : Moves transaction label next) (decided : transaction.state ≠ .running)
    (after : next.state = .preparing) : transaction.state = .preparing := by
  cases moves with
  | prepare _ running => exact absurd running decided
  | abort | leaderChanged | prepareFailed | record => cases after
  | _ => exact after

end Coordinator

namespace Cluster

variable {config : FullRangeId → Configuration} {cluster next : Cluster} {label : Label}
  {points : List Uuid}
variable {range : FullRangeId} {request : RangeServer.Label} {id first second : Uuid}
  {transaction transaction' : Transaction} {answer : Coordinator.Label}
  {manager : RangeServer.RangeManager} {service : Service}

/-- The transaction takes no more locks on its own account: it is past its
prepares, or it has a range that it only read. -/
def Passed (transaction : Transaction) : Prop :=
  transaction.state ≠ .running ∧ (transaction.state = .preparing →
    ∃ range, (transaction.getParticipantRange range).reads = true ∧
      (transaction.getParticipantRange range).changes = false)

/-- `points` are the transactions that have released a lock, in the order of
their first releases. -/
structure Sequenced (cluster : Cluster) (points : List Uuid) : Prop where
  twoPhase : TwoPhase cluster.holder (cluster.visits Event.touches) points
  passed : ∀ id ∈ points, ∃ transaction, cluster.transactions.find id = some transaction ∧
    Passed transaction

structure Locked (cluster : Cluster) : Prop where
  joined : Joined cluster
  patient : ∀ range, RangeServer.Patient (cluster.ranges range)
  strategies : ∀ id transaction, cluster.transactions.find id = some transaction →
    transaction.commitStrategy = .traditional
  prepares : Prepares (fun participants => Coordinator.ReadsFirst participants ∨
    Coordinator.WritesBack participants) cluster
  sequenced : ∃ points, Sequenced cluster points

theorem Passed.moves (passed : Passed transaction) (coherent : transaction.Coherent)
    (moves : transaction.Moves answer transaction') : Passed transaction' := by
  obtain ⟨participants, decided⟩ := moves.participantRanges coherent passed.1
  refine ⟨decided, ?_⟩
  intro preparing
  obtain ⟨range, only⟩ := passed.2 (moves.preparing_before passed.1 preparing)
  refine ⟨range, ?_⟩
  rw [Transaction.getParticipantRange, participants]
  exact only

/-! ## Steps that leave locks and data alone -/

theorem Sequenced.still (sequenced : Sequenced cluster points) (still : Still cluster next)
    (txs : ∀ id transaction, cluster.transactions.find id = some transaction →
      Passed transaction → ∃ transaction', next.transactions.find id = some transaction' ∧
        Passed transaction') : Sequenced next points := by
  refine ⟨still.twoPhase sequenced.twoPhase, ?_⟩
  intro id member
  obtain ⟨transaction, known, passed⟩ := sequenced.passed id member
  exact txs id transaction known passed

theorem Sequenced.transact (sequenced : Sequenced cluster points) (joined : Joined cluster)
    (found : cluster.transactions.find id = some transaction)
    (moves : transaction.Moves answer transaction') (still : Still cluster next)
    (txs : next.transactions = cluster.transactions.insert id transaction') :
    Sequenced next points := by
  refine sequenced.still still ?_
  intro other before known passed
  rw [txs, find_insert]
  split
  next same =>
    subst same
    cases found.symm.trans known
    exact ⟨transaction', rfl, passed.moves (joined.coherent other transaction found) moves⟩
  next => exact ⟨before, known, passed⟩

/-! ## Sections of handlers -/

theorem Locked.not_mem_of_gained (locked : Locked cluster) (sequenced : Sequenced cluster points)
    (moves : RangeServer.RangeManager.Moves (config range) (cluster.ranges range).manager request
      manager)
    (unheld : cluster.holder range ≠ some id)
    (held : manager.lockTable.currentHolder = some id) : id ∉ points := by
  intro member
  obtain ⟨transaction, known, decided, only⟩ := sequenced.passed id member
  obtain ⟨transaction', known', running | ⟨preparing, ⟨writes, unread⟩, _⟩⟩ :=
    locked.joined.gained moves unheld held
  · cases known.symm.trans known'
    exact decided running
  · cases known.symm.trans known'
    obtain ⟨range', reads, unchanged⟩ := only preparing
    rcases locked.prepares id transaction known preparing with readsFirst | writesBack
    · have here := Transaction.find_of_changes writes
      cases unread.symm.trans (readsFirst range (mem_keys.mpr ⟨_, here⟩) _ here writes)
    · have there := Transaction.find_of_reads reads
      cases unchanged.symm.trans
        (writesBack range' (mem_keys.mpr ⟨_, there⟩) _ there reads)

theorem Locked.passed_of_lost (locked : Locked cluster)
    (moves : RangeServer.RangeManager.Moves (config range) (cluster.ranges range).manager request
      manager)
    (held : cluster.holder range = some id)
    (unheld : manager.lockTable.currentHolder ≠ some id) :
    ∃ transaction, cluster.transactions.find id = some transaction ∧ Passed transaction := by
  have kept := locked.joined.kept range
  obtain ⟨number, handler, found, relinquishes⟩ := kept.owned.lost moves held unheld
  unfold Handler.relinquishes at relinquishes
  split at relinquishes
  next owner _ =>
    obtain rfl := of_decide_eq_true relinquishes
    obtain ⟨transaction, known, preparing, asks, _⟩ :=
      locked.joined.linked range number _ found owner (decide_eq_true rfl)
    refine ⟨transaction, known, ?_, fun _ => ⟨range, ?_, ?_⟩⟩
    · rw [preparing]
      decide
    · exact asks.hasReads.symm.trans (kept.sound number _ found)
    · exact asks.hasWrites.symm.trans (kept.owned.placed number _ found).2.2
  next => exact ((locked.patient range).handlers number _ found).elim
  next =>
    obtain ⟨transaction, known, serves⟩ :=
      locked.joined.linked range number _ found id relinquishes
    have committed : transaction.state = .committed :=
      serves.resolve_right (not_not.mpr (locked.strategies id transaction known))
    refine ⟨transaction, known, ?_, ?_⟩
    · rw [committed]
      decide
    · intro preparing
      cases committed.symm.trans preparing
  next => cases relinquishes

theorem Locked.released (locked : Locked cluster) (sequenced : Sequenced cluster points)
    (moves : RangeServer.RangeManager.Moves (config range) (cluster.ranges range).manager request
      service.manager)
    (silent : service.manager.trace.flatMap Event.touches = cluster.visits Event.touches range) :
    ∃ points', Sequenced (cluster.putRange range service) points' := by
  have pass {points' : List Uuid} (twoPhase : TwoPhase cluster.holder
        (cluster.visits Event.touches) points')
      (taken : ∀ id, cluster.holder range ≠ some id →
        service.manager.lockTable.currentHolder = some id → id ∉ points')
      (given : ∀ id, cluster.holder range = some id →
        service.manager.lockTable.currentHolder ≠ some id → id ∈ points') :
      TwoPhase (cluster.putRange range service).holder
        ((cluster.putRange range service).visits Event.touches) points' := by
    rw [visits_of_silent silent]
    refine twoPhase.pass ?_ ?_
    · intro other id held
      rw [holder_putRange] at held
      split at held
      next here =>
        subst here
        by_cases before : cluster.holder other = some id
        · exact .inl before
        · exact .inr (taken id before held)
      next => exact .inl held
    · intro other id held unheld _
      rw [holder_putRange] at unheld
      split at unheld
      next here =>
        subst here
        exact given id held unheld
      next => exact absurd held unheld
  by_cases gives : ∃ id, cluster.holder range = some id ∧
      service.manager.lockTable.currentHolder ≠ some id ∧ id ∉ points
  · obtain ⟨id, held, unheld, fresh⟩ := gives
    refine ⟨points ++ [id], pass (sequenced.twoPhase.point id) ?_ ?_, ?_⟩
    · intro other before after member
      rcases List.mem_append.mp member with earlier | now
      · exact locked.not_mem_of_gained sequenced moves before after earlier
      · rw [List.mem_singleton.mp now] at after
        exact unheld after
    · intro other before _
      cases held.symm.trans before
      exact List.mem_append_right _ (List.mem_singleton_self _)
    · intro other member
      rcases List.mem_append.mp member with earlier | now
      · exact sequenced.passed other earlier
      · rw [List.mem_singleton.mp now]
        exact locked.passed_of_lost moves held unheld
  · push Not at gives
    refine ⟨points, pass sequenced.twoPhase ?_ gives, sequenced.passed⟩
    intro id before after
    exact locked.not_mem_of_gained sequenced moves before after

theorem Locked.serve (locked : Locked cluster) (sequenced : Sequenced cluster points)
    (moves : RangeServer.RangeManager.Moves (config range) (cluster.ranges range).manager request
      service.manager) :
    ∃ points', Sequenced (cluster.putRange range service) points' := by
  have kept := locked.joined.kept range
  rcases kept.owned.traced moves with same | ⟨event, trace, permitted, lockTable⟩
  · exact locked.released sequenced moves (congrArg _ same)
  · have visit {id : Uuid} (holds : cluster.holder range = some id)
        (own : ∀ item ∈ event.touches, item.1 = id) :
        ∃ points', Sequenced (cluster.putRange range service) points' :=
      ⟨points, visited sequenced.twoPhase holds lockTable trace own, sequenced.passed⟩
    cases event with
    | read | saved =>
      refine visit permitted.1 ?_
      intro item member
      rw [List.mem_singleton.mp member]
    | stored records =>
      have holds {entry : Uuid × RangeServer.Changes} (listed : entry ∈ records) :=
        (locked.patient range).holder_of_stored kept permitted listed
      cases records with
      | nil =>
        apply locked.released sequenced moves
        rw [trace, List.flatMap_append]
        exact List.append_nil _
      | cons =>
        refine visit (holds List.mem_cons_self) ?_
        intro item member
        obtain ⟨access, listed, rfl⟩ := List.mem_map.mp member
        obtain ⟨entry, listed', rfl⟩ := List.mem_map.mp listed
        exact Option.some.inj ((holds listed').symm.trans (holds List.mem_cons_self))

/-! ## Whole runs -/

theorem Locked.initial (starts : Initial cluster) : Locked cluster := by
  have none := starts.1
  refine ⟨.initial starts, ?_, ?_, ?_, [], twoPhase_initial starts, ?_⟩
  · intro range
    obtain ⟨storage, here⟩ := starts.2 range
    rw [here]
    exact .loaded storage
  · intro id transaction known
    rw [none] at known
    cases (find_empty id).symm.trans known
  · intro id transaction known
    rw [none] at known
    cases (find_empty id).symm.trans known
  · intro id member
    cases member

/-- All coordinators lock, and no transaction that commits has both a range that it
only read and one that it only writes. -/
def KeepsLocks (cluster : Cluster) (label : Label) : Prop :=
  Uses .traditional cluster label ∧
    CommitsWith (fun participants => Coordinator.ReadsFirst participants ∨
      Coordinator.WritesBack participants) cluster label

theorem Locked.patient_after (locked : Locked cluster)
    (traditional : ∀ range, (config range).commitStrategy = .traditional)
    (moves : Moves config cluster label next) (range : FullRangeId) :
    RangeServer.Patient (next.ranges range) := by
  have put {before : Cluster} {other : FullRangeId} {service : Service}
      {request : RangeServer.Label} (ranges : before.ranges = cluster.ranges)
      (served : (cluster.ranges other).step (config other) request = some service) :
      RangeServer.Patient ((before.putRange other service).ranges range) := by
    rw [ranges_putRange, ranges]
    split
    next => exact (locked.patient other).step (traditional other) served
    next => exact locked.patient range
  cases moves with
  | start | act => exact locked.patient range
  | send _ served | serve _ served | drop _ served | deliver _ served => exact put rfl served

theorem Locked.strategies_after (locked : Locked cluster)
    (permitted : Uses .traditional cluster label) (moves : Moves config cluster label next)
    (id : Uuid) (transaction : Transaction)
    (known : next.transactions.find id = some transaction) :
    transaction.commitStrategy = .traditional := by
  cases moves with
  | start =>
    rcases eq_or_find_of_insert known with ⟨_, rfl⟩ | ⟨_, before⟩
    · exact permitted
    · exact locked.strategies id transaction before
  | act _ found moves =>
    rcases eq_or_find_of_insert known with ⟨_, rfl⟩ | ⟨_, before⟩
    · exact moves.commitStrategy.trans (locked.strategies _ _ found)
    · exact locked.strategies id transaction before
  | send | serve | drop => exact locked.strategies id transaction known
  | deliver _ _ _ found' moves =>
    rcases eq_or_find_of_insert known with ⟨_, rfl⟩ | ⟨_, before⟩
    · exact moves.commitStrategy.trans (locked.strategies _ _ found')
    · exact locked.strategies id transaction before

theorem Locked.step (locked : Locked cluster)
    (traditional : ∀ range, (config range).commitStrategy = .traditional)
    (permitted : KeepsLocks cluster label) (taken : cluster.step config label = some next) :
    Locked next := by
  have moves := Moves.of_step taken
  refine ⟨locked.joined.step taken, locked.patient_after traditional moves,
    locked.strategies_after permitted.1 moves,
    locked.prepares.step locked.joined permitted.2 taken, ?_⟩
  obtain ⟨points, sequenced⟩ := locked.sequenced
  cases moves with
  | @start id commitStrategy unused =>
    refine ⟨points, sequenced.still (fun _ => ⟨rfl, rfl, rfl⟩) ?_⟩
    intro other transaction known passed
    have ne : other ≠ id := by
      rintro rfl
      cases unused.symm.trans known
    exact ⟨transaction, (find_insert_of_ne _ ne).trans known, passed⟩
  | act _ found moves =>
    exact ⟨points, sequenced.transact locked.joined found moves (fun _ => ⟨rfl, rfl, rfl⟩) rfl⟩
  | send asked served =>
    refine ⟨points, sequenced.still (still_of_sends asked served) ?_⟩
    exact fun _ transaction known passed => ⟨transaction, known, passed⟩
  | serve _ served =>
    obtain ⟨manager, moved, rfl⟩ := Option.map_eq_some_iff.mp served
    exact locked.serve sequenced (RangeServer.RangeManager.moves_of_step moved)
  | drop found served =>
    obtain rfl := deliver_spec found served
    refine ⟨points, sequenced.still (.putRange rfl rfl rfl rfl rfl) ?_⟩
    exact fun _ transaction known passed => ⟨transaction, known, passed⟩
  | deliver found served _ known moves =>
    obtain rfl := deliver_spec found served
    exact ⟨points, sequenced.transact locked.joined known moves (.putRange rfl rfl rfl rfl rfl)
      rfl⟩

/-! ## The conflict graph -/

def accesses (cluster : Cluster) (range : FullRangeId) : List RangeServer.Access :=
  (cluster.ranges range).manager.trace.flatMap Event.accesses

def Acknowledged (cluster : Cluster) (id : Uuid) : Prop :=
  ∃ transaction, cluster.transactions.find id = some transaction ∧
    transaction.acknowledged = true

/-- The first transaction accessed a key before the second one did, and one of the
two accesses was a write. -/
def ConflictsBefore (cluster : Cluster) (first second : Uuid) : Prop :=
  first ≠ second ∧ ∃ range earlier later,
    [earlier, later].Sublist (cluster.accesses range) ∧
    earlier.transaction = first ∧ later.transaction = second ∧
    (∃ key, key ∈ earlier.keys ∧ key ∈ later.keys) ∧
    (earlier.isWrite = true ∨ later.isWrite = true)

theorem visits_touches (cluster : Cluster) (range : FullRangeId) :
    cluster.visits Event.touches range =
      (cluster.accesses range).map fun access => (access.transaction, true) := by
  rw [visits, accesses, List.map_flatMap]
  rfl

theorem ConflictsBefore.precedes (conflicts : cluster.ConflictsBefore first second) :
    Precedes (cluster.visits Event.touches) first second := by
  obtain ⟨ne, range, earlier, later, inside, rfl, rfl, _⟩ := conflicts
  refine ⟨ne, range, true, ?_⟩
  rw [visits_touches]
  exact inside.map fun access => (access.transaction, true)

theorem conflicts_acyclic {config : FullRangeId → Configuration}
    (traditional : ∀ range, (config range).commitStrategy = .traditional) {cluster : Cluster}
    (reached : Reachable (step config) KeepsLocks Initial cluster) :
    Acyclic fun first second => cluster.Acknowledged first ∧ cluster.Acknowledged second ∧
      cluster.ConflictsBefore first second := by
  have locked : Locked cluster := by
    refine reached.invariant (fun _ starts => .initial starts) ?_
    intro before next label locked permitted taken
    exact locked.step traditional permitted taken
  obtain ⟨points, sequenced⟩ := locked.sequenced
  refine .of_rank points.idxOf ?_
  rintro first second ⟨_, _, conflicts⟩
  exact sequenced.twoPhase.ordered first second conflicts.precedes

instance (cluster : Cluster) (label : Label) : Decidable (KeepsLocks cluster label) :=
  inferInstanceAs (Decidable (Uses .traditional cluster label ∧ CommitsWith _ cluster label))

instance (cluster : Cluster) (id : Uuid) : Decidable (cluster.Acknowledged id) :=
  decidable_of_iff ((cluster.transactions.find id).any (·.acknowledged) = true) (by
    simp only [Option.any_eq_true, Acknowledged])

theorem conflictsBefore_of_sublist {key : Bytes}
    {isWrite isWrite' : Bool} (ne : first ≠ second)
    (inside : [⟨first, {key}, isWrite⟩, ⟨second, {key}, isWrite'⟩].Sublist
      (cluster.accesses range))
    (write : isWrite = true ∨ isWrite' = true) : cluster.ConflictsBefore first second :=
  ⟨ne, range, _, _, inside, rfl, rfl,
    ⟨key, Finset.mem_singleton_self key, Finset.mem_singleton_self key⟩, write⟩

def locking (_ : FullRangeId) : Configuration := ⟨.traditional, .openClients, .all, 0⟩

def readAt (range : FullRangeId) (id : Uuid) (key : Bytes) : List Label :=
  [.act id (.get (some range) key), .send range (.get 0 id key), .serve range (.run 0),
    .serve range (.run 0), .serve range (.run 0), .serve range (.run 0), .deliver range 0]

/-- The prepare of a transaction that has only read at the range. -/
def releaseAt (range : FullRangeId) (id : Uuid) : List Label :=
  [.send range (.prepare 0 id ⟨true, [], [], none, 0⟩), .serve range (.run 0),
    .serve range (.run 0), .deliver range 0]

def writeAt (range : FullRangeId) (id : Uuid) (key : Bytes) (hasReads : Bool) : List Label :=
  [.send range (.prepare 0 id ⟨hasReads, [(key, [1])], [], none, 0⟩)] ++
    (if hasReads then [.serve range (.run 0)] else []) ++
    [.serve range (.run 0), .serve range (.run 0), .serve range (.runOn 0 key),
      .serve range (.run 0), .serve range (.runOn 0 key), .serve range (.run 0),
      .deliver range 0]

def commitAt (range : FullRangeId) (id : Uuid) (key : Bytes) : List Label :=
  [.act id (.recorded (some (.transactionIsCommitted ⟨0⟩))), .send range (.commit 0 [id] 0),
    .serve range (.run 0), .serve range (.run 0), .serve range (.run 0), .serve range (.run 0),
    .serve range (.runOn 0 key), .serve range (.run 0), .serve range (.run 0),
    .serve range (.run 0), .serve range (.run 0), .deliver range 0, .act id .joined]

/-- A transaction increments a key and another one overwrites it. -/
theorem conflicts_acyclic_overwrite :
    ∃ cluster, Reachable (step locking) KeepsLocks Initial cluster ∧ cluster.Acknowledged 1 ∧
      cluster.Acknowledged 2 ∧ cluster.ConflictsBefore 1 2 ∧
      Acyclic fun first second => cluster.Acknowledged first ∧ cluster.Acknowledged second ∧
        cluster.ConflictsBefore first second := by
  obtain ⟨cluster, reached, observed⟩ :=
    @exists_reachable_of_run _ _ (step locking) KeepsLocks Initial _ empty initial_empty
      ([.start 1 .traditional, .start 2 .traditional] ++ readAt (shard 1) 1 [1] ++
        [.act 1 (.put (some (shard 1)) [1] [1]), .act 2 (.put (some (shard 1)) [1] [1]),
          .act 1 (.commit none 0), .act 2 (.commit none 0)] ++
        writeAt (shard 1) 1 [1] true ++ commitAt (shard 1) 1 [1] ++
        writeAt (shard 1) 2 [1] false ++ commitAt (shard 1) 2 [1])
      (fun cluster => decide (cluster.Acknowledged 1 ∧ cluster.Acknowledged 2 ∧
        [⟨1, {[1]}, false⟩, ⟨2, {[1]}, true⟩].Sublist (cluster.accesses (shard 1))))
      (by decide +kernel)
  obtain ⟨first, second, inside⟩ := of_decide_eq_true observed
  exact ⟨cluster, reached, first, second,
    conflictsBefore_of_sublist (by decide) inside (.inr rfl),
    conflicts_acyclic (fun _ => rfl) reached⟩

/-- Each of two transactions reads at one range and writes at the other.  Both
release the lock of their read before they get the one for their write. -/
theorem write_skew :
    ¬ ∀ cluster, Reachable (step locking) (Uses .traditional) Initial cluster →
      Acyclic fun first second => cluster.Acknowledged first ∧ cluster.Acknowledged second ∧
        cluster.ConflictsBefore first second := by
  intro always
  obtain ⟨cluster, reached, observed⟩ :=
    @exists_reachable_of_run _ _ (step locking) (Uses .traditional) Initial _ empty initial_empty
      ([.start 1 .traditional, .start 2 .traditional] ++
        readAt (shard 1) 1 [1] ++ readAt (shard 2) 2 [2] ++
        [.act 1 (.put (some (shard 2)) [2] [1]), .act 2 (.put (some (shard 1)) [1] [1]),
          .act 1 (.commit none 0), .act 2 (.commit none 0)] ++
        releaseAt (shard 1) 1 ++ releaseAt (shard 2) 2 ++
        writeAt (shard 2) 1 [2] false ++ writeAt (shard 1) 2 [1] false ++
        commitAt (shard 2) 1 [2] ++ commitAt (shard 1) 2 [1])
      (fun cluster => decide (cluster.Acknowledged 1 ∧ cluster.Acknowledged 2 ∧
        [⟨1, {[1]}, false⟩, ⟨2, {[1]}, true⟩].Sublist (cluster.accesses (shard 1)) ∧
        [⟨2, {[2]}, false⟩, ⟨1, {[2]}, true⟩].Sublist (cluster.accesses (shard 2))))
      (by decide +kernel)
  obtain ⟨first, second, inside, inside'⟩ := of_decide_eq_true observed
  have forth := conflictsBefore_of_sublist (by decide) inside (.inr rfl)
  have back := conflictsBefore_of_sublist (by decide) inside' (.inr rfl)
  exact always cluster reached 1
    (.tail (.single ⟨first, second, forth⟩) ⟨second, first, back⟩)

end Cluster

end Sangria
