import Sangria.Coordinator.Phases
import Sangria.RangeServer.RangeManager.Access

/-!
# Coordinators and range servers

The transactions of all coordinators and the ranges that they talk to.  A
coordinator sends the requests that its running call waits for, each of them
once; a response that it no longer waits for is dropped.  What the store and the
resolver answer is open.  Nothing is aborted at the ranges: a coordinator that
wants to abort stops.
-/

namespace Sangria

open Coordinator (Transaction ParticipantRange)
open RangeServer (Configuration Handler PrepareRequest Service)

namespace Coordinator

def Label.ofRange : Label → Bool
  | .gotten _ | .prepared .. | .committed .. | .aborted _ => true
  | _ => false

namespace Transaction

def asksGet (transaction : Transaction) (range : FullRangeId) (key : Bytes) : Bool :=
  match transaction.stage with
  | .getting other key' => decide (other = range ∧ key' = key)
  | _ => false

def asksPrepare (transaction : Transaction) (range : FullRangeId) (request : PrepareRequest) :
    Bool :=
  match transaction.stage with
  | .preparing load clients waiting _ =>
    decide (range ∈ waiting ∧ (transaction.getParticipantRange range).Asks request ∧
      request.resolverAverageLoad = load ∧ request.numOpenClients = clients)
  | _ => false

def asksCommit (transaction : Transaction) (range : FullRangeId) : Bool :=
  match transaction.stage with
  | .committing waiting _ => decide (range ∈ waiting)
  | _ => false

def delegated (transaction : Transaction) : Bool :=
  match transaction.stage with
  | .preparing .. | .committing .. => false
  | _ => decide (transaction.commitStrategy ≠ .traditional ∧ transaction.state = .preparing)

end Transaction

end Coordinator

structure Cluster where
  transactions : HashMap Uuid Transaction
  ranges : FullRangeId → Service

namespace Cluster

inductive Label where
  | start (id : Uuid) (commitStrategy : CommitStrategy)
  | act (id : Uuid) (label : Coordinator.Label)
  | send (range : FullRangeId) (request : RangeServer.Label)
  | serve (range : FullRangeId) (label : RangeServer.Label)
  | deliver (range : FullRangeId) (id : Nat)

def put (cluster : Cluster) (id : Uuid) (transaction : Transaction) : Cluster :=
  { cluster with transactions := cluster.transactions.insert id transaction }

def putRange (cluster : Cluster) (range : FullRangeId) (service : Service) : Cluster :=
  { cluster with ranges := Function.update cluster.ranges range service }

theorem ranges_putRange (cluster : Cluster) (range other : FullRangeId) (service : Service) :
    (cluster.putRange range service).ranges other =
      if other = range then service else cluster.ranges other := by
  change Function.update cluster.ranges range service other = _
  split
  next same => rw [same, Function.update_self]
  next ne => exact Function.update_of_ne ne service cluster.ranges

def commits (cluster : Cluster) (range : FullRangeId) (transactions : List Uuid) : Bool :=
  (match transactions with
  | [id] => (cluster.transactions.find id).any fun transaction => transaction.asksCommit range
  | _ => false) ||
    transactions.all fun id => (cluster.transactions.find id).any Transaction.delegated

/-- A coordinator or the resolver has this request for the range, and no other
one is in flight. -/
def sends (cluster : Cluster) (range : FullRangeId) : RangeServer.Label → Bool
  | .get _ id key =>
    decide (((cluster.ranges range).sessions id).stage = .idle) &&
      (cluster.transactions.find id).any fun transaction => transaction.asksGet range key
  | .prepare _ id request =>
    decide (((cluster.ranges range).sessions id).stage = .idle) &&
      (cluster.transactions.find id).any fun transaction =>
        transaction.asksPrepare range request
  | .commit _ transactions epoch =>
    decide (transactions.Nodup ∧ epoch = 0 ∧ ∀ id ∈ transactions,
      ((cluster.ranges range).sessions id).stage = .prepared true ∨
        ((cluster.ranges range).sessions id).stage = .prepared false) &&
      cluster.commits range transactions
  | _ => false

def reply (range : FullRangeId) : Handler → Option (Uuid × Coordinator.Label)
  | .get id _ (.returned (.ok result)) => some (id, .gotten (.ok result))
  | .get id _ (.returned (.error _)) => some (id, .gotten .error)
  | .prepare id _ (.returned (.ok result)) => some (id, .prepared range (.ok result))
  | .prepare id _ (.returned (.error _)) => some (id, .prepared range .error)
  | .commit [id] _ (.returned (.ok _)) => some (id, .committed range (.ok ()))
  | .commit [id] _ (.returned (.error _)) => some (id, .committed range .error)
  | _ => none

def receive (cluster : Cluster) (range : FullRangeId) (handler : Handler) : Cluster :=
  match reply range handler with
  | none => cluster
  | some (id, label) =>
    match (cluster.transactions.find id).bind (·.step label) with
    | none => cluster
    | some transaction => cluster.put id transaction

def step (config : FullRangeId → Configuration) (cluster : Cluster) : Label → Option Cluster
  | .start id commitStrategy =>
    if cluster.transactions.find id = none then some (cluster.put id (.new id commitStrategy))
    else none
  | .act id label =>
    if label.ofRange then none
    else ((cluster.transactions.find id).bind (·.step label)).map (cluster.put id)
  | .send range request =>
    if cluster.sends range request then
      ((cluster.ranges range).step (config range) request).map (cluster.putRange range)
    else none
  | .serve range label =>
    if label.isLocal then
      ((cluster.ranges range).step (config range) label).map (cluster.putRange range)
    else none
  | .deliver range id =>
    match (cluster.ranges range).manager.handlers.find id with
    | none => none
    | some handler =>
      ((cluster.ranges range).step (config range) (.deliver id)).map
        ((cluster.receive range handler).putRange range)

/-- All ranges are loaded and no transaction has been started. -/
def Initial (cluster : Cluster) : Prop :=
  cluster.transactions = ∅ ∧ ∀ range, ∃ storage, cluster.ranges range = .loaded storage

def empty : Cluster := ⟨∅, fun _ => .loaded fun _ => none⟩

theorem initial_empty : Initial empty := ⟨rfl, fun _ => ⟨_, rfl⟩⟩

def shard (number : Nat) : FullRangeId := ⟨⟨0⟩, BitVec.ofNat 128 number⟩

/-! ## Steps taken apart -/

inductive Moves (config : FullRangeId → Configuration) : Cluster → Label → Cluster → Prop where
  | start {cluster id commitStrategy} :
      cluster.transactions.find id = none →
      Moves config cluster (.start id commitStrategy) (cluster.put id (.new id commitStrategy))
  | act {cluster id label transaction transaction'} :
      label.ofRange = false →
      cluster.transactions.find id = some transaction →
      transaction.Moves label transaction' →
      Moves config cluster (.act id label) (cluster.put id transaction')
  | send {cluster range request service} :
      cluster.sends range request = true →
      (cluster.ranges range).step (config range) request = some service →
      Moves config cluster (.send range request) (cluster.putRange range service)
  | serve {cluster range label service} :
      label.isLocal = true →
      (cluster.ranges range).step (config range) label = some service →
      Moves config cluster (.serve range label) (cluster.putRange range service)
  | drop {cluster range id handler service} :
      (cluster.ranges range).manager.handlers.find id = some handler →
      (cluster.ranges range).step (config range) (.deliver id) = some service →
      (∀ owner label transaction, reply range handler = some (owner, label) →
        cluster.transactions.find owner = some transaction → transaction.step label = none) →
      Moves config cluster (.deliver range id) (cluster.putRange range service)
  | deliver {cluster range id handler service owner label transaction transaction'} :
      (cluster.ranges range).manager.handlers.find id = some handler →
      (cluster.ranges range).step (config range) (.deliver id) = some service →
      reply range handler = some (owner, label) →
      cluster.transactions.find owner = some transaction →
      transaction.Moves label transaction' →
      Moves config cluster (.deliver range id)
        ((cluster.put owner transaction').putRange range service)

variable {config : FullRangeId → Configuration} {cluster next : Cluster} {label : Label}

theorem Moves.of_deliver {range : FullRangeId} {id : Nat}
    (taken : cluster.step config (.deliver range id) = some next) :
    Moves config cluster (.deliver range id) next := by
  simp only [step] at taken
  split at taken
  next => cases taken
  next found =>
    obtain ⟨service, served, rfl⟩ := Option.map_eq_some_iff.mp taken
    unfold receive
    split
    next unanswered =>
      refine .drop found served ?_
      intro owner label tx answered
      cases unanswered.symm.trans answered
    next answered =>
      split
      next missing =>
        refine .drop found served ?_
        intro owner' label' tx answered' found'
        cases answered.symm.trans answered'
        rw [found'] at missing
        exact missing
      next stepped =>
        obtain ⟨tx, found', taken'⟩ := Option.bind_eq_some_iff.mp stepped
        exact .deliver found served answered found' (.of_step taken')

theorem Moves.of_step (taken : cluster.step config label = some next) :
    Moves config cluster label next := by
  cases label with
  | start =>
    simp only [step] at taken
    split at taken
    next unused =>
      cases taken
      exact .start unused
    next => cases taken
  | act =>
    simp only [step] at taken
    split at taken
    next => cases taken
    next own =>
      obtain ⟨tx', stepped, rfl⟩ := Option.map_eq_some_iff.mp taken
      obtain ⟨tx, found, taken'⟩ := Option.bind_eq_some_iff.mp stepped
      exact .act (Bool.eq_false_iff.mpr own) found (.of_step taken')
  | send =>
    simp only [step] at taken
    split at taken
    next asked =>
      obtain ⟨service, served, rfl⟩ := Option.map_eq_some_iff.mp taken
      exact .send asked served
    next => cases taken
  | serve =>
    simp only [step] at taken
    split at taken
    next isLocal =>
      obtain ⟨service, served, rfl⟩ := Option.map_eq_some_iff.mp taken
      exact .serve isLocal served
    next => cases taken
  | deliver => exact .of_deliver taken

end Cluster

end Sangria
