import Sangria.Cluster.System

/-!
# What coordinators and ranges know of each other

A handler at a range works for the call that its coordinator is waiting for,
and the range has seen the reads of a transaction that its coordinator has
noted down.
-/

namespace Sangria

open FiniteMap
open Coordinator (Transaction ParticipantRange)
open RangeServer (Configuration Handler Kept PrepareRequest Service)

namespace Coordinator

/-- A prepare says that the transaction has read at the range. -/
def ParticipantRange.reads (participant : ParticipantRange) : Bool :=
  decide (participant.readset ≠ ∅)

def ParticipantRange.changes (participant : ParticipantRange) : Bool :=
  decide (participant.writeset.keys ≠ ∅ ∨ participant.deleteset ≠ ∅)

theorem ParticipantRange.Asks.hasWrites {participant : ParticipantRange}
    {req : PrepareRequest} (asks : participant.Asks req) :
    req.hasWrites = participant.changes := by
  have puts : req.puts = [] ↔ participant.writeset.keys = ∅ := by
    constructor
    · intro none
      ext key
      simp only [Finset.notMem_empty, iff_false]
      intro listed
      obtain ⟨val, found⟩ := mem_keys.mp listed
      have put := (asks.puts key val).mpr found
      rw [none] at put
      cases put
    · intro none
      apply List.eq_nil_iff_forall_not_mem.mpr
      rintro ⟨key, val⟩ listed
      have written := mem_keys.mpr ⟨val, (asks.puts key val).mp listed⟩
      rw [none] at written
      cases written
  have deletes : req.deletes = [] ↔ participant.deleteset = ∅ := by
    constructor
    · intro none
      ext key
      rw [← asks.deletes, none]
      simp
    · intro none
      apply List.eq_nil_iff_forall_not_mem.mpr
      intro key listed
      have deleted := (asks.deletes key).mp listed
      rw [none] at deleted
      cases deleted
  rw [changes, Bool.eq_iff_iff, decide_eq_true_eq, ne_eq, ne_eq, ← puts, ← deletes]
  simp [PrepareRequest.hasWrites]

def Label.answers (range : FullRangeId) : Label → Handler → Bool
  | .gotten _, .get .. => true
  | .prepared other _, .prepare .. => decide (other = range)
  | _, _ => false

namespace Transaction

variable {transaction next : Transaction} {label : Label}

def Serves (transaction : Transaction) (range : FullRangeId) : Handler → Prop
  | .get _ key _ => transaction.stage = .getting range key
  | .prepare _ request _ => transaction.state = .preparing ∧
      (transaction.getParticipantRange range).Asks request ∧
      ∀ load clients waiting early,
        transaction.stage = .preparing load clients waiting early → range ∈ waiting
  | .abort .. => False
  | .commit .. => transaction.state = .committed ∨ transaction.commitStrategy ≠ .traditional

theorem Serves.goes {config : Configuration} {range : FullRangeId} {handler handler' : Handler}
    (serves : transaction.Serves range handler) (goes : handler.Goes config handler') :
    transaction.Serves range handler' := by
  cases goes <;> exact serves

theorem ne_of_idle (idle : transaction.idle = true) (range : FullRangeId) (key : Bytes) :
    transaction.stage ≠ .getting range key := by
  intro getting
  rw [Transaction.idle, getting] at idle
  cases idle

theorem Moves.gotten_of_getting (moves : Moves transaction label next) {range : FullRangeId}
    {key : Bytes} (getting : transaction.stage = .getting range key) :
    ∃ reply, label = .gotten reply := by
  cases moves with
  | refuse idle | access idle | ask idle | abort idle | prepare idle =>
    exact absurd getting (ne_of_idle idle range key)
  | receive | lose | leaderChanged => exact ⟨_, rfl⟩
  | prepared here | prepareFailed here | prepareError here | record here | notRecorded here
  | delegate here | committed here | join here | resolve here | unresolved here =>
    cases here.symm.trans getting
  | aborting _ before =>
    cases before with
    | inl here | inr here => cases here.symm.trans getting

theorem Moves.stays_committed (moves : Moves transaction label next)
    (coherent : Coherent transaction)
    (committed : transaction.state = .committed) : next.state = .committed := by
  cases moves with
  | access idle call running | ask idle running | abort idle running | prepare idle running =>
    cases running.symm.trans committed
  | receive getting | leaderChanged getting =>
    have running : transaction.state = .running := coherent.state_of_stage getting rfl
    cases running.symm.trans committed
  | prepareFailed preparing =>
    have preparing : transaction.state = .preparing := coherent.state_of_stage preparing rfl
    cases preparing.symm.trans committed
  | record => rfl
  | _ => exact committed

/-- A handler keeps working for the transaction until it was answered. -/
theorem Moves.serves (moves : Moves transaction label next) (coherent : Coherent transaction)
    {range : FullRangeId} {handler : Handler} (serves : transaction.Serves range handler)
    (pending : label.answers range handler = false)
    (calm : ∀ other, label ≠ .prepared other .panicked) : next.Serves range handler := by
  cases handler with
  | get =>
    obtain ⟨reply, rfl⟩ := moves.gotten_of_getting serves
    cases pending
  | prepare _ _ stage =>
    obtain ⟨state, asks, waits⟩ := serves
    have apart {stage : Stage} {other : State} (here : transaction.stage = stage)
        (implied : stateAt stage = some other) (ne : other ≠ .preparing) : False :=
      ne ((coherent.state_of_stage here implied).symm.trans state)
    cases moves with
    | refuse | lose | prepareError | notRecorded | unresolved | resolve =>
      refine ⟨state, asks, ?_⟩
      intro _ _ _ _ same
      cases same
    | access idle call running | ask idle running | abort idle running | prepare idle running =>
      cases running.symm.trans state
    | receive getting | leaderChanged getting =>
      exact (apart getting rfl (by decide)).elim
    | @prepared load clients waiting early other res preparing listed =>
      refine ⟨state, asks, ?_⟩
      intro _ _ _ _ same
      cases same
      have before := waits load clients waiting early preparing
      have ne : range ≠ other := Ne.symm (of_decide_eq_false pending)
      exact Finset.mem_erase_of_ne_of_mem ne before
    | prepareFailed => exact absurd rfl (calm _)
    | record preparing | delegate preparing =>
      exact absurd (waits _ _ _ _ preparing) (Finset.notMem_empty range)
    | committed committing | join committing => exact (apart committing rfl (by decide)).elim
    | aborting _ before =>
      cases before with
      | inl here | inr here => exact (apart here rfl (by decide)).elim
  | abort => cases serves
  | commit =>
    rcases serves with committed | other
    · exact .inl (moves.stays_committed coherent committed)
    · right
      rw [moves.commitStrategy]
      exact other

theorem Moves.stays_aborted (moves : Moves transaction label next)
    (coherent : Coherent transaction) (aborted : transaction.state = .aborted) :
    next.state = .aborted := by
  cases moves with
  | access idle call running | ask idle running | prepare idle running =>
    cases running.symm.trans aborted
  | receive getting =>
    have running : transaction.state = .running := coherent.state_of_stage getting rfl
    cases running.symm.trans aborted
  | record preparing =>
    have preparing : transaction.state = .preparing := coherent.state_of_stage preparing rfl
    cases preparing.symm.trans aborted
  | leaderChanged | abort | prepareFailed => rfl
  | _ => exact aborted

theorem step_gotten {range : FullRangeId} {key : Bytes}
    (getting : transaction.stage = .getting range key) (reply : Reply RangeServer.GetResult) :
    transaction.step (.gotten reply) ≠ none := by
  simp [step, getting]

end Transaction

end Coordinator

namespace RangeServer

def Handler.hasRead (transaction : Uuid) : Handler → Bool
  | .get owner _ (.returned (.ok _)) => decide (owner = transaction)
  | _ => false

theorem hasReads_answer (handler : Handler) (sessions : Uuid → Session) (transaction : Uuid) :
    (handler.answer sessions transaction).hasReads =
      (handler.hasRead transaction || (sessions transaction).hasReads) := by
  have kept (owner : Uuid) (session : Session)
      (same : session.hasReads = (sessions owner).hasReads) :
      (Function.update sessions owner session transaction).hasReads =
        (sessions transaction).hasReads := by
    by_cases here : transaction = owner
    · subst here
      rw [Function.update_self, same]
    · rw [Function.update_of_ne here]
  cases handler with
  | get owner _ stage =>
    cases stage with
    | returned res =>
      cases res with
      | ok =>
        by_cases here : transaction = owner
        · subst here
          simp [Handler.answer, Handler.hasRead]
        · simp [Handler.answer, Handler.hasRead, Function.update_of_ne here, Ne.symm here]
      | error => exact kept owner _ rfl
    | _ => rfl
  | prepare owner _ stage =>
    cases stage with
    | returned res => cases res <;> exact kept owner _ rfl
    | _ => rfl
  | abort => rfl
  | commit _ _ stage =>
    cases stage with
    | returned res =>
      cases res <;>
        · simp only [Handler.answer, Handler.hasRead, Bool.false_or]
          split <;> rfl
    | _ => rfl

end RangeServer

namespace Cluster

/-- The transaction has read at the range, as far as its coordinator knows. -/
def readsAt (cluster : Cluster) (id : Uuid) (range : FullRangeId) : Bool :=
  (cluster.transactions.find id).any fun transaction =>
    (transaction.getParticipantRange range).reads

def Aborted (cluster : Cluster) (id : Uuid) : Prop :=
  ∃ transaction, cluster.transactions.find id = some transaction ∧ transaction.state = .aborted

structure Joined (cluster : Cluster) : Prop where
  kept : ∀ range, Kept (cluster.ranges range)
  coherent : ∀ id transaction, cluster.transactions.find id = some transaction →
    transaction.Coherent
  reads : ∀ range id, ¬ cluster.Aborted id →
    ((cluster.ranges range).sessions id).hasReads = cluster.readsAt id range
  linked : ∀ range id handler, (cluster.ranges range).manager.handlers.find id = some handler →
    ∀ owner, handler.concerns owner = true → ∃ transaction,
      cluster.transactions.find owner = some transaction ∧ transaction.Serves range handler

variable {config : FullRangeId → Configuration} {cluster next : Cluster} {label : Label}

theorem Joined.initial (starts : Initial cluster) : Joined cluster := by
  obtain ⟨none, loaded⟩ := starts
  refine ⟨?_, ?_, ?_, ?_⟩
  · intro range
    obtain ⟨storage, here⟩ := loaded range
    rw [here]
    exact .loaded storage
  · intro id transaction found
    rw [none] at found
    cases (find_empty id).symm.trans found
  · intro range id _
    obtain ⟨storage, here⟩ := loaded range
    rw [readsAt, none, find_empty, here]
    rfl
  · intro range id handler found
    obtain ⟨storage, here⟩ := loaded range
    rw [here] at found
    cases (find_empty id).symm.trans found

theorem readsAt_of_find {id : Uuid} {transaction : Transaction}
    (found : cluster.transactions.find id = some transaction) (range : FullRangeId) :
    cluster.readsAt id range = (transaction.getParticipantRange range).reads := by
  rw [readsAt, found, Option.any_some]

theorem Joined.reads_of_find (joined : Joined cluster) {id : Uuid} {transaction : Transaction}
    (found : cluster.transactions.find id = some transaction)
    (running : transaction.state ≠ .aborted) (range : FullRangeId) :
    ((cluster.ranges range).sessions id).hasReads =
      (transaction.getParticipantRange range).reads := by
  rw [joined.reads range id, readsAt_of_find found]
  rintro ⟨transaction', found', aborted⟩
  cases found.symm.trans found'
  exact running aborted

theorem Joined.transact (joined : Joined cluster) {id : Uuid}
    {transaction transaction' : Transaction} {answer : Coordinator.Label}
    (found : cluster.transactions.find id = some transaction)
    (moves : transaction.Moves answer transaction')
    (calm : ∀ other, answer ≠ .prepared other .panicked)
    (txs : next.transactions = cluster.transactions.insert id transaction')
    (kept : ∀ range, Kept (next.ranges range))
    (remaining : ∀ range other handler,
      (next.ranges range).manager.handlers.find other = some handler →
      (cluster.ranges range).manager.handlers.find other = some handler)
    (pending : ∀ range other handler,
      (next.ranges range).manager.handlers.find other = some handler →
      handler.concerns id = true → answer.answers range handler = false)
    (reads : transaction'.state ≠ .aborted → ∀ range,
      ((next.ranges range).sessions id).hasReads =
        (transaction'.getParticipantRange range).reads)
    (others : ∀ range other, other ≠ id → ((next.ranges range).sessions other).hasReads =
      ((cluster.ranges range).sessions other).hasReads) : Joined next := by
  have here : next.transactions.find id = some transaction' := by
    rw [txs, find_insert_self]
  have elsewhere {other : Uuid} (ne : other ≠ id) :
      next.transactions.find other = cluster.transactions.find other := by
    rw [txs, find_insert, if_neg ne]
  refine ⟨kept, ?_, ?_, ?_⟩
  · intro other after found'
    by_cases same : other = id
    · rw [same] at found'
      cases here.symm.trans found'
      exact (joined.coherent id transaction found).step moves
    · rw [elsewhere same] at found'
      exact joined.coherent other after found'
  · intro range other running
    by_cases same : other = id
    · rw [same] at running ⊢
      rw [readsAt_of_find here]
      exact reads (fun aborted => running ⟨transaction', here, aborted⟩) range
    · rw [others range other same, joined.reads range other, readsAt, readsAt, elsewhere same]
      rintro ⟨after, found', aborted⟩
      exact running ⟨after, (elsewhere same).trans found', aborted⟩
  · intro range other handler found' owner concerned
    obtain ⟨before, known, serves⟩ :=
      joined.linked range other handler (remaining range other handler found') owner concerned
    by_cases same : owner = id
    · rw [same] at concerned known ⊢
      cases found.symm.trans known
      exact ⟨transaction', here, moves.serves (joined.coherent id transaction found) serves
        (pending range other handler found' concerned) calm⟩
    · exact ⟨before, (elsewhere same).trans known, serves⟩

theorem Joined.range {range : FullRangeId} {service : Service} (joined : Joined cluster)
    (kept : Kept service)
    (reads : ∀ id, ¬ cluster.Aborted id →
      (service.sessions id).hasReads = ((cluster.ranges range).sessions id).hasReads)
    (linked : ∀ id handler, service.manager.handlers.find id = some handler →
      ∀ owner, handler.concerns owner = true → ∃ transaction,
        cluster.transactions.find owner = some transaction ∧ transaction.Serves range handler) :
    Joined (cluster.putRange range service) := by
  refine ⟨?_, joined.coherent, ?_, ?_⟩
  · intro other
    rw [ranges_putRange]
    split
    next => exact kept
    next => exact joined.kept other
  · intro other id running
    have before : ((cluster.ranges other).sessions id).hasReads = cluster.readsAt id other :=
      joined.reads other id running
    rw [ranges_putRange]
    split
    next same =>
      subst same
      exact (reads id running).trans before
    next => exact before
  · intro other id handler found
    rw [ranges_putRange] at found
    split at found
    next same =>
      rw [same]
      exact linked id handler found
    next => exact joined.linked other id handler found

/-! ## Requests -/

theorem hasReads_sessionsAfter (service : Service) {req : RangeServer.Label}
    (other : ∀ id, req ≠ .deliver id) (id : Uuid) :
    (service.sessionsAfter req id).hasReads = (service.sessions id).hasReads := by
  cases req with
  | get h owner key | prepare h owner req =>
    simp only [Service.sessionsAfter, Function.update_apply]
    split
    next same => rw [same]
    next => rfl
  | commit =>
    simp only [Service.sessionsAfter]
    split <;> rfl
  | deliver h => exact absurd rfl (other h)
  | abort | run | runOn | fail => rfl

theorem exists_of_asksCommit {range : FullRangeId} {ids : List Uuid}
    (joined : Joined cluster) (asked : cluster.commits range ids = true) {id : Uuid}
    (listed : id ∈ ids) : ∃ transaction, cluster.transactions.find id = some transaction ∧
      (transaction.state = .committed ∨ transaction.commitStrategy ≠ .traditional) := by
  rcases (Bool.or_eq_true _ _).mp asked with direct | resolver
  · split at direct
    next =>
      cases List.mem_singleton.mp listed
      obtain ⟨transaction, found, asks⟩ := (Option.any_eq_true _ _).mp direct
      refine ⟨transaction, found, .inl ?_⟩
      unfold Transaction.asksCommit at asks
      split at asks
      next committing =>
        exact (joined.coherent id transaction found).state_of_stage committing rfl
      next => cases asks
    next => cases direct
  · obtain ⟨transaction, found, delegated⟩ :=
      (Option.any_eq_true _ _).mp (List.all_eq_true.mp resolver id listed)
    refine ⟨transaction, found, .inr ?_⟩
    unfold Transaction.delegated at delegated
    split at delegated
    next => cases delegated
    next => cases delegated
    next => exact (of_decide_eq_true delegated).1

theorem Joined.asked (joined : Joined cluster) {range : FullRangeId}
    {req : RangeServer.Label} (asked : cluster.sends range req = true) :
    (cluster.ranges range).Orderly req := by
  cases req with
  | get =>
    obtain ⟨idle, -⟩ := (Bool.and_eq_true _ _).mp asked
    have free := of_decide_eq_true idle
    exact free
  | prepare _ id =>
    obtain ⟨idle, asks⟩ := (Bool.and_eq_true _ _).mp asked
    refine ⟨of_decide_eq_true idle, ?_⟩
    obtain ⟨transaction, found, asks⟩ := (Option.any_eq_true _ _).mp asks
    unfold Transaction.asksPrepare at asks
    split at asks
    next preparing =>
      obtain ⟨-, asks, -⟩ := of_decide_eq_true asks
      have state : transaction.state = .preparing :=
        (joined.coherent id transaction found).state_of_stage preparing rfl
      rw [joined.reads_of_find found (by rw [state]; decide), asks.hasReads]
      rfl
    next => cases asks
  | commit =>
    obtain ⟨ready, -⟩ := (Bool.and_eq_true _ _).mp asked
    obtain ⟨distinct, -, prepared⟩ := of_decide_eq_true ready
    exact ⟨distinct, prepared⟩
  | _ => cases asked

theorem Joined.serves_of_sends (joined : Joined cluster) {range : FullRangeId}
    {req : RangeServer.Label} (asked : cluster.sends range req = true)
    {config : Configuration} {service : Service}
    (served : (cluster.ranges range).step config req = some service) :
    ∃ id handler, service.manager.handlers =
        (cluster.ranges range).manager.handlers.insert id handler ∧
      ∀ owner, handler.concerns owner = true → ∃ transaction,
        cluster.transactions.find owner = some transaction ∧
          transaction.Serves range handler := by
  obtain ⟨manager, moved, rfl⟩ := Option.map_eq_some_iff.mp served
  have moves := RangeServer.RangeManager.moves_of_step moved
  cases req with
  | get h id =>
    obtain ⟨-, asks⟩ := (Bool.and_eq_true _ _).mp asked
    obtain ⟨transaction, found, asks⟩ := (Option.any_eq_true _ _).mp asks
    cases moves with
    | quiet _ quiet => cases quiet
    | arrivedGet =>
      refine ⟨h, _, rfl, ?_⟩
      intro owner concerned
      cases (of_decide_eq_true concerned : id = owner)
      refine ⟨transaction, found, ?_⟩
      unfold Transaction.asksGet at asks
      split at asks
      next getting =>
        obtain ⟨rfl, rfl⟩ := of_decide_eq_true asks
        exact getting
      next => cases asks
  | prepare h id =>
    obtain ⟨-, asks⟩ := (Bool.and_eq_true _ _).mp asked
    obtain ⟨transaction, found, asks⟩ := (Option.any_eq_true _ _).mp asks
    cases moves with
    | quiet _ quiet => cases quiet
    | arrivedPrepare =>
      refine ⟨h, _, rfl, ?_⟩
      intro owner concerned
      cases (of_decide_eq_true concerned : id = owner)
      refine ⟨transaction, found, ?_⟩
      unfold Transaction.asksPrepare at asks
      split at asks
      next preparing =>
        obtain ⟨waits, asks, -⟩ := of_decide_eq_true asks
        refine ⟨(joined.coherent id transaction found).state_of_stage preparing rfl, asks, ?_⟩
        intro _ _ _ _ same
        cases preparing.symm.trans same
        exact waits
      next => cases asks
  | commit h =>
    obtain ⟨-, commits⟩ := (Bool.and_eq_true _ _).mp asked
    cases moves with
    | quiet _ quiet => cases quiet
    | arrivedCommit =>
      refine ⟨h, _, rfl, ?_⟩
      intro owner concerned
      exact exists_of_asksCommit joined commits (of_decide_eq_true concerned)
  | _ => cases asked

/-! ## Steps -/

theorem Joined.start (joined : Joined cluster) {id : Uuid} {commitStrategy : CommitStrategy}
    (unused : cluster.transactions.find id = none) :
    Joined (cluster.put id (.new id commitStrategy)) := by
  have here : (cluster.put id (.new id commitStrategy)).transactions.find id =
      some (.new id commitStrategy) := find_insert_self ..
  have elsewhere {other : Uuid} (ne : other ≠ id) :
      (cluster.put id (.new id commitStrategy)).transactions.find other =
        cluster.transactions.find other := find_insert_of_ne _ ne
  refine ⟨joined.kept, ?_, ?_, ?_⟩
  · intro other transaction found
    by_cases same : other = id
    · subst same
      cases here.symm.trans found
      exact .new other commitStrategy
    · exact joined.coherent other transaction ((elsewhere same).symm.trans found)
  · intro range other running
    by_cases same : other = id
    · subst same
      have unread : ((cluster.ranges range).sessions other).hasReads = false := by
        rw [joined.reads range other, readsAt, unused]
        · rfl
        · rintro ⟨transaction, found, _⟩
          cases unused.symm.trans found
      rw [readsAt_of_find here]
      exact unread
    · rw [readsAt, elsewhere same]
      apply joined.reads range other
      rintro ⟨transaction, found, aborted⟩
      exact running ⟨transaction, (elsewhere same).trans found, aborted⟩
  · intro range other handler found owner concerned
    obtain ⟨transaction, known, serves⟩ := joined.linked range other handler found owner concerned
    have ne : owner ≠ id := by
      rintro rfl
      cases unused.symm.trans known
    exact ⟨transaction, (elsewhere ne).trans known, serves⟩

theorem Joined.act (joined : Joined cluster) {id : Uuid} {transaction transaction' : Transaction}
    {answer : Coordinator.Label} (own : answer.ofRange = false)
    (found : cluster.transactions.find id = some transaction)
    (moves : transaction.Moves answer transaction') : Joined (cluster.put id transaction') := by
  have coherent := joined.coherent id transaction found
  refine joined.transact found moves ?_ rfl joined.kept (fun _ _ _ here => here) ?_ ?_
    (fun _ _ _ => rfl)
  · rintro other rfl
    cases own
  · intro range other handler _ _
    cases answer with
    | gotten | prepared => cases own
    | _ => rfl
  · intro running range
    have before : transaction.state ≠ .aborted :=
      fun aborted => running (moves.stays_aborted coherent aborted)
    have unread : ∀ res, answer ≠ .gotten (.ok res) := by
      rintro res rfl
      cases own
    rw [ParticipantRange.reads, moves.readset unread]
    exact joined.reads_of_find found before range

theorem Joined.send (joined : Joined cluster) {range : FullRangeId} {req : RangeServer.Label}
    {service : Service} (asked : cluster.sends range req = true)
    (served : (cluster.ranges range).step (config range) req = some service) :
    Joined (cluster.putRange range service) := by
  obtain ⟨id, handler, handlers, serves⟩ := joined.serves_of_sends asked served
  have kept := (joined.kept range).step (joined.asked asked) served
  refine joined.range kept ?_ ?_
  · intro other _
    obtain ⟨manager, _, rfl⟩ := Option.map_eq_some_iff.mp served
    apply hasReads_sessionsAfter
    rintro id rfl
    cases asked
  · intro other candidate found
    rw [handlers] at found
    rcases eq_or_find_of_insert found with ⟨_, rfl⟩ | ⟨_, before⟩
    · exact serves
    · exact joined.linked range other candidate before

theorem orderly_of_isLocal {service : Service} {req : RangeServer.Label}
    (isLocal : req.isLocal = true) : service.Orderly req := by
  cases req with
  | run | runOn | fail => trivial
  | _ => cases isLocal

theorem Joined.serve (joined : Joined cluster) {range : FullRangeId} {req : RangeServer.Label}
    {service : Service} (isLocal : req.isLocal = true)
    (served : (cluster.ranges range).step (config range) req = some service) :
    Joined (cluster.putRange range service) := by
  have kept := (joined.kept range).step (orderly_of_isLocal isLocal) served
  obtain ⟨manager, moved, rfl⟩ := Option.map_eq_some_iff.mp served
  obtain ⟨id, handler, handler', found, goes, handlers⟩ :=
    (RangeServer.RangeManager.moves_of_step moved).goes isLocal
  refine joined.range kept ?_ ?_
  · intro other _
    apply hasReads_sessionsAfter
    rintro id rfl
    cases isLocal
  · intro other candidate found' owner concerned
    rw [handlers] at found'
    rcases eq_or_find_of_insert found' with ⟨_, rfl⟩ | ⟨_, before⟩
    · rw [goes.concerns] at concerned
      obtain ⟨transaction, known, serves⟩ := joined.linked range id handler found owner concerned
      exact ⟨transaction, known, serves.goes goes⟩
    · exact joined.linked range other candidate before owner concerned

theorem deliver_spec {config : Configuration} {service next : Service} {id : Nat}
    {handler : Handler} (found : service.manager.handlers.find id = some handler)
    (served : service.step config (.deliver id) = some next) :
    next = ⟨{ service.manager with handlers := service.manager.handlers.erase id },
      handler.answer service.sessions⟩ := by
  obtain ⟨manager, moved, rfl⟩ := Option.map_eq_some_iff.mp served
  simp only [Service.sessionsAfter, found]
  cases RangeServer.RangeManager.moves_of_step moved with
  | delivered => rfl
  | quiet _ quiet => cases quiet

/-- Only a prepare or commit that its coordinator does not wait for is answered in
vain. -/
theorem Joined.drop (joined : Joined cluster) {range : FullRangeId} {id : Nat} {handler : Handler}
    {service : Service} (found : (cluster.ranges range).manager.handlers.find id = some handler)
    (served : (cluster.ranges range).step (config range) (.deliver id) = some service)
    (ignored : ∀ owner label transaction, reply range handler = some (owner, label) →
      cluster.transactions.find owner = some transaction → transaction.step label = none) :
    Joined (cluster.putRange range service) := by
  have orderly : (cluster.ranges range).Orderly (.deliver id) := trivial
  have kept := (joined.kept range).step orderly served
  obtain rfl := deliver_spec found served
  refine joined.range kept ?_ ?_
  · intro owner _
    rw [RangeServer.hasReads_answer]
    cases read : handler.hasRead owner with
    | false => rfl
    | true =>
      unfold Handler.hasRead at read
      split at read
      next reader _ _ =>
        obtain ⟨transaction, known, getting⟩ := joined.linked range id _ found reader
          (decide_eq_true rfl)
        exact absurd (ignored reader _ transaction rfl known)
          (Transaction.step_gotten getting _)
      next => cases read
  · intro other candidate found'
    exact joined.linked range other candidate (find_of_erase found').2

inductive Replied (range : FullRangeId) (owner : Uuid) : Handler → Coordinator.Label → Prop where
  | get {key result} :
      Replied range owner (.get owner key (.returned (.ok result))) (.gotten (.ok result))
  | getFailed {key failure} :
      Replied range owner (.get owner key (.returned (.error failure))) (.gotten .error)
  | prepare {request result} :
      Replied range owner (.prepare owner request (.returned (.ok result)))
        (.prepared range (.ok result))
  | prepareFailed {request failure} :
      Replied range owner (.prepare owner request (.returned (.error failure)))
        (.prepared range .error)
  | commit {epoch reply result} :
      Replied range owner (.commit [owner] epoch (.returned result)) (.committed range reply)

theorem replied_of_reply {range : FullRangeId} {handler : Handler} {owner : Uuid}
    {answer : Coordinator.Label} (answered : reply range handler = some (owner, answer)) :
    Replied range owner handler answer := by
  unfold reply at answered
  split at answered <;> cases answered <;> constructor

theorem Replied.concerns {range : FullRangeId} {handler : Handler} {owner : Uuid}
    {answer : Coordinator.Label} (replied : Replied range owner handler answer) :
    handler.concerns owner = true := by
  cases replied with
  | commit => exact decide_eq_true List.mem_cons_self
  | _ => exact decide_eq_true rfl

/-- The handler of an answer is the only one that the answer is about. -/
theorem Joined.pending (joined : Joined cluster) {range : FullRangeId} {id : Nat}
    {handler : Handler} {owner : Uuid} {answer : Coordinator.Label}
    (found : (cluster.ranges range).manager.handlers.find id = some handler)
    (replied : Replied range owner handler answer)
    {range' : FullRangeId} {other : Nat} {candidate : Handler}
    (found' : (cluster.ranges range').manager.handlers.find other = some candidate)
    (concerned : candidate.concerns owner = true) (elsewhere : range' = range → other ≠ id) :
    answer.answers range' candidate = false := by
  have apart : range' ≠ range := by
    rintro rfl
    have here := ((joined.kept range').owned.placed id handler found).handler_of_concerns
      replied.concerns
    have there := ((joined.kept range').owned.placed other candidate found').handler_of_concerns
      concerned
    exact elsewhere rfl (Option.some.inj (there.symm.trans here))
  obtain ⟨transaction, known, serves⟩ := joined.linked range id handler found owner
    replied.concerns
  obtain ⟨transaction', known', serves'⟩ := joined.linked range' other candidate found' owner
    concerned
  cases known.symm.trans known'
  cases candidate with
  | get =>
    cases replied with
    | get | getFailed =>
      cases (show transaction.stage = _ from serves).symm.trans serves'
      exact absurd rfl apart
    | _ => rfl
  | prepare =>
    cases replied with
    | prepare | prepareFailed => exact decide_eq_false (Ne.symm apart)
    | _ => rfl
  | abort | commit => cases replied <;> rfl

theorem Joined.reads_after (joined : Joined cluster) {range : FullRangeId} {id : Nat}
    {handler : Handler} {owner : Uuid} {answer : Coordinator.Label}
    {transaction transaction' : Transaction}
    (known : cluster.transactions.find owner = some transaction)
    (before : transaction.state ≠ .aborted) (after : transaction'.state ≠ .aborted)
    (found : (cluster.ranges range).manager.handlers.find id = some handler)
    (replied : Replied range owner handler answer)
    (moves : transaction.Moves answer transaction') (range' : FullRangeId) :
    (if range' = range then
        handler.hasRead owner || ((cluster.ranges range).sessions owner).hasReads
      else ((cluster.ranges range').sessions owner).hasReads) =
      (transaction'.getParticipantRange range').reads := by
  have noted := joined.reads_of_find known before
  by_cases unread : ∀ res, answer ≠ .gotten (.ok res)
  · have silent : handler.hasRead owner = false := by
      cases replied with
      | get => exact absurd rfl (unread _)
      | _ => rfl
    rw [ParticipantRange.reads, moves.readset unread, ← ParticipantRange.reads, ← noted range']
    split
    next same => rw [same, silent, Bool.false_or]
    next => rfl
  · push Not at unread
    obtain ⟨res, rfl⟩ := unread
    obtain ⟨served, known', getting⟩ := joined.linked range id handler found owner
      replied.concerns
    cases known.symm.trans known'
    cases replied with
    | get =>
      cases moves with
      | @receive here key leader response _ asked =>
        cases (show transaction.stage = _ from getting).symm.trans asked
        change _ = ((Transaction.setParticipantRange _ _ _).getParticipantRange range').reads
        rw [Transaction.getParticipantRange_set]
        split
        next => simp [Handler.hasRead, ParticipantRange.reads]
        next => exact noted range'
      | lose _ failed => exact absurd rfl (failed _)
      | leaderChanged => exact absurd rfl after
      | refuse _ call | access _ call => cases call
      | aborting ofAbort => cases ofAbort

theorem Joined.deliver (joined : Joined cluster) {range : FullRangeId} {id : Nat}
    {handler : Handler} {service : Service} {owner : Uuid} {answer : Coordinator.Label}
    {transaction transaction' : Transaction}
    (found : (cluster.ranges range).manager.handlers.find id = some handler)
    (served : (cluster.ranges range).step (config range) (.deliver id) = some service)
    (replied : Replied range owner handler answer)
    (known : cluster.transactions.find owner = some transaction)
    (moves : transaction.Moves answer transaction') :
    Joined ((cluster.put owner transaction').putRange range service) := by
  have orderly : (cluster.ranges range).Orderly (.deliver id) := trivial
  have kept := (joined.kept range).step orderly served
  obtain rfl := deliver_spec found served
  have coherent := joined.coherent owner transaction known
  refine joined.transact known moves ?_ rfl ?_ ?_ ?_ ?_ ?_
  · rintro other rfl
    cases replied
  · intro other
    rw [ranges_putRange]
    split
    next => exact kept
    next => exact joined.kept other
  · intro range' other candidate found'
    rw [ranges_putRange] at found'
    split at found'
    next same =>
      subst same
      exact (find_of_erase found').2
    next => exact found'
  · intro range' other candidate found' concerned
    rw [ranges_putRange] at found'
    split at found'
    next same =>
      subst same
      obtain ⟨ne, before⟩ := find_of_erase found'
      exact joined.pending found replied before concerned fun _ => ne
    next ne =>
      exact joined.pending found replied found' concerned fun same => absurd same ne
  · intro running range'
    have before : transaction.state ≠ .aborted :=
      fun aborted => running (moves.stays_aborted coherent aborted)
    rw [← joined.reads_after known before running found replied moves range', ranges_putRange]
    split
    next => exact RangeServer.hasReads_answer ..
    next => rfl
  · intro range' other ne
    rw [ranges_putRange]
    split
    next same =>
      subst same
      rw [RangeServer.hasReads_answer]
      have unread : handler.hasRead other = false := by
        cases replied with
        | get => exact decide_eq_false (Ne.symm ne)
        | _ => rfl
      rw [unread]
      rfl
    next => rfl

theorem Joined.step (joined : Joined cluster) (taken : cluster.step config label = some next) :
    Joined next := by
  cases Moves.of_step taken with
  | start unused => exact joined.start unused
  | act own found moves => exact joined.act own found moves
  | send asked served => exact joined.send asked served
  | serve isLocal served => exact joined.serve isLocal served
  | drop found served ignored => exact joined.drop found served ignored
  | deliver found served answered known moves =>
    exact joined.deliver found served (replied_of_reply answered) known moves

end Cluster

end Sangria
