import Sangria.Coordinator.Transaction

/-!
# The phases of a transaction

`Moves` lists the effects of the step function.  A transaction is running until
its commit or abort; what it wrote and depends on is fixed once it is decided,
that is once its commit was recorded or left to the resolver.
-/

namespace Sangria.Coordinator.Transaction

open RangeServer (F64 GetResult PrepareResult)
open TxStateStore (OpResult)

inductive Moves : Transaction → Label → Transaction → Prop where
  | refuse {transaction label response} :
      transaction.idle = true → label.isCall = true →
      Moves transaction label (transaction.respond response)
  | access {transaction label range participant response} :
      transaction.idle = true → label.isCall = true → transaction.state = .running →
      participant.readset = (transaction.getParticipantRange range).readset →
      Moves transaction label
        ((transaction.setParticipantRange range participant).respond response)
  | ask {transaction range key} :
      transaction.idle = true → transaction.state = .running →
      Moves transaction (.get (some range) key)
        { transaction.setParticipantRange range (transaction.getParticipantRange range) with
          stage := .getting range key }
  | receive {transaction range key leader response} {result : GetResult} :
      transaction.stage = .getting range key →
      Moves transaction (.gotten (.ok result))
        (({ transaction with
            dependencies := transaction.dependencies ∪ result.dependencies.toFinset
          }.setParticipantRange range { transaction.getParticipantRange range with
            leaderSequenceNumber := leader
            readset := insert key (transaction.getParticipantRange range).readset }).respond
              response)
  | lose {transaction range key reply response} :
      transaction.stage = .getting range key →
      (∀ result, reply ≠ .ok result) →
      Moves transaction (.gotten reply) (transaction.respond response)
  | leaderChanged {transaction range key participant response} {result : GetResult} :
      transaction.stage = .getting range key →
      Moves transaction (.gotten (.ok result))
        (({ transaction with
            dependencies := transaction.dependencies ∪ result.dependencies.toFinset
          }.setParticipantRange range participant).recordAbort response)
  | abort {transaction response} :
      transaction.idle = true → transaction.state = .running →
      Moves transaction .abort (transaction.recordAbort response)
  | prepare {transaction load clients} :
      transaction.idle = true → transaction.state = .running →
      Moves transaction (.commit load clients)
        { transaction with
          state := .preparing
          stage := .preparing load clients transaction.participantRanges.keys false }
  | prepared {transaction load clients waiting early range} {result : PrepareResult} :
      transaction.stage = .preparing load clients waiting early → range ∈ waiting →
      Moves transaction (.prepared range (.ok result))
        { transaction with
          dependencies := transaction.dependencies ∪ result.dependencies
          stage := .preparing load clients (waiting.erase range)
            (early || result.releasedLockEarly) }
  | prepareFailed {transaction load clients waiting early range response} :
      transaction.stage = .preparing load clients waiting early →
      Moves transaction (.prepared range .panicked) (transaction.recordAbort response)
  | prepareError {transaction load clients waiting early range response} :
      transaction.stage = .preparing load clients waiting early →
      Moves transaction (.prepared range .error) (transaction.respond response)
  | record {transaction load clients early answer} :
      transaction.stage = .preparing load clients ∅ early → transaction.delegates = false →
      (transaction.commitStrategy = .traditional → ∃ info, answer = .transactionIsCommitted info) →
      Moves transaction (.recorded (some answer)) (transaction.notifyParticipants early)
  | notRecorded {transaction load clients early answer response} :
      transaction.stage = .preparing load clients ∅ early →
      (answer = none ∨ transaction.commitStrategy = .traditional) →
      Moves transaction (.recorded answer) (transaction.respond (.failed response))
  | delegate {transaction load clients early} :
      transaction.stage = .preparing load clients ∅ early → transaction.delegates = true →
      Moves transaction .delegated { transaction with stage := .delegating }
  | committed {transaction waiting early range reply} :
      transaction.stage = .committing waiting early → range ∈ waiting →
      Moves transaction (.committed range reply)
        (transaction.receiveCommit waiting early range reply)
  | join {transaction early} :
      transaction.stage = .committing ∅ early →
      Moves transaction .joined transaction.acknowledge
  | resolve {transaction} :
      transaction.stage = .delegating →
      Moves transaction (.resolved true) transaction.acknowledge
  | unresolved {transaction response} :
      transaction.stage = .delegating →
      Moves transaction (.resolved false) (transaction.respond response)
  | aborting {transaction label waiting response stage} :
      label.ofAbort = true →
      (transaction.stage = .recordingAbort waiting response ∨
        transaction.stage = .aborting waiting response) →
      (∃ waiting response, stage = .recordingAbort waiting response ∨
        stage = .aborting waiting response ∨ stage = .returned response) →
      Moves transaction label { transaction with stage := stage }

variable {tx next : Transaction} {label : Label}
variable {range : Option FullRangeId} {key : Bytes} {load : F64} {clients : Nat} {early : Bool}

theorem getParticipantRange_set (tx : Transaction) (range other : FullRangeId)
    (participant : ParticipantRange) :
    (tx.setParticipantRange range participant).getParticipantRange other =
      if other = range then participant else tx.getParticipantRange other := by
  rw [getParticipantRange, setParticipantRange, FiniteMap.find_insert]
  split <;> rfl

theorem running_of_check (still : tx.checkStillRunning = .ok ()) :
    tx.state = .running := by
  unfold checkStillRunning at still
  split at still
  next running => exact running
  all_goals cases still

theorem running_of_resolveFullRecordKey {found : FullRangeId}
    (resolved : tx.resolveFullRecordKey range = .ok found) :
    tx.state = .running ∧ range = some found := by
  unfold resolveFullRecordKey at resolved
  split at resolved
  next => cases resolved
  next => cases resolved
  next still =>
    cases resolved
    exact ⟨running_of_check still, rfl⟩

theorem Moves.of_get (idle : tx.idle = true) :
    Moves tx (.get range key) (tx.get range key) := by
  unfold get
  split
  next => exact .refuse idle rfl
  next resolved =>
    obtain ⟨running, rfl⟩ := running_of_resolveFullRecordKey resolved
    simp only
    split
    next => exact .access idle rfl running rfl
    next =>
      split
      next => exact .access idle rfl running rfl
      next => exact .ask idle running

theorem Moves.of_abort (idle : tx.idle = true) :
    Moves tx .abort tx.abort := by
  unfold Transaction.abort
  split
  next => exact .refuse idle rfl
  next =>
    split
    next => exact .refuse idle rfl
    next still => exact .abort idle (running_of_check still)

theorem Moves.of_receiveGet {range : FullRangeId} {reply : Reply GetResult}
    (getting : tx.stage = .getting range key) :
    Moves tx (.gotten reply) (tx.receiveGet range key reply) := by
  cases reply with
  | error | panicked =>
    apply Moves.lose getting
    intro res same
    cases same
  | ok =>
    simp only [receiveGet]
    split
    next => exact .leaderChanged getting
    next => exact .receive getting

theorem Moves.of_receiveRecord
    {answer : Option OpResult} (stage : tx.stage = .preparing load clients ∅ early)
    (direct : tx.delegates = false) :
    Moves tx (.recorded answer) (tx.receiveRecord early answer) := by
  cases answer with
  | none => exact .notRecorded stage (.inl rfl)
  | some answer =>
    cases strategy : tx.commitStrategy with
    | traditional =>
      cases answer with
      | transactionIsAborted =>
        simp only [receiveRecord, strategy]
        exact .notRecorded stage (.inr strategy)
      | transactionIsCommitted info =>
        simp only [receiveRecord, strategy]
        split
        next => exact .record stage direct fun _ => ⟨info, rfl⟩
        next => exact .notRecorded stage (.inr strategy)
    | pipelined | adaptive =>
      simp only [receiveRecord, strategy]
      refine .record stage direct fun traditional => ?_
      rw [strategy] at traditional
      cases traditional

theorem Moves.of_step (taken : tx.step label = some next) :
    Moves tx label next := by
  cases label with
  | get =>
    simp only [step] at taken
    split at taken
    next idle =>
      cases taken
      exact .of_get idle
    next => cases taken
  | put =>
    simp only [step, put] at taken
    split at taken
    next idle =>
      cases taken
      split
      next => exact .refuse idle rfl
      next resolved => exact .access idle rfl (running_of_resolveFullRecordKey resolved).1 rfl
    next => cases taken
  | del =>
    simp only [step, del] at taken
    split at taken
    next idle =>
      cases taken
      split
      next => exact .refuse idle rfl
      next resolved => exact .access idle rfl (running_of_resolveFullRecordKey resolved).1 rfl
    next => cases taken
  | commit =>
    simp only [step, commit] at taken
    split at taken
    next idle =>
      cases taken
      split
      next => exact .refuse idle rfl
      next still => exact .prepare idle (running_of_check still)
    next => cases taken
  | abort =>
    simp only [step] at taken
    split at taken
    next idle =>
      cases taken
      exact .of_abort idle
    next => cases taken
  | gotten =>
    simp only [step] at taken
    split at taken
    next getting =>
      cases taken
      exact .of_receiveGet getting
    next => cases taken
  | prepared _ reply =>
    simp only [step] at taken
    split at taken
    next stage =>
      split at taken
      next listed =>
        cases taken
        cases reply with
        | ok => exact .prepared stage listed
        | error => exact .prepareError stage
        | panicked => exact .prepareFailed stage
      next => cases taken
    next => cases taken
  | recorded =>
    simp only [step] at taken
    split at taken
    next stage =>
      split at taken
      next ready =>
        cases taken
        obtain ⟨rfl, direct⟩ := ready
        exact .of_receiveRecord stage direct
      next => cases taken
    next => cases taken
  | delegated =>
    simp only [step] at taken
    split at taken
    next stage =>
      split at taken
      next ready =>
        cases taken
        obtain ⟨rfl, delegates⟩ := ready
        exact .delegate stage delegates
      next => cases taken
    next => cases taken
  | committed =>
    simp only [step] at taken
    split at taken
    next stage =>
      split at taken
      next listed =>
        cases taken
        exact .committed stage listed
      next => cases taken
    next => cases taken
  | joined =>
    simp only [step] at taken
    split at taken
    next stage =>
      split at taken
      next ended =>
        cases taken
        subst ended
        exact .join stage
      next => cases taken
    next => cases taken
  | resolved ok =>
    simp only [step] at taken
    split at taken
    next stage =>
      cases taken
      cases ok with
      | true => exact .resolve stage
      | false => exact .unresolved stage
    next => cases taken
  | abortRecorded =>
    simp only [step] at taken
    split at taken
    next waiting _ stage =>
      cases taken
      unfold receiveAbortRecord
      split
      next => exact .aborting rfl (.inl stage) ⟨_, _, .inr (.inl rfl)⟩
      all_goals exact .aborting rfl (.inl stage) ⟨waiting, _, .inr (.inr rfl)⟩
    next => cases taken
  | aborted =>
    simp only [step] at taken
    split at taken
    next stage =>
      cases taken
      exact .aborting rfl (.inl stage) ⟨_, _, .inl rfl⟩
    next stage =>
      cases taken
      exact .aborting rfl (.inr stage) ⟨_, _, .inr (.inl rfl)⟩
    next => cases taken
  | abortJoined =>
    simp only [step] at taken
    split at taken
    next waiting _ stage =>
      split at taken
      next =>
        cases taken
        exact .aborting rfl (.inr stage) ⟨waiting, _, .inr (.inr rfl)⟩
      next => cases taken
    next => cases taken

theorem dependencies_of_call (call : label.isCall = true ∨ label.ofAbort = true) :
    label.dependencies = ∅ := by
  cases label with
  | gotten | prepared => rcases call with call | call <;> cases call
  | _ => rfl

theorem Moves.dependencies (moves : Moves tx label next) :
    next.dependencies = tx.dependencies ∪ label.dependencies := by
  cases moves with
  | refuse idle call | access idle call =>
    rw [dependencies_of_call (.inl call), Finset.union_empty]
    rfl
  | aborting ofAbort => rw [dependencies_of_call (.inr ofAbort), Finset.union_empty]
  | @lose range key reply response getting failed =>
    cases reply with
    | ok res => exact absurd rfl (failed res)
    | error | panicked => exact (Finset.union_empty _).symm
  | receive | leaderChanged | prepared => rfl
  | _ => exact (Finset.union_empty _).symm

theorem Moves.commitStrategy (moves : Moves tx label next) :
    next.commitStrategy = tx.commitStrategy := by
  cases moves <;> rfl

theorem Moves.readset (moves : Moves tx label next)
    (other : ∀ res, label ≠ .gotten (.ok res)) (range : FullRangeId) :
    (next.getParticipantRange range).readset =
      (tx.getParticipantRange range).readset := by
  cases moves with
  | access _ _ _ same =>
    change ((tx.setParticipantRange _ _).getParticipantRange range).readset = _
    rw [getParticipantRange_set]
    split
    next here =>
      rw [here]
      exact same
    next => rfl
  | ask =>
    change ((tx.setParticipantRange _ _).getParticipantRange range).readset = _
    rw [getParticipantRange_set]
    split
    next here => rw [here]
    next => rfl
  | receive | leaderChanged => exact absurd rfl (other _)
  | _ => rfl

/-! ## The state behind a stage -/

def stateAt : Stage → Option State
  | .started | .getting .. => some .running
  | .preparing .. | .delegating => some .preparing
  | .committing .. => some .committed
  | .recordingAbort .. | .aborting .. => some .aborted
  | .returned _ => none

structure Coherent (transaction : Transaction) : Prop where
  fits : ∀ state, stateAt transaction.stage = some state → transaction.state = state
  sent : transaction.sent = if transaction.state = .committed then transaction.writers else ∅
  direct : transaction.state = .committed → transaction.delegates = false
  delegating : transaction.stage = .delegating → transaction.delegates = true
  acknowledged : transaction.acknowledged = true →
    (∃ response, transaction.stage = .returned response) ∧
      (transaction.state = .committed ∨
        transaction.state = .preparing ∧ transaction.delegates = true)

theorem Coherent.new (id : Uuid) (commitStrategy : CommitStrategy) :
    Coherent (new id commitStrategy) := by
  constructor <;> simp [Transaction.new, stateAt]

theorem Coherent.of_open (fits : ∀ state, stateAt tx.stage = some state → tx.state = state)
    (unsent : tx.sent = ∅) (uncommitted : tx.state ≠ .committed)
    (kept : tx.stage ≠ .delegating) (pending : tx.acknowledged = false) :
    Coherent tx where
  fits := fits
  sent := by rw [unsent, if_neg uncommitted]
  direct := fun committed => absurd committed uncommitted
  delegating := fun delegating => absurd delegating kept
  acknowledged := by
    rw [pending]
    intro acknowledged
    cases acknowledged

theorem Coherent.respond (coherent : Coherent tx) (response : Response) :
    Coherent (tx.respond response) where
  fits := nofun
  sent := coherent.sent
  direct := coherent.direct
  delegating := nofun
  acknowledged := fun acknowledged => ⟨⟨response, rfl⟩, (coherent.acknowledged acknowledged).2⟩

theorem Coherent.unsent (coherent : Coherent tx)
    (uncommitted : tx.state ≠ .committed) : tx.sent = ∅ := by
  rw [coherent.sent, if_neg uncommitted]

theorem Coherent.pending_of_state (coherent : Coherent tx)
    (uncommitted : tx.state ≠ .committed) (unprepared : tx.state ≠ .preparing) :
    tx.acknowledged = false := by
  rw [Bool.eq_false_iff]
  intro acknowledged
  rcases (coherent.acknowledged acknowledged).2 with committed | preparing
  · exact uncommitted committed
  · exact unprepared preparing.1

theorem Coherent.pending_of_stage (coherent : Coherent tx)
    (busy : ∀ response, tx.stage ≠ .returned response) :
    tx.acknowledged = false := by
  rw [Bool.eq_false_iff]
  intro acknowledged
  obtain ⟨response, returned⟩ := (coherent.acknowledged acknowledged).1
  exact busy response returned

theorem Coherent.state_of_stage (coherent : Coherent tx) {stage : Stage} {state : State}
    (here : tx.stage = stage) (implied : stateAt stage = some state) :
    tx.state = state := by
  apply coherent.fits
  rw [here]
  exact implied

theorem Coherent.of_running (coherent : Coherent tx) (running : tx.state = .running)
    (sent : next.sent = tx.sent) (acknowledged : next.acknowledged = tx.acknowledged)
    (fits : ∀ state, stateAt next.stage = some state → next.state = state)
    (uncommitted : next.state ≠ .committed)
    (kept : next.stage ≠ .delegating) : Coherent next := by
  have uncommitted' : tx.state ≠ .committed := by
    rw [running]
    decide
  apply Coherent.of_open fits _ uncommitted kept
  · rw [acknowledged]
    apply coherent.pending_of_state uncommitted'
    rw [running]
    decide
  · rw [sent]
    exact coherent.unsent uncommitted'

theorem Coherent.of_preparing (coherent : Coherent tx) {waiting : Finset FullRangeId}
    (preparing : tx.stage = .preparing load clients waiting early)
    (sent : next.sent = tx.sent) (acknowledged : next.acknowledged = tx.acknowledged)
    (fits : ∀ state, stateAt next.stage = some state → next.state = state)
    (uncommitted : next.state ≠ .committed)
    (kept : next.stage ≠ .delegating) : Coherent next := by
  have state : tx.state = .preparing := coherent.state_of_stage preparing rfl
  apply Coherent.of_open fits _ uncommitted kept
  · rw [acknowledged]
    apply coherent.pending_of_stage
    rw [preparing]
    intro response same
    cases same
  · rw [sent]
    apply coherent.unsent
    rw [state]
    decide

theorem Coherent.step (coherent : Coherent tx) (moves : Moves tx label next) :
    Coherent next := by
  cases moves with
  | refuse | lose | prepareError | notRecorded | unresolved => exact coherent.respond _
  | access _ _ running =>
    refine coherent.of_running running rfl rfl nofun ?_ nofun
    exact fun committed => absurd (running.symm.trans committed) (by decide)
  | ask _ running =>
    refine coherent.of_running running rfl rfl ?_ ?_ nofun
    · intro state implied
      cases implied
      exact running
    · exact fun committed => absurd (running.symm.trans committed) (by decide)
  | receive getting =>
    have running : tx.state = .running := coherent.state_of_stage getting rfl
    refine coherent.of_running running rfl rfl nofun ?_ nofun
    exact fun committed => absurd (running.symm.trans committed) (by decide)
  | leaderChanged getting =>
    have running : tx.state = .running := coherent.state_of_stage getting rfl
    refine coherent.of_running running rfl rfl ?_ nofun nofun
    intro state implied
    cases implied
    rfl
  | abort idle running | prepare idle running =>
    refine coherent.of_running running rfl rfl ?_ nofun nofun
    intro state implied
    cases implied
    rfl
  | prepared preparing =>
    have state : tx.state = .preparing := coherent.state_of_stage preparing rfl
    refine coherent.of_preparing preparing rfl rfl ?_ ?_ nofun
    · intro state' implied
      cases implied
      exact state
    · exact fun committed => absurd (state.symm.trans committed) (by decide)
  | prepareFailed preparing =>
    refine coherent.of_preparing preparing rfl rfl ?_ nofun nofun
    intro state implied
    cases implied
    rfl
  | record preparing direct =>
    have state : tx.state = .preparing := coherent.state_of_stage preparing rfl
    have unsent := coherent.unsent (by rw [state]; decide)
    have pending := coherent.pending_of_stage (by rw [preparing]; nofun)
    constructor
    case fits =>
      intro state' implied
      cases implied
      rfl
    case sent =>
      change tx.sent ∪ tx.writers = tx.writers
      rw [unsent, Finset.empty_union]
    case direct => exact fun _ => direct
    case delegating => exact nofun
    case acknowledged =>
      intro acknowledged
      exact absurd (pending.symm.trans acknowledged) (by decide)
  | delegate preparing delegates =>
    have state : tx.state = .preparing := coherent.state_of_stage preparing rfl
    have pending := coherent.pending_of_stage (by rw [preparing]; nofun)
    constructor
    case fits =>
      intro state' implied
      cases implied
      exact state
    case sent => exact coherent.sent
    case direct => exact coherent.direct
    case delegating => exact fun _ => delegates
    case acknowledged =>
      intro acknowledged
      exact absurd (pending.symm.trans acknowledged) (by decide)
  | committed committing =>
    have state : tx.state = .committed := coherent.state_of_stage committing rfl
    have pending := coherent.pending_of_stage (by rw [committing]; nofun)
    constructor
    case fits =>
      intro state' implied
      cases implied
      exact state
    case sent => exact coherent.sent
    case direct => exact coherent.direct
    case delegating => exact nofun
    case acknowledged =>
      intro acknowledged
      exact absurd (pending.symm.trans acknowledged) (by decide)
  | join committing =>
    have state : tx.state = .committed := coherent.state_of_stage committing rfl
    exact ⟨nofun, coherent.sent, coherent.direct, nofun, fun _ => ⟨⟨.done, rfl⟩, .inl state⟩⟩
  | resolve delegating =>
    have state : tx.state = .preparing := coherent.state_of_stage delegating rfl
    exact ⟨nofun, coherent.sent, coherent.direct, nofun,
      fun _ => ⟨⟨.done, rfl⟩, .inr ⟨state, coherent.delegating delegating⟩⟩⟩
  | @aborting _ waiting response stage ofAbort before after =>
    have state : tx.state = .aborted := by
      rcases before with recording | notifying
      · exact coherent.state_of_stage recording rfl
      · exact coherent.state_of_stage notifying rfl
    have pending := coherent.pending_of_state (by rw [state]; decide) (by rw [state]; decide)
    have unsent := coherent.unsent (by rw [state]; decide)
    obtain ⟨waiting', response', after⟩ := after
    refine Coherent.of_open ?_ unsent (by simp [state]) ?_ pending
    · intro state' implied
      rcases after with rfl | rfl | rfl
      · cases implied
        exact state
      · cases implied
        exact state
      · cases implied
    · rcases after with rfl | rfl | rfl <;> nofun

def Decided (transaction : Transaction) : Prop :=
  (transaction.state = .preparing ∨ transaction.state = .committed) ∧
    ∀ load clients waiting early, transaction.stage ≠ .preparing load clients waiting early

theorem Decided.ne_running (decided : Decided tx) : tx.state ≠ .running := by
  rcases decided.1 with preparing | committed
  · rw [preparing]
    decide
  · rw [committed]
    decide

theorem Decided.step (decided : Decided tx) (coherent : Coherent tx)
    (moves : Moves tx label next) :
    Decided next ∧ next.state = tx.state ∧ next.dependencies = tx.dependencies ∧
      next.participantRanges = tx.participantRanges := by
  have kept {stage : Stage} {state : State} (here : tx.stage = stage)
      (implied : stateAt stage = some state)
      (early : state = .running ∨ state = .aborted) : False := by
    have now := coherent.state_of_stage here implied
    rcases decided.1 with preparing | committed
    · rw [preparing] at now
      subst now
      simp at early
    · rw [committed] at now
      subst now
      simp at early
  cases moves with
  | refuse | lose | unresolved =>
    exact ⟨⟨decided.1, nofun⟩, rfl, rfl, rfl⟩
  | access idle call running | ask idle running | abort idle running | prepare idle running =>
    exact absurd running decided.ne_running
  | receive getting | leaderChanged getting => exact (kept getting rfl (.inl rfl)).elim
  | prepared preparing | prepareFailed preparing | prepareError preparing | record preparing
  | notRecorded preparing | delegate preparing => exact absurd preparing (decided.2 _ _ _ _)
  | committed committing | join committing | resolve delegating =>
    exact ⟨⟨decided.1, nofun⟩, rfl, rfl, rfl⟩
  | aborting _ before =>
    rcases before with recording | notifying
    · exact (kept recording rfl (.inr rfl)).elim
    · exact (kept notifying rfl (.inr rfl)).elim

end Sangria.Coordinator.Transaction
