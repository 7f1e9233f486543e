import Sangria.Coordinator.Phases
import Sangria.Lib.TransitionSystem
import Sangria.RangeServer.Server.TransactionTable

/-!
# How range servers learn of a transaction

A transaction, and the tables of the servers that host its ranges.  The messages
of a read carry what a server needs to enter the transaction; those of a prepare
do not.  A transaction that has read something on each server that it prepares
on is known there.
-/

namespace Sangria.Coordinator

open RangeServer (GetResult PrepareRequest PrepareResult)
open RangeServer.Server (Load Reads TransactionInfo TransactionTable getInner prepareInner
  commitInner getMessage prepareMessage commitMessage)

def Label.fromServer : Label → Bool
  | .gotten (.ok _) | .prepared _ (.ok _) => true
  | _ => false

/-- What `get` makes of the response; it unwraps the first value. -/
def getReply : Except RangeServer.Server.Error Reads → Reply GetResult
  | .error _ => .error
  | .ok found =>
    match found.reads with
    | (_, val) :: _ => .ok ⟨val, found.leaderSequenceNumber, found.dependencies⟩
    | [] => .panicked

def prepareReply : Except RangeServer.Server.Error PrepareResult → Reply PrepareResult
  | .error _ => .error
  | .ok result => .ok result

/-- `pending` are the prepares that were sent and have not arrived.  `delegated`
says whether the resolver has the transaction.  `refused` is an observer: the
ranges whose prepare was answered with `UnknownTransaction`. -/
structure Deployment where
  transaction : Transaction
  info : TransactionInfo
  tables : Nat → TransactionTable
  pending : Finset FullRangeId
  delegated : Bool
  refused : Finset FullRangeId

namespace Deployment

/-- A request is one step with its answer.  Commits arrive at any time after
they were sent, alone or with those of other transactions. -/
inductive Label where
  | act (label : Coordinator.Label)
  | serveGet (requestId : Uuid) (now : Int) (load : Load)
      (answer : Except RangeServer.Error GetResult)
  | servePrepare (range : FullRangeId) (requestId : Uuid) (request : PrepareRequest) (load : Load)
      (answer : Except RangeServer.Error PrepareResult)
  | serveCommit (range : FullRangeId) (requestId : Uuid) (ids : List Uuid) (epoch : UInt64)
      (load : Load) (answer : Except RangeServer.Error Unit)
  | serveOther (range : FullRangeId) (requestId : Uuid) (other : TransactionInfo)
      (keys : List Bytes) (now : Int) (load : Load)
      (answers : List (Except RangeServer.Error GetResult))

def setTable (host : FullRangeId → Nat) (deployment : Deployment) (range : FullRangeId)
    (table : TransactionTable) : Deployment :=
  { deployment with tables := Function.update deployment.tables (host range) table }

def become (deployment : Deployment) (label : Coordinator.Label) (transaction : Transaction) :
    Deployment :=
  { deployment with
    transaction := transaction
    pending := match label, transaction.stage with
      | .commit .., .preparing _ _ waiting _ => waiting
      | _, _ => deployment.pending
    delegated := match label with
      | .delegated => true
      | _ => deployment.delegated }

def step (host : FullRangeId → Nat) (deployment : Deployment) : Label → Option Deployment
  | .act label =>
    if label.fromServer then none
    else (deployment.transaction.step label).map (deployment.become label)
  | .serveGet requestId now load answer =>
    match deployment.transaction.stage with
    | .getting range key =>
      let outcome := getInner (deployment.tables (host range)) now
        (getMessage requestId deployment.info range [key]) load [answer]
      (deployment.transaction.step (.gotten (getReply outcome.2))).map fun next =>
        { deployment.setTable host range outcome.1 with transaction := next }
    | _ => none
  | .servePrepare range requestId request load answer =>
    if range ∈ deployment.pending ∧
        (deployment.transaction.getParticipantRange range).Asks request then
      let result := prepareInner (deployment.tables (host range))
        (prepareMessage requestId deployment.info range request) load fun _ _ => answer
      -- Nobody may be waiting for the answer any more.
      some { deployment with
        transaction := (deployment.transaction.step (.prepared range (prepareReply result))).getD
          deployment.transaction
        pending := deployment.pending.erase range
        refused := match result with
          | .error .unknownTransaction => insert range deployment.refused
          | _ => deployment.refused }
    else none
  | .serveCommit range requestId ids epoch load answer =>
    if deployment.info.id ∈ ids →
        deployment.delegated = true ∨ deployment.transaction.state = .committed then
      some (deployment.setTable host range (commitInner (deployment.tables (host range))
        (commitMessage requestId ids range epoch) load fun _ _ => answer).1)
    else none
  | .serveOther range requestId other keys now load answers =>
    if other.id ≠ deployment.info.id then
      some (deployment.setTable host range (getInner (deployment.tables (host range)) now
        (getMessage requestId other range keys) load answers).1)
    else none

def Initial (deployment : Deployment) : Prop :=
  ∃ id strategy info tables, deployment = ⟨.new id strategy, info, tables, ∅, false, ∅⟩

variable {host : FullRangeId → Nat} {deployment next : Deployment} {label : Label}
variable {tx : Transaction} {range : FullRangeId}

/-- At its commit, the transaction has read something on every server that hosts
one of its participants. -/
def ReadsEverywhere (host : FullRangeId → Nat) (deployment : Deployment) : Label → Prop
  | .act (.commit ..) => ∀ range ∈ deployment.transaction.participantRanges.keys,
      ∃ other ∈ deployment.transaction.participantRanges.keys, host other = host range ∧
        (deployment.transaction.getParticipantRange other).readset ≠ ∅
  | _ => True

def KnownAt (host : FullRangeId → Nat) (deployment : Deployment) (range : FullRangeId) : Prop :=
  deployment.info.id ∈ deployment.tables (host range)

structure Introduced (host : FullRangeId → Nat) (deployment : Deployment) : Prop where
  coherent : deployment.transaction.Coherent
  read : deployment.transaction.state = .running → ∀ range,
    (deployment.transaction.getParticipantRange range).readset ≠ ∅ → KnownAt host deployment range
  known : ∀ range ∈ deployment.pending, KnownAt host deployment range
  waiting : ∀ load clients waiting early,
    deployment.transaction.stage = .preparing load clients waiting early →
    deployment.pending ⊆ waiting
  arrived : deployment.delegated = true ∨ deployment.transaction.state = .running ∨
    deployment.transaction.state = .committed → deployment.pending = ∅
  handed : deployment.delegated = true → deployment.transaction.state ≠ .running
  refused : deployment.refused = ∅

theorem Introduced.initial (started : Initial deployment) : Introduced host deployment := by
  obtain ⟨id, strategy, info, tables, rfl⟩ := started
  constructor
  case coherent => exact .new id strategy
  case read =>
    intro _ range reads
    exact absurd rfl reads
  case waiting =>
    intro load clients waiting early preparing
    cases preparing
  case known => exact fun range listed => absurd listed (Finset.notMem_empty range)
  case arrived => exact fun _ => rfl
  case handed =>
    intro delegated
    cases delegated
  case refused => rfl

/-- The coordinator goes on with the prepares that it sent before. -/
theorem Introduced.keep (introduced : Introduced host deployment) (coherent : tx.Coherent)
    (readset : ∀ range, (tx.getParticipantRange range).readset =
      (deployment.transaction.getParticipantRange range).readset)
    (running : tx.state = .running → deployment.transaction.state = .running)
    (committed : tx.state = .committed → deployment.transaction.state = .committed)
    (stage : ∀ load clients waiting early, tx.stage ≠ .preparing load clients waiting early) :
    Introduced host { deployment with transaction := tx } where
  coherent := coherent
  read := by
    intro now range reads
    rw [readset] at reads
    exact introduced.read (running now) range reads
  known := introduced.known
  waiting := fun load clients waiting early preparing =>
    absurd preparing (stage load clients waiting early)
  arrived := by
    rintro (delegated | now | now)
    · exact introduced.arrived (.inl delegated)
    · exact introduced.arrived (.inr (.inl (running now)))
    · exact introduced.arrived (.inr (.inr (committed now)))
  handed := fun delegated now => introduced.handed delegated (running now)
  refused := introduced.refused

theorem become_of_stage {label : Coordinator.Label}
    (stage : ∀ load clients waiting early, tx.stage ≠ .preparing load clients waiting early)
    (kept : label ≠ .delegated) :
    deployment.become label tx = { deployment with transaction := tx } := by
  unfold become
  congr
  · split
    next preparing => exact absurd preparing (stage _ _ _ _)
    next => rfl
  · split
    next => exact absurd rfl kept
    next => rfl

theorem Introduced.act {label : Coordinator.Label}
    (introduced : Introduced host deployment) (outside : label.fromServer = false)
    (moves : deployment.transaction.Moves label tx)
    (everywhere : ReadsEverywhere host deployment (.act label)) :
    Introduced host (deployment.become label tx) := by
  have coherent := introduced.coherent.step moves
  have readset := moves.readset (by
    rintro res rfl
    cases outside)
  have simple
      (stage : ∀ load clients waiting early,
        tx.stage ≠ .preparing load clients waiting early)
      (kept : label ≠ .delegated)
      (running : tx.state = .running → deployment.transaction.state = .running)
      (committed : tx.state = .committed → deployment.transaction.state = .committed) :
      Introduced host (deployment.become label tx) := by
    rw [become_of_stage stage kept]
    exact introduced.keep coherent readset running committed stage
  cases moves with
  | refuse idle call | access idle call =>
    refine simple ?_ ?_ (fun now => now) (fun now => now)
    · intro _ _ _ _ preparing
      cases preparing
    · rintro rfl
      cases call
  | ask | lose | prepareError | notRecorded | committed | join | resolve | unresolved =>
    refine simple ?_ ?_ (fun now => now) (fun now => now)
    · intro _ _ _ _ preparing
      cases preparing
    · intro same
      cases same
  | abort | prepareFailed =>
    refine simple ?_ ?_ ?_ ?_
    · intro _ _ _ _ preparing
      cases preparing
    · intro same
      cases same
    · intro now
      cases now
    · intro now
      cases now
  | aborting ofAbort _ after =>
    refine simple ?_ ?_ (fun now => now) (fun now => now)
    · obtain ⟨_, _, rfl | rfl | rfl⟩ := after
      all_goals
        intro _ _ _ _ preparing
        cases preparing
    · rintro rfl
      cases ofAbort
  | receive | leaderChanged | prepared => cases outside
  | prepare _ running =>
    refine ⟨coherent, ?_, ?_, ?_, ?_, ?_, introduced.refused⟩
    · intro now
      cases now
    · intro range listed
      obtain ⟨other, -, same, reads⟩ := everywhere range listed
      have known := introduced.read running other reads
      rw [KnownAt, same] at known
      exact known
    · intro _ _ _ _ preparing
      cases preparing
      exact Finset.Subset.refl _
    · rintro (delegated | now | now)
      · exact absurd running (introduced.handed delegated)
      · cases now
      · cases now
    · intro _ now
      cases now
  | record preparing =>
    have none : deployment.pending = ∅ :=
      Finset.subset_empty.mp (introduced.waiting _ _ _ _ preparing)
    refine ⟨coherent, ?_, introduced.known, ?_, fun _ => none, ?_, introduced.refused⟩
    · intro now
      cases now
    · intro _ _ _ _ preparing
      cases preparing
    · intro _ now
      cases now
  | delegate preparing =>
    have none : deployment.pending = ∅ :=
      Finset.subset_empty.mp (introduced.waiting _ _ _ _ preparing)
    have state : deployment.transaction.state = .preparing :=
      introduced.coherent.state_of_stage preparing rfl
    refine ⟨coherent, introduced.read, introduced.known, ?_, fun _ => none, ?_,
      introduced.refused⟩
    · intro _ _ _ _ preparing
      cases preparing
    · intro _ now
      cases state.symm.trans now

/-- A table that keeps the transaction may replace another one. -/
theorem Introduced.setTable {table : TransactionTable} (introduced : Introduced host deployment)
    (kept : deployment.transaction.state = .running ∨ deployment.pending ≠ ∅ →
      deployment.info.id ∈ deployment.tables (host range) → deployment.info.id ∈ table) :
    Introduced host (deployment.setTable host range table) := by
  have known {other : FullRangeId}
      (live : deployment.transaction.state = .running ∨ deployment.pending ≠ ∅)
      (before : KnownAt host deployment other) :
      KnownAt host (deployment.setTable host range table) other := by
    change deployment.info.id ∈ Function.update deployment.tables (host range) table (host other)
    by_cases same : host other = host range
    · rw [same, Function.update_self]
      rw [KnownAt, same] at before
      exact kept live before
    · rw [Function.update_of_ne same]
      exact before
  exact {
    coherent := introduced.coherent
    read := fun running other reads => known (.inl running) (introduced.read running other reads)
    known := fun other listed =>
      known (.inr (Finset.ne_empty_of_mem listed)) (introduced.known other listed)
    waiting := introduced.waiting
    arrived := introduced.arrived
    handed := introduced.handed
    refused := introduced.refused }

theorem Introduced.receiveGet {key : Bytes} {reply : Reply GetResult}
    (introduced : Introduced host deployment)
    (getting : deployment.transaction.stage = .getting range key)
    (entered : KnownAt host deployment range)
    (moves : deployment.transaction.Moves (.gotten reply) tx) :
    Introduced host { deployment with transaction := tx } := by
  have coherent := introduced.coherent.step moves
  have running : deployment.transaction.state = .running :=
    introduced.coherent.state_of_stage getting rfl
  have none := introduced.arrived (.inr (.inl running))
  cases moves with
  | refuse idle call | access idle call => cases call
  | aborting ofAbort => cases ofAbort
  | lose =>
    refine introduced.keep coherent (fun _ => rfl) (fun now => now) (fun now => now) ?_
    intro _ _ _ _ preparing
    cases preparing
  | leaderChanged =>
    refine ⟨coherent, ?_, introduced.known, ?_, fun _ => none, ?_, introduced.refused⟩
    · intro now
      cases now
    · intro _ _ _ _ preparing
      cases preparing
    · intro _ now
      cases now
  | @receive range' key' leader response res getting' =>
    cases getting.symm.trans getting'
    refine ⟨coherent, ?_, introduced.known, ?_, fun _ => none, introduced.handed,
      introduced.refused⟩
    · intro _ other reads
      by_cases same : other = range
      · rw [same]
        exact entered
      · apply introduced.read running other
        change ((Transaction.setParticipantRange _ range _).getParticipantRange other).readset ≠ ∅
          at reads
        rw [Transaction.getParticipantRange_set, if_neg same] at reads
        exact reads
    · intro _ _ _ _ preparing
      cases preparing

theorem Introduced.receivePrepare {res : Except RangeServer.Server.Error PrepareResult}
    (introduced : Introduced host deployment) :
    Introduced host { deployment with
      transaction := (deployment.transaction.step (.prepared range (prepareReply res))).getD
        deployment.transaction
      pending := deployment.pending.erase range } := by
  have fewer : deployment.pending.erase range ⊆ deployment.pending := Finset.erase_subset _ _
  have gone (none : deployment.pending = ∅) : deployment.pending.erase range = ∅ := by
    rw [none, Finset.erase_empty]
  cases stepped : deployment.transaction.step (.prepared range (prepareReply res)) with
  | none =>
    exact {
      coherent := introduced.coherent
      read := introduced.read
      known := fun other listed => introduced.known other (fewer listed)
      waiting := fun load clients waiting early preparing =>
        fewer.trans (introduced.waiting load clients waiting early preparing)
      arrived := fun settled => gone (introduced.arrived settled)
      handed := introduced.handed
      refused := introduced.refused }
  | some tx =>
    have moves := Transaction.Moves.of_step stepped
    have coherent := introduced.coherent.step moves
    have readset := moves.readset (by
      intro res same
      cases same)
    have state : tx.state = deployment.transaction.state := by
      cases res with
      | ok | error => cases moves <;> rfl
    refine ⟨coherent, ?_, fun other listed => introduced.known other (fewer listed), ?_, ?_, ?_,
      introduced.refused⟩
    · intro running other reads
      rw [Option.getD_some, readset] at reads
      exact introduced.read (state.symm.trans running) other reads
    · intro load clients waiting early preparing
      cases res with
      | ok =>
        cases moves with
        | refuse idle call | access idle call => cases call
        | aborting ofAbort => cases ofAbort
        | prepared before =>
          cases preparing
          exact Finset.erase_subset_erase range (introduced.waiting _ _ _ _ before)
      | error =>
        cases moves with
        | refuse idle call | access idle call => cases call
        | aborting ofAbort => cases ofAbort
        | prepareError => cases preparing
    · intro settled
      rw [Option.getD_some, state] at settled
      exact gone (introduced.arrived settled)
    · intro delegated
      rw [Option.getD_some, state]
      exact introduced.handed delegated

theorem Introduced.step (introduced : Introduced host deployment)
    (everywhere : ReadsEverywhere host deployment label)
    (taken : deployment.step host label = some next) : Introduced host next := by
  cases label with
  | act =>
    simp only [Deployment.step] at taken
    split at taken
    next => cases taken
    next outside =>
      obtain ⟨tx, stepped, rfl⟩ := Option.map_eq_some_iff.mp taken
      exact introduced.act (Bool.not_eq_true _ ▸ outside) (.of_step stepped) everywhere
  | serveGet requestId now load answer =>
    simp only [Deployment.step] at taken
    split at taken
    next range key getting =>
      obtain ⟨tx, stepped, rfl⟩ := Option.map_eq_some_iff.mp taken
      have entered : Introduced host (deployment.setTable host range
          (getInner (deployment.tables (host range)) now
            (getMessage requestId deployment.info range [key]) load [answer]).1) :=
        introduced.setTable fun _ listed => RangeServer.Server.mem_getInner listed
      refine entered.receiveGet getting ?_ (.of_step stepped)
      change deployment.info.id ∈ Function.update deployment.tables (host range) _ (host range)
      rw [Function.update_self]
      exact RangeServer.Server.mem_getInner_getMessage
    next => cases taken
  | servePrepare range =>
    simp only [Deployment.step] at taken
    split at taken
    next asked =>
      cases taken
      obtain ⟨coherent, read, known, waiting, arrived, handed, -⟩ := introduced.receivePrepare
      refine ⟨coherent, read, known, waiting, arrived, handed, ?_⟩
      simp only
      split
      next unknown =>
        refine absurd unknown (RangeServer.Server.prepareInner_ne_unknown ?_)
        exact introduced.known range asked.1
      next => exact introduced.refused
    next => cases taken
  | serveCommit =>
    simp only [Deployment.step] at taken
    split at taken
    next sent =>
      cases taken
      refine introduced.setTable ?_
      intro live listed
      refine RangeServer.Server.mem_commitInner ?_ listed
      rintro _ ⟨⟩ mine
      have none := introduced.arrived ((sent mine).imp_right .inr)
      rcases live with running | some
      · rcases sent mine with delegated | committed
        · exact introduced.handed delegated running
        · cases running.symm.trans committed
      · exact some none
    next => cases taken
  | serveOther =>
    simp only [Deployment.step] at taken
    split at taken
    next =>
      cases taken
      exact introduced.setTable fun _ listed => RangeServer.Server.mem_getInner listed
    next => cases taken

/-- Whatever a transaction reads, puts and deletes: if it has read on every server
that it prepares on, all these servers know it when its prepares arrive. -/
theorem prepares_are_known (host : FullRangeId → Nat)
    (reached : TransitionSystem.Reachable (step host) (ReadsEverywhere host) Initial deployment) :
    (∀ range ∈ deployment.pending, KnownAt host deployment range) ∧ deployment.refused = ∅ := by
  have introduced : Introduced host deployment := by
    refine reached.invariant (fun _ => Introduced.initial) ?_
    exact fun _ _ _ introduced everywhere taken => introduced.step everywhere taken
  exact ⟨introduced.known, introduced.refused⟩

/-! ## Two ranges on one server -/

def fresh : Deployment := ⟨.new 1 .traditional, ⟨1, 0, 1000⟩, fun _ => ∅, ∅, false, ∅⟩

def oneHost : FullRangeId → Nat := fun _ => 0

instance (host : FullRangeId → Nat) (deployment : Deployment) (label : Label) :
    Decidable (ReadsEverywhere host deployment label) :=
  match label with
  | .act (.commit ..) => inferInstanceAs (Decidable (∀ range ∈ _, ∃ other ∈ _, _))
  | .act (.get ..) | .act (.put ..) | .act (.del ..) | .act .abort | .act (.gotten _)
  | .act (.prepared ..) | .act (.recorded _) | .act (.committed ..) | .act .joined
  | .act .delegated | .act (.resolved _) | .act (.abortRecorded _) | .act (.aborted _)
  | .act .abortJoined => isTrue trivial
  | .serveGet .. | .servePrepare .. | .serveCommit .. | .serveOther .. => isTrue trivial

/-- It reads from one range, which introduces it, and writes to the other. -/
theorem prepares_are_known_oneHost :
    ∃ deployment, TransitionSystem.Reachable (step oneHost) (ReadsEverywhere oneHost) Initial
      deployment ∧ deployment.pending = {⟨⟨0⟩, 1⟩} ∧
      KnownAt oneHost deployment ⟨⟨0⟩, 1⟩ ∧ deployment.refused = ∅ := by
  obtain ⟨deployment, reached, observed⟩ :=
    @TransitionSystem.exists_reachable_of_run _ _ (step oneHost) (ReadsEverywhere oneHost) Initial _
      fresh ⟨1, .traditional, ⟨1, 0, 1000⟩, fun _ => ∅, rfl⟩
      [.act (.get (some ⟨⟨0⟩, 1⟩) [1]), .serveGet 7 5 .loaded (.ok ⟨none, 1, []⟩),
        .act (.put (some ⟨⟨0⟩, 2⟩) [2] [2]), .act (.commit none 0),
        .servePrepare ⟨⟨0⟩, 2⟩ 8 ⟨false, [([2], [2])], [], none, 0⟩ .loaded (.ok ⟨∅, false⟩)]
      (fun deployment => decide (deployment.pending = {⟨⟨0⟩, 1⟩})) (by decide +kernel)
  have pending := of_decide_eq_true observed
  obtain ⟨known, accepted⟩ := prepares_are_known oneHost reached
  refine ⟨deployment, reached, pending, known _ ?_, accepted⟩
  rw [pending]
  exact Finset.mem_singleton_self _

/-- A transaction that only writes is unknown to the server that it prepares on. -/
theorem write_only_prepare_refused :
    ¬ ∀ host deployment, TransitionSystem.Reachable (step host) (fun _ _ => True) Initial
      deployment → deployment.refused = ∅ := by
  intro always
  obtain ⟨deployment, reached, observed⟩ :=
    @TransitionSystem.exists_reachable_of_run _ _ (step oneHost) (fun _ _ => True) Initial _
      fresh ⟨1, .traditional, ⟨1, 0, 1000⟩, fun _ => ∅, rfl⟩
      [.act (.put (some ⟨⟨0⟩, 2⟩) [2] [2]), .act (.commit none 0),
        .servePrepare ⟨⟨0⟩, 2⟩ 8 ⟨false, [([2], [2])], [], none, 0⟩ .loaded (.ok ⟨∅, false⟩)]
      (fun deployment => decide (deployment.refused ≠ ∅)) (by decide +kernel)
  exact of_decide_eq_true observed (always oneHost deployment reached)

end Deployment

end Sangria.Coordinator
