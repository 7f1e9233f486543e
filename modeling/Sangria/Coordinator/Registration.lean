import Sangria.Coordinator.Commitment

/-!
# Registered transactions

A coordinator waits for the answers to its commits and looks at none of them;
the resolver drops a batch that was not answered with success.  If the commits
that coordinators send themselves succeed, a transaction is registered and
acknowledged only after all ranges that were sent its commit have applied it.
-/

namespace Sangria.Resolver.Process

open FiniteMap
open TransitionSystem Release

variable {process next : Process} {label : Label}

def Solitary (process : Process) : Label → Prop
  | .registerExternal ids _ | .register ids _ =>
    ∀ id dependent,
      Released process.graph.state.Blocks process.graph.Waiting (· ∈ ids) id →
      ¬ process.graph.state.Blocks id dependent
  | _ => True

/-- What is handed over has no unresolved dependencies. -/
structure Cleared (process : Process) : Prop where
  awaiting : Awaiting (fun _ _ => False) process
  resolved : ∀ id ∈ process.graph.handed, ∀ dependency ∈ process.dependenciesOf id,
    dependency ∈ process.graph.state.resolvedTransactions

theorem Cleared.empty : Cleared empty where
  awaiting := .empty
  resolved := by simp [Process.empty, Graph.empty]

theorem Cleared.released {ids : List Uuid} {state : State} {ready : List TransactionInfo}
    (cleared : Cleared process)
    (registered : Registered process.graph.state process.graph.Waiting ids state ready)
    (solitary : ∀ id dependent,
      Released process.graph.state.Blocks process.graph.Waiting (· ∈ ids) id →
      ¬ process.graph.state.Blocks id dependent)
    {id dep : Uuid} (released : id ∈ ready.map (·.id))
    (listed : dep ∈ process.dependenciesOf id) :
    dep ∈ state.resolvedTransactions := by
  rw [registered.resolved, Finset.mem_union, List.mem_toFinset]
  have waits : process.graph.Waiting id := registered.first.waits released
  rcases cleared.awaiting.awaited id waits dep listed with blocks | done | never
  · obtain ⟨before, after, split⟩ := List.append_of_mem released
    rcases (registered.first before id after split).2 dep blocks with named | earlier
    · exact .inr named
    · have released' := (registered.released dep).mp (split ▸ List.mem_append_left _ earlier)
      exact absurd blocks (solitary dep id released')
  · exact .inl done
  · exact never.elim

theorem Cleared.step (cleared : Cleared process) (moves : Moves process label next)
    (consistent : Consistent process label) (solitary : Solitary process label) :
    Cleared next := by
  have once := consistent.submittedOnce
  have linked := cleared.awaiting.sound.linked
  have follows : Follows (fun _ _ => False) process label := by
    cases label with
    | registerExternal | register =>
      exact fun id dependent released blocks => absurd blocks (solitary id dependent released)
    | _ => trivial
  refine ⟨cleared.awaiting.step moves once follows fun _ _ _ never => never, ?_⟩
  have carried {id dep : Uuid} (handed : id ∈ process.graph.handed)
      (listed : dep ∈ next.dependenciesOf id) :
      dep ∈ process.graph.state.resolvedTransactions := by
    rw [moves.dependenciesOf once (cleared.awaiting.sound.handed handed)] at listed
    exact cleared.resolved id handed dep listed
  intro id handed dep listed
  cases moves with
  | @submit transactionId deps participants fake state info writes free res =>
    have enrolled := State.enrolled res
    change dep ∈ state.resolvedTransactions
    rw [enrolled.resolved]
    by_cases same : id = transactionId
    · subst same
      have ready : info.numDependencies = 0 := by
        by_contra pending
        simp only [if_neg pending] at handed
        exact consistent.1 (cleared.awaiting.sound.handed handed)
      rw [enrolled.count, List.length_eq_zero_iff, List.filter_eq_nil_iff] at ready
      have listed' : dep ∈ deps := by simpa [dependenciesOf] using listed
      simpa using ready dep listed'
    · refine carried ?_ listed
      simp only at handed
      split at handed
      · exact (Finset.mem_insert.mp handed).resolve_left same
      · exact handed
  | registerExternal free res | register listed' free res =>
    have registered := linked.registered res
    rcases Finset.mem_union.mp handed with before | now
    · change dep ∈ State.resolvedTransactions _
      rw [registered.resolved]
      exact Finset.mem_union_left _ (carried before listed)
    · exact cleared.released registered solitary (List.mem_toFinset.mp now) listed
  | _ => exact carried handed listed

end Sangria.Resolver.Process

namespace Sangria.Coordinator.Transaction

open FiniteMap

variable {tx next : Transaction} {label : Label}

def awaited : Stage → Finset FullRangeId
  | .committing waiting _ => waiting
  | _ => ∅

def Succeeds : Label → Prop
  | .committed _ .error | .committed _ .panicked => False
  | _ => True

theorem awaited_of_idle (idle : tx.idle = true) : awaited tx.stage = ∅ := by
  unfold Transaction.idle at idle
  split at idle
  next here =>
    rw [here]
    rfl
  next here =>
    rw [here]
    rfl
  next => cases idle

/-- The ranges that were sent a commit have answered, or are waited for. -/
def Served (transaction : Transaction) : Prop :=
  transaction.sent ⊆ transaction.replied ∪ awaited transaction.stage

theorem Served.of_quiet (served : Served tx) (quiet : awaited tx.stage = ∅)
    (sent : next.sent = tx.sent) (replied : next.replied = tx.replied) :
    Served next := by
  unfold Served at served ⊢
  rw [quiet, Finset.union_empty] at served
  rw [sent, replied]
  exact served.trans Finset.subset_union_left

theorem Served.step (served : Served tx) (coherent : Coherent tx)
    (moves : Moves tx label next) (succeeds : Succeeds label) : Served next := by
  cases moves with
  | refuse idle | access idle | ask idle | abort idle | prepare idle =>
    exact served.of_quiet (awaited_of_idle idle) rfl rfl
  | receive here | lose here | leaderChanged here | prepared here | prepareFailed here
  | prepareError here | notRecorded here | delegate here | resolve here | unresolved here =>
    refine served.of_quiet ?_ rfl rfl
    rw [here]
    rfl
  | record here =>
    have state : tx.state = .preparing := coherent.state_of_stage here rfl
    have unsent := coherent.unsent (by rw [state]; decide)
    change tx.sent ∪ tx.writers ⊆ tx.replied ∪ tx.writers
    rw [unsent, Finset.empty_union]
    exact Finset.subset_union_right
  | @committed waiting early range reply here listed =>
    unfold Served at served ⊢
    rw [here] at served
    cases reply with
    | error | panicked => exact succeeds.elim
    | ok =>
      change tx.sent ⊆ insert range tx.replied ∪ waiting.erase range
      intro other sent
      have before := served sent
      simp only [awaited, Finset.mem_union, Finset.mem_insert, Finset.mem_erase] at before ⊢
      tauto
  | join here =>
    unfold Served at served ⊢
    rw [here] at served
    exact served
  | aborting _ before =>
    refine served.of_quiet ?_ rfl rfl
    cases before with
    | inl here | inr here =>
      rw [here]
      rfl

end Sangria.Coordinator.Transaction

namespace Sangria.Coordinator.Coordination

open FiniteMap

open TransitionSystem
open Resolver (Process)
open Resolver.Process (idsAt Cleared)

variable {system next : Coordination} {label : Label}

/-- The transaction is registered as committed in the resolver, or a call that
does it was spawned. -/
def Registered (system : Coordination) (id : Uuid) : Prop :=
  id ∈ system.registering ∨ (∃ ids ∈ system.resolver.registers, id ∈ ids) ∨
    id ∈ system.resolver.graph.state.resolvedTransactions

def RegistersReplied (system : Coordination) : Prop :=
  ∀ id, system.Registered id ∨ system.Acknowledged id →
    ∀ range, system.SentCommit id range → system.RepliedCommit id range

/-- No dependent is released before all ranges applied what it depends on. -/
def ReleasesApplied (system : Coordination) : Prop :=
  ∀ id ∈ system.resolver.graph.handed, ∀ dependency ∈ system.resolver.dependenciesOf id,
    ∀ range ∈ (system.transactions.find dependency).elim ∅ Transaction.writers,
      system.RepliedCommit dependency range

def Succeeds (_ : Coordination) : Label → Prop
  | .act _ answer => Transaction.Succeeds answer
  | _ => True

def Solitary (system : Coordination) : Label → Prop
  | .register id order => system.resolver.Solitary (.registerExternal [id] order)
  | .resolve label => system.resolver.Solitary label
  | _ => True

structure Answered (system : Coordination) : Prop where
  linked : Linked system
  served : ∀ id transaction, system.transactions.find id = some transaction →
    transaction.Served

theorem Answered.empty : Answered empty where
  linked := .empty
  served := by simp [Coordination.empty]

theorem Answered.transact {id : Uuid} {tx tx' : Transaction}
    {answer : Coordinator.Label} (answered : Answered system)
    (found : system.transactions.find id = some tx)
    (moves : tx.Moves answer tx') (succeeds : Transaction.Succeeds answer)
    (other : Uuid) (after : Transaction)
    (found' : find (system.transactions.insert id tx') other = some after) :
    after.Served := by
  rw [find_insert] at found'
  split at found'
  next =>
    cases found'
    exact (answered.served id tx found).step
      (answered.linked.attached id tx found).coherent moves succeeds
  next => exact answered.served other after found'

theorem Answered.step (answered : Answered system) (moves : Moves system label next)
    (succeeds : Succeeds system label) : Answered next := by
  refine ⟨answered.linked.step moves, ?_⟩
  cases moves with
  | @start id commitStrategy unused =>
    intro other after found
    rw [put, find_insert] at found
    split at found
    next =>
      cases found
      exact Finset.empty_subset _
    next => exact answered.served other after found
  | act _ found moves => exact answered.transact found moves succeeds
  | @fail label id answer tx tx' outcomes failing found moves =>
    refine answered.transact found moves ?_
    cases answer <;> trivial
  | record found moves | delegate found _ _ moves | delegateLost found moves
  | answer found _ moves | finish found moves => exact answered.transact found moves trivial
  | register | abortElsewhere | resolve => exact answered.served

theorem Linked.completed_of_notified (linked : Linked system) {id : Uuid}
    (told : 0 < system.resolver.notifications id) {tx : Transaction}
    (found : system.transactions.find id = some tx) {range : FullRangeId}
    (written : range ∈ tx.writers) :
    id ∈ idsAt .completing range system.resolver.history := by
  have submitted := linked.tracked.accounted.shaped.sound.handed
    (linked.tracked.accounted.handed_of_notified told)
  have ranges := ((linked.attached id tx found).submitted submitted).2.2.2
  exact linked.tracked.completed_of_notified told ((ranges range).mpr written)

theorem Linked.replied_of_notified (linked : Linked system) {id : Uuid}
    (told : 0 < system.resolver.notifications id) {tx : Transaction}
    (found : system.transactions.find id = some tx) {range : FullRangeId}
    (written : range ∈ tx.writers) : system.RepliedCommit id range :=
  .inr (linked.completed_of_notified told found written)

theorem Linked.written_of_sent (linked : Linked system) {id : Uuid} {range : FullRangeId}
    (sent : system.SentCommit id range) :
    ∃ tx, system.transactions.find id = some tx ∧
      range ∈ tx.writers ∧
      (tx.state = .committed ∧ range ∈ tx.sent ∨
        tx.state = .preparing) := by
  rcases sent with direct | issued
  · cases found : system.transactions.find id with
    | none =>
      rw [found] at direct
      cases direct
    | some tx =>
      rw [found, Option.elim_some] at direct
      have coherent := (linked.attached id tx found).coherent
      have committed : tx.state = .committed := by
        by_contra uncommitted
        rw [coherent.unsent uncommitted] at direct
        cases direct
      refine ⟨tx, rfl, ?_, .inl ⟨committed, direct⟩⟩
      rwa [coherent.sent, if_pos committed] at direct
  · obtain ⟨submitted, writes⟩ := linked.addressed.issued range id issued
    obtain ⟨tx, found⟩ := linked.known id (.inl submitted)
    obtain ⟨-, preparing, -, ranges⟩ :=
      (linked.attached id tx found).submitted submitted
    exact ⟨tx, found, (ranges range).mp writes, .inr preparing⟩

theorem Answered.replied_of_acknowledged (answered : Answered system) {id : Uuid}
    {tx : Transaction} (found : system.transactions.find id = some tx)
    (acknowledged : tx.acknowledged = true) {range : FullRangeId}
    (written : range ∈ tx.writers) : system.RepliedCommit id range := by
  have linked := answered.linked
  have attached := linked.attached id tx found
  obtain ⟨⟨response, returned⟩, committed | ⟨preparing, -⟩⟩ :=
    attached.coherent.acknowledged acknowledged
  · left
    have served := answered.served id tx found
    rw [Transaction.Served, attached.coherent.sent, if_pos committed, returned] at served
    rw [found, Option.elim_some]
    exact (Finset.mem_union.mp (served written)).resolve_right (Finset.notMem_empty range)
  · have writes : tx.writers ≠ ∅ := Finset.ne_empty_of_mem written
    have notified := (attached.answered acknowledged preparing).resolve_left writes
    exact linked.replied_of_notified (List.count_pos_iff.mpr notified) found written

theorem Answered.applied_of_registered (answered : Answered system) {id : Uuid}
    (registered : system.Registered id ∨ system.Acknowledged id) {tx : Transaction}
    (found : system.transactions.find id = some tx) {range : FullRangeId}
    (written : range ∈ tx.writers) : system.RepliedCommit id range := by
  have linked := answered.linked
  have direct (acknowledged : system.Acknowledged id) : system.RepliedCommit id range := by
    rw [Acknowledged, found] at acknowledged
    exact answered.replied_of_acknowledged found acknowledged written
  rcases registered with (waiting | ⟨ids, listed, mem⟩ | resolved) | acknowledged
  · exact direct (linked.registered id (.inl waiting)).2
  · exact linked.replied_of_notified (linked.tracked.registers ids listed id mem) found
      written
  · rcases linked.tracked.resolved id resolved with external | told
    · exact direct (linked.registered id (.inr external)).2
    · exact linked.replied_of_notified told found written
  · exact direct acknowledged

theorem Answered.registersReplied (answered : Answered system) : RegistersReplied system := by
  intro id registered range sent
  obtain ⟨tx, found, written, -⟩ := answered.linked.written_of_sent sent
  exact answered.applied_of_registered registered found written

structure Released (system : Coordination) : Prop where
  answered : Answered system
  cleared : Cleared system.resolver

theorem Released.releasesApplied (released : Released system) : ReleasesApplied system := by
  intro id handed dep listed range written
  cases found : system.transactions.find dep with
  | none =>
    rw [found] at written
    cases written
  | some =>
    rw [found, Option.elim_some] at written
    have resolved := released.cleared.resolved id handed dep listed
    exact released.answered.applied_of_registered (.inl (.inr (.inr resolved))) found written

theorem Released.step (released : Released system) (moves : Moves system label next)
    (succeeds : Succeeds system label) (solitary : Solitary system label) : Released next := by
  have linked := released.answered.linked
  have cleared := released.cleared
  refine ⟨released.answered.step moves succeeds, ?_⟩
  cases moves with
  | @record id tx tx' found moves =>
    change Cleared (if tx.commitStrategy = .traditional then system.resolver
      else system.resolver.log [.recordedDirectly id])
    split
    · exact cleared
    · exact cleared.step (.recordDirectly : system.resolver.Moves (.recordDirectly id) _)
        trivial trivial
  | delegate found enumerates _ moves moves' =>
    exact cleared.step moves' (linked.consistent_commit found moves enumerates) trivial
  | @register id order resolver listed moves =>
    exact cleared.step moves (linked.consistent_register listed order) solitary
  | @resolve label resolver own moves =>
    refine cleared.step moves ?_ solitary
    cases label <;> trivial
  | _ => exact cleared

/-- If all commits that coordinators send are answered with success, only
transactions that were applied are registered and acknowledged.  If in addition
nobody waits for what a registration releases, their dependents are released
only then. -/
theorem registers_and_releases_applied {system : Coordination}
    (reached : Reachable step Succeeds Initial system) :
    RegistersReplied system ∧
      (Reachable step (fun system label => Succeeds system label ∧ Solitary system label)
        Initial system → ReleasesApplied system) := by
  constructor
  · apply Answered.registersReplied
    refine reached.invariant ?_ fun _ _ _ answered succeeds taken =>
      answered.step (.of_step taken) succeeds
    rintro _ rfl
    exact .empty
  · intro reached'
    have released : Released system := by
      refine reached'.invariant ?_ fun _ _ _ released guard taken =>
        released.step (.of_step taken) guard.1 guard.2
      rintro _ rfl
      exact ⟨.empty, .empty⟩
    exact released.releasesApplied

/-! ## A registered writer, and one whose range fails -/

/-- An executable sufficient test: nobody waits for a waiting transaction. -/
def solitaryWithin (process : Process) : Process.Label → Bool
  | .registerExternal .. | .register .. =>
    decide (∀ id ∈ process.graph.state.infoPerTransaction.keys, process.graph.Waiting id →
      (process.graph.state.infoPerTransaction.find id).elim (∅ : Finset Uuid)
        Resolver.TransactionInfo.dependents = ∅)
  | _ => true

theorem solitary_of_within {process : Process} {req : Process.Label}
    (within : solitaryWithin process req = true) : process.Solitary req := by
  have alone (within : ∀ id ∈ process.graph.state.infoPerTransaction.keys,
      process.graph.Waiting id → (process.graph.state.infoPerTransaction.find id).elim
        (∅ : Finset Uuid) Resolver.TransactionInfo.dependents = ∅) {id dependent : Uuid}
      (waits : process.graph.Waiting id) : ¬ process.graph.state.Blocks id dependent := by
    rintro ⟨info, found, listed⟩
    have none := within id (mem_keys.mpr ⟨info, found⟩) waits
    rw [found, Option.elim_some] at none
    rw [none] at listed
    cases listed
  cases req with
  | registerExternal ids order | register ids order =>
    exact fun id dependent released => alone (of_decide_eq_true within) released.waits
  | _ => trivial

def SolitaryWithin (system : Coordination) : Label → Prop
  | .register id order => solitaryWithin system.resolver (.registerExternal [id] order) = true
  | .resolve label => solitaryWithin system.resolver label = true
  | _ => True

theorem Solitary.of_within (within : SolitaryWithin system label) : Solitary system label := by
  cases label with
  | register => exact solitary_of_within within
  | resolve => exact solitary_of_within within
  | _ => trivial

instance (system : Coordination) (label : Label) : Decidable (Succeeds system label) :=
  match label with
  | .act _ (.committed _ .error) | .act _ (.committed _ .panicked) => isFalse id
  | .act _ (.committed _ (.ok _)) => isTrue trivial
  | .act _ (.get ..) | .act _ (.put ..) | .act _ (.del ..) | .act _ (.commit ..)
  | .act _ .abort | .act _ (.gotten _) | .act _ (.prepared ..) | .act _ (.recorded _)
  | .act _ .joined | .act _ .delegated | .act _ (.resolved _) | .act _ (.abortRecorded _)
  | .act _ (.aborted _) | .act _ .abortJoined => isTrue trivial
  | .start .. | .record _ | .recordFails .. | .delegate .. | .delegateLost _ | .answer _
  | .refuse _ | .finish _ | .register .. | .recordAbort _ | .recordAbortFails ..
  | .abortElsewhere _ | .resolve _ => isTrue trivial

instance (system : Coordination) (label : Label) : Decidable (SolitaryWithin system label) :=
  match label with
  | .register .. => inferInstanceAs (Decidable (_ = true))
  | .resolve _ => inferInstanceAs (Decidable (_ = true))
  | .start .. | .act .. | .record _ | .recordFails .. | .delegate .. | .delegateLost _
  | .answer _ | .refuse _ | .finish _ | .recordAbort _ | .recordAbortFails ..
  | .abortElsewhere _ => isTrue trivial

/-- One transaction is registered by its coordinator and one by the resolver. -/
theorem registers_and_releases_applied_handedDown :
    ∃ system, Reachable step (fun system label => Succeeds system label ∧ Solitary system label)
        Initial system ∧
      system.Registered 1 ∧ system.Registered 2 ∧ 2 ∈ system.resolver.graph.handed ∧
      system.RepliedCommit 1 (Process.range 1) ∧ system.RepliedCommit 2 (Process.range 1) ∧
      ReleasesApplied system := by
  obtain ⟨system, within, observed⟩ :=
    @exists_reachable_of_run _ _ step
      (fun system label => Succeeds system label ∧ SolitaryWithin system label) Initial _ empty rfl
      (handedDown ++ (batchNotified (Process.range 1)).map .resolve)
      (fun system => decide (1 ∈ system.resolver.graph.state.resolvedTransactions ∧
        [2] ∈ system.resolver.registers ∧ 2 ∈ system.resolver.graph.handed ∧
        system.SentCommit 1 (Process.range 1) ∧ system.SentCommit 2 (Process.range 1)))
      (by decide +kernel)
  have reached : Reachable step
      (fun system label => Succeeds system label ∧ Solitary system label) Initial system :=
    within.mono (fun _ _ allowed => ⟨allowed.1, .of_within allowed.2⟩) fun _ first => first
  obtain ⟨resolved, listed, handed, first, second⟩ := of_decide_eq_true observed
  have registered : system.Registered 1 := .inr (.inr resolved)
  have registered' : system.Registered 2 :=
    .inr (.inl ⟨[2], listed, List.mem_singleton_self 2⟩)
  obtain ⟨replied, releases⟩ := registers_and_releases_applied
    (reached.mono (fun _ _ allowed => allowed.1) fun _ first => first)
  exact ⟨system, reached, registered, registered', handed, replied 1 (.inl registered) _ first,
    replied 2 (.inl registered') _ second, releases reached⟩

/-- The range answers the commit with an error; the coordinator registers the
transaction and tells its client that it committed. -/
theorem registers_unapplied_transaction :
    ¬ ∀ system, Reachable step (fun _ _ => True) Initial system →
      RegistersReplied system ∧ ReleasesApplied system := by
  intro always
  obtain ⟨system, reached, observed⟩ :=
    @exists_reachable_of_run _ _ step (fun _ _ => True) Initial _ empty rfl
      (writer 1 .pipelined (Process.range 1) ∅ ++
        [.record 1, .act 1 (.committed (Process.range 1) .error), .finish 1,
          .register 1 .ascending])
      (fun system => decide (1 ∈ system.resolver.graph.state.resolvedTransactions ∧
        system.SentCommit 1 (Process.range 1) ∧ ¬ system.RepliedCommit 1 (Process.range 1)))
      (by decide +kernel)
  obtain ⟨resolved, sent, unapplied⟩ := of_decide_eq_true observed
  exact unapplied ((always system reached).1 1 (.inl (.inr (.inr resolved))) _ sent)

theorem Linked.not_issued_of_sent (linked : Linked system) {id : Uuid} {tx : Transaction}
    (found : system.transactions.find id = some tx) {range : FullRangeId}
    (sent : range ∈ tx.sent) : id ∉ idsAt .issuing range system.resolver.history := by
  intro issued
  have attached := linked.attached id tx found
  have preparing := (attached.submitted (linked.addressed.issued range id issued).1).2.1
  rw [attached.coherent.sent, preparing] at sent
  cases sent

/-- Whatever fails: when its client is told, the commit of a transaction has been sent to the
ranges that it wrote to and to no others, by the coordinator or by the resolver but not by both. -/
theorem sentCommit_of_acknowledged (reached : Reachable step (fun _ _ => True) Initial system)
    {id : Uuid} {tx : Transaction} (found : system.transactions.find id = some tx)
    (told : tx.acknowledged = true) (range : FullRangeId) :
    (system.SentCommit id range ↔ range ∈ tx.writers) ∧
      (range ∈ tx.sent → id ∉ idsAt .issuing range system.resolver.history) := by
  have linked : Linked system := by
    refine reached.invariant ?_ fun _ _ _ linked _ taken => linked.step (.of_step taken)
    rintro _ rfl
    exact .empty
  have attached := linked.attached id tx found
  refine ⟨⟨fun sent => ?_, fun written => ?_⟩, linked.not_issued_of_sent found⟩
  · obtain ⟨_, found', written, _⟩ := linked.written_of_sent sent
    cases found.symm.trans found'
    exact written
  · rcases (attached.coherent.acknowledged told).2 with committed | ⟨preparing, _⟩
    · left
      rw [found, Option.elim_some, attached.coherent.sent, if_pos committed]
      exact written
    · -- The resolver answered: all the groups have completed.
      have reported := (attached.answered told preparing).resolve_left
        (Finset.ne_empty_of_mem written)
      exact .inr (linked.trailed.events rfl (by decide)
        (linked.completed_of_notified (List.count_pos_iff.mpr reported) found written))

theorem sentCommit_handedDown : ∃ (system : Coordination) (tx : Transaction),
    Reachable step (fun _ _ => True) Initial system ∧ find system.transactions 2 = some tx ∧
    tx.acknowledged = true ∧ ∀ range, system.SentCommit 2 range ↔ range ∈ tx.writers := by
  obtain ⟨system, reached, passed⟩ := @exists_reachable_of_run _ _ step (fun _ _ => True) Initial _
    empty rfl (handedDown ++ (batchNotified (Process.range 1)).map .resolve ++ [.answer 2])
    (fun system => (system.transactions.find 2).any (·.acknowledged)) (by decide +kernel)
  obtain ⟨tx, found, told⟩ := (Option.any_eq_true ..).mp passed
  exact ⟨system, tx, reached, found, told,
    fun range => (sentCommit_of_acknowledged reached found told range).1⟩

end Sangria.Coordinator.Coordination
