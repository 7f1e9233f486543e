import Sangria.Coordinator.Commitment

/-!
# Dependencies of acknowledged transactions

The resolver answers a transaction that writes nothing at once, and its worklist
may record a transaction before its dependencies.  Without these two, and
without aborts that are overlooked, a transaction is acknowledged only after
all its dependencies were committed.
-/

namespace Sangria.Resolver.Process

open FiniteMap

variable {process : Process}

theorem InOrder.recorded_dependency (inOrder : InOrder process) {range : FullRangeId}
    {id dep : Uuid} (recorded : id ∈ idsAt .recording range process.history)
    (listed : dep ∈ process.dependenciesOf id) : process.Recorded dep := by
  obtain ⟨event, logged, inside⟩ := List.mem_flatMap.mp recorded
  cases event with
  | recorded other ids =>
    obtain ⟨-, -, mem⟩ := (reports_recorded other ids .recording range id).mp inside
    obtain ⟨earlier, later, history⟩ := List.append_of_mem logged
    obtain ⟨before, after, batch⟩ := List.append_of_mem mem
    rw [Recorded, history, recordedIn, List.flatMap_append, List.flatMap_cons, List.mem_append,
      List.mem_append]
    cases inOrder.recordsInOrder earlier other ids later history before id after batch
        dep listed with
    | inl recorded => exact .inl recorded
    | inr earlier =>
      refine .inr (.inl ?_)
      rw [recordedIds, batch]
      exact List.mem_append_left _ earlier
  | recordedDirectly | notified => cases inside
  | issued | applied | completed => simp [eventIds] at inside

end Sangria.Resolver.Process

namespace Sangria.Coordinator.Transaction

open FiniteMap

variable {tx next : Transaction} {label : Label}

def Wrote (transaction : Transaction) : Prop :=
  transaction.stage = .delegating ∨
    transaction.acknowledged = true ∧ transaction.state = .preparing →
  transaction.writers ≠ ∅

theorem Moves.delegated_of_next (moves : Moves tx label next)
    (delegating : next.stage = .delegating) :
    label = .delegated ∧ next.writers = tx.writers := by
  cases moves with
  | delegate => exact ⟨rfl, rfl⟩
  | aborting _ _ after =>
    obtain ⟨waiting, response, after⟩ := after
    rcases after with rfl | rfl | rfl <;> cases delegating
  | _ => cases delegating

theorem Wrote.step (wrote : Wrote tx) (coherent : Coherent tx)
    (moves : Moves tx label next)
    (writes : label = .delegated → tx.writers ≠ ∅) : Wrote next := by
  rintro (delegating | ⟨acknowledged, preparing⟩)
  · obtain ⟨delegated, same⟩ := moves.delegated_of_next delegating
    rw [same]
    exact writes delegated
  · cases before : tx.acknowledged with
    | true =>
      obtain ⟨-, state, -, same⟩ := (coherent.decided_of_acknowledged before).step coherent moves
      rw [writers_congr same]
      exact wrote (.inr ⟨before, state.symm.trans preparing⟩)
    | false =>
      cases moves with
      | join committing =>
        have committed : tx.state = .committed :=
          coherent.state_of_stage committing rfl
        exact absurd (committed.symm.trans preparing) (by decide)
      | resolve delegating => exact wrote (.inl delegating)
      | _ => exact absurd (before.symm.trans acknowledged) (by decide)

end Sangria.Coordinator.Transaction

namespace Sangria.Coordinator.Coordination

open FiniteMap

open TransitionSystem
open Resolver (Process)
open Resolver.Process (idsAt InOrder)

variable {system next : Coordination} {label : Label}
variable {id : Uuid} {tx tx' : Transaction} {answer : Coordinator.Label}

def writersOf (system : Coordination) (id : Uuid) : Finset FullRangeId :=
  (system.transactions.find id).elim ∅ Transaction.writers

def DelegatesWrites (system : Coordination) : Label → Prop
  | .delegate id _ _ | .delegateLost id => system.writersOf id ≠ ∅
  | _ => True

/-- What a registration releases is released with all that waits for it, and
that writes to no other ranges. -/
def Nested (system : Coordination) : Label → Prop
  | .register id order => system.resolver.Nested (.registerExternal [id] order)
  | .resolve label => system.resolver.Nested label
  | _ => True

def Careful (system : Coordination) (label : Label) : Prop :=
  Unaborted system label ∧ DelegatesWrites system label ∧ Nested system label

def reportedTo (system : Coordination) (id : Uuid) : Finset Uuid :=
  (system.reported.find id).getD ∅

def Remembers (system : Coordination) : Prop :=
  ∀ id, system.reportedTo id =
    (system.transactions.find id).elim ∅ Transaction.dependencies

theorem Remembers.transact (remembers : Remembers system)
    (found : system.transactions.find id = some tx)
    (moves : tx.Moves answer tx') (silent : answer.dependencies = ∅)
    (txs : next.transactions = system.transactions.insert id tx')
    (reported : next.reported = system.reported) : Remembers next := by
  intro other
  have before := remembers other
  unfold reportedTo at before ⊢
  rw [reported, before, txs, find_insert]
  split
  next same =>
    rw [same, found, Option.elim_some, Option.elim_some, moves.dependencies, silent,
      Finset.union_empty]
  next => rfl

theorem Remembers.step (remembers : Remembers system) (moves : Moves system label next) :
    Remembers next := by
  cases moves with
  | @start id commitStrategy unused =>
    intro other
    have before := remembers other
    unfold reportedTo at before ⊢
    rw [put, before, find_insert]
    split
    next same =>
      rw [same, unused]
      rfl
    next => rfl
  | @act id answer tx tx' outside found moves =>
    intro other
    have before := remembers other
    unfold reportedTo at before ⊢
    change (find (system.reported.insert id _) other).getD ∅ =
      (find (system.transactions.insert id tx') other).elim ∅ _
    rw [find_insert, find_insert]
    split
    next same =>
      rw [same, found] at before
      rw [Option.getD_some, Option.elim_some, moves.dependencies]
      exact congrArg (· ∪ _) before
    next => exact before
  | record found moves | delegateLost found moves | answer found _ moves | finish found moves =>
    exact remembers.transact found moves rfl rfl rfl
  | @fail label id answer tx tx' outcomes failing found moves =>
    refine remembers.transact found moves ?_ rfl rfl
    cases answer <;> first | rfl | cases failing
  | delegate found _ _ moves =>
    exact remembers.transact found moves rfl rfl rfl
  | register | abortElsewhere | resolve => exact remembers

structure Clean (system : Coordination) : Prop where
  faithful : Faithful system
  remembers : Remembers system
  inOrder : InOrder system.resolver
  wrote : ∀ id transaction, system.transactions.find id = some transaction → transaction.Wrote

theorem Clean.empty : Clean empty where
  faithful := .empty
  remembers := by
    intro id
    rfl
  inOrder := .empty
  wrote := by simp [Coordination.empty]

theorem Clean.committed_dependency (clean : Clean system)
    (found : system.transactions.find id = some tx)
    (other : tx.commitStrategy ≠ .traditional)
    (acknowledged : tx.acknowledged = true) {dep : Uuid}
    (reported : dep ∈ system.reportedTo id) : system.outcomes.Committed dep := by
  have linked := clean.faithful.linked
  have attached := linked.attached id tx found
  rw [clean.remembers id, found, Option.elim_some] at reported
  obtain ⟨-, committed | ⟨preparing, -⟩⟩ := attached.coherent.acknowledged acknowledged
  · -- The coordinator commits itself only what depends on nothing.
    have direct := attached.coherent.direct committed
    simp only [Transaction.delegates, decide_eq_false_iff_not, not_and, not_not] at direct
    rw [direct other] at reported
    cases reported
  · have writes := clean.wrote id tx found (.inr ⟨acknowledged, preparing⟩)
    have notified := (attached.answered acknowledged preparing).resolve_left writes
    have told : 0 < system.resolver.notifications id := List.count_pos_iff.mpr notified
    have submitted := linked.tracked.accounted.shaped.sound.handed
      (linked.tracked.accounted.handed_of_notified told)
    obtain ⟨-, -, deps, ranges⟩ := attached.submitted submitted
    obtain ⟨range, written⟩ := Finset.nonempty_iff_ne_empty.mpr writes
    have completed := linked.tracked.completed_of_notified told ((ranges range).mpr written)
    have recorded : id ∈ idsAt .recording range system.resolver.history :=
      linked.trailed.events rfl (by decide) completed
    apply clean.faithful.recorded
    exact clean.inOrder.recorded_dependency recorded ((deps dep).mpr reported)

theorem Clean.transact (clean : Clean system)
    (found : system.transactions.find id = some tx)
    (moves : tx.Moves answer tx')
    (writes : answer = .delegated → tx.writers ≠ ∅) (other : Uuid) (after : Transaction)
    (found' : find (system.transactions.insert id tx') other = some after) :
    after.Wrote := by
  rw [find_insert] at found'
  split at found'
  next =>
    cases found'
    exact (clean.wrote id tx found).step
      (clean.faithful.linked.attached id tx found).coherent moves writes
  next => exact clean.wrote other after found'

theorem Clean.step (clean : Clean system) (moves : Moves system label next)
    (careful : Careful system label) : Clean next := by
  obtain ⟨unaborted, writes, nested⟩ := careful
  have faithful := clean.faithful.step moves unaborted
  have remembers := clean.remembers.step moves
  have linked := clean.faithful.linked
  cases moves with
  | @start id commitStrategy unused =>
    refine ⟨faithful, remembers, clean.inOrder, ?_⟩
    intro other after found
    rw [put, find_insert] at found
    split at found
    next =>
      cases found
      rintro (delegating | ⟨acknowledged, -⟩)
      · cases delegating
      · cases acknowledged
    next => exact clean.wrote other after found
  | act outside found moves =>
    refine ⟨faithful, remembers, clean.inOrder, clean.transact found moves ?_⟩
    rintro rfl
    cases outside
  | @record id tx tx' found moves =>
    refine ⟨faithful, remembers, ?_, clean.transact found moves ?_⟩
    · change InOrder (if tx.commitStrategy = .traditional then system.resolver
        else system.resolver.log [.recordedDirectly id])
      split
      · exact clean.inOrder
      · exact clean.inOrder.step (.recordDirectly : system.resolver.Moves (.recordDirectly id) _)
          trivial trivial
    · intro same
      cases same
  | fail failing found moves =>
    refine ⟨faithful, remembers, clean.inOrder, clean.transact found moves ?_⟩
    rintro rfl
    cases failing
  | delegate found enumerates _ moves moves' =>
    refine ⟨faithful, remembers, ?_, clean.transact found moves ?_⟩
    · exact clean.inOrder.step moves' (linked.consistent_commit found moves enumerates) rfl
    · intro _
      rw [DelegatesWrites, writersOf, found] at writes
      exact writes
  | delegateLost found moves =>
    refine ⟨faithful, remembers, clean.inOrder, clean.transact found moves ?_⟩
    intro _
    rw [DelegatesWrites, writersOf, found] at writes
    exact writes
  | answer found _ moves | finish found moves =>
    refine ⟨faithful, remembers, clean.inOrder, clean.transact found moves ?_⟩
    intro same
    cases same
  | @register id order resolver listed moves =>
    refine ⟨faithful, remembers, ?_, clean.wrote⟩
    exact clean.inOrder.step moves (linked.consistent_register listed order) nested
  | abortElsewhere => exact ⟨faithful, remembers, clean.inOrder, clean.wrote⟩
  | @resolve label resolver own moves =>
    refine ⟨faithful, remembers, ?_, clean.wrote⟩
    refine clean.inOrder.step moves ?_ nested
    cases label <;> trivial

/-- A transaction that is acknowledged was told of committed transactions only. -/
theorem reported_dependencies_committed {system : Coordination}
    (reached : Reachable step Careful Initial system) (id : Uuid) (transaction : Transaction)
    (found : system.transactions.find id = some transaction)
    (other : transaction.commitStrategy ≠ .traditional)
    (acknowledged : transaction.acknowledged = true) (dependency : Uuid)
    (reported : dependency ∈ system.reportedTo id) : system.outcomes.Committed dependency := by
  have clean : Clean system := by
    refine reached.invariant ?_ fun _ _ _ clean careful taken =>
      clean.step (.of_step taken) careful
    rintro _ rfl
    exact .empty
  exact clean.committed_dependency found other acknowledged reported

/-! ## A writer and a reader after a pending write -/

def nestedWithin (system : Coordination) : Label → Bool
  | .register id order => system.resolver.nestedWithin (.registerExternal [id] order)
  | .resolve label => system.resolver.nestedWithin label
  | _ => true

theorem Nested.of_nestedWithin (within : system.nestedWithin label = true) :
    Nested system label := by
  cases label with
  | register id order =>
    exact @Process.Nested.of_nestedWithin system.resolver (.registerExternal [id] order) within
  | resolve req => exact @Process.Nested.of_nestedWithin system.resolver req within
  | _ => trivial

def CarefulWithin (system : Coordination) (label : Label) : Prop :=
  Unaborted system label ∧ DelegatesWrites system label ∧ system.nestedWithin label = true

instance (system : Coordination) (label : Label) : Decidable (DelegatesWrites system label) :=
  match label with
  | .delegate .. | .delegateLost _ => inferInstanceAs (Decidable (_ ≠ ∅))
  | .start .. | .act .. | .record _ | .recordFails .. | .answer _ | .refuse _ | .finish _
  | .register .. | .recordAbort _ | .recordAbortFails .. | .abortElsewhere _ | .resolve _ =>
    isTrue trivial

instance (system : Coordination) (label : Label) : Decidable (CarefulWithin system label) :=
  inferInstanceAs (Decidable (_ ∧ _ ∧ _))

/-- The dependency was registered, and the writer is acknowledged after its
batch. -/
theorem reported_dependencies_committed_handedDown :
    ∃ system, Reachable step Careful Initial system ∧ system.Acknowledged 2 ∧
      1 ∈ system.reportedTo 2 ∧ system.outcomes.Committed 1 := by
  obtain ⟨system, within, observed⟩ :=
    @exists_reachable_of_run _ _ step CarefulWithin Initial _ empty rfl
      (handedDown ++ (batchNotified (Process.range 1)).map .resolve ++ [.answer 2])
      (fun system => decide (1 ∈ system.reportedTo 2) &&
        (system.transactions.find 2).elim false fun transaction =>
          decide (transaction.commitStrategy ≠ .traditional) && transaction.acknowledged)
      (by decide +kernel)
  have reached : Reachable step Careful Initial system :=
    within.mono (fun _ _ allowed => ⟨allowed.1, allowed.2.1, .of_nestedWithin allowed.2.2⟩)
      fun _ first => first
  rw [Bool.and_eq_true, decide_eq_true_eq] at observed
  obtain ⟨reported, observed⟩ := observed
  cases found : system.transactions.find 2 with
  | none =>
    rw [found] at observed
    cases observed
  | some transaction =>
    rw [found, Option.elim_some, Bool.and_eq_true, decide_eq_true_eq] at observed
    refine ⟨system, reached, ?_, reported, reported_dependencies_committed reached 2 transaction
      found observed.1 observed.2 1 reported⟩
    rw [Acknowledged, found]
    exact observed.2

/-- Transaction 2 reads from the record of 1, which is prepared only, writes
nothing, and is acknowledged. -/
theorem acknowledges_dirty_read :
    ¬ ∀ system, Reachable step (fun _ _ => True) Initial system →
      ∀ id transaction, system.transactions.find id = some transaction →
        transaction.commitStrategy ≠ .traditional → transaction.acknowledged = true →
        ∀ dependency ∈ system.reportedTo id, system.outcomes.Committed dependency := by
  intro always
  obtain ⟨system, reached, observed⟩ :=
    @exists_reachable_of_run _ _ step (fun _ _ => True) Initial _ empty rfl
      (writer 1 .pipelined (Process.range 1) ∅ ++
        [.start 2 .pipelined, .act 2 (.get (some (Process.range 1)) [1]),
          .act 2 (.gotten (.ok ⟨some [1], 1, [1]⟩)), .act 2 (.commit none 0),
          .act 2 (.prepared (Process.range 1) (.ok ⟨∅, false⟩)),
          .delegate 2 [1] [Process.range 1], .answer 2])
      (fun system => decide (1 ∈ system.reportedTo 2 ∧ system.outcomes.find 1 = none) &&
        (system.transactions.find 2).elim false fun transaction =>
          decide (transaction.commitStrategy ≠ .traditional) && transaction.acknowledged)
      (by decide +kernel)
  rw [Bool.and_eq_true, decide_eq_true_eq] at observed
  obtain ⟨⟨reported, undecided⟩, observed⟩ := observed
  cases found : system.transactions.find 2 with
  | none =>
    rw [found] at observed
    cases observed
  | some transaction =>
    rw [found, Option.elim_some, Bool.and_eq_true, decide_eq_true_eq] at observed
    obtain ⟨info, decided⟩ :=
      always system reached 2 transaction found observed.1 observed.2 1 reported
    rw [undecided] at decided
    cases decided

end Sangria.Coordinator.Coordination
