import Sangria.Coordinator.Links

/-!
# Commits and the recorded decision

Only the traditional strategy looks at the answer of the store before it sends
commits.  As long as no transaction is aborted before its commit is recorded,
ranges are sent commits of committed transactions only.
-/

namespace Sangria.Resolver.Process

open FiniteMap

variable {process next : Process} {label : Label} {id : Uuid}

theorem Moves.recorded_of_next (moves : Moves process label next) (recorded : next.Recorded id) :
    process.Recorded id ∨ id ∈ process.recording label ∨ label = .recordDirectly id := by
  have split {events : List Event} (recorded : id ∈ recordedIn (process.history ++ events)) :
      process.Recorded id ∨ id ∈ recordedIn events := mem_recordedIn_append.mp recorded
  cases moves with
  | recordDirectly =>
    refine (split recorded).imp_right fun now => .inr ?_
    rw [recordedIn, List.flatMap_singleton, recordedIds, List.mem_singleton] at now
    rw [now]
  | notify =>
    refine (split recorded).imp_right fun now => ?_
    simp [recordedIn, recordedIds, List.flatMap_map] at now
  | record found =>
    refine (split recorded).imp_right fun now => .inl ?_
    rw [recordedIn, List.flatMap_singleton, recordedIds] at now
    simp only [recording, found]
    exact now
  | issue | apply | complete =>
    refine (split recorded).imp_right fun now => ?_
    simp [recordedIn, recordedIds] at now
  | fail found _ emitted =>
    refine (split recorded).imp_right fun now => .inl ?_
    rcases emitted with rfl | ⟨⟨rfl, rfl⟩, rfl⟩
    · cases now
    · rw [recordedIn, List.flatMap_singleton, recordedIds] at now
      simp only [recording, found]
      exact now
  | _ => exact .inl recorded

theorem recorded_of_idsAt {range : FullRangeId}
    (reported : id ∈ idsAt .recording range process.history) :
    process.Recorded id := by
  obtain ⟨event, listed, inside⟩ := List.mem_flatMap.mp reported
  refine List.mem_flatMap.mpr ⟨event, listed, ?_⟩
  cases event with
  | recorded other ids => exact ((reports_recorded other ids .recording range id).mp inside).2.2
  | recordedDirectly | notified => cases inside
  | issued | applied | completed => simp [eventIds] at inside

end Sangria.Resolver.Process

namespace Sangria.Coordinator.Coordination

open FiniteMap

open TransitionSystem
open Resolver (Process)
open Resolver.Process (idsAt)
open TxStateStore (Outcomes OpResult)

variable {system next : Coordination} {label : Label}
variable {id : Uuid} {tx tx' : Transaction}

/-- The transaction uses another strategy than the traditional one. -/
def early (system : Coordination) (id : Uuid) : Bool :=
  (system.transactions.find id).elim false fun transaction =>
    decide (transaction.commitStrategy ≠ .traditional)

/-- A commit that nobody looks at the answer of finds no abort. -/
def Unaborted (system : Coordination) : Label → Prop
  | .record id => system.early id = true → system.outcomes.find id ≠ some .transactionIsAborted
  | .resolve label =>
    ∀ id ∈ system.resolver.recording label, system.outcomes.find id ≠ some .transactionIsAborted
  | _ => True

instance (system : Coordination) (label : Label) : Decidable (Unaborted system label) :=
  match label with
  | .record _ => inferInstanceAs (Decidable (_ → _))
  | .resolve _ => inferInstanceAs (Decidable (∀ id ∈ _, _))
  | .start .. | .act .. | .recordFails .. | .delegate .. | .delegateLost _ | .answer _
  | .refuse _ | .finish _ | .register .. | .recordAbort _ | .recordAbortFails ..
  | .abortElsewhere _ => isTrue trivial

structure Faithful (system : Coordination) : Prop where
  linked : Linked system
  recorded : ∀ id, system.resolver.Recorded id → system.outcomes.Committed id
  committed : ∀ id transaction, system.transactions.find id = some transaction →
    transaction.state = .committed → system.outcomes.Committed id

theorem Faithful.empty : Faithful empty where
  linked := .empty
  recorded := by simp [Coordination.empty, Process.empty, Process.Recorded, Process.recordedIn]
  committed := by simp [Coordination.empty]

theorem Faithful.committed_of_sent (faithful : Faithful system) {range : FullRangeId}
    (sent : system.SentCommit id range) : system.outcomes.Committed id := by
  rcases sent with direct | issued
  · cases found : system.transactions.find id with
    | none =>
      rw [found] at direct
      cases direct
    | some tx =>
      rw [found] at direct
      apply faithful.committed id tx found
      by_contra uncommitted
      have unsent := (faithful.linked.attached id tx found).coherent.unsent uncommitted
      rw [Option.elim_some, unsent] at direct
      cases direct
  · apply faithful.recorded
    apply Process.recorded_of_idsAt
    exact faithful.linked.trailed.events rfl (by decide) issued

theorem Faithful.keep (faithful : Faithful system) (linked : Linked next)
    (outcomes : ∀ id, system.outcomes.Committed id → next.outcomes.Committed id)
    (recorded : ∀ id, next.resolver.Recorded id →
      system.resolver.Recorded id ∨ next.outcomes.Committed id)
    (committed : ∀ id tx, next.transactions.find id = some tx →
      tx.state = .committed →
      (∃ before, system.transactions.find id = some before ∧ before.state = .committed) ∨
        next.outcomes.Committed id) : Faithful next where
  linked := linked
  recorded := by
    intro id now
    rcases recorded id now with before | decided
    · exact outcomes id (faithful.recorded id before)
    · exact decided
  committed := by
    intro id tx found state
    rcases committed id tx found state with ⟨before, found', state'⟩ | decided
    · exact outcomes id (faithful.committed id before found' state')
    · exact decided

/-- Who is committed after a transaction went on was so before, or was recorded
by this step. -/
theorem committed_before
    {answer : Coordinator.Label} (found : system.transactions.find id = some tx)
    (moves : tx.Moves answer tx')
    (other : ∀ res, answer ≠ .recorded (some res)) (id' : Uuid) (after : Transaction)
    (found' : find (system.transactions.insert id tx') id' = some after)
    (committed : after.state = .committed) :
    ∃ before, system.transactions.find id' = some before ∧ before.state = .committed := by
  rw [find_insert] at found'
  split at found'
  next same =>
    cases found'
    rcases moves.committed_of_state committed with before | ⟨res, recorded⟩
    · exact ⟨tx, same ▸ found, before⟩
    · exact absurd recorded (other res)
  next => exact ⟨after, found', committed⟩

theorem committed_of_early (found : system.transactions.find id = some tx)
    (unaborted : Unaborted system (.record id))
    (other : tx.commitStrategy ≠ .traditional) :
    (system.outcomes.tryCommitTransaction id 0).2.Committed id := by
  apply Outcomes.committed_of_tryCommit
  apply unaborted
  rw [early, found, Option.elim_some, decide_eq_true_eq]
  exact other

theorem committed_of_record (found : system.transactions.find id = some tx)
    (moves : tx.Moves
      (.recorded (some (system.outcomes.tryCommitTransaction id 0).1)) tx')
    (unaborted : Unaborted system (.record id)) (committed : tx'.state = .committed)
    (coherent : tx.Coherent) :
    (system.outcomes.tryCommitTransaction id 0).2.Committed id := by
  cases moves with
  | refuse idle call | access idle call => cases call
  | aborting ofAbort => cases ofAbort
  | notRecorded preparing =>
    have state : tx.state = .preparing := coherent.state_of_stage preparing rfl
    exact absurd (state.symm.trans committed) (by decide)
  | record _ _ accepted =>
    by_cases traditional : tx.commitStrategy = .traditional
    · obtain ⟨info, answered⟩ := accepted traditional
      refine ⟨info, ?_⟩
      rw [← answered]
      exact (Outcomes.find_settle ..).trans (if_pos rfl)
    · exact committed_of_early found unaborted traditional

theorem Faithful.step (faithful : Faithful system) (moves : Moves system label next)
    (unaborted : Unaborted system label) : Faithful next := by
  have linked := faithful.linked.step moves
  have settles {id : Uuid} {attempt : OpResult} (other : Uuid)
      (committed : system.outcomes.Committed other) :
      (system.outcomes.settle id attempt).Committed other := committed.settle
  cases moves with
  | @start id commitStrategy unused =>
    refine faithful.keep linked (fun _ before => before) (fun _ before => .inl before) ?_
    intro other tx found state
    rw [put, find_insert] at found
    split at found
    next =>
      cases found
      cases state
    next => exact .inl ⟨tx, found, state⟩
  | act outside found moves =>
    refine faithful.keep linked (fun _ before => before) (fun _ before => .inl before) ?_
    intro other tx found' state
    refine .inl (committed_before found moves ?_ other tx found' state)
    rintro res rfl
    cases outside
  | @record id tx tx' found moves =>
    have coherent := (faithful.linked.attached id tx found).coherent
    refine faithful.keep linked (fun _ => settles _) ?_ ?_
    · intro other now
      change (if tx.commitStrategy = .traditional then system.resolver
        else system.resolver.log [.recordedDirectly id]).Recorded other at now
      split at now
      next => exact .inl now
      next ne =>
        refine (Process.mem_recordedIn_append.mp now).imp_right fun direct => ?_
        rw [Process.recordedIn, List.flatMap_singleton, Process.recordedIds,
          List.mem_singleton] at direct
        rw [direct]
        exact committed_of_early found unaborted ne
    · intro other after found' state
      change find (system.transactions.insert id tx') other = some after
        at found'
      rw [find_insert] at found'
      split at found'
      next same =>
        cases found'
        rw [same]
        exact .inr (committed_of_record found moves unaborted state coherent)
      next => exact .inl ⟨after, found', state⟩
  | @fail label id answer tx tx' outcomes failing found moves stored =>
    refine faithful.keep linked ?_ (fun _ before => .inl before) ?_
    · intro other committed
      rcases stored with rfl | ⟨attempt, rfl⟩
      · exact committed
      · exact committed.settle
    · intro other after found' state
      refine .inl (committed_before found moves ?_ other after found' state)
      rintro res rfl
      cases failing
  | @delegate id deps ranges tx tx' resolver found enumerates
      enumerates' moves moves' =>
      refine faithful.keep linked (fun _ before => before) ?_ ?_
      · intro other now
        rcases moves'.recorded_of_next now with before | batch | direct
        · exact .inl before
        · cases batch
        · cases direct
      · intro other after found' state
        refine .inl (committed_before found moves ?_ other after found' state)
        intro res same
        cases same
  | delegateLost found moves | answer found told moves | finish found moves =>
    refine faithful.keep linked (fun _ before => before) (fun _ before => .inl before) ?_
    intro other after found' state
    refine .inl (committed_before found moves ?_ other after found' state)
    intro res same
    cases same
  | register _ moves =>
    refine faithful.keep linked (fun _ before => before) ?_ fun _ after found state =>
      .inl ⟨after, found, state⟩
    intro other now
    rcases moves.recorded_of_next now with before | batch | direct
    · exact .inl before
    · cases batch
    · cases direct
  | abortElsewhere =>
    exact faithful.keep linked settles (fun _ before => .inl before) fun _ after found state =>
      .inl ⟨after, found, state⟩
  | resolve own moves =>
    refine faithful.keep linked (fun _ before => before.tryBatchCommit _ _) ?_
      fun _ after found state => .inl ⟨after, found, state⟩
    intro other now
    rcases moves.recorded_of_next now with before | batch | rfl
    · exact .inl before
    · exact .inr (Outcomes.committed_of_tryBatchCommit 0 unaborted batch)
    · cases own

/-- Whatever strategies are used and whoever aborts transactions: as long as
nobody is aborted before a commit whose answer is ignored, the ranges are sent
commits of transactions that the store has committed. -/
theorem committed_of_sentCommit {system : Coordination}
    (reached : Reachable step Unaborted Initial system) (id : Uuid) (range : FullRangeId)
    (sent : system.SentCommit id range) : system.outcomes.Committed id := by
  have faithful : Faithful system := by
    refine reached.invariant ?_ fun _ _ _ faithful unaborted taken =>
      faithful.step (.of_step taken) unaborted
    rintro _ rfl
    exact .empty
  exact faithful.committed_of_sent sent

/-! ## Two transactions that write to one range -/

/-- A transaction with one write, up to the answer of its prepare. -/
def writer (id : Uuid) (commitStrategy : CommitStrategy) (range : FullRangeId)
    (dependencies : Finset Uuid) : List Label :=
  [.start id commitStrategy, .act id (.put (some range) [1] [1]), .act id (.commit none 0),
    .act id (.prepared range (.ok ⟨dependencies, true⟩))]

/-- Transaction 1 commits itself and is registered; 2 depends on it and is
delegated. -/
def handedDown : List Label :=
  writer 1 .pipelined (Process.range 1) ∅ ++
    [.record 1, .act 1 (.committed (Process.range 1) (.ok ())), .finish 1,
      .register 1 .ascending] ++
    writer 2 .pipelined (Process.range 1) {1} ++ [.delegate 2 [1] [Process.range 1]]

def batchNotified (range : FullRangeId) : List Process.Label :=
  Process.handOver [range] 0 ++ Process.commitRange 0 range ++ [.join 0, .countDown 0, .notify 0]

/-- Both the coordinator and the resolver send a commit. -/
theorem committed_of_sentCommit_handedDown :
    ∃ system, Reachable step Unaborted Initial system ∧
      system.SentCommit 1 (Process.range 1) ∧ system.SentCommit 2 (Process.range 1) ∧
      system.outcomes.Committed 1 ∧ system.outcomes.Committed 2 := by
  obtain ⟨system, reached, observed⟩ :=
    @exists_reachable_of_run _ _ step Unaborted Initial _ empty rfl
      (handedDown ++ (batchNotified (Process.range 1)).map .resolve)
      (fun system => decide (system.SentCommit 1 (Process.range 1) ∧
        system.SentCommit 2 (Process.range 1))) (by decide +kernel)
  obtain ⟨first, second⟩ := of_decide_eq_true observed
  exact ⟨system, reached, first, second, committed_of_sentCommit reached 1 _ first,
    committed_of_sentCommit reached 2 _ second⟩

/-- The transaction is aborted by somebody else; its coordinator ignores the
answer of the store. -/
theorem commits_aborted_transaction :
    ¬ ∀ system, Reachable step (fun _ _ => True) Initial system →
      ∀ id range, system.SentCommit id range → system.outcomes.Committed id := by
  intro always
  obtain ⟨system, reached, observed⟩ :=
    @exists_reachable_of_run _ _ step (fun _ _ => True) Initial _ empty rfl
      (writer 1 .pipelined (Process.range 1) ∅ ++ [.abortElsewhere 1, .record 1])
      (fun system => decide (system.SentCommit 1 (Process.range 1) ∧
        system.outcomes.find 1 = some .transactionIsAborted)) (by decide +kernel)
  obtain ⟨sent, aborted⟩ := of_decide_eq_true observed
  exact (always system reached 1 _ sent).ne_aborted aborted

end Sangria.Coordinator.Coordination
