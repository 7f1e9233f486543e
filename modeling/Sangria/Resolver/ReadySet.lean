import Sangria.Resolver.DependencyGraph
import Sangria.Resolver.GroupCommit

/-!
# The ready set

The worklist of `register_committed_transactions` computes a least fixpoint: the
waiting transactions all of whose pending dependencies are registered by the
call or become ready themselves.  They are listed in an order of the
dependencies that are left, and keep it in every group.
-/

namespace Sangria.Resolver

open Release TransitionSystem

/-- No transaction stands before one of its pending dependencies, unless the
call registers the dependency. -/
def DependenciesFirst (state : State) (ids : List Uuid) (transactions : List TransactionInfo) :
    Prop :=
  transactions.Pairwise fun earlier later => state.Blocks later.id earlier.id → later.id ∈ ids

/-- The dependency is pending and the call does not register it. -/
def State.LeftPending (state : State) (ids : List Uuid) (dependency id : Uuid) : Prop :=
  state.Blocks dependency id ∧ dependency ∉ ids

def State.readySets (state : State) (waiting : Uuid → Prop) (ids : List Uuid) : Set (Set Uuid) :=
  {set | ∀ id, id ∈ set ↔ waiting id ∧ ∀ dependency, state.Blocks dependency id →
    dependency ∈ ids ∨ dependency ∈ set}

structure ReadyExactly (state : State) (waiting : Uuid → Prop) (ids : List Uuid)
    (ready : List TransactionInfo) : Prop where
  once : (ready.map (·.id)).Nodup
  least : IsLeast (state.readySets waiting ids) {id | id ∈ ready.map (·.id)}
  ordered : DependenciesFirst state ids ready
  grouped : ∀ (group : GroupCommit) range, group.groupPerParticipant.find range ≠ none →
    ∃ added, (group.extend range (tmpGroup ready range)).groupOf range =
      group.groupOf range ++ added ∧ DependenciesFirst state ids added ∧
      ∀ info, info ∈ added ↔ info ∈ ready ∧ range ∈ info.writeRanges
  acyclic : ∀ id, Relation.TransGen (state.LeftPending ids) id id → id ∉ ready.map (·.id)

variable {state : State} {waiting : Uuid → Prop} {ids : List Uuid}

/-- A group repeats a transaction for every entry of the range. -/
theorem DependenciesFirst.tmpGroup {ready : List TransactionInfo} (range : FullRangeId)
    (ordered : DependenciesFirst state ids ready)
    (free : ∀ info ∈ ready, ¬ state.LeftPending ids info.id info.id) :
    DependenciesFirst state ids (tmpGroup ready range) := by
  refine List.pairwise_flatMap.mpr ⟨?_, ?_⟩
  · intro info listed
    rw [List.pairwise_replicate]
    right
    intro blocked
    by_contra left
    exact free info listed ⟨blocked, left⟩
  · refine ordered.imp ?_
    intro earlier later apart first inFirst second inSecond
    rw [List.eq_of_mem_replicate inFirst, List.eq_of_mem_replicate inSecond]
    exact apart

theorem Registered.readyExactly {after : State} {ready : List TransactionInfo}
    (registered : Registered state waiting ids after ready) :
    ReadyExactly state waiting ids ready := by
  have acyclic (id : Uuid) (cycle : Relation.TransGen (state.LeftPending ids) id id) :
      id ∉ ready.map (·.id) := by
    intro listed
    exact ((registered.released id).mp listed).not_cycle cycle
  have ordered : DependenciesFirst state ids ready := by
    have pairwise := registered.first.pairwise registered.once
    rw [List.pairwise_map] at pairwise
    exact pairwise
  refine ⟨registered.once, ?_, ordered, ?_, acyclic⟩
  · have same : {id | id ∈ ready.map (·.id)} = {id | Released state.Blocks waiting (· ∈ ids) id} :=
      Set.ext registered.released
    rw [same]
    exact isLeast_released
  · intro group range present
    refine ⟨tmpGroup ready range, ?_, ordered.tmpGroup range ?_, fun info => mem_tmpGroup⟩
    · rw [GroupCommit.groupOf_extend, if_pos ⟨rfl, present⟩]
    · intro info listed left
      exact acyclic info.id (.single left) (List.mem_map_of_mem listed)

def State.worklist (state : State) (ids : List Uuid) : Worklist where
  state := { state with resolvedTransactions := state.resolvedTransactions ∪ ids.toFinset }
  newResolvedDependencies := ids.reverse
  newReadyToCommit := []

theorem Worklist.drain_finished (order : IterationOrder) {work finished : Worklist} {first : Nat}
    (drained : work.drain order first = some finished)
    (ended : finished.newResolvedDependencies = []) {iterations : Nat} (more : first ≤ iterations) :
    work.drain order iterations = some finished := by
  induction first generalizing work iterations with
  | zero =>
    cases drained
    cases iterations with
    | zero => rfl
    | succ => simp only [drain, ended]
  | succ _ ih =>
    cases iterations with
    | zero => cases more
    | succ =>
      simp only [drain] at drained ⊢
      cases stack : work.newResolvedDependencies with
      | nil =>
        rw [stack] at drained
        exact drained
      | cons =>
        simp only [stack] at drained ⊢
        split at drained
        next => cases drained
        next =>
          exact ih drained (Nat.le_of_succ_le_succ more)

/-- The loop ends, and finds exactly the transactions that the registered ones
make ready. -/
theorem Linked.ready_exactly (linked : Linked state waiting) (order : IterationOrder)
    (ids : List Uuid) :
    ∃ finished : Worklist,
      (∀ iterations ≥ (state.worklist ids).size,
        (state.worklist ids).drain order iterations = some finished) ∧
      finished.newResolvedDependencies = [] ∧
      state.registerCommittedTransactions order ids =
        some (finished.state, finished.newReadyToCommit) ∧
      ReadyExactly state waiting ids finished.newReadyToCommit := by
  obtain ⟨finished, drained, -, ended⟩ := (linked.tracks ids).drain order le_rfl linked.blocked
  have result : state.registerCommittedTransactions order ids =
      some (finished.state, finished.newReadyToCommit) := by
    simp only [State.registerCommittedTransactions, drained, Option.map_some]
  exact ⟨finished, fun _ more => Worklist.drain_finished order drained ended more, ended, result,
    (linked.registered result).readyExactly⟩

namespace Graph

/-- The diamond is released from its top. -/
theorem ready_exactly_diamond :
    ∃ graph, Reachable step SubmittedOnce Initial graph ∧ ∃ after ready,
      graph.state.registerCommittedTransactions .ascending [1] = some (after, ready) ∧
      ReadyExactly graph.state graph.Waiting [1] ready ∧ ready.map (·.id) = [2, 3, 4] := by
  have run : ∃ graph, Reachable step SubmittedOnce Initial graph ∧
      decide ((graph.state.registerCommittedTransactions .ascending [1]).map
        (fun result => result.2.map (·.id)) = some [2, 3, 4]) = true :=
    exists_reachable_of_run (show Initial empty from rfl) diamond _ (by decide +kernel)
  obtain ⟨graph, reached, observed⟩ := run
  obtain ⟨finished, -, -, result, exact⟩ :=
    (sound_of_reachable reached).linked.ready_exactly .ascending [1]
  have listed := of_decide_eq_true observed
  rw [result, Option.map_some, Option.some.injEq] at listed
  exact ⟨graph, reached, _, _, result, exact, listed⟩

/-! ## Calls that register waiting transactions

The callers register transactions that were committed, and a committed one does
not wait.  The loop does not check this. -/

theorem exists_call (schedule : List Label) (ids listed : List Uuid) (test : Graph → Bool)
    (passed : (runWhere step SubmittedOnce empty schedule).map (fun graph =>
      test graph && decide ((graph.state.registerCommittedTransactions .ascending ids).map
        (fun res => res.2.map (·.id)) = some listed)) = some true) :
    ∃ graph, Linked graph.state graph.Waiting ∧ test graph = true ∧ ∃ after ready,
      graph.state.registerCommittedTransactions .ascending ids = some (after, ready) ∧
      ready.map (·.id) = listed := by
  obtain ⟨graph, reached, observed⟩ :=
    exists_reachable_of_run (show Initial empty from rfl) schedule _ passed
  obtain ⟨tested, listed'⟩ := (Bool.and_eq_true _ _).mp observed
  refine ⟨graph, (sound_of_reachable reached).linked, tested, ?_⟩
  obtain ⟨⟨after, ready⟩, res, same⟩ := Option.map_eq_some_iff.mp (of_decide_eq_true listed')
  exact ⟨after, ready, res, same⟩

/-- A registered transaction that waits is listed behind its dependents, and with
the cycle that it is on; a transaction that waits for nothing is not counted as
ready. -/
theorem lists_registered_dependencies :
    (¬ ∀ state waiting order ids after ready, Linked state waiting →
      state.registerCommittedTransactions order ids = some (after, ready) →
      (ready.map (·.id)).Pairwise fun earlier later => ¬ state.Blocks later earlier) ∧
    (¬ ∀ state waiting order ids after ready, Linked state waiting →
      state.registerCommittedTransactions order ids = some (after, ready) →
      ∀ id, Relation.TransGen state.Blocks id id → id ∉ ready.map (·.id)) ∧
    ¬ ∀ state waiting order ids after ready, Linked state waiting →
      state.registerCommittedTransactions order ids = some (after, ready) →
      ∀ least, IsLeast {set : Set Uuid | ∀ id, id ∈ set ↔
          ∀ dependency, state.Blocks dependency id → dependency ∈ ids ∨ dependency ∈ set} least →
        ∀ id, id ∈ ready.map (·.id) ↔ waiting id ∧ id ∈ least := by
  refine ⟨?_, ?_, ?_⟩
  · intro always
    obtain ⟨graph, linked, blocks, after, ready, result, listed⟩ :=
      exists_call [.commit 2 [1] (writer 1) false, .commit 3 [2] (writer 1) false] [1, 2] [3, 2]
        (fun graph => decide (graph.state.Blocks 2 3)) (by decide +kernel)
    have ordered := always _ _ _ _ _ _ linked result
    rw [listed, List.pairwise_pair] at ordered
    exact ordered (of_decide_eq_true blocks)
  · intro always
    obtain ⟨graph, linked, blocks, after, ready, result, listed⟩ :=
      exists_call [.commit 1 [2] (writer 1) false, .commit 2 [1] (writer 1) false] [1] [2, 1]
        (fun graph => decide (graph.state.Blocks 1 2 ∧ graph.state.Blocks 2 1)) (by decide +kernel)
    obtain ⟨first, second⟩ := of_decide_eq_true blocks
    refine always _ _ _ _ _ _ linked result 1 (.tail (.single first) second) ?_
    rw [listed]
    decide
  · intro always
    obtain ⟨graph, linked, tested, after, ready, result, listed⟩ :=
      exists_call [.commit 2 [1] (writer 1) false] [] []
        (fun graph => decide (graph.Waiting 2 ∧ graph.state.blockers 2 = {1} ∧
          graph.state.blockers 1 = ∅)) (by decide +kernel)
    obtain ⟨waits, blockers, free⟩ := of_decide_eq_true tested
    have least := @Release.isLeast_released Uuid graph.state.Blocks (fun _ => True)
      (· ∈ ([] : List Uuid))
    simp only [true_and] at least
    have first : Released graph.state.Blocks (fun _ => True) (· ∈ ([] : List Uuid)) 1 := by
      refine .intro trivial fun dependency blocks => ?_
      rw [← State.mem_blockers, free] at blocks
      cases blocks
    have second : Released graph.state.Blocks (fun _ => True) (· ∈ ([] : List Uuid)) 2 := by
      refine .intro trivial fun dependency blocks _ => ?_
      rw [← State.mem_blockers, blockers, Finset.mem_singleton] at blocks
      rw [blocks]
      exact first
    have ready := (always _ _ _ _ _ _ linked result _ least 2).mpr ⟨waits, second⟩
    rw [listed] at ready
    cases ready

end Graph

end Sangria.Resolver
