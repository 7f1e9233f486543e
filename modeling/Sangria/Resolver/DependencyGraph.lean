import Sangria.Lib.TransitionSystem
import Sangria.Resolver.Worklist

/-!
# The dependency graph in every reachable state

The two functions that write the state of the resolver, interleaved in any
order.  Both hold the write lock while they do so, hence one step each.
-/

namespace Sangria.Resolver

open TransitionSystem Release

/-- The state of the resolver, with two observers: the transactions that were
enrolled in it and those that were handed to group commit. -/
structure Graph where
  state : State
  submitted : Finset Uuid
  handed : Finset Uuid

namespace Graph

def empty : Graph := ⟨State.empty, ∅, ∅⟩

inductive Label where
  | commit (transactionId : Uuid) (dependencies : List Uuid)
      (participants : List ParticipantRangeInfo) (fake : Bool)
  | register (transactionIds : List Uuid) (order : IterationOrder)

/-- A read-only transaction is finished when `Resolver::commit` returns and
never enters the state; one without pending dependencies is handed over at
once. -/
def step (graph : Graph) : Label → Option Graph
  | .commit transactionId dependencies participants fake =>
    if readOnly participants then some graph
    else
      let (state, info) := graph.state.enroll transactionId dependencies participants fake
      some
        { state := state
          submitted := insert transactionId graph.submitted
          handed := if info.numDependencies = 0 then insert transactionId graph.handed
            else graph.handed }
  | .register transactionIds order =>
    match graph.state.registerCommittedTransactions order transactionIds with
    | none => none
    | some (state, ready) =>
      some { graph with
        state := state
        handed := graph.handed ∪ (ready.map (·.id)).toFinset }

/-- Each id is submitted once, and the dependencies are a set. -/
def SubmittedOnce (graph : Graph) : Label → Prop
  | .commit transactionId dependencies _ _ =>
    transactionId ∉ graph.submitted ∧ dependencies.Nodup
  | .register _ _ => True

instance (graph : Graph) (label : Label) : Decidable (SubmittedOnce graph label) := by
  unfold SubmittedOnce
  split <;> infer_instance

def Initial (graph : Graph) : Prop := graph = empty

def Waiting (graph : Graph) (id : Uuid) : Prop :=
  id ∈ graph.submitted ∧ id ∉ graph.handed

instance (graph : Graph) : DecidablePred graph.Waiting := fun id =>
  inferInstanceAs (Decidable (id ∈ graph.submitted ∧ id ∉ graph.handed))

/-- Waiting transactions are counted by their reverse edges, and what was handed
over had been submitted. -/
structure Sound (graph : Graph) : Prop where
  linked : Linked graph.state graph.Waiting
  handed : graph.handed ⊆ graph.submitted

theorem Sound.empty : Sound empty :=
  ⟨Linked.empty.congr (by simp [Waiting, Graph.empty]), by simp [Graph.empty]⟩

theorem Sound.commit {graph next : Graph} {transactionId : Uuid} {deps : List Uuid}
    {participants : List ParticipantRangeInfo} {fake : Bool} (sound : Sound graph)
    (once : SubmittedOnce graph (.commit transactionId deps participants fake))
    (taken : step graph (.commit transactionId deps participants fake) = some next) :
    Sound next := by
  obtain ⟨fresh, distinct⟩ := once
  simp only [step] at taken
  split at taken
  next =>
    cases taken
    exact sound
  next =>
    cases taken
    have enrolled := @State.enroll_spec transactionId fake graph.state deps participants
    have linked := sound.linked.enroll enrolled (fun waits => fresh waits.1) distinct
    have notHanded : transactionId ∉ graph.handed := fun handed => fresh (sound.handed handed)
    by_cases ready : (graph.state.enroll transactionId deps participants
      fake).2.numDependencies = 0
    · refine ⟨linked.congr ?_, ?_⟩
      · intro id
        by_cases same : id = transactionId
        · simp [Waiting, ready, same, fresh]
        · simp [Waiting, ready, same]
      · simpa [ready] using Finset.insert_subset_insert _ sound.handed
    · refine ⟨linked.congr ?_, ?_⟩
      · intro id
        by_cases same : id = transactionId
        · simp [Waiting, ready, same, notHanded, Nat.pos_of_ne_zero]
        · simp [Waiting, ready, same]
      · simpa [ready] using sound.handed.trans (Finset.subset_insert _ _)

theorem Sound.register {graph next : Graph} {transactionIds : List Uuid}
    {order : IterationOrder} (sound : Sound graph)
    (taken : step graph (.register transactionIds order) = some next) : Sound next := by
  obtain ⟨after, ready, res, registered⟩ :=
    sound.linked.registerCommittedTransactions order transactionIds
  simp only [step, res, Option.some.injEq] at taken
  subst taken
  refine ⟨registered.linked.congr ?_, ?_⟩
  · intro id
    simp only [Waiting, Finset.mem_union, List.mem_toFinset, not_or, and_assoc]
  · refine Finset.union_subset sound.handed ?_
    intro id mem
    exact ((registered.released id).mp (List.mem_toFinset.mp mem)).waits.1

theorem sound_of_reachable {graph : Graph}
    (reached : Reachable step SubmittedOnce Initial graph) : Sound graph := by
  refine reached.invariant ?_ ?_
  · rintro _ rfl
    exact Sound.empty
  · intro graph next label sound once taken
    cases label with
    | commit => exact sound.commit once taken
    | register => exact sound.register taken

/-- Counters agree with the reverse edges, resolved transactions have no
dependents, every dependent has an entry, and no call of
`register_committed_transactions` can fail. -/
theorem dependencies_consistent {graph : Graph}
    (reached : Reachable step SubmittedOnce Initial graph) :
    (∀ id ∈ graph.submitted, id ∉ graph.handed →
      ∃ info, graph.state.infoPerTransaction.find id = some info ∧
        info.numDependencies = (graph.state.blockers id).card ∧ 0 < info.numDependencies) ∧
    (∀ dependency ∈ graph.state.resolvedTransactions, ∀ info,
      graph.state.infoPerTransaction.find dependency = some info → info.dependents = ∅) ∧
    (∀ dependency info, graph.state.infoPerTransaction.find dependency = some info →
      ∀ dependent ∈ info.dependents, ∃ entry,
        graph.state.infoPerTransaction.find dependent = some entry) ∧
    ∀ order transactionIds, ∃ after ready,
      graph.state.registerCommittedTransactions order transactionIds = some (after, ready) := by
  have sound := sound_of_reachable reached
  refine ⟨?_, ?_, ?_, ?_⟩
  · exact fun id submitted notHanded => sound.linked.counted id ⟨submitted, notHanded⟩
  · intro dependency resolved info found
    rw [Finset.eq_empty_iff_forall_notMem]
    exact fun id mem =>
      sound.linked.settled dependency resolved id ⟨info, found, mem⟩
  · intro dependency info found dependent mem
    have waits := sound.linked.blocked dependency dependent ⟨info, found, mem⟩
    obtain ⟨entry, found', -⟩ := sound.linked.counted dependent waits
    exact ⟨entry, found'⟩
  · intro order transactionIds
    obtain ⟨after, ready, result, -⟩ :=
      sound.linked.registerCommittedTransactions order transactionIds
    exact ⟨after, ready, result⟩

def writer (range : Nat) : List ParticipantRangeInfo :=
  [⟨⟨⟨0⟩, BitVec.ofNat 128 range⟩, true⟩]

/-- A diamond in which 4 waits for 2 and 3, which wait for the placeholder 1;
registering an unknown id and 3 leaves 4 with one pending dependency. -/
def diamond : List Label :=
  [.commit 2 [1] (writer 1) false, .commit 4 [2, 3] (writer 2) false,
    .commit 3 [1] (writer 1) false, .register [9, 3, 3] .ascending]

theorem dependencies_consistent_diamond :
    ∃ graph, Reachable step SubmittedOnce Initial graph ∧
      (4 ∈ graph.submitted ∧ 4 ∉ graph.handed ∧ graph.state.blockers 4 = {2}) ∧
      ∃ info, graph.state.infoPerTransaction.find 4 = some info ∧ info.numDependencies = 1 := by
  have run : ∃ graph, Reachable step SubmittedOnce Initial graph ∧
      decide (4 ∈ graph.submitted ∧ 4 ∉ graph.handed ∧ graph.state.blockers 4 = {2}) = true :=
    exists_reachable_of_run (show Initial empty from rfl) diamond _ (by decide +kernel)
  obtain ⟨graph, reached, observed⟩ := run
  have observed := of_decide_eq_true observed
  obtain ⟨info, found, count, -⟩ := (dependencies_consistent reached).1 4 observed.1 observed.2.1
  exact ⟨graph, reached, observed, info, found, by rw [count, observed.2.2]; rfl⟩

end Graph

end Sangria.Resolver
