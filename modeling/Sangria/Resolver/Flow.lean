import Sangria.Resolver.Moves

/-!
# The flow of batches

Transactions enter group commit in one call of `add_transactions`, are appended
to the groups of their ranges, and leave a group together as the batch of a
task.  A property of lists that survives appending therefore holds of every
group and of every batch once it holds of what enters.
-/

namespace Sangria.Resolver.Process

open FiniteMap
open TransitionSystem Release

variable {process next : Process}

structure Flow (good : FullRangeId → List TransactionInfo → Prop) (process : Process) : Prop where
  adding : ∀ add, process.adding = some add →
    ∀ range, good range (tmpGroup add.transactions range)
  groups : ∀ range, good range (process.group.groupOf range)
  tasks : ∀ round range task, process.tasks.find (round, range) = some task →
    good range task.transactions

variable {good : FullRangeId → List TransactionInfo → Prop}

theorem Flow.mono {good' : FullRangeId → List TransactionInfo → Prop} (flow : Flow good process)
    (implied : ∀ range list, good range list → good' range list) : Flow good' process where
  adding := fun add adding range => implied _ _ (flow.adding add adding range)
  groups := fun range => implied _ _ (flow.groups range)
  tasks := fun round range task found => implied _ _ (flow.tasks round range task found)

theorem find_setTask (process : Process) (key other : Nat × FullRangeId) (task : Task) :
    (process.setTask key task).tasks.find other =
      if other = key then some task else process.tasks.find other := by
  simp only [setTask, find_insert]

theorem find_endTask (process : Process) (key other : Nat × FullRangeId) :
    (process.endTask key).tasks.find other =
      if other = key then none else process.tasks.find other := by
  simp only [endTask, find_erase]

theorem find_setRound (process : Process) (round other : Nat) (stage : Round) :
    (process.setRound round stage).rounds.find other =
      if other = round then some stage else process.rounds.find other := by
  simp only [setRound, find_insert]

theorem find_endRound (process : Process) (round other : Nat) :
    (process.endRound round).rounds.find other =
      if other = round then none else process.rounds.find other := by
  simp only [endRound, find_erase]

theorem Flow.tasks_setTask (flow : Flow good process) (key : Nat × FullRangeId) (task : Task)
    (here : good key.2 task.transactions) (round : Nat) (range : FullRangeId) (other : Task)
    (found : (process.setTask key task).tasks.find (round, range) = some other) :
    good range other.transactions := by
  rw [find_setTask] at found
  split at found
  next same =>
    cases found
    rw [← same] at here
    exact here
  next => exact flow.tasks round range other found

theorem Flow.tasks_endTask (flow : Flow good process) {key : Nat × FullRangeId}
    (round : Nat) (range : FullRangeId) (other : Task)
    (found : (process.endTask key).tasks.find (round, range) = some other) :
    good range other.transactions := by
  rw [find_endTask] at found
  split at found
  next => simp at found
  next => exact flow.tasks round range other found

/-- A step keeps the flow good when what it hands over is good. -/
theorem Flow.step {label : Label} (nil : ∀ range, good range [])
    (append : ∀ range first second, good range first → good range second →
      good range (first ++ second))
    (flow : Flow good process) (moves : Moves process label next)
    (entering : ∀ add, process.adding = none → next.adding = some add →
      ∀ range, good range (tmpGroup add.transactions range)) : Flow good next := by
  cases moves with
  | readOnly => exact flow
  | submit _ free | registerExternal free | register _ free =>
    exact ⟨fun add => entering add free, flow.groups, flow.tasks⟩
  | drop | recordDirectly | snapshot | join | countDown | miscount | notify =>
    exact ⟨flow.adding, flow.groups, flow.tasks⟩
  | readRanges adding =>
    refine ⟨?_, flow.groups, flow.tasks⟩
    intro add set range
    cases set
    exact flow.adding _ adding range
  | insertRanges adding | countPending adding =>
    refine ⟨?_, ?_, flow.tasks⟩
    · intro add set range
      cases set
      exact flow.adding _ adding range
    · intro range
      simpa using flow.groups range
  | extend adding =>
    refine ⟨?_, ?_, flow.tasks⟩
    · intro add set range
      cases set
      exact flow.adding _ adding range
    · intro range
      simp only [GroupCommit.groupOf_extend]
      split
      next here =>
        rw [here.1]
        exact append _ _ _ (flow.groups _) (flow.adding _ adding _)
      next => exact flow.groups range
  | markNonEmpty => exact ⟨by simp [setRound], flow.groups, flow.tasks⟩
  | @spawn round range remaining spawned found listed =>
    exact ⟨flow.adding, flow.groups, flow.tasks_setTask (round, range) _ (nil range)⟩
  | @take round range txs found free =>
    refine ⟨flow.adding, ?_, ?_⟩
    · intro other
      simp only [setTask, GroupCommit.groupOf_clearGroup]
      split
      next => exact nil other
      next => exact flow.groups other
    · exact flow.tasks_setTask (round, range) ⟨.unmarking, process.group.groupOf range⟩
        (flow.groups range)
  | @unmark round range txs found =>
    have batch := flow.tasks _ _ _ found
    simp only [afterUnmarking]
    split
    next => exact ⟨flow.adding, flow.groups, flow.tasks_endTask⟩
    next =>
      exact ⟨flow.adding, flow.groups, flow.tasks_setTask (round, range) _ batch⟩
  | @record round range txs found | @issue round range txs found
  | @apply round range txs found | @complete round range txs found =>
    have batch := flow.tasks _ _ _ found
    exact ⟨flow.adding, flow.groups, flow.tasks_setTask (round, range) _ batch⟩
  | giveBack | fail => exact ⟨flow.adding, flow.groups, flow.tasks_endTask⟩

/-! ## Rounds and tasks that a step leaves alone -/

def Label.onRound : Label → Option Nat
  | .snapshot round | .spawn round _ | .join round | .countDown round | .notify round =>
    some round
  | _ => none

def Label.onTask : Label → Option (Nat × FullRangeId)
  | .spawn round range | .advance round range | .fail round range _ => some (round, range)
  | _ => none

section Kept

variable {label : Label} (moves : Moves process label next)

include moves

theorem Moves.roundOrStarted {round : Nat} (other : label.onRound ≠ some round) :
    next.rounds.find round = process.rounds.find round ∨
      process.rounds.find round = none ∧ next.rounds.find round = some .started := by
  have apart {another : Nat} (ne : some another ≠ some round) : round ≠ another :=
    fun same => ne (congrArg some same.symm)
  cases moves with
  | @markNonEmpty txs another adding unused =>
    rw [find_setRound]
    split
    next same =>
      subst same
      exact .inr ⟨unused, rfl⟩
    next => exact .inl rfl
  | snapshot found | join found ended | countDown found res =>
    exact .inl ((find_setRound _ _ _ _).trans (if_neg (apart other)))
  | spawn => exact .inl ((find_setRound _ _ _ _).trans (if_neg (apart other)))
  | miscount => exact .inl ((find_endRound _ _ _).trans (if_neg (apart other)))
  | notify => exact .inl ((find_endRound _ _ _).trans (if_neg (apart other)))
  | _ => exact .inl rfl

theorem Moves.keepsRound {round : Nat} {stage : Round} (other : label.onRound ≠ some round)
    (present : process.rounds.find round = some stage) :
    next.rounds.find round = some stage := by
  rcases moves.roundOrStarted other with same | ⟨none, -⟩
  · exact same.trans present
  · exact absurd (none.symm.trans present) (by simp)

theorem Moves.keepsTask {key : Nat × FullRangeId} (other : label.onTask ≠ some key) :
    next.tasks.find key = process.tasks.find key := by
  have apart {another : Nat × FullRangeId} (ne : some another ≠ some key) :
      key ≠ another := fun same => ne (congrArg some same.symm)
  cases moves with
  | spawn => rw [find_setTask, if_neg (apart other)]; rfl
  | take => rw [find_setTask, if_neg (apart other)]
  | unmark =>
    simp only [afterUnmarking]
    split
    next => rw [find_erase, if_neg (apart other)]
    next => rw [find_insert, if_neg (apart other)]
  | record found | issue found | apply found | complete found =>
    exact (find_setTask _ _ _ _).trans (if_neg (apart other))
  | giveBack => rw [find_endTask, if_neg (apart other)]
  | fail => exact (find_endTask _ _ _).trans (if_neg (apart other))
  | _ => rfl

end Kept

/-! ## Transactions that are not fake -/

def Label.Genuine : Label → Prop
  | .commit _ _ _ fake => fake = false
  | _ => True

structure Genuine (process : Process) : Prop where
  entries : ∀ id info, process.graph.state.infoPerTransaction.find id = some info →
    info.fake = false
  batches : Flow (fun _ batch => ∀ transaction ∈ batch, transaction.fake = false) process

theorem Genuine.empty : Genuine empty := by
  refine ⟨?_, ?_, ?_, ?_⟩ <;>
    simp [Process.empty, Graph.empty, State.empty, GroupCommit.empty, GroupCommit.groupOf]

theorem Genuine.step {label : Label} (genuine : Genuine process) (sound : process.graph.Sound)
    (moves : Moves process label next) (real : label.Genuine) : Genuine next := by
  have carried (entries : ∀ id info, next.graph.state.infoPerTransaction.find id = some info →
        info.fake = false)
      (entering : ∀ add, process.adding = none → next.adding = some add →
        ∀ tx ∈ add.transactions, tx.fake = false) : Genuine next := by
    refine ⟨entries, genuine.batches.step (by simp) ?_ moves ?_⟩
    · intro range first second left right tx mem
      exact (List.mem_append.mp mem).elim (left tx) (right tx)
    · intro add free adding range tx mem
      exact entering add free adding tx (mem_tmpGroup.mp mem).1
  have registers {state : State} {ready : List TransactionInfo} {ids : List Uuid}
      {order : IterationOrder}
      (res : process.graph.state.registerCommittedTransactions order ids =
        some (state, ready)) :
      (∀ id info, state.infoPerTransaction.find id = some info → info.fake = false) ∧
        ∀ tx ∈ ready, tx.fake = false := by
    have registered := sound.linked.registered res
    refine ⟨?_, ?_⟩
    · intro id info found
      obtain ⟨old, found', -, same⟩ := registered.kept id info found
      rw [same]
      exact genuine.entries id old found'
    · intro tx listed
      obtain ⟨old, found', -, same⟩ := registered.cloned tx listed
      rw [same]
      exact genuine.entries _ old found'
  by_cases updates : label.updates = true
  · cases moves with
    | readOnly => exact genuine
    | @submit id deps participants fake state info writes free res =>
      have entries (other : Uuid) (entry : TransactionInfo)
          (found : state.infoPerTransaction.find other = some entry) : entry.fake = false := by
        rcases (State.enrolled res).origin other entry found with
          ⟨old, found', -, same⟩ | ⟨-, same⟩
        · rw [same]
          exact genuine.entries other old found'
        · rw [same]
          exact real
      refine carried entries ?_
      intro add _ adding
      cases (Option.ite_none_right_eq_some.mp adding).2
      simpa using entries _ _ (State.enrolled res).found
    | registerExternal _ res =>
      obtain ⟨entries, ready⟩ := registers res
      refine carried entries ?_
      intro add _ adding
      cases (Option.ite_none_left_eq_some.mp adding).2
      exact ready
    | register _ _ res =>
      obtain ⟨entries, ready⟩ := registers res
      refine carried entries ?_
      intro add _ adding
      cases (Option.ite_none_left_eq_some.mp adding).2
      exact ready
    | _ => simp [Label.updates] at updates
  · obtain ⟨graph, -, -, free⟩ := moves.frame (Bool.eq_false_iff.mpr updates)
    refine carried (graph ▸ genuine.entries) ?_
    intro add idle adding
    simp [free idle] at adding

/-- An order of the transactions that enter carries over to the groups when an
unresolved blocker writes to the ranges of what it blocks. -/
theorem tmpGroup_blockersFirst {blocks : Uuid → Uuid → Prop} {waiting resolved : Uuid → Prop}
    {txs : List TransactionInfo} {range : FullRangeId}
    (first : BlockersFirst blocks waiting resolved (txs.map (·.id)))
    (covers : ∀ tx ∈ txs, range ∈ tx.writeRanges →
      ∀ other ∈ txs, blocks other.id tx.id → ¬ resolved other.id →
        range ∈ other.writeRanges) :
    BlockersFirst blocks waiting resolved ((tmpGroup txs range).map (·.id)) := by
  induction txs using List.reverseRecOn with
  | nil => exact .nil
  | append_singleton txs last ih =>
    rw [List.map_append] at first
    have earlier := ih first.of_append
      fun tx listed writes other listed' =>
        covers tx (List.mem_append_left _ listed) writes other
          (List.mem_append_left _ listed')
    have split : tmpGroup (txs ++ [last]) range =
        tmpGroup txs range ++
          List.replicate (last.writeRanges.count range) last := by
      simp [tmpGroup]
    rw [split, List.map_append]
    refine earlier.append (.of_forall ?_)
    intro id mem
    rw [List.map_replicate, List.mem_replicate] at mem
    obtain ⟨writes, rfl⟩ := mem
    rw [← Nat.pos_iff_ne_zero, List.count_pos_iff] at writes
    obtain ⟨waits, unblocked⟩ := first (txs.map (·.id)) last.id [] rfl
    refine ⟨waits, ?_⟩
    intro blocker blocked
    by_cases done : resolved blocker
    · exact .inl done
    · have listed := (unblocked blocker blocked).resolve_left done
      obtain ⟨other, mem, rfl⟩ := List.mem_map.mp listed
      refine .inr (List.mem_map.mpr ⟨other, mem_tmpGroup.mpr ⟨mem, ?_⟩, rfl⟩)
      exact covers last (by simp) writes other (List.mem_append_left _ mem) blocked done

end Sangria.Resolver.Process
