import Sangria.Resolver.Awaiting
import Sangria.Resolver.Flow

/-!
# The order of commit records

The worklist treats a transaction that became ready like a resolved one, so a
chain of transactions is handed to group commit at once, and the tasks of its
ranges record it in any order.  `Nested` rules out the chains for which that
order matters; under it no transaction is recorded before its dependencies.
-/

namespace Sangria.Resolver.Process

open TransitionSystem Release History

variable {process next : Process}
variable {id : Uuid} {label : Label} {round : Nat} {key : Nat × FullRangeId} {ids : List Uuid}

def recordedIds : Event → List Uuid
  | .recordedDirectly id => [id]
  | .recorded _ ids => ids
  | _ => []

/-- The transactions recorded as committed, by a coordinator or by the resolver. -/
def recordedIn (history : List Event) : List Uuid := history.flatMap recordedIds

/-- When a batch is recorded, each dependency of its transactions stands before
them in the batch or was recorded before. -/
def RecordsInOrder (process : Process) : Prop :=
  ∀ earlier range ids later, process.history = earlier ++ .recorded range ids :: later →
    ∀ before id after, ids = before ++ id :: after →
      ∀ dependency ∈ process.dependenciesOf id,
        dependency ∈ recordedIn earlier ∨ dependency ∈ before

/-- No transaction is fake; and when a registration releases a transaction,
each one waiting for it is released with it and writes to no other ranges. -/
def Nested (process : Process) : Label → Prop
  | .commit _ _ _ fake => fake = false
  | .registerExternal ids _ | .register ids _ =>
    ∀ id dependent,
      Released process.graph.state.Blocks process.graph.Waiting (· ∈ ids) id →
      process.graph.state.Blocks id dependent →
      Released process.graph.state.Blocks process.graph.Waiting (· ∈ ids) dependent ∧
        process.graph.state.writeRanges dependent ⊆ process.graph.state.writeRanges id
  | _ => True

/-! ## Invariant -/

def Recorded (process : Process) (id : Uuid) : Prop := id ∈ recordedIn process.history

theorem Recorded.log (recorded : process.Recorded id) (events : List Event) :
    (process.log events).Recorded id := by
  simp only [Recorded, recordedIn, Process.log, List.flatMap_append, List.mem_append]
  exact .inl recorded

def Ordered (process : Process) (ids : List Uuid) : Prop :=
  BlockersFirst (fun dependency id => dependency ∈ process.dependenciesOf id)
    (· ∈ process.graph.submitted) process.Recorded ids

def Recordable (process : Process) (_ : FullRangeId) (batch : List TransactionInfo) : Prop :=
  process.Ordered (batch.map (·.id))

def Round.transactions : Round → List TransactionInfo
  | .collected transactions => transactions
  | .notifying finished => finished
  | _ => []

def TaskStage.recorded : TaskStage → Bool
  | .taking | .unmarking | .recording => false
  | _ => true

structure Behind (process : Process) : Prop where
  resolved : ∀ id ∈ process.graph.state.resolvedTransactions, process.Recorded id
  registers : ∀ ids ∈ process.registers, ∀ id ∈ ids, process.Recorded id
  returned : ∀ transaction ∈ process.group.returnedTransactions,
    process.Recorded transaction.id
  rounds : ∀ round stage, process.rounds.find round = some stage →
    ∀ transaction ∈ Round.transactions stage, process.Recorded transaction.id
  tasks : ∀ key task, process.tasks.find key = some task →
    TaskStage.recorded task.stage = true →
    ∀ transaction ∈ task.transactions, process.Recorded transaction.id

theorem Behind.log (behind : Behind process) (events : List Event) :
    Behind (process.log events) where
  resolved := fun id done => (behind.resolved id done).log events
  registers := fun ids listed id mem => (behind.registers ids listed id mem).log _
  returned := fun tx listed => (behind.returned tx listed).log events
  rounds := fun round stage found tx listed =>
    (behind.rounds round stage found tx listed).log events
  tasks := fun key task found passed tx listed =>
    (behind.tasks key task found passed tx listed).log events

theorem Behind.setRound (behind : Behind process) {stage : Round}
    (here : ∀ tx ∈ Round.transactions stage, process.Recorded tx.id) :
    Behind (process.setRound round stage) where
  resolved := behind.resolved
  registers := behind.registers
  returned := behind.returned
  rounds := by
    intro other stage' found
    rw [find_setRound] at found
    split at found
    next =>
      cases found
      exact here
    next => exact behind.rounds other stage' found
  tasks := behind.tasks

theorem Behind.endRound (behind : Behind process) : Behind (process.endRound round) where
  resolved := behind.resolved
  registers := behind.registers
  returned := behind.returned
  rounds := by
    intro other stage found
    rw [find_endRound] at found
    split at found
    next => simp at found
    next => exact behind.rounds other stage found
  tasks := behind.tasks

theorem Behind.setTask (behind : Behind process) {task : Task}
    (here : TaskStage.recorded task.stage = true →
      ∀ tx ∈ task.transactions, process.Recorded tx.id) :
    Behind (process.setTask key task) where
  resolved := behind.resolved
  registers := behind.registers
  returned := behind.returned
  rounds := behind.rounds
  tasks := by
    intro other task' found
    rw [find_setTask] at found
    split at found
    next =>
      cases found
      exact here
    next => exact behind.tasks other task' found

theorem Behind.endTask (behind : Behind process) : Behind (process.endTask key) where
  resolved := behind.resolved
  registers := behind.registers
  returned := behind.returned
  rounds := behind.rounds
  tasks := by
    intro other task found
    rw [find_endTask] at found
    split at found
    next => simp at found
    next => exact behind.tasks other task found

theorem mem_recordedIn_append {history events : List Event} :
    id ∈ recordedIn (history ++ events) ↔ id ∈ recordedIn history ∨ id ∈ recordedIn events := by
  simp [recordedIn]

theorem Behind.step (behind : Behind process)
    (moves : Moves process label next) (sound : process.graph.Sound)
    (consistent : Consistent process label)
    (genuine : Flow (fun _ batch => ∀ tx ∈ batch, tx.fake = false) process) :
    Behind next := by
  cases moves with
  | readOnly => exact behind
  | @submit id deps participants fake state info writes free res =>
    have enrolled := State.enrolled res
    exact { behind with
      resolved := fun other done => behind.resolved other (enrolled.resolved ▸ done) }
  | drop | readRanges => exact { behind with }
  | recordDirectly => exact behind.log _
  | @registerExternal ids order state ready free res =>
    have registered := sound.linked.registered res
    refine { behind with resolved := ?_ }
    intro id done
    rw [registered.resolved, Finset.mem_union, List.mem_toFinset] at done
    rcases done with old | new
    · exact behind.resolved id old
    · exact List.mem_flatMap.mpr ⟨_, (consistent id new).1, List.mem_singleton_self id⟩
  | @register ids order state ready listed free res =>
    have registered := sound.linked.registered res
    refine { behind with resolved := ?_, registers := ?_ }
    · intro id done
      rw [registered.resolved, Finset.mem_union, List.mem_toFinset] at done
      rcases done with old | new
      · exact behind.resolved id old
      · exact behind.registers ids listed id new
    · exact fun other mem => behind.registers other (List.mem_of_mem_erase mem)
  | insertRanges =>
    refine { behind with returned := ?_ }
    intro tx mem
    rw [(GroupCommit.insertRanges_frame _ _).2.2] at mem
    exact behind.returned tx mem
  | countPending =>
    refine { behind with returned := ?_ }
    intro tx mem
    rw [(GroupCommit.countPending_frame _ _).2.2] at mem
    exact behind.returned tx mem
  | extend =>
    refine { behind with returned := ?_ }
    intro tx mem
    rw [(GroupCommit.extend_frame _ _ _).2.2] at mem
    exact behind.returned tx mem
  | @markNonEmpty txs round adding unused =>
    have marked : Behind { process with
        group := process.group.markNonEmpty (tmpRanges txs), adding := none } :=
      { behind with }
    exact marked.setRound (by simp [Round.transactions])
  | snapshot => exact behind.setRound (by simp [Round.transactions])
  | spawn =>
    refine Behind.setTask (behind.setRound (by simp [Round.transactions])) ?_
    simp [TaskStage.recorded]
  | join =>
    have emptied : Behind { process with group := process.group.takeReturned } :=
      { behind with returned := by simp [GroupCommit.takeReturned] }
    exact emptied.setRound behind.returned
  | @countDown round txs pending finished found res =>
    have counted : Behind { process with
        group := { process.group with
          numPendingParticipantCommitsPerTransaction := pending } } := { behind with }
    refine counted.setRound ?_
    intro tx mem
    exact behind.rounds round _ found tx
      (GroupCommit.countDown_subset res mem)
  | @miscount round txs pending found res =>
    have counted : Behind { process with
        group := { process.group with
          numPendingParticipantCommitsPerTransaction := pending } } := { behind with }
    exact counted.endRound
  | @notify round finished left notified completed found res =>
    have told : Behind { process with
        waitingTransactions := left
        registers := if completed ∧ finished ≠ [] then
          process.registers ++ [finished.map TransactionInfo.id]
          else process.registers } := by
      refine { behind with registers := ?_ }
      intro ids mem id inside
      simp only at mem
      split at mem
      next =>
        rcases List.mem_append.mp mem with old | new
        · exact behind.registers ids old id inside
        · rw [List.mem_singleton.mp new] at inside
          obtain ⟨tx, listed, rfl⟩ := List.mem_map.mp inside
          exact behind.rounds round _ found tx listed
      next => exact behind.registers ids mem id inside
    exact told.endRound.log _
  | @take round range txs found free =>
    have cleared : Behind { process with
        group := process.group.clearGroup range
        locked := insert range process.locked } := { behind with }
    exact cleared.setTask (by simp [TaskStage.recorded])
  | @unmark round range txs found =>
    have unmarked : Behind { process with
        group := process.group.unmark range
        locked := process.locked.erase range } := { behind with }
    simp only [afterUnmarking]
    split
    next => exact unmarked.endTask
    next first _ =>
      have real := genuine.tasks _ _ _ found first List.mem_cons_self
      exact unmarked.setTask (by simp [real, TaskStage.recorded])
  | @record round range txs found =>
    refine { behind.log _ with tasks := ?_ }
    intro key task found' passed tx mem
    change (process.setTask (round, range) _).tasks.find key = some task at found'
    rw [find_setTask] at found'
    split at found'
    next =>
      cases found'
      refine mem_recordedIn_append.mpr (.inr ?_)
      simp only [recordedIn, List.flatMap_cons, List.flatMap_nil, List.append_nil, recordedIds]
      exact List.mem_map_of_mem mem
    next => exact (behind.tasks key task found' passed tx mem).log _
  | issue found | apply found | complete found =>
    have passed := behind.tasks _ _ found rfl
    refine Behind.log (behind.setTask ?_) _
    exact fun _ => passed
  | @giveBack round range txs found =>
    have given : Behind { process with group := process.group.giveBack txs } := by
      refine { behind with returned := ?_ }
      intro tx mem
      rcases List.mem_append.mp mem with old | new
      · exact behind.returned tx old
      · exact behind.tasks _ _ found rfl tx new
    exact given.endTask
  | @fail round range stage txs effective events found stage' logged =>
    have dropped : Behind { process with lost := process.lost ++ txs } :=
      { behind with }
    exact dropped.endTask.log _

structure InOrder (process : Process) : Prop where
  awaiting : Awaiting (fun _ _ => False) process
  genuine : Genuine process
  behind : Behind process
  flow : Flow process.Recordable process
  records : Justified (fun earlier event => ∀ range ids, event = .recorded range ids →
    BlockersFirst (fun dependency id => dependency ∈ process.dependenciesOf id)
      (· ∈ process.graph.submitted) (· ∈ recordedIn earlier) ids) process.history

theorem InOrder.empty : InOrder empty := by
  constructor
  case awaiting => exact Awaiting.empty
  case genuine => exact Genuine.empty
  case behind => constructor <;> simp [Process.empty, Graph.empty, State.empty, GroupCommit.empty]
  case flow =>
    constructor <;> simp [Process.empty, GroupCommit.empty, GroupCommit.groupOf, Recordable,
      Ordered, BlockersFirst.nil]
  case records => exact .nil

theorem InOrder.recordsInOrder (inOrder : InOrder process) : RecordsInOrder process := by
  intro earlier range ids later split before id after split' dep listed
  exact (inOrder.records earlier _ later split range ids rfl before id after split').2
    dep listed

theorem Ordered.mono (ordered : process.Ordered ids)
    (submitted : process.graph.submitted ⊆ next.graph.submitted)
    (recorded : ∀ id, process.Recorded id → next.Recorded id)
    (deps : ∀ id ∈ process.graph.submitted,
      next.dependenciesOf id = process.dependenciesOf id) : next.Ordered ids := by
  refine BlockersFirst.mono ordered submitted recorded ?_
  intro id known dep listed
  rw [deps id known] at listed
  exact .inl listed

theorem Recordable.append {range : FullRangeId} {first second : List TransactionInfo}
    (left : process.Recordable range first) (right : process.Recordable range second) :
    process.Recordable range (first ++ second) := by
  rw [Recordable, List.map_append]
  exact BlockersFirst.append left (BlockersFirst.mono right (fun _ known => known)
    (fun _ done => .inl done) fun _ _ _ listed => .inl listed)

theorem Moves.recorded (moves : Moves process label next)
    (recorded : process.Recorded id) : next.Recorded id := by
  obtain ⟨events, history, -⟩ := moves.events
  rw [Recorded, history]
  exact mem_recordedIn_append.mpr (.inl recorded)

/-- What a registration releases stands behind its dependencies in every group:
a dependency released with it writes to all its ranges. -/
theorem InOrder.released {state : State} {ready : List TransactionInfo} (inOrder : InOrder process)
    (registered : Registered process.graph.state process.graph.Waiting ids state ready)
    (recorded : ∀ id ∈ ids, process.Recorded id)
    (nested : ∀ id dependent,
      Released process.graph.state.Blocks process.graph.Waiting (· ∈ ids) id →
      process.graph.state.Blocks id dependent →
      Released process.graph.state.Blocks process.graph.Waiting (· ∈ ids) dependent ∧
        process.graph.state.writeRanges dependent ⊆ process.graph.state.writeRanges id)
    (range : FullRangeId) : process.Recordable range (tmpGroup ready range) := by
  have awaited {id dependency : Uuid} (waits : process.graph.Waiting id)
      (listed : dependency ∈ process.dependenciesOf id) :
      process.graph.state.Blocks dependency id ∨ process.Recorded dependency := by
    rcases inOrder.awaiting.awaited id waits dependency listed with blocks | done | excused
    · exact .inl blocks
    · exact .inr (inOrder.behind.resolved dependency done)
    · exact excused.elim
  have entry (tx : TransactionInfo) (listed : tx ∈ ready) :
      process.graph.state.writeRanges tx.id = tx.writeRanges :=
    registered.writeRanges_cloned listed
  have first : process.Ordered (ready.map (·.id)) :=
    registered.first.mono (fun _ waits => waits.1) recorded fun _ waits _ => awaited waits
  refine tmpGroup_blockersFirst first ?_
  intro tx listed writes other listed' depends unrecorded
  have waits : process.graph.Waiting tx.id :=
    registered.first.waits (List.mem_map_of_mem listed)
  have blocks := (awaited waits depends).resolve_right unrecorded
  have released := (registered.released other.id).mp (List.mem_map_of_mem listed')
  have wider := (nested _ _ released blocks).2
  rw [entry tx listed, entry other listed'] at wider
  exact wider writes

section Step

variable {label : Label} (inOrder : InOrder process) (moves : Moves process label next)
  (consistent : Consistent process label) (nested : Nested process label)

include inOrder moves consistent

theorem InOrder.records_step :
    Justified (fun earlier event => ∀ range ids, event = .recorded range ids →
      BlockersFirst (fun dep id => dep ∈ next.dependenciesOf id)
        (· ∈ next.graph.submitted) (· ∈ recordedIn earlier) ids) next.history := by
  have ordered {resolved : Uuid → Prop} {ids : List Uuid}
      (first : BlockersFirst (fun dep id => dep ∈ process.dependenciesOf id)
        (· ∈ process.graph.submitted) resolved ids) :
      BlockersFirst (fun dep id => dep ∈ next.dependenciesOf id)
        (· ∈ next.graph.submitted) resolved ids := by
    refine first.mono moves.submitted (fun _ done => done) ?_
    intro id known dep listed
    rw [moves.dependenciesOf consistent.submittedOnce known] at listed
    exact .inl listed
  have carried := inOrder.records.mono fun earlier event _ property range ids same =>
    ordered (property range ids same)
  obtain ⟨events, history, cause⟩ := moves.events
  rw [history]
  rcases cause with ⟨event, rfl, emits⟩ | notifications
  · refine carried.append_singleton ?_
    rintro range ids rfl
    obtain ⟨round, txs, found, rfl⟩ := emits
    exact ordered (inOrder.flow.tasks round range _ found)
  · refine carried.append ?_
    intro earlier event mem range ids same
    obtain ⟨id, notified⟩ := notifications event mem
    simp [notified] at same

include nested

/-- What enters group commit is recordable: a submission whose dependencies are
all resolved, or a nested chain. -/
theorem InOrder.entering {add : Add} (free : process.adding = none)
    (adding : next.adding = some add) (range : FullRangeId) :
    next.Recordable range (tmpGroup add.transactions range) := by
  have once := consistent.submittedOnce
  rcases moves.entering free adding with
    ⟨id, deps, participants, fake, info, rfl, enrolled, ready, handed, listed, rfl⟩ |
    ⟨ids, order, ready, called, res, -, rfl⟩
  · have named := inOrder.awaiting.sound.linked.enrolled_id enrolled
    rw [enrolled.count, List.length_eq_zero_iff, List.filter_eq_nil_iff] at ready
    apply BlockersFirst.of_forall
    intro other mem
    obtain ⟨entry, listed', rfl⟩ := List.mem_map.mp mem
    rw [List.mem_singleton.mp (mem_tmpGroup.mp listed').1, named]
    refine ⟨(moves.sound once inOrder.awaiting.sound).handed handed, ?_⟩
    intro dep mem'
    rw [listed] at mem'
    exact moves.recorded (inOrder.behind.resolved _
      (by simpa using ready dep mem'))
  · have registered := inOrder.awaiting.sound.linked.registered res
    have recorded (id : Uuid) (listed : id ∈ ids) : process.Recorded id := by
      rcases called with rfl | ⟨rfl, mem⟩
      · exact List.mem_flatMap.mpr ⟨_, (consistent id listed).1, List.mem_singleton_self id⟩
      · exact inOrder.behind.registers ids mem id listed
    have ordered := inOrder.released registered recorded
      (by rcases called with rfl | ⟨rfl, -⟩ <;> exact nested) range
    exact Ordered.mono ordered moves.submitted (fun _ => moves.recorded)
      fun _ known => moves.dependenciesOf once known

theorem InOrder.step : InOrder next := by
  have once := consistent.submittedOnce
  have real : label.Genuine := by
    cases label with
    | commit => exact nested
    | _ => trivial
  have follows : Follows (fun _ _ => False) process label := by
    cases label with
    | registerExternal | register =>
      exact fun id dependent released blocks => .inl (nested id dependent released blocks).1
    | _ => trivial
  constructor
  case awaiting => exact inOrder.awaiting.step moves once follows fun _ _ _ never => never
  case genuine => exact inOrder.genuine.step inOrder.awaiting.sound moves real
  case behind =>
    exact inOrder.behind.step moves inOrder.awaiting.sound consistent inOrder.genuine.batches
  case flow =>
    have carried : Flow next.Recordable process := inOrder.flow.mono fun range batch recordable =>
      Ordered.mono recordable moves.submitted (fun _ => moves.recorded)
        fun _ known => moves.dependenciesOf once known
    exact carried.step (fun _ => BlockersFirst.nil) (fun _ _ _ => Recordable.append) moves
      fun _ free adding => inOrder.entering moves consistent nested free adding
  case records => exact inOrder.records_step moves consistent

end Step

/-- In every run whose registrations release nested chains only, dependencies
are recorded first. -/
theorem records_in_order {process : Process}
    (reached : Reachable step (fun process label => Honest process label ∧ Nested process label)
      Initial process) : RecordsInOrder process := by
  apply InOrder.recordsInOrder
  refine reached.invariant ?_ fun _ _ _ inOrder permitted taken =>
    inOrder.step (.of_step taken) permitted.1.consistent permitted.2
  rintro _ rfl
  exact InOrder.empty

/-! ## A nested chain and a spread one -/

/-- `dependent` is released by the registration of `ids` through a chain of at
most three, and its ranges are among those of `id`. -/
def follows (process : Process) (ids : List Uuid) (id dependent : Uuid) : Bool :=
  releasedWithin process.graph.state.blockers process.graph.Waiting (· ∈ ids) 3 dependent &&
    decide (∀ range ∈ process.graph.state.writeRanges dependent,
      range ∈ process.graph.state.writeRanges id)

def nestedWithin (process : Process) : Label → Bool
  | .commit _ _ _ fake => !fake
  | .registerExternal ids _ | .register ids _ =>
    decide (∀ id ∈ process.graph.state.infoPerTransaction.keys, process.graph.Waiting id →
      ∀ dependent ∈ (process.graph.state.infoPerTransaction.find id).elim (∅ : Finset Uuid)
        TransactionInfo.dependents, process.follows ids id dependent = true)
  | _ => true

theorem Nested.of_nestedWithin (within : process.nestedWithin label = true) :
    Nested process label := by
  have registration {ids : List Uuid} (order : IterationOrder)
      (within : process.nestedWithin (.register ids order) = true) :
      Nested process (.register ids order) := by
    simp only [nestedWithin, decide_eq_true_eq] at within
    intro id dependent released blocks
    obtain ⟨info, found, listed⟩ := blocks
    have after := within id (FiniteMap.mem_keys.mpr ⟨info, found⟩) released.waits dependent
      (by simpa [found] using listed)
    simp only [follows, Bool.and_eq_true, decide_eq_true_eq] at after
    refine ⟨Released.of_releasedWithin ?_ after.1, after.2⟩
    exact fun item blocker blocks => State.mem_blockers.mpr blocks
  cases label with
  | commit =>
    simpa [nestedWithin, Nested] using within
  | registerExternal _ order => exact registration order within
  | register _ order => exact registration order within
  | _ => trivial

/-- Both transactions write to one range and are recorded in one batch. -/
theorem records_in_order_chain :
    ∃ process, Reachable step
        (fun process label => Honest process label ∧ Nested process label) Initial process ∧
      process.history = [.recordedDirectly 1, .recorded (range 1) [2, 3]] ∧
      RecordsInOrder process := by
  have run : ∃ process, Reachable step
      (fun process label => Honest process label ∧ process.nestedWithin label = true)
      Initial process ∧
      decide (process.history = [.recordedDirectly 1, .recorded (range 1) [2, 3]]) = true :=
    exists_reachable_of_run (show Initial empty from rfl)
      (chain 1 1 ++ handOver [range 1] 0 ++ [.spawn 0 (range 1), .advance 0 (range 1),
        .advance 0 (range 1), .advance 0 (range 1)]) _ (by decide +kernel)
  obtain ⟨process, reached, observed⟩ := run
  have permitted : Reachable step
      (fun process label => Honest process label ∧ Nested process label) Initial process :=
    reached.mono (fun _ _ allowed => ⟨allowed.1, .of_nestedWithin allowed.2⟩) fun _ first => first
  exact ⟨process, permitted, of_decide_eq_true observed, records_in_order permitted⟩

/-- The transactions write to different ranges, and the task of the second range
records 3 while 2 is still queued. -/
theorem record_overtakes_dependency :
    ¬ ∀ process, Reachable step Honest Initial process → RecordsInOrder process := by
  intro always
  have run : ∃ process, Reachable step Honest Initial process ∧
      decide (process.history = [.recordedDirectly 1, .recorded (range 2) [3]] ∧
        process.dependenciesOf 3 = [2]) = true :=
    exists_reachable_of_run (show Initial empty from rfl)
      (chain 1 2 ++ handOver [range 1, range 2] 0 ++ [.spawn 0 (range 2), .advance 0 (range 2),
        .advance 0 (range 2), .advance 0 (range 2)]) _ (by decide +kernel)
  obtain ⟨process, reached, observed⟩ := run
  obtain ⟨history, depends⟩ := of_decide_eq_true observed
  have ordered := always process reached [.recordedDirectly 1] (range 2) [3] [] history [] 3 [] rfl
    2 (by simp [depends])
  exact absurd ordered (by decide)

end Sangria.Resolver.Process
