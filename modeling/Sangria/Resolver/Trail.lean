import Sangria.Resolver.Delivery

/-!
# The trail of a batch

A batch is recorded, issued, applied and completed in this order, at a range
that all its transactions write to.
-/

namespace Sangria.Resolver.Process

open TransitionSystem

variable {process next : Process} {label : Label}
variable {range : FullRangeId} {stage : TaskStage} {events : List Event} {id : Uuid} {event : Event}
  {round : Nat}

def TaskStage.reports : TaskStage → Bool
  | .recording | .issuing | .applying | .completing => true
  | .taking | .unmarking | .returning => false

def Reports (event : Event) (stage : TaskStage) (range : FullRangeId) (ids : List Uuid) : Prop :=
  ∀ stage' range' id, id ∈ eventIds stage' range' event ↔
    stage' = stage ∧ range' = range ∧ id ∈ ids

theorem reports_recorded (range : FullRangeId) (ids : List Uuid) :
    Reports (.recorded range ids) .recording range ids := by
  intro stage' range' id
  simp only [eventIds]
  split
  next here => simp [here.1, here.2]
  next => simp only [List.not_mem_nil, false_iff]; grind

theorem reports_issued (range : FullRangeId) (ids : List Uuid) :
    Reports (.issued range ids) .issuing range ids := by
  intro stage' range' id
  simp only [eventIds]
  split
  next here => simp [here.1, here.2]
  next => simp only [List.not_mem_nil, false_iff]; grind

theorem reports_applied (range : FullRangeId) (ids : List Uuid) :
    Reports (.applied range ids) .applying range ids := by
  intro stage' range' id
  simp only [eventIds]
  split
  next here => simp [here.1, here.2]
  next => simp only [List.not_mem_nil, false_iff]; grind

theorem reports_completed (range : FullRangeId) (ids : List Uuid) :
    Reports (.completed range ids) .completing range ids := by
  intro stage' range' id
  simp only [eventIds]
  split
  next here => simp [here.1, here.2]
  next => simp only [List.not_mem_nil, false_iff]; grind

theorem TaskStage.eq_of_index {other : TaskStage}
    (same : TaskStage.index stage = TaskStage.index other) : stage = other := by
  cases stage <;> cases other <;> first | rfl | cases same

theorem TaskStage.recording_le (reports : TaskStage.reports stage = true) :
    TaskStage.index .recording ≤ TaskStage.index stage := by
  cases stage with
  | taking | unmarking | returning => cases reports
  | recording | issuing | applying | completing => decide

theorem mem_idsAt_append {history : List Event} : id ∈ idsAt stage range (history ++ events) ↔
      id ∈ idsAt stage range history ∨ id ∈ idsAt stage range events := by
  rw [idsAt_append, List.mem_append]

theorem mem_idsAt_singleton : id ∈ idsAt stage range [event] ↔ id ∈ eventIds stage range event := by
  rw [idsAt, List.flatMap_cons, List.flatMap_nil, List.append_nil]

/-- A stage is reported once the task is past it, and no event of a stage comes
without those of the stages before. -/
structure Trailed (process : Process) : Prop where
  tasks : ∀ {round range task stage}, process.tasks.find (round, range) = some task →
    TaskStage.reports stage = true → TaskStage.index stage < TaskStage.index task.stage →
    ∀ transaction ∈ task.transactions,
      transaction.id ∈ idsAt stage range process.history
  events : ∀ {range stage later id}, TaskStage.reports stage = true →
    TaskStage.index stage ≤ TaskStage.index later →
    id ∈ idsAt later range process.history → id ∈ idsAt stage range process.history

theorem Trailed.empty : Trailed empty := by
  constructor <;> simp [Process.empty, idsAt]

theorem Trailed.keep (trailed : Trailed process)
    (history : next.history = process.history ++ events)
    (silent : ∀ stage range, idsAt stage range events = [])
    (tasks : ∀ {round range task}, next.tasks.find (round, range) = some task →
      process.tasks.find (round, range) = some task ∨
        TaskStage.index task.stage ≤ TaskStage.index .recording) : Trailed next := by
  have same : ∀ stage range, idsAt stage range next.history =
      idsAt stage range process.history := by
    intro stage range
    rw [history, idsAt_append, silent, List.append_nil]
  constructor
  · intro round range task stage found reports past
    rw [same]
    rcases tasks found with before | _
    · exact trailed.tasks before reports past
    · have reached := TaskStage.recording_le reports
      omega
  · intro range stage later id reports order
    rw [same, same]
    exact trailed.events reports order

theorem Trailed.report (trailed : Trailed process)
    {current later : TaskStage} {txs : List TransactionInfo}
    (found : process.tasks.find (round, range) = some ⟨current, txs⟩)
    (reports : Reports event current range (txs.map (·.id)))
    (follows : TaskStage.index later = TaskStage.index current + 1) :
    Trailed ((process.setTask (round, range) ⟨later, txs⟩).log [event]) := by
  have here : ∀ {stage id}, id ∈ txs.map (·.id) → TaskStage.reports stage = true →
      TaskStage.index stage ≤ TaskStage.index current →
      id ∈ idsAt stage range (process.history ++ [event]) := by
    intro stage id mem reported order
    rw [mem_idsAt_append]
    by_cases same : stage = current
    · right
      rw [mem_idsAt_singleton]
      exact (reports stage range id).mpr ⟨same, rfl, mem⟩
    · left
      obtain ⟨tx, listed, rfl⟩ := List.mem_map.mp mem
      refine trailed.tasks found reported ?_ tx listed
      exact lt_of_le_of_ne order fun equal => same (TaskStage.eq_of_index equal)
  constructor
  · intro round' range' task stage found' reported past tx mem
    change (process.setTask (round, range) _).tasks.find (round', range') = some task at found'
    rw [find_setTask] at found'
    split at found'
    next same =>
      cases found'
      cases same
      exact here (List.mem_map_of_mem mem) reported (by simp only at past; omega)
    next =>
      exact mem_idsAt_append.mpr (.inl (trailed.tasks found' reported past tx mem))
  · intro range' stage last id reported order mem
    rcases mem_idsAt_append.mp mem with before | now
    · exact mem_idsAt_append.mpr (.inl (trailed.events reported order before))
    · rw [mem_idsAt_singleton] at now
      obtain ⟨rfl, rfl, listed⟩ := (reports last range' id).mp now
      exact here listed reported order

theorem Trailed.fail (trailed : Trailed process) {ids : List Uuid} {lost : List TransactionInfo}
    (emitted : events = [] ∨ events = [.recorded range ids]) :
    Trailed (({ process with lost := lost }.endTask (round, range)).log events) := by
  have kept : ∀ {round' range' task},
      ({ process with lost := lost }.endTask (round, range)).tasks.find (round', range') =
        some task → process.tasks.find (round', range') = some task := by
    intro round' range' task found
    rw [find_endTask] at found
    split at found
    next => cases found
    next => exact found
  rcases emitted with none | recorded
  · refine trailed.keep (congrArg (process.history ++ ·) none) (fun _ _ => rfl) ?_
    exact fun found => .inl (kept found)
  · subst recorded
    constructor
    · intro round' range' task stage found reported past tx mem
      exact mem_idsAt_append.mpr
        (.inl (trailed.tasks (kept found) reported past tx mem))
    · intro range' stage last id reported order mem
      rcases mem_idsAt_append.mp mem with before | now
      · exact mem_idsAt_append.mpr (.inl (trailed.events reported order before))
      · refine mem_idsAt_append.mpr (.inr ?_)
        rw [mem_idsAt_singleton] at now ⊢
        obtain ⟨rfl, rfl, listed⟩ := (reports_recorded range ids last range' id).mp now
        refine (reports_recorded range' ids stage range' id).mpr ⟨?_, rfl, listed⟩
        exact TaskStage.eq_of_index (Nat.le_antisymm order (TaskStage.recording_le reported))

theorem Trailed.step (trailed : Trailed process) (moves : Moves process label next)
    (genuine : Genuine process) : Trailed next := by
  have silent : process.history = process.history ++ [] := (List.append_nil _).symm
  cases moves with
  | recordDirectly => exact trailed.keep rfl (fun _ _ => rfl) fun found => .inl found
  | notify found =>
    refine trailed.keep rfl ?_ fun found => .inl found
    intro stage range
    rw [idsAt, List.flatMap_eq_nil_iff]
    intro event mem
    obtain ⟨id, -, rfl⟩ := List.mem_map.mp mem
    rfl
  | @spawn round range remaining spawned found listed =>
    refine trailed.keep silent (fun _ _ => rfl) ?_
    intro round' range' task found'
    rw [find_setTask] at found'
    split at found'
    next =>
      cases found'
      exact .inr (by decide)
    next => exact .inl found'
  | @take round range txs found free =>
    refine trailed.keep silent (fun _ _ => rfl) ?_
    intro round' range' task found'
    rw [find_setTask] at found'
    split at found'
    next =>
      cases found'
      exact .inr (Nat.le_succ 1)
    next => exact .inl found'
  | @unmark round range txs found =>
    refine trailed.keep silent (fun _ _ => rfl) ?_
    intro round' range' task found'
    simp only [afterUnmarking] at found'
    split at found'
    next =>
      rw [FiniteMap.find_erase] at found'
      split at found'
      next => cases found'
      next => exact .inl found'
    next first _ =>
      rw [genuine.batches.tasks _ _ _ found first List.mem_cons_self,
        FiniteMap.find_insert] at found'
      split at found'
      next =>
        cases found'
        exact .inr (Nat.le_refl 2)
      next => exact .inl found'
  | record found => exact trailed.report found (reports_recorded _ _) rfl
  | issue found => exact trailed.report found (reports_issued _ _) rfl
  | apply found => exact trailed.report found (reports_applied _ _) rfl
  | complete found => exact trailed.report found (reports_completed _ _) rfl
  | @giveBack round range txs found =>
    refine trailed.keep silent (fun _ _ => rfl) ?_
    intro round' range' task found'
    rw [find_endTask] at found'
    split at found'
    next => cases found'
    next => exact .inl found'
  | fail _ _ emitted =>
    exact trailed.fail (emitted.imp_right And.right)
  | _ => exact trailed.keep silent (fun _ _ => rfl) fun found => .inl found

/-! ## The ranges of a batch -/

def WrittenAt (process : Process) (range : FullRangeId) (ids : List Uuid) : Prop :=
  ∀ id ∈ ids, id ∈ process.graph.submitted ∧ range ∈ process.graph.state.writeRanges id

structure Addressed (process : Process) : Prop where
  flow : Flow (fun range batch => process.WrittenAt range (batch.map (·.id))) process
  issued : ∀ range, process.WrittenAt range (idsAt .issuing range process.history)

theorem Addressed.empty : Addressed empty := by
  constructor
  case flow =>
    constructor <;> simp [Process.empty, GroupCommit.empty, GroupCommit.groupOf, WrittenAt]
  case issued => simp [Process.empty, idsAt, WrittenAt]

theorem WrittenAt.append {first second : List Uuid}
    (left : process.WrittenAt range first) (right : process.WrittenAt range second) :
    process.WrittenAt range (first ++ second) := by
  intro id mem
  rcases List.mem_append.mp mem with before | after
  · exact left id before
  · exact right id after

section Step

variable (tracked : Tracked process) (moves : Moves process label next)
  (consistent : Consistent process label)

include tracked moves consistent

theorem WrittenAt.step {range : FullRangeId} {ids : List Uuid}
    (written : process.WrittenAt range ids) : next.WrittenAt range ids := by
  intro id mem
  obtain ⟨submitted, writes⟩ := written id mem
  rw [tracked.writeRanges_step moves consistent submitted]
  exact ⟨moves.submitted submitted, writes⟩

theorem Tracked.writtenAt_entering {add : Add} (free : process.adding = none)
    (adding : next.adding = some add) (range : FullRangeId) :
    next.WrittenAt range ((tmpGroup add.transactions range).map (·.id)) := by
  have linked := tracked.accounted.shaped.sound.linked
  have sound := moves.sound consistent.submittedOnce tracked.accounted.shaped.sound
  intro id mem
  obtain ⟨tx, grouped, rfl⟩ := List.mem_map.mp mem
  obtain ⟨listed, writes⟩ := mem_tmpGroup.mp grouped
  rcases moves.entering free adding with
    ⟨id, deps, participants, fake, info, rfl, enrolled, -, handed, -, rfl⟩ |
    ⟨ids, order, ready, -, res, handed, rfl⟩
  · rw [List.mem_singleton.mp listed] at writes ⊢
    rw [linked.enrolled_id enrolled]
    refine ⟨sound.handed handed, ?_⟩
    rw [State.writeRanges, enrolled.found]
    exact writes
  · have registered := linked.registered res
    refine ⟨sound.handed ((handed _).mpr (.inr (List.mem_map_of_mem listed))), ?_⟩
    rw [registered.writeRanges, registered.writeRanges_cloned listed]
    exact writes

theorem Addressed.step (addressed : Addressed process) : Addressed next where
  flow := by
    refine (addressed.flow.mono fun range list written =>
      WrittenAt.step tracked moves consistent written).step ?_ ?_ moves ?_
    · intro range id mem
      cases mem
    · intro range first second left right
      rw [List.map_append]
      exact left.append right
    · exact fun add free adding => tracked.writtenAt_entering moves consistent free adding
  issued := by
    intro range
    obtain ⟨events, history, cause⟩ := moves.events
    rw [history, idsAt_append]
    refine (WrittenAt.step tracked moves consistent (addressed.issued range)).append ?_
    intro id mem
    obtain ⟨event, listed, reported⟩ := List.mem_flatMap.mp mem
    rcases cause with ⟨event', rfl, emits⟩ | notifications
    · cases List.mem_singleton.mp listed
      cases event with
      | issued other =>
        obtain ⟨round, txs, found, rfl⟩ := emits
        obtain ⟨-, rfl, sent⟩ := (reports_issued other _ .issuing range id).mp reported
        exact WrittenAt.step tracked moves consistent (addressed.flow.tasks round _ _ found)
          id sent
      | _ => simp [eventIds] at reported
    · obtain ⟨other, rfl⟩ := notifications event listed
      simp [eventIds] at reported

end Step

end Sangria.Resolver.Process
