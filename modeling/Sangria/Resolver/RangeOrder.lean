import Sangria.RangeServer.RangeManager.PendingState
import Sangria.Resolver.CommitOrder
import Sangria.Resolver.Delivery

/-!
# The order of commits at a range

A round takes a batch out of a group under the lock of the group and sends it
after the lock is released, so batches of one range overtake each other.  That
is harmless as long as what waits for a transaction of a batch is not released
before the batch was completed.  `Apart` rules out the registrations that do so
for two transactions of one range.
-/

namespace Sangria.Resolver.Process

open TransitionSystem Release History
open RangeServer (Changes Records)

variable {process next : Process} {label : Label}

/-- A dependency between two transactions that the resolver commits at one
range. -/
def RangeDependency (process : Process) (range : FullRangeId) (dependency id : Uuid) : Prop :=
  dependency ∈ process.dependenciesOf id ∧ dependency ∈ process.graph.submitted ∧
    range ∈ process.graph.state.writeRanges dependency ∧
    range ∈ process.graph.state.writeRanges id

instance (process : Process) (range : FullRangeId) (dependency id : Uuid) :
    Decidable (process.RangeDependency range dependency id) :=
  inferInstanceAs (Decidable (_ ∧ _ ∧ _ ∧ _))

/-- When a batch is sent to a range, each dependency of its transactions at that
range stands before them in the batch, or its batch was completed. -/
def IssuesInOrder (process : Process) : Prop :=
  ∀ earlier range ids later, process.history = earlier ++ .issued range ids :: later →
    ∀ before id after, ids = before ++ id :: after →
      ∀ dependency, process.RangeDependency range dependency id →
        dependency ∈ idsAt .completing range earlier ∨ dependency ∈ before

/-- The storage of a range after the batches that it applied: all commits use one
epoch.  `changes` are the prepare records of the transactions there. -/
def storageAfter (changes : Uuid → Changes) (initial : Records) (range : FullRangeId)
    (history : List Event) : Records :=
  history.foldl (fun storage event => storage.batchUpsert (RangeServer.RangeManager.allChanges
    ((eventIds .applying range event).map fun id => (id, changes id))) (asI64 0)) initial

/-- The value that a transaction leaves under a key is not replaced by that of a
dependency. -/
def StoresInOrder (process : Process) : Prop :=
  ∀ (changes : Uuid → Changes) (initial : Records),
    (∀ key, ∀ record ∈ initial key, record.epoch ≤ asI64 0) →
    ∀ range before id after, idsAt .applying range process.history = before ++ id :: after →
    ∀ dependency, process.RangeDependency range dependency id →
    ∀ key value, (changes id).find key = some (some value) →
      (∀ other ∈ after, other ≠ dependency → (changes other).find key = none) →
      (storageAfter changes initial range process.history).get key = some value

/-- Submissions as coordinators make them: not fake, and one participant for
each range. -/
def Plain : Label → Prop
  | .commit _ _ participants fake =>
    fake = false ∧ (participants.map (·.participantRange)).Nodup
  | _ => True

instance (label : Label) : Decidable (Plain label) :=
  match label with
  | .commit .. => inferInstanceAs (Decidable (_ ∧ _))
  | .drop .. | .recordDirectly .. | .registerExternal .. | .register .. | .readRanges
  | .insertRanges | .countPending | .extend .. | .markNonEmpty .. | .snapshot .. | .spawn ..
  | .join .. | .countDown .. | .notify .. | .advance .. | .fail .. => isTrue trivial

/-- When a registration releases a transaction, each one waiting for it is
released with it or writes to no range of it. -/
def Apart (process : Process) : Label → Prop
  | .registerExternal ids _ | .register ids _ =>
    ∀ id dependent,
      Released process.graph.state.Blocks process.graph.Waiting (· ∈ ids) id →
      process.graph.state.Blocks id dependent →
      Released process.graph.state.Blocks process.graph.Waiting (· ∈ ids) dependent ∨
        ∀ range ∈ process.graph.state.writeRanges id,
          range ∉ process.graph.state.writeRanges dependent
  | _ => True

/-! ## Storage -/

section

variable {changes : Uuid → Changes} {initial : Records} {range : FullRangeId}
  {history : List Event} {key : Bytes}

theorem storageAfter_concat (event : Event) :
    storageAfter changes initial range (history ++ [event]) =
      (storageAfter changes initial range history).batchUpsert
        (RangeServer.RangeManager.allChanges
          ((eventIds .applying range event).map fun id => (id, changes id))) (asI64 0) :=
  List.foldl_concat ..

theorem epoch_storageAfter (current : ∀ record ∈ initial key, record.epoch ≤ asI64 0) :
    ∀ record ∈ storageAfter changes initial range history key, record.epoch ≤ asI64 0 := by
  induction history using List.reverseRecOn with
  | nil => exact current
  | append_singleton earlier event ih =>
    rw [storageAfter_concat]
    unfold Records.batchUpsert RangeServer.Records.upsert
    grind

/-- The last put of a key is what the storage keeps. -/
theorem storageAfter_last (current : ∀ record ∈ initial key, record.epoch ≤ asI64 0)
    {value : Bytes} (last : ((idsAt .applying range history).filterMap
      fun id => (changes id).find key).getLast? = some (some value)) :
    (storageAfter changes initial range history).get key = some value := by
  induction history using List.reverseRecOn with
  | nil => cases last
  | append_singleton earlier event ih =>
    have batch := RangeServer.find_allChanges
      ((eventIds .applying range event).map fun id => (id, changes id)) key
    rw [List.filterMap_map] at batch
    rw [idsAt_append, List.filterMap_append, List.getLast?_append] at last
    simp only [idsAt, List.flatMap_singleton] at last
    rw [storageAfter_concat]
    change _ = ((eventIds .applying range event).filterMap fun id =>
      (changes id).find key).getLast? at batch
    rw [← batch] at last
    rcases Option.or_eq_some_iff.mp last with put | ⟨unchanged, before⟩
    · exact Records.get_batchUpsert_of_put put (epoch_storageAfter current)
    · rw [Records.get, Records.batchUpsert_of_join (by rw [unchanged]; rfl)]
      exact ih before

end

/-! ## Invariant -/

def Excused (process : Process) (dependency id : Uuid) : Prop :=
  dependency ∈ process.graph.submitted ∧
    ∀ range ∈ process.graph.state.writeRanges dependency,
      range ∉ process.graph.state.writeRanges id

def Sendable (process : Process) (range : FullRangeId) (ids : List Uuid) : Prop :=
  BlockersFirst (process.RangeDependency range) (· ∈ process.graph.handed)
    (· ∈ idsAt .completing range process.history) ids

structure RangeOrdered (process : Process) : Prop where
  tracked : Tracked process
  awaiting : Awaiting process.Excused process
  distinct : ∀ id ∈ process.graph.submitted, (process.graph.state.writeRanges id).Nodup
  known : ∀ id ∈ process.graph.handed, ∀ dependency ∈ process.dependenciesOf id,
    dependency ∈ process.external ∨ dependency ∈ process.graph.submitted
  flow : Flow (fun range batch => process.Sendable range (batch.map (·.id))) process
  applied : ∀ range, idsAt .completing range process.history ⊆
    idsAt .applying range process.history
  completing : ∀ round range transactions,
    process.tasks.find (round, range) = some ⟨.completing, transactions⟩ →
    transactions.map (·.id) ⊆ idsAt .applying range process.history
  issues : Justified (fun earlier event => ∀ range ids, event = .issued range ids →
    BlockersFirst (process.RangeDependency range) (· ∈ process.graph.handed)
      (· ∈ idsAt .completing range earlier) ids) process.history
  applies : ∀ range, BlockersFirst (process.RangeDependency range)
    (· ∈ process.graph.handed) (fun _ => False) (idsAt .applying range process.history)

theorem RangeOrdered.empty : RangeOrdered empty := by
  constructor
  case tracked => exact Tracked.empty
  case awaiting => exact Awaiting.empty
  case flow =>
    constructor <;> simp [Process.empty, GroupCommit.empty, GroupCommit.groupOf, Sendable,
      BlockersFirst.nil]
  case issues => exact .nil
  case applies => exact fun _ => .nil
  all_goals simp [Process.empty, Graph.empty, idsAt]

theorem RangeOrdered.issuesInOrder (ordered : RangeOrdered process) : IssuesInOrder process := by
  intro earlier range ids later split before id after split' dep depends
  exact (ordered.issues earlier _ later split range ids rfl before id after split').2
    dep depends

theorem RangeOrdered.nodup_applied (ordered : RangeOrdered process) (range : FullRangeId) :
    (idsAt .applying range process.history).Nodup := by
  rw [List.nodup_iff_count_le_one]
  intro id
  have most := ordered.tracked.most range id
  simp only [totalAt] at most
  split at most
  next handed =>
    have once := List.nodup_iff_count_le_one.mp (ordered.distinct id
      (ordered.tracked.accounted.shaped.sound.handed handed)) range
    omega
  next => omega

theorem RangeOrdered.storesInOrder (ordered : RangeOrdered process) : StoresInOrder process := by
  intro changes initial current range before id after split dep depends key value put others
  have first := ((ordered.applies range before id after split).2 dep depends).resolve_left
    fun never => never
  have once := ordered.nodup_applied range
  have silent : after.filterMap (fun id => (changes id).find key) = [] := by
    rw [List.filterMap_eq_nil_iff]
    intro other listed
    apply others other listed
    rintro rfl
    rw [split] at once
    exact (List.disjoint_of_nodup_append once) first (List.mem_cons_of_mem _ listed)
  apply storageAfter_last (current key)
  simp [split, put, silent]

/-! ## Steps -/

theorem idsAt_subset {history earlier events : List Event} (stage : TaskStage)
    (range : FullRangeId) (grows : history = earlier ++ events) :
    idsAt stage range earlier ⊆ idsAt stage range history := by
  rw [grows, idsAt_append]
  exact List.subset_append_left _ _

section Step

variable (ordered : RangeOrdered process) (moves : Moves process label next)
  (consistent : Consistent process label) (plain : Plain label) (apart : Apart process label)
variable {range : FullRangeId} {id : Uuid} {ids : List Uuid}

include ordered moves consistent

theorem RangeOrdered.dependency_of_step {dep : Uuid}
    (handed : id ∈ process.graph.handed) (depends : next.RangeDependency range dep id) :
    process.RangeDependency range dep id := by
  have submitted := ordered.tracked.accounted.shaped.sound.handed handed
  obtain ⟨listed, known, writes, writes'⟩ := depends
  rw [moves.dependenciesOf consistent.submittedOnce submitted] at listed
  have before : dep ∈ process.graph.submitted := by
    rcases ordered.known id handed dep listed with external | before
    · exact absurd known
        (ordered.tracked.external_step moves consistent _ (moves.external external))
    · exact before
  rw [ordered.tracked.writeRanges_step moves consistent before] at writes
  rw [ordered.tracked.writeRanges_step moves consistent submitted] at writes'
  exact ⟨listed, before, writes, writes'⟩

theorem RangeOrdered.blockersFirst_step {resolved resolved' : Uuid → Prop}
    (first : BlockersFirst (process.RangeDependency range) (· ∈ process.graph.handed) resolved ids)
    (resolves : ∀ id, resolved id → resolved' id) :
    BlockersFirst (next.RangeDependency range) (· ∈ next.graph.handed) resolved' ids :=
  first.mono (fun _ handed => moves.handed handed) resolves fun _ handed _ depends =>
    .inl (ordered.dependency_of_step moves consistent handed depends)

theorem RangeOrdered.sendable_step
    (sendable : process.Sendable range ids) : next.Sendable range ids := by
  obtain ⟨events, history, -⟩ := moves.events
  exact ordered.blockersFirst_step moves consistent sendable fun _ done =>
    idsAt_subset .completing range history done

theorem RangeOrdered.excused_step (dep id : Uuid)
    (known : id ∈ process.graph.submitted) (excused : process.Excused dep id) :
    next.Excused dep id := by
  refine ⟨moves.submitted excused.1, ?_⟩
  rw [ordered.tracked.writeRanges_step moves consistent excused.1,
    ordered.tracked.writeRanges_step moves consistent known]
  exact excused.2

include plain in
theorem RangeOrdered.distinct_step (id : Uuid) (known : id ∈ next.graph.submitted) :
    (next.graph.state.writeRanges id).Nodup := by
  by_cases before : id ∈ process.graph.submitted
  · rw [ordered.tracked.writeRanges_step moves consistent before]
    exact ordered.distinct id before
  · cases moves with
    | submit _ _ res =>
      obtain rfl := (Finset.mem_insert.mp known).resolve_right before
      have enrolled := State.enrolled res
      simp only [State.writeRanges, enrolled.found, Option.elim_some,
        TransactionInfo.writeRanges, enrolled.participants]
      exact plain.2.sublist (List.filter_sublist.map _)
    | _ => exact absurd known before

/-- A resolved dependency is a coordinator's, or was submitted. -/
theorem RangeOrdered.origin (resolved : id ∈ next.graph.state.resolvedTransactions) :
    id ∈ next.external ∨ id ∈ next.graph.submitted := by
  have accounted := ordered.tracked.accounted.step moves consistent.submittedOnce
  refine (ordered.tracked.resolved_step moves consistent id resolved).imp_right ?_
  exact fun notified => accounted.shaped.sound.handed (accounted.handed_of_notified notified)

theorem RangeOrdered.known_step (id : Uuid) (handed : id ∈ next.graph.handed) (dep : Uuid)
    (listed : dep ∈ next.dependenciesOf id) :
    dep ∈ next.external ∨ dep ∈ next.graph.submitted := by
  have linked := ordered.tracked.accounted.shaped.sound.linked
  have origin := @RangeOrdered.origin _ _ _ ordered moves consistent dep
  have carried (before : id ∈ process.graph.handed) :
      dep ∈ next.external ∨ dep ∈ next.graph.submitted := by
    have submitted := ordered.tracked.accounted.shaped.sound.handed before
    rw [moves.dependenciesOf consistent.submittedOnce submitted] at listed
    exact (ordered.known id before dep listed).imp (fun known => moves.external known)
      fun known => moves.submitted known
  have registers {state : State} {ready : List TransactionInfo} {ids : List Uuid}
      (registered : Registered process.graph.state process.graph.Waiting ids state ready)
      (resolved : state.resolvedTransactions = next.graph.state.resolvedTransactions)
      (listed : dep ∈ process.dependenciesOf id)
      (released : id ∈ ready.map (·.id)) :
      dep ∈ next.external ∨ dep ∈ next.graph.submitted := by
    have done : dep ∈ process.graph.state.resolvedTransactions ∨ dep ∈ ids →
        dep ∈ next.external ∨ dep ∈ next.graph.submitted := by
      intro done
      apply origin
      rw [← resolved, registered.resolved, Finset.mem_union, List.mem_toFinset]
      exact done
    have waits : process.graph.Waiting id := registered.first.waits released
    rcases ordered.awaiting.awaited id waits dep listed with blocks | old | excused
    · obtain ⟨before, after, split⟩ := List.append_of_mem released
      rcases (registered.first before id after split).2 dep blocks with now | earlier
      · exact done (.inr now)
      · have waits' : process.graph.Waiting dep :=
          registered.first.waits (split ▸ List.mem_append_left _ earlier)
        exact .inr (moves.submitted waits'.1)
    · exact done (.inl old)
    · exact .inr (moves.submitted excused.1)
  cases moves with
  | @submit transactionId deps participants fake state info writes free res =>
    have enrolled := State.enrolled res
    by_cases same : id = transactionId
    · subst same
      have ready : info.numDependencies = 0 := by
        by_contra pending
        simp only [if_neg pending] at handed
        exact consistent.1 (ordered.tracked.accounted.shaped.sound.handed handed)
      rw [enrolled.count, List.length_eq_zero_iff, List.filter_eq_nil_iff] at ready
      apply origin
      rw [enrolled.resolved]
      have listed' : dep ∈ deps := by simpa [dependenciesOf] using listed
      simpa using ready dep listed'
    · apply carried
      simp only at handed
      split at handed
      · exact (Finset.mem_insert.mp handed).resolve_left same
      · exact handed
  | registerExternal free res | register listed' free res =>
    rcases Finset.mem_union.mp handed with before | now
    · exact carried before
    · exact registers (linked.registered res) rfl listed (List.mem_toFinset.mp now)
  | _ => exact carried handed

omit consistent in
theorem RangeOrdered.applied_step (range : FullRangeId) :
    idsAt .completing range next.history ⊆ idsAt .applying range next.history := by
  obtain ⟨events, history, cause⟩ := moves.events
  have carried := List.Subset.trans (ordered.applied range)
    (idsAt_subset .applying range history)
  rw [history, idsAt_append .completing]
  refine List.append_subset.mpr ⟨history ▸ carried, ?_⟩
  rcases cause with ⟨event, rfl, emits⟩ | notifications
  · intro id mem
    rw [← history]
    cases event with
    | completed other =>
      obtain ⟨round, txs, found, rfl⟩ := emits
      by_cases same : other = range
      · subst same
        refine idsAt_subset .applying other history
          (ordered.completing round other txs found ?_)
        simpa [idsAt, eventIds] using mem
      · simp [idsAt, eventIds, same] at mem
    | _ => simp [idsAt, eventIds] at mem
  · intro id mem
    obtain ⟨event, listed, reported⟩ := List.mem_flatMap.mp mem
    obtain ⟨other, rfl⟩ := notifications event listed
    simp [eventIds] at reported

theorem RangeOrdered.completing_step (round : Nat) (range : FullRangeId)
    (txs : List TransactionInfo)
    (found : next.tasks.find (round, range) = some ⟨.completing, txs⟩) :
    txs.map (·.id) ⊆ idsAt .applying range next.history := by
  obtain ⟨events, history, -⟩ := moves.events
  by_cases same : label.onTask = some (round, range)
  · have replaced {key : Nat × FullRangeId} {task : Task}
        (found : (process.setTask key task).tasks.find key = some ⟨.completing, txs⟩) :
        task = ⟨.completing, txs⟩ := by
      rw [find_setTask, if_pos rfl] at found
      exact Option.some.inj found
    have ended {key : Nat × FullRangeId}
        (found : (process.endTask key).tasks.find key = some ⟨.completing, txs⟩) :
        False := by
      rw [find_endTask, if_pos rfl] at found
      simp at found
    cases moves with
    | apply =>
      cases same
      cases replaced found
      change _ ⊆ idsAt .applying range (process.history ++ [_])
      rw [idsAt_append]
      refine List.Subset.trans ?_ (List.subset_append_right _ _)
      simp [idsAt, eventIds]
    | @unmark round' range' txs' found' =>
      cases same
      cases txs' with
      | nil => exact (ended found).elim
      | cons first =>
        have stage := congrArg Task.stage (replaced found)
        cases fake : first.fake <;> simp [fake] at stage
    | spawn found' | take found' | record found' | issue found' | complete found' =>
      cases same
      cases replaced found
    | giveBack found' | fail found' =>
      cases same
      exact (ended found).elim
    | _ => simp [Label.onTask] at same
  · rw [moves.keepsTask same] at found
    exact List.Subset.trans (ordered.completing round range txs found)
      (idsAt_subset .applying range history)

theorem RangeOrdered.issues_step :
    Justified (fun earlier event => ∀ range ids, event = .issued range ids →
      BlockersFirst (next.RangeDependency range) (· ∈ next.graph.handed)
        (· ∈ idsAt .completing range earlier) ids) next.history := by
  have carried := ordered.issues.mono fun earlier event _ property range ids same =>
    ordered.blockersFirst_step moves consistent (property range ids same) fun _ done => done
  obtain ⟨events, history, cause⟩ := moves.events
  rw [history]
  rcases cause with ⟨event, rfl, emits⟩ | notifications
  · refine carried.append_singleton ?_
    rintro range ids rfl
    obtain ⟨round, txs, found, rfl⟩ := emits
    exact ordered.blockersFirst_step moves consistent (ordered.flow.tasks round range _ found)
      fun _ done => done
  · refine carried.append ?_
    intro earlier event mem range ids same
    obtain ⟨id, notified⟩ := notifications event mem
    simp [notified] at same

theorem RangeOrdered.applies_step (range : FullRangeId) :
    BlockersFirst (next.RangeDependency range) (· ∈ next.graph.handed) (fun _ => False)
      (idsAt .applying range next.history) := by
  have carried := ordered.blockersFirst_step moves consistent (ordered.applies range)
    fun _ never => never
  obtain ⟨events, history, cause⟩ := moves.events
  rw [history, idsAt_append]
  have silent (none : idsAt .applying range events = []) :
      BlockersFirst (next.RangeDependency range) (· ∈ next.graph.handed) (fun _ => False)
        (idsAt .applying range process.history ++ idsAt .applying range events) := by
    rw [none, List.append_nil]
    exact carried
  rcases cause with ⟨event, rfl, emits⟩ | notifications
  · cases event with
    | applied other =>
      obtain ⟨round, txs, found, rfl⟩ := emits
      by_cases same : other = range
      · subst same
        refine carried.append ?_
        have batch : idsAt .applying other [.applied other (txs.map (·.id))] =
            txs.map (·.id) := by
          simp [idsAt, eventIds]
        rw [batch]
        exact ordered.blockersFirst_step moves consistent (ordered.flow.tasks round other _ found)
          fun _ done => .inr (ordered.applied other done)
      · exact silent (by simp [idsAt, eventIds, same])
    | _ => exact silent (by simp [idsAt, eventIds])
  · apply silent
    rw [idsAt, List.flatMap_eq_nil_iff]
    intro event mem
    obtain ⟨id, rfl⟩ := notifications event mem
    rfl

/-- What enters group commit may be sent: what it depends on at the range was
completed before it was released, or enters with it. -/
theorem RangeOrdered.entering {add : Add} (tracked : Tracked next) (free : process.adding = none)
    (adding : next.adding = some add) (range : FullRangeId) :
    next.Sendable range ((tmpGroup add.transactions range).map (·.id)) := by
  have linked := ordered.tracked.accounted.shaped.sound.linked
  rcases moves.entering free adding with
    ⟨id, deps, participants, fake, info, rfl, enrolled, ready, handed, listed, rfl⟩ |
    ⟨ids, order, ready, called, res, handed, rfl⟩
  · rw [enrolled.count, List.length_eq_zero_iff, List.filter_eq_nil_iff] at ready
    apply BlockersFirst.of_forall
    intro other mem
    obtain ⟨entry, listed', rfl⟩ := List.mem_map.mp mem
    rw [List.mem_singleton.mp (mem_tmpGroup.mp listed').1, linked.enrolled_id enrolled]
    refine ⟨handed, ?_⟩
    rintro dep ⟨listed', submitted, writes, -⟩
    rw [listed] at listed'
    refine tracked.completed submitted ?_ writes
    rw [enrolled.resolved]
    simpa using ready dep listed'
  · have registered := linked.registered res
    have first : next.Sendable range (ready.map (·.id)) := by
      intro before id after split
      obtain ⟨waits, unblocked⟩ := registered.first before id after split
      refine ⟨(handed id).mpr (.inr (by simp [split])), ?_⟩
      rintro dep ⟨listed, submitted, writes, writes'⟩
      have done (resolved : dep ∈ process.graph.state.resolvedTransactions ∨
          dep ∈ ids) : dep ∈ idsAt .completing range next.history := by
        refine tracked.completed submitted ?_ writes
        rwa [registered.resolved, Finset.mem_union, List.mem_toFinset]
      rw [moves.dependenciesOf consistent.submittedOnce waits.1] at listed
      rcases ordered.awaiting.awaited id waits dep listed with blocks | old | excused
      · exact (unblocked dep blocks).imp_left fun now => done (.inr now)
      · exact .inl (done (.inl old))
      · rw [registered.writeRanges] at writes writes'
        exact absurd writes' (excused.2 range writes)
    refine tmpGroup_blockersFirst first ?_
    intro tx listed writes other listed' depends unfinished
    rw [← registered.writeRanges_cloned listed', ← registered.writeRanges]
    exact depends.2.2.1

include apart

include plain

theorem RangeOrdered.step : RangeOrdered next := by
  have once := consistent.submittedOnce
  have real : label.Genuine := by
    cases label with
    | commit => exact plain.1
    | _ => trivial
  have follows : Follows process.Excused process label := by
    cases label with
    | registerExternal | register =>
      intro id dependent released blocks
      exact (apart id dependent released blocks).imp_right fun disjoint =>
        ⟨released.waits.1, disjoint⟩
    | _ => trivial
  have tracked := ordered.tracked.step moves consistent real
  constructor
  case tracked => exact tracked
  case awaiting =>
    exact ordered.awaiting.step moves once follows (ordered.excused_step moves consistent)
  case distinct => exact ordered.distinct_step moves consistent plain
  case known => exact ordered.known_step moves consistent
  case flow =>
    have carried : Flow (fun range batch => next.Sendable range (batch.map (·.id))) process :=
      ordered.flow.mono fun range batch sendable => ordered.sendable_step moves consistent sendable
    refine carried.step (fun _ => BlockersFirst.nil) ?_ moves
      fun _ free adding => ordered.entering moves consistent tracked free adding
    intro range first second left right
    rw [List.map_append]
    exact BlockersFirst.append left (BlockersFirst.mono right (fun _ handed => handed)
      (fun _ done => .inl done) fun _ _ _ depends => .inl depends)
  case applied => exact ordered.applied_step moves
  case completing => exact ordered.completing_step moves consistent
  case issues => exact ordered.issues_step moves consistent
  case applies => exact ordered.applies_step moves consistent

end Step

/-- In every run whose registrations release no transaction apart from one that
waits for it at a common range, a range gets transactions behind their
dependencies, and keeps their values. -/
theorem range_commits_in_order {process : Process}
    (reached : Reachable step
      (fun process label => (Honest process label ∧ Plain label) ∧ Apart process label)
      Initial process) : IssuesInOrder process ∧ StoresInOrder process := by
  have ordered : RangeOrdered process := by
    refine reached.invariant ?_ fun _ _ _ ordered permitted taken =>
      ordered.step (.of_step taken) permitted.1.1.consistent permitted.1.2 permitted.2
    rintro _ rfl
    exact RangeOrdered.empty
  exact ⟨ordered.issuesInOrder, ordered.storesInOrder⟩

/-! ## A chain in one batch and a batch that is overtaken -/

theorem Nested.apart (nested : Nested process label) : Apart process label := by
  cases label with
  | registerExternal | register =>
    exact fun id dependent released blocks => .inl (nested id dependent released blocks).1
  | _ => trivial

/-- Both transactions of a chain are sent to their range in one batch. -/
theorem range_commits_in_order_chain :
    ∃ process, Reachable step
        (fun process label => (Honest process label ∧ Plain label) ∧ Apart process label)
        Initial process ∧
      idsAt .applying (range 1) process.history = [2, 3] ∧
      ∀ changes key value, (changes 3).find key = some (some value) →
        (storageAfter changes (fun _ => none) (range 1) process.history).get key =
          some value := by
  have run : ∃ process, Reachable step
      (fun process label =>
        (Honest process label ∧ Plain label) ∧ process.nestedWithin label = true)
      Initial process ∧
      decide (idsAt .applying (range 1) process.history = [2, 3] ∧
        process.RangeDependency (range 1) 2 3) = true :=
    exists_reachable_of_run (show Initial empty from rfl)
      (chain 1 1 ++ handOver [range 1] 0 ++ commitRange 0 (range 1)) _ (by decide +kernel)
  obtain ⟨process, reached, observed⟩ := run
  obtain ⟨applied, depends⟩ := of_decide_eq_true observed
  have permitted : Reachable step
      (fun process label => (Honest process label ∧ Plain label) ∧ Apart process label)
      Initial process :=
    reached.mono (fun _ _ allowed => ⟨allowed.1, (Nested.of_nestedWithin allowed.2).apart⟩)
      fun _ first => first
  refine ⟨process, permitted, applied, ?_⟩
  intro changes key value put
  exact (range_commits_in_order permitted).2 changes (fun _ => none) (by simp) (range 1) [2] 3 []
    applied 2 depends key value put (by simp)

/-- Transaction 5 waits for 2 and 4.  While the batch of 2 is in flight 4 is
registered, and the next round sends 5 first. -/
theorem batch_overtakes_dependency :
    ¬ ∀ process, Reachable step (fun process label => Honest process label ∧ Plain label)
        Initial process →
      Acyclic process.DependsOn → IssuesInOrder process ∧ StoresInOrder process := by
  intro always
  have run : ∃ process, Reachable step (fun process label => Honest process label ∧ Plain label)
      Initial process ∧
      decide (process.history = [.recordedDirectly 1, .recordedDirectly 4,
          .recorded (range 1) [5], .issued (range 1) [5]] ∧
        process.RangeDependency (range 1) 2 5 ∧ Descending process) = true :=
    exists_reachable_of_run (show Initial empty from rfl)
      ([.commit 2 [1] (Graph.writer 1) false, .commit 5 [2, 4] (Graph.writer 1) false,
        .recordDirectly 1, .registerExternal [1] .ascending] ++ handOver [range 1] 0 ++
        [.spawn 0 (range 1), .advance 0 (range 1), .advance 0 (range 1), .recordDirectly 4,
          .registerExternal [4] .ascending, .readRanges, .countPending, .extend (range 1),
          .markNonEmpty 1, .snapshot 1, .spawn 1 (range 1), .advance 1 (range 1),
          .advance 1 (range 1), .advance 1 (range 1), .advance 1 (range 1)]) _
      (by decide +kernel)
  obtain ⟨process, reached, observed⟩ := run
  obtain ⟨history, depends, descending⟩ := of_decide_eq_true observed
  have issues := (always process reached descending.acyclic).1
    [.recordedDirectly 1, .recordedDirectly 4, .recorded (range 1) [5]] (range 1) [5] [] history
    [] 5 [] rfl 2 depends
  exact absurd issues (by decide)

end Sangria.Resolver.Process
