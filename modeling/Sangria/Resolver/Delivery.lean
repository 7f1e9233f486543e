import Sangria.Resolver.Ledger

/-!
# Delivery to a range

The entries of a transaction at one range are conserved: they are to be
counted, to be added, in the group, in a batch, reported by an event of the
batch, or lost with it.  A resolved transaction has nothing underway, so every
range it writes to has completed it.
-/

namespace Sangria.Resolver.Process

open TransitionSystem Release

variable {process next : Process} {label : Label}
variable {id : Uuid} {key : Nat × FullRangeId} {old : Task} {range : FullRangeId}

def TaskStage.index : TaskStage → Nat
  | .taking => 0
  | .unmarking => 1
  | .recording => 2
  | .issuing => 3
  | .applying => 4
  | .completing => 5
  | .returning => 6

def TaskStage.upto (limit stage : TaskStage) : Bool :=
  decide (TaskStage.index stage ≤ TaskStage.index limit)

def eventIds (stage : TaskStage) (range : FullRangeId) : Event → List Uuid
  | .recorded other ids => if stage = .recording ∧ other = range then ids else []
  | .issued other ids => if stage = .issuing ∧ other = range then ids else []
  | .applied other ids => if stage = .applying ∧ other = range then ids else []
  | .completed other ids => if stage = .completing ∧ other = range then ids else []
  | .recordedDirectly _ | .notified _ => []

def idsAt (stage : TaskStage) (range : FullRangeId) (history : List Event) : List Uuid :=
  history.flatMap (eventIds stage range)

theorem idsAt_append (stage : TaskStage) (range : FullRangeId) (earlier later : List Event) :
    idsAt stage range (earlier ++ later) = idsAt stage range earlier ++ idsAt stage range later :=
  List.flatMap_append

def entryAt (range : FullRangeId) (id : Uuid) (other : FullRangeId)
    (transaction : TransactionInfo) : Nat :=
  if other = range then entry id transaction else 0

theorem weigh_entryAt (range : FullRangeId) (id : Uuid) (other : FullRangeId)
    (batch : List TransactionInfo) :
    weigh (entryAt range id other) batch =
      if other = range then weigh (entry id) batch else 0 := by
  by_cases same : other = range
  · simp only [same, if_true]
    congr 1
    funext tx
    simp [entryAt]
  · rw [if_neg same]
    apply List.sum_eq_zero
    intro value mem
    obtain ⟨tx, -, rfl⟩ := List.mem_map.mp mem
    simp [entryAt, same]

theorem weigh_entryAt_le (range : FullRangeId) (id : Uuid) (other : FullRangeId)
    (batch : List TransactionInfo) :
    weigh (entryAt range id other) batch ≤ weigh (entry id) batch := by
  rw [weigh_entryAt]
  split
  · exact le_rfl
  · exact Nat.zero_le _

/-- Entries that a call of `add_transactions` has not counted yet. -/
def uncountedAt (range : FullRangeId) (id : Uuid) : Option Add → Nat
  | some ⟨_, .extending _⟩ => 0
  | some ⟨transactions, _⟩ =>
    weigh (fun transaction => transaction.writeRanges.count range * entry id transaction)
      transactions
  | none => 0

/-- The entries of a transaction at a range, up to those that the event of the
stage has reported. -/
def totalAt (process : Process) (stage : TaskStage) (range : FullRangeId) (id : Uuid) : Nat :=
  uncountedAt range id process.adding +
    underway (entryAt range id) (TaskStage.upto stage) process +
    (idsAt stage range process.history).count id

/-! ## Conservation -/

theorem underway_setTask (weight : FullRangeId → TransactionInfo → Nat)
    (counts : TaskStage → Bool) (new : Task)
    (found : process.tasks.find key = some old) :
    underway weight counts (process.setTask key new) + taskWeight weight counts key old =
      underway weight counts process + taskWeight weight counts key new := by
  have moved := tally_setTask weight counts new found
  simp only [underway, setTask] at moved ⊢
  omega

theorem underway_endTask (weight : FullRangeId → TransactionInfo → Nat) (counts : TaskStage → Bool)
    (found : process.tasks.find key = some old) :
    underway weight counts (process.endTask key) + taskWeight weight counts key old =
      underway weight counts process := by
  have moved := tally_endTask weight counts found
  simp only [underway, endTask] at moved ⊢
  omega

section Conservation

variable {stage : TaskStage} {range : FullRangeId} {id : Uuid}

theorem totalAt_advance {key : Nat × FullRangeId} {current later : TaskStage}
    {txs : List TransactionInfo} {event : Event}
    (found : process.tasks.find key = some ⟨current, txs⟩)
    (exchange : taskWeight (entryAt range id) (TaskStage.upto stage) key
        ⟨current, txs⟩ =
      taskWeight (entryAt range id) (TaskStage.upto stage) key ⟨later, txs⟩ +
        (eventIds stage range event).count id) :
    ((process.setTask key ⟨later, txs⟩).log [event]).totalAt stage range id =
      process.totalAt stage range id := by
  have moved := underway_setTask (entryAt range id) (TaskStage.upto stage)
    ⟨later, txs⟩ found
  change uncountedAt range id process.adding + underway (entryAt range id) (TaskStage.upto stage)
    (process.setTask key ⟨later, txs⟩) +
      (idsAt stage range (process.history ++ [event])).count id = _
  rw [idsAt_append, List.count_append]
  simp only [totalAt, idsAt, List.flatMap_cons, List.flatMap_nil, List.append_nil] at exchange ⊢
  omega

theorem taskWeight_reports (key : Nat × FullRangeId) (txs : List TransactionInfo)
    (limited : stage = .applying ∨ stage = .completing) :
    let weight := taskWeight (entryAt range id) (TaskStage.upto stage) key
    let ids := txs.map (·.id)
    weight ⟨.recording, txs⟩ = weight ⟨.issuing, txs⟩ +
        (eventIds stage range (.recorded key.2 ids)).count id ∧
      weight ⟨.issuing, txs⟩ = weight ⟨.applying, txs⟩ +
        (eventIds stage range (.issued key.2 ids)).count id ∧
      weight ⟨.applying, txs⟩ = weight ⟨.completing, txs⟩ +
        (eventIds stage range (.applied key.2 ids)).count id ∧
      weight ⟨.completing, txs⟩ = weight ⟨.returning, txs⟩ +
        (eventIds stage range (.completed key.2 ids)).count id := by
  have batch : weigh (entryAt range id key.2) txs =
      (if key.2 = range then txs.map (·.id) else []).count id := by
    rw [weigh_entryAt, weigh_entry_eq_count]
    split <;> simp
  rcases limited with rfl | rfl <;>
    simp [taskWeight, TaskStage.upto, TaskStage.index, eventIds, batch]

theorem addWeight_counting (txs : List TransactionInfo) :
    addWeight (entryAt range id) (some ⟨txs, .extending (tmpRanges txs)⟩) =
      weigh (fun tx => tx.writeRanges.count range * entry id tx)
        txs := by
  have single : addWeight (entryAt range id)
      (some ⟨txs, .extending (tmpRanges txs)⟩) =
      (tmpRanges txs).count range • weigh (entryAt range id range)
        (tmpGroup txs range) := by
    apply List.sum_map_eq_nsmul_single
    intro other ne _
    rw [weigh_entryAt, if_neg ne]
  rw [single, weigh_entryAt, if_pos rfl, weigh_tmpGroup]
  by_cases listed : range ∈ tmpRanges txs
  · rw [List.count_eq_one_of_mem (nodup_tmpRanges _) listed, one_nsmul]
  · rw [List.count_eq_zero.mpr listed, zero_nsmul]
    symm
    apply List.sum_eq_zero
    intro value mem
    obtain ⟨tx, listed', rfl⟩ := List.mem_map.mp mem
    rw [List.count_eq_zero.mpr, Nat.zero_mul]
    exact fun writes => listed (mem_tmpRanges.mpr ⟨tx, listed', writes⟩)

/-- Transactions that are handed over enter with all their entries. -/
theorem Hands.totalAt {txs : List TransactionInfo}
    (hands : Hands process next txs) :
    next.totalAt stage range id = process.totalAt stage range id +
      newlyHanded process next id * (next.graph.state.writeRanges id).count range := by
  have idle : addWeight (entryAt range id) next.adding = 0 := by
    rw [hands.entering]
    split <;> rfl
  have before : uncountedAt range id process.adding = 0 ∧
      addWeight (entryAt range id) process.adding = 0 := by
    rw [hands.free]
    exact ⟨rfl, rfl⟩
  have after : uncountedAt range id next.adding =
      weigh (fun tx => tx.writeRanges.count range * entry id tx)
        txs := by
    rw [hands.entering]
    split
    next none => simp [uncountedAt, none]
    next => rfl
  rw [hands.weigh_eq (List.count range)] at after
  simp only [Process.totalAt, underway, after, before, idle, hands.group, hands.tasks,
    hands.history]
  omega

/-- What is handed over is added to the total, and what leaves it is lost. -/
def Conserves (process next : Process) (stage : TaskStage) (range : FullRangeId) (id : Uuid) :
    Prop :=
  ∃ dropped, next.totalAt stage range id + dropped = process.totalAt stage range id +
      newlyHanded process next id * (next.graph.state.writeRanges id).count range ∧
    dropped + weigh (entry id) process.lost ≤ weigh (entry id) next.lost

theorem Conserves.of_eq (lost : next.lost = process.lost)
    (same : next.totalAt stage range id = process.totalAt stage range id +
      newlyHanded process next id * (next.graph.state.writeRanges id).count range) :
    Conserves process next stage range id :=
  ⟨0, same, by rw [lost, Nat.zero_add]⟩

theorem Conserves.of_unchanged (lost : next.lost = process.lost)
    (handed : next.graph.handed = process.graph.handed)
    (same : next.totalAt stage range id = process.totalAt stage range id) :
    Conserves process next stage range id := by
  apply of_eq lost
  rw [same, newlyHanded_of_eq id handed, Nat.zero_mul, Nat.add_zero]

end Conservation

section Step

variable (accounted : Accounted process) (genuine : Genuine process)
  (moves : Moves process label next) (once : SubmittedOnce process label)

include accounted genuine moves once

theorem Accounted.totalAt_step {stage : TaskStage}
    (limited : stage = .applying ∨ stage = .completing)
    (range : FullRangeId) (id : Uuid) : Conserves process next stage range id := by
  have handed (updates : label.updates = true) : Conserves process next stage range id := by
    rcases accounted.shaped.hands moves once updates with rfl | ⟨txs, hands⟩
    · exact .of_unchanged rfl rfl rfl
    · exact .of_eq hands.lost hands.totalAt
  cases moves with
  | readOnly | submit | registerExternal | register => exact handed rfl
  | recordDirectly =>
    refine .of_unchanged rfl rfl ?_
    simp [totalAt, log, idsAt, eventIds, underway]
  | @readRanges txs adding =>
    refine .of_unchanged rfl rfl ?_
    by_cases missing : process.group.missingRanges (tmpRanges txs) = [] <;>
      simp [totalAt, underway, setAdding, adding, addWeight, uncountedAt, missing]
  | insertRanges adding =>
    refine .of_unchanged rfl rfl ?_
    simp only [totalAt, underway, groupWeight_insertRanges, adding, addWeight, uncountedAt]
  | @countPending txs adding =>
    refine .of_unchanged rfl rfl ?_
    simp only [totalAt, underway, addWeight_counting, groupWeight,
      (GroupCommit.countPending_frame _ _).1, adding, uncountedAt]
    simp only [addWeight]
    omega
  | @extend txs remaining range' adding listed free =>
    obtain ⟨-, -, -, distinct, inside, present⟩ := accounted.shaped.adding _ adding
    refine .of_unchanged rfl rfl ?_
    have taken := List.sum_map_erase
      (fun other => weigh (entryAt range id other) (tmpGroup txs other)) listed
    simp only [totalAt, underway, adding, addWeight, uncountedAt,
      groupWeight_extend _ _ _ (present range' (inside listed))]
    omega
  | markNonEmpty adding =>
    refine .of_unchanged rfl rfl ?_
    simp only [totalAt, underway, adding, addWeight, uncountedAt, List.map_nil, List.sum_nil]
    rfl
  | spawn found listed =>
    refine .of_unchanged rfl rfl ?_
    have same := tally_spawn (entryAt range id) (TaskStage.upto stage)
      (accounted.shaped.notSpawned found listed)
    simp only [totalAt, underway, setTask, setRound] at same ⊢
    omega
  | @notify round ended left notified completed found res =>
    refine .of_unchanged rfl rfl ?_
    have silent : idsAt stage range (notified.map Event.notified) = [] := by
      rw [idsAt, List.flatMap_eq_nil_iff]
      intro event mem
      obtain ⟨other, -, rfl⟩ := List.mem_map.mp mem
      rfl
    change _ + _ + (idsAt stage range (process.history ++ notified.map Event.notified)).count id =
      _
    rw [idsAt_append, silent, List.append_nil]
    rfl
  | @take round range' txs found unlocked =>
    obtain rfl := accounted.shaped.untaken _ _ _ found
    refine .of_unchanged rfl rfl ?_
    have cleared := groupWeight_clearGroup (entryAt range id) process.group range'
    have moved := underway_setTask (entryAt range id) (TaskStage.upto stage)
      ⟨.unmarking, process.group.groupOf range'⟩ found
    have counted : TaskStage.upto stage .unmarking = true := by
      rcases limited with rfl | rfl <;> rfl
    simp only [taskWeight, counted, weigh_nil, ite_self, if_true] at moved
    simp only [totalAt, underway, setTask] at moved ⊢
    omega
  | @unmark round range' txs found =>
    refine .of_unchanged rfl rfl ?_
    cases txs with
    | nil =>
      have moved := underway_endTask (entryAt range id) (TaskStage.upto stage) found
      simp only [taskWeight, weigh_nil, ite_self, Nat.add_zero] at moved
      exact congrArg (· + _) (congrArg (_ + ·) moved)
    | cons first rest =>
      have real := genuine.batches.tasks _ _ _ found first List.mem_cons_self
      have moved := underway_setTask (entryAt range id) (TaskStage.upto stage)
        ⟨.recording, first :: rest⟩ found
      have counted : TaskStage.upto stage .unmarking = TaskStage.upto stage .recording := by
        rcases limited with rfl | rfl <;> rfl
      simp only [taskWeight, counted, Nat.add_right_cancel_iff] at moved
      simp only [afterUnmarking, real, Bool.false_eq_true, if_false]
      exact congrArg (· + _) (congrArg (_ + ·) moved)
  | @record round range' txs found =>
    exact .of_unchanged rfl rfl (totalAt_advance found
      (taskWeight_reports (round, range') txs limited).1)
  | @issue round range' txs found =>
    exact .of_unchanged rfl rfl (totalAt_advance found
      (taskWeight_reports (round, range') txs limited).2.1)
  | @apply round range' txs found =>
    exact .of_unchanged rfl rfl (totalAt_advance found
      (taskWeight_reports (round, range') txs limited).2.2.1)
  | @complete round range' txs found =>
    exact .of_unchanged rfl rfl (totalAt_advance found
      (taskWeight_reports (round, range') txs limited).2.2.2)
  | giveBack found =>
    refine .of_unchanged rfl rfl ?_
    have moved := underway_endTask (entryAt range id) (TaskStage.upto stage) found
    have gone : TaskStage.upto stage .returning = false := by
      rcases limited with rfl | rfl <;> rfl
    simp only [taskWeight, gone, Bool.false_eq_true, if_false, Nat.add_zero] at moved
    exact congrArg (· + _) (congrArg (_ + ·) moved)
  | @fail round range' current txs effective events found stages emitted =>
    have moved := underway_endTask (entryAt range id) (TaskStage.upto stage) found
    have silent : idsAt stage range events = [] := by
      rcases emitted with rfl | ⟨-, rfl⟩
      · rfl
      · rcases limited with rfl | rfl <;> simp [idsAt, eventIds]
    refine ⟨taskWeight (entryAt range id) (TaskStage.upto stage) (round, range')
      ⟨current, txs⟩, ?_, ?_⟩
    · rw [newlyHanded_of_eq id (by rfl), Nat.zero_mul, Nat.add_zero]
      change uncountedAt range id process.adding +
        underway (entryAt range id) (TaskStage.upto stage) (process.endTask (round, range')) +
          (idsAt stage range (process.history ++ events)).count id + _ = _
      rw [idsAt_append, silent, List.append_nil, totalAt]
      omega
    · change _ ≤ weigh (entry id) (process.lost ++ txs)
      have less : taskWeight (entryAt range id) (TaskStage.upto stage) (round, range')
          ⟨current, txs⟩ ≤ weigh (entry id) txs := by
        simp only [taskWeight]
        split
        · exact weigh_entryAt_le range id range' txs
        · exact Nat.zero_le _
      rw [weigh_append]
      omega
  | _ => exact .of_unchanged rfl rfl rfl

end Step

/-! ## What is resolved was completed -/

structure Tracked (process : Process) : Prop where
  accounted : Accounted process
  genuine : Genuine process
  entries : ∀ id ∈ process.graph.submitted, ∃ info,
    process.graph.state.infoPerTransaction.find id = some info
  most : ∀ range id, process.totalAt .applying range id ≤
    if id ∈ process.graph.handed then (process.graph.state.writeRanges id).count range else 0
  least : ∀ range, ∀ id ∈ process.graph.handed,
    (process.graph.state.writeRanges id).count range ≤
      process.totalAt .completing range id + weigh (entry id) process.lost
  registers : ∀ ids ∈ process.registers, ∀ id ∈ ids, 0 < process.notifications id
  resolved : ∀ id ∈ process.graph.state.resolvedTransactions,
    id ∈ process.external ∨ 0 < process.notifications id
  external : ∀ id ∈ process.external, id ∉ process.graph.submitted

theorem Tracked.empty : Tracked empty := by
  refine ⟨Accounted.empty, Genuine.empty, ?_, ?_, ?_, ?_, ?_, ?_⟩ <;>
    simp [Process.empty, Graph.empty, State.empty, GroupCommit.empty, totalAt, uncountedAt,
      underway, addWeight, groupWeight, idsAt]

theorem underway_le (process : Process) (range : FullRangeId) (id : Uuid)
    (counts : TaskStage → Bool) :
    underway (entryAt range id) counts process ≤
      underway (fun _ => entry id) (fun _ => true) process := by
  have add : addWeight (entryAt range id) process.adding ≤
      addWeight (fun _ => entry id) process.adding := by
    simp only [addWeight]
    split
    · exact List.sum_le_sum fun other _ => weigh_entryAt_le range id other _
    · exact le_rfl
  have groups : groupWeight (entryAt range id) process.group ≤
      groupWeight (fun _ => entry id) process.group :=
    FiniteMap.tally_le_tally _ fun other list => weigh_entryAt_le range id other list
  have tasks : process.tasks.tally (taskWeight (entryAt range id) counts) ≤
      process.tasks.tally (taskWeight (fun _ => entry id) fun _ => true) := by
    apply FiniteMap.tally_le_tally
    intro key task
    simp only [taskWeight, if_true]
    split
    · exact weigh_entryAt_le range id key.2 _
    · exact Nat.zero_le _
  simp only [underway]
  omega

theorem uncountedAt_eq_zero (counted : process.early id = 0) (range : FullRangeId) :
    uncountedAt range id process.adding = 0 := by
  cases found : process.adding with
  | none => rfl
  | some add =>
    obtain ⟨txs, stage⟩ := add
    cases stage with
    | extending => rfl
    | reading | inserting | counting =>
      simp only [early, found, weigh_entry_eq_count, List.count_eq_zero] at counted
      exact weigh_mul_entry_of_notMem _ counted

theorem Accounted.handed_of_notified (accounted : Accounted process)
    (notified : 0 < process.notifications id) : id ∈ process.graph.handed := by
  by_contra missing
  have place := accounted.once id
  rw [if_neg missing, places] at place
  omega

theorem Accounted.settled_of_notified (accounted : Accounted process)
    (notified : 0 < process.notifications id) : process.load id = 0 ∧ process.early id = 0 := by
  have place := accounted.once id
  rw [if_pos (accounted.handed_of_notified notified), places] at place
  refine ⟨?_, by omega⟩
  rw [accounted.balanced.counted]
  cases found : process.group.numPendingParticipantCommitsPerTransaction.find id with
  | none => simp [counter, found]
  | some =>
    rw [(counter_of_find found).2] at place
    omega

theorem Tracked.completed_of_notified (tracked : Tracked process)
    (notified : 0 < process.notifications id)
    (writes : range ∈ process.graph.state.writeRanges id) :
    id ∈ idsAt .completing range process.history := by
  have least := tracked.least range id (tracked.accounted.handed_of_notified notified)
  have positive := List.count_pos_iff.mpr writes
  obtain ⟨empty, counted⟩ := tracked.accounted.settled_of_notified notified
  have early := uncountedAt_eq_zero counted range
  have less := underway_le process range id (TaskStage.upto .completing)
  simp only [load] at empty
  simp only [totalAt] at least
  rw [← List.count_pos_iff]
  omega

theorem Tracked.completed (tracked : Tracked process) (submitted : id ∈ process.graph.submitted)
    (resolved : id ∈ process.graph.state.resolvedTransactions)
    (writes : range ∈ process.graph.state.writeRanges id) :
    id ∈ idsAt .completing range process.history := by
  rcases tracked.resolved id resolved with external | notified
  · exact absurd submitted (tracked.external id external)
  · exact tracked.completed_of_notified notified writes

theorem notified_of_notifyAll {waiting dropped left : Finset Uuid}
    {txs : List TransactionInfo} {notified : List Uuid}
    (res : notifyAll waiting dropped txs = (left, notified, true)) :
    notified = txs.map (·.id) := by
  induction txs generalizing waiting notified with
  | nil =>
    simp only [notifyAll, Prod.mk.injEq, and_true] at res
    simp [← res.2]
  | cons tx rest ih =>
    simp only [notifyAll] at res
    split at res
    next => simp at res
    next =>
      split at res
      next => simp at res
      next =>
        generalize later : notifyAll (waiting.erase tx.id) dropped rest = tail at res
        obtain ⟨left', notified', completed'⟩ := tail
        simp only [Prod.mk.injEq] at res
        obtain ⟨rfl, rfl, rfl⟩ := res
        rw [ih later, List.map_cons]

section Step

variable (tracked : Tracked process) (moves : Moves process label next)
  (consistent : Consistent process label)

omit tracked in
include moves in
theorem Moves.notifications_le (id : Uuid) : process.notifications id ≤ next.notifications id := by
  obtain ⟨events, history, -⟩ := moves.events
  simp only [Process.notifications, history, List.count_append]
  exact Nat.le_add_right _ _

include tracked moves consistent

theorem Tracked.entries_step {id : Uuid} (known : id ∈ next.graph.submitted) :
    ∃ info, next.graph.state.infoPerTransaction.find id = some info := by
  have linked := tracked.accounted.shaped.sound.linked
  have registers {state : State} {ready : List TransactionInfo} {ids : List Uuid}
      {order : IterationOrder}
      (res : process.graph.state.registerCommittedTransactions order ids =
        some (state, ready)) (before : id ∈ process.graph.submitted) :
      ∃ info, state.infoPerTransaction.find id = some info := by
    obtain ⟨info, found⟩ := tracked.entries id before
    cases found' : state.infoPerTransaction.find id with
    | some info' => exact ⟨info', rfl⟩
    | none =>
      have missing := (linked.registered res).present id found'
      exact absurd (missing.symm.trans found) (by simp)
  cases moves with
  | @submit transactionId deps participants fake state info writes free res =>
    have enrolled := State.enrolled res
    by_cases same : id = transactionId
    · exact ⟨info, same ▸ enrolled.found⟩
    · obtain ⟨old, found⟩ := tracked.entries id ((Finset.mem_insert.mp known).resolve_left same)
      obtain ⟨new, found', -⟩ := enrolled.kept id old same found
      exact ⟨new, found'⟩
  | registerExternal free res | register listed free res => exact registers res known
  | _ => exact tracked.entries id known

theorem Tracked.writeRanges_step {id : Uuid} (known : id ∈ process.graph.submitted) :
    next.graph.state.writeRanges id = process.graph.state.writeRanges id := by
  obtain ⟨info, found⟩ := tracked.entries id known
  exact moves.writeRanges consistent.submittedOnce tracked.accounted.shaped.sound known found

theorem Tracked.most_step (range : FullRangeId) (id : Uuid) :
    next.totalAt .applying range id ≤ if id ∈ next.graph.handed then
      (next.graph.state.writeRanges id).count range else 0 := by
  obtain ⟨dropped, total, -⟩ := tracked.accounted.totalAt_step tracked.genuine moves
    consistent.submittedOnce (.inl rfl) range id
  have before := tracked.most range id
  by_cases known : id ∈ process.graph.handed
  · have same := tracked.writeRanges_step moves consistent
      (tracked.accounted.shaped.sound.handed known)
    rw [newlyHanded, if_neg (fun both => both.2 known)] at total
    rw [if_pos known] at before
    rw [if_pos (moves.handed known), same]
    omega
  · rw [if_neg known] at before
    split
    next now =>
      rw [newlyHanded, if_pos ⟨now, known⟩] at total
      omega
    next missing =>
      rw [newlyHanded, if_neg (fun both => missing both.1)] at total
      omega

theorem Tracked.least_step (range : FullRangeId) (id : Uuid) (now : id ∈ next.graph.handed) :
    (next.graph.state.writeRanges id).count range ≤
      next.totalAt .completing range id + weigh (entry id) next.lost := by
  obtain ⟨dropped, total, lost⟩ := tracked.accounted.totalAt_step tracked.genuine moves
    consistent.submittedOnce (.inr rfl) range id
  by_cases known : id ∈ process.graph.handed
  · have before := tracked.least range id known
    have same := tracked.writeRanges_step moves consistent
      (tracked.accounted.shaped.sound.handed known)
    rw [newlyHanded, if_neg (fun both => both.2 known)] at total
    rw [same]
    omega
  · rw [newlyHanded, if_pos ⟨now, known⟩] at total
    omega

theorem Tracked.registers_step (ids : List Uuid) (listed : ids ∈ next.registers) (id : Uuid)
    (mem : id ∈ ids) : 0 < next.notifications id := by
  have carried (before : ids ∈ process.registers) : 0 < next.notifications id :=
    (tracked.registers ids before id mem).trans_le (moves.notifications_le id)
  cases moves with
  | register => exact carried (List.mem_of_mem_erase listed)
  | @notify round ended left notified completed found res =>
    have cases : ids ∈ process.registers ∨ completed = true ∧ ids = ended.map (·.id) := by
      change ids ∈ (if completed ∧ ended ≠ [] then _ else _) at listed
      split at listed
      next complete =>
        rcases List.mem_append.mp listed with old | new
        · exact .inl old
        · exact .inr ⟨complete.1, List.mem_singleton.mp new⟩
      next => exact .inl listed
    rcases cases with old | ⟨rfl, rfl⟩
    · exact carried old
    · rw [notified_of_notifyAll res, notifications_log, List.count_map_of_injective _ _
        (fun _ _ same => by cases same; rfl)]
      have := List.count_pos_iff.mpr mem
      omega
  | _ => exact carried listed

theorem Tracked.resolved_step (id : Uuid)
    (resolved : id ∈ next.graph.state.resolvedTransactions) :
    id ∈ next.external ∨ 0 < next.notifications id := by
  have linked := tracked.accounted.shaped.sound.linked
  have carried (before : id ∈ process.graph.state.resolvedTransactions) :
      id ∈ process.external ∨ 0 < next.notifications id :=
    (tracked.resolved id before).imp_right fun told => told.trans_le (moves.notifications_le id)
  cases moves with
  | submit _ _ res =>
    rw [(State.enrolled res).resolved] at resolved
    exact carried resolved
  | registerExternal _ res =>
    rw [(linked.registered res).resolved, Finset.mem_union] at resolved
    rcases resolved with old | new
    · exact (carried old).imp_left fun known => Finset.mem_union_left _ known
    · exact .inl (Finset.mem_union_right _ new)
  | register listed _ res =>
    rw [(linked.registered res).resolved, Finset.mem_union, List.mem_toFinset] at resolved
    rcases resolved with old | new
    · exact carried old
    · exact .inr (tracked.registers _ listed id new)
  | _ => exact carried resolved

theorem Tracked.external_step (id : Uuid) (external : id ∈ next.external) :
    id ∉ next.graph.submitted := by
  cases moves with
  | submit =>
    rw [Finset.mem_insert, not_or]
    refine ⟨?_, tracked.external id external⟩
    rintro rfl
    exact consistent.2.2 external
  | registerExternal =>
    rcases Finset.mem_union.mp external with old | new
    · exact tracked.external id old
    · exact (consistent id (List.mem_toFinset.mp new)).2
  | _ => exact tracked.external id external

theorem Tracked.step (real : label.Genuine) : Tracked next where
  accounted := tracked.accounted.step moves consistent.submittedOnce
  genuine := tracked.genuine.step tracked.accounted.shaped.sound moves real
  entries := fun _ known => tracked.entries_step moves consistent known
  most := tracked.most_step moves consistent
  least := tracked.least_step moves consistent
  registers := tracked.registers_step moves consistent
  resolved := tracked.resolved_step moves consistent
  external := tracked.external_step moves consistent

end Step

end Sangria.Resolver.Process
