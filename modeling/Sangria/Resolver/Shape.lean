import Sangria.Resolver.Flow

/-!
# The shape of reachable processes

Which tasks belong to which rounds, and what a call of `add_transactions` has
established at each of its stages.
-/

namespace Sangria.Resolver.Process

open TransitionSystem Release

variable {process next : Process}

def HasGroup (group : GroupCommit) (range : FullRangeId) : Prop :=
  group.groupPerParticipant.find range ≠ none

def StageShaped (group : GroupCommit) (transactions : List TransactionInfo) :
    AddStage → Prop
  | .reading => True
  | .inserting missing => ∀ range ∈ tmpRanges transactions,
      HasGroup group range ∨ range ∈ missing
  | .counting => ∀ range ∈ tmpRanges transactions, HasGroup group range
  | .extending remaining => remaining.Nodup ∧ remaining ⊆ tmpRanges transactions ∧
      ∀ range ∈ tmpRanges transactions, HasGroup group range

structure AddShaped (process : Process) (add : Add) : Prop where
  distinct : (add.transactions.map (·.id)).Nodup
  handed : ∀ transaction ∈ add.transactions, transaction.id ∈ process.graph.handed
  writes : ∀ transaction ∈ add.transactions, transaction.writeRanges ≠ []
  stage : StageShaped process.group add.transactions add.stage

structure Shaped (process : Process) : Prop where
  sound : process.graph.Sound
  writes : ∀ id info, process.graph.Waiting id →
    process.graph.state.infoPerTransaction.find id = some info → info.writeRanges ≠ []
  adding : ∀ add, process.adding = some add → AddShaped process add
  tasks : ∀ round range task, process.tasks.find (round, range) = some task →
    ∃ remaining spawned, process.rounds.find round = some (.spawning remaining spawned) ∧
      range ∈ spawned ∧ range ∉ remaining
  untaken : ∀ round range transactions,
    process.tasks.find (round, range) = some ⟨.taking, transactions⟩ → transactions = []

theorem Shaped.empty : Shaped empty := by
  constructor
  case sound => exact Graph.Sound.empty
  all_goals simp [Process.empty, Graph.empty, State.empty]

theorem Shaped.noTasks (shaped : Shaped process) {round : Nat} {stage : Round}
    (found : process.rounds.find round = some stage)
    (other : ∀ remaining spawned, stage ≠ .spawning remaining spawned) (range : FullRangeId) :
    process.tasks.find (round, range) = none := by
  cases present : process.tasks.find (round, range) with
  | none => rfl
  | some task =>
    obtain ⟨remaining, spawned, found', -⟩ := shaped.tasks round range task present
    rw [found] at found'
    exact absurd (Option.some.inj found') (other remaining spawned)

/-- A range that is still to be spawned has no task in the round. -/
theorem Shaped.notSpawned (shaped : Shaped process) {round : Nat} {range : FullRangeId}
    {remaining spawned : Finset FullRangeId}
    (found : process.rounds.find round = some (.spawning remaining spawned))
    (listed : range ∈ remaining) : process.tasks.find (round, range) = none := by
  cases present : process.tasks.find (round, range) with
  | none => rfl
  | some task =>
    obtain ⟨remaining', spawned', found', -, gone⟩ := shaped.tasks round range task present
    cases found.symm.trans found'
    exact absurd listed gone

theorem StageShaped.mono {group group' : GroupCommit} {txs : List TransactionInfo}
    {stage : AddStage} (shaped : StageShaped group txs stage)
    (grows : ∀ range, HasGroup group range → HasGroup group' range) :
    StageShaped group' txs stage := by
  cases stage with
  | reading => trivial
  | inserting =>
    exact fun range listed => (shaped range listed).imp_left (grows range)
  | counting => exact fun range listed => grows range (shaped range listed)
  | extending =>
    exact ⟨shaped.1, shaped.2.1, fun range listed => grows range (shaped.2.2 range listed)⟩

theorem Moves.hasGroup {label : Label} (moves : Moves process label next) {range : FullRangeId}
    (present : HasGroup process.group range) : HasGroup next.group range := by
  cases moves with
  | insertRanges =>
    simp only [HasGroup, GroupCommit.find_insertRanges]
    split
    next => simp
    next => exact present
  | countPending =>
    simp only [HasGroup, (GroupCommit.countPending_frame _ _).1]
    exact present
  | extend =>
    simp only [HasGroup, GroupCommit.extend]
    split
    next => exact present
    next =>
      simp only [FiniteMap.find_insert]
      split
      · simp
      · exact present
  | take =>
    simp only [HasGroup, setTask, GroupCommit.clearGroup, FiniteMap.find_insert]
    split
    · simp
    · exact present
  | _ => exact present

theorem writeRanges_ne_nil {info : TransactionInfo}
    (writes : readOnly info.participantRangesInfo = false) : info.writeRanges ≠ [] := by
  obtain ⟨participant, listed, hasWrites⟩ := List.all_eq_false.mp writes
  have kept : participant ∈ info.participantRangesInfo.filter (·.hasWrites) :=
    List.mem_filter.mpr ⟨listed, by simpa using hasWrites⟩
  exact List.ne_nil_of_mem (List.mem_map_of_mem kept)

section Step

variable {label : Label} (shaped : Shaped process) (moves : Moves process label next)
  (once : SubmittedOnce process label)

include shaped moves once

theorem Shaped.writes_step (id : Uuid) (info : TransactionInfo) (waits : next.graph.Waiting id)
    (found : next.graph.state.infoPerTransaction.find id = some info) :
    info.writeRanges ≠ [] := by
  have registers {state : State} {ready : List TransactionInfo} {ids : List Uuid}
      {order : IterationOrder}
      (res : process.graph.state.registerCommittedTransactions order ids =
        some (state, ready))
      (found : state.infoPerTransaction.find id = some info)
      (waited : process.graph.Waiting id) : info.writeRanges ≠ [] := by
    have registered := shaped.sound.linked.registered res
    obtain ⟨old, found', participants, -⟩ := registered.kept id info found
    simp only [TransactionInfo.writeRanges, participants]
    exact shaped.writes id old waited found'
  cases moves with
  | @submit transactionId deps participants fake state entry writes free res =>
    have enrolled := State.enrolled res
    by_cases same : id = transactionId
    · rw [same] at found
      cases found.symm.trans enrolled.found
      exact writeRanges_ne_nil (by rw [enrolled.participants]; exact writes)
    · have waited : process.graph.Waiting id := by
        refine ⟨(Finset.mem_insert.mp waits.1).resolve_left same, ?_⟩
        intro handed
        apply waits.2
        simp only
        split
        · exact Finset.mem_insert_of_mem handed
        · exact handed
      obtain ⟨old, found', -, -⟩ := shaped.sound.linked.counted id waited
      obtain ⟨new, found'', data⟩ := enrolled.kept id old same found'
      cases found.symm.trans found''
      simp only [TransactionInfo.writeRanges, data.2.2.1]
      exact shaped.writes id old waited found'
  | registerExternal _ res =>
    exact registers res found ⟨waits.1, fun handed =>
      waits.2 (Finset.mem_union_left _ handed)⟩
  | register _ _ res =>
    exact registers res found ⟨waits.1, fun handed =>
      waits.2 (Finset.mem_union_left _ handed)⟩
  | _ => exact shaped.writes id info waits found

theorem Shaped.adding_step (add : Add) (adding : next.adding = some add) :
    AddShaped next add := by
  have registers {state : State} {ready : List TransactionInfo} {ids : List Uuid}
      {order : IterationOrder}
      (res : process.graph.state.registerCommittedTransactions order ids =
        some (state, ready)) :
      (ready.map (·.id)).Nodup ∧
        ∀ tx ∈ ready, tx.writeRanges ≠ [] := by
    have registered := shaped.sound.linked.registered res
    refine ⟨registered.once, ?_⟩
    intro tx listed
    obtain ⟨old, found, participants, -⟩ := registered.cloned tx listed
    have waits := registered.first.waits (List.mem_map_of_mem listed)
    simp only [TransactionInfo.writeRanges, participants]
    exact shaped.writes _ old waits found
  have grows (range : FullRangeId) (present : HasGroup process.group range) :
      HasGroup next.group range := moves.hasGroup present
  cases moves with
  | @submit transactionId deps participants fake state info writes free res =>
    have enrolled := State.enrolled res
    have named := shaped.sound.linked.enrolled_id enrolled
    simp only at adding
    split at adding
    next ready =>
      cases adding
      refine ⟨by simp, ?_, ?_, trivial⟩
      · intro tx listed
        rw [List.mem_singleton.mp listed, named]
        simp [ready]
      · intro tx listed
        rw [List.mem_singleton.mp listed]
        exact writeRanges_ne_nil (by rw [enrolled.participants]; exact writes)
    next => simp at adding
  | registerExternal _ res =>
    simp only at adding
    split at adding
    next => simp at adding
    next =>
      cases adding
      refine ⟨(registers res).1, ?_, (registers res).2, trivial⟩
      intro tx listed
      exact Finset.mem_union_right _ (List.mem_toFinset.mpr (List.mem_map_of_mem listed))
  | register listed _ res =>
    simp only at adding
    split at adding
    next => simp at adding
    next =>
      cases adding
      refine ⟨(registers res).1, ?_, (registers res).2, trivial⟩
      intro tx listed
      exact Finset.mem_union_right _ (List.mem_toFinset.mpr (List.mem_map_of_mem listed))
  | readRanges adding' =>
    obtain ⟨distinct, handed, writes, -⟩ := shaped.adding _ adding'
    cases adding
    refine ⟨distinct, handed, writes, ?_⟩
    simp only
    split
    next complete =>
      intro range listed
      rw [GroupCommit.missingRanges, List.filter_eq_nil_iff] at complete
      simpa [HasGroup, setAdding] using complete range listed
    next =>
      intro range listed
      by_cases missing : process.group.groupPerParticipant.find range = none
      · exact .inr (List.mem_filter.mpr ⟨listed, by simpa using missing⟩)
      · exact .inl missing
  | insertRanges adding' =>
    obtain ⟨distinct, handed, writes, stage⟩ := shaped.adding _ adding'
    cases adding
    refine ⟨distinct, handed, writes, ?_⟩
    intro range listed
    rcases stage range listed with present | missing
    · exact grows range present
    · simp only [HasGroup, GroupCommit.find_insertRanges]
      split
      next => simp
      next exists' => exact fun none => exists' ⟨none, missing⟩
  | countPending adding' =>
    obtain ⟨distinct, handed, writes, stage⟩ := shaped.adding _ adding'
    cases adding
    exact ⟨distinct, handed, writes, List.nodup_dedup _, fun _ listed => listed,
      fun range listed => grows range (stage range listed)⟩
  | extend adding' listed =>
    obtain ⟨distinct, handed, writes, fewer, inside, stage⟩ := shaped.adding _ adding'
    cases adding
    exact ⟨distinct, handed, writes, fewer.erase _,
      fun _ mem => inside (List.mem_of_mem_erase mem),
      fun range listed => grows range (stage range listed)⟩
  | markNonEmpty => simp [setRound] at adding
  | _ =>
    obtain ⟨distinct, handed, writes, stage⟩ := shaped.adding _ adding
    exact ⟨distinct, handed, writes, stage.mono grows⟩

omit once

theorem Shaped.tasks_step (round : Nat) (range : FullRangeId) (task : Task)
    (found : next.tasks.find (round, range) = some task) :
    ∃ remaining spawned, next.rounds.find round = some (.spawning remaining spawned) ∧
      range ∈ spawned ∧ range ∉ remaining := by
  -- a round that is not spawning can change its stage, for it has no tasks
  have moved {stage stage' : Round} {round' : Nat}
      (here : process.rounds.find round' = some stage)
      (other : ∀ remaining spawned, stage ≠ .spawning remaining spawned)
      (found : process.tasks.find (round, range) = some task) :
      ∃ remaining spawned,
        (process.setRound round' stage').rounds.find round =
            some (.spawning remaining spawned) ∧
          range ∈ spawned ∧ range ∉ remaining := by
    rw [find_setRound]
    split
    next same =>
      rw [same, shaped.noTasks here other range] at found
      simp at found
    next => exact shaped.tasks round range task found
  have ended {stage : Round} {round' : Nat} (here : process.rounds.find round' = some stage)
      (other : ∀ remaining spawned, stage ≠ .spawning remaining spawned)
      (found : process.tasks.find (round, range) = some task) :
      ∃ remaining spawned,
        (process.endRound round').rounds.find round = some (.spawning remaining spawned) ∧
          range ∈ spawned ∧ range ∉ remaining := by
    rw [find_endRound]
    split
    next same =>
      rw [same, shaped.noTasks here other range] at found
      simp at found
    next => exact shaped.tasks round range task found
  have kept {key : Nat × FullRangeId} {old new : Task}
      (here : process.tasks.find key = some old)
      (found : (process.setTask key new).tasks.find (round, range) = some task) :
      ∃ remaining spawned, process.rounds.find round = some (.spawning remaining spawned) ∧
        range ∈ spawned ∧ range ∉ remaining := by
    rw [find_setTask] at found
    split at found
    next same =>
      rw [← same] at here
      exact shaped.tasks round range old here
    next => exact shaped.tasks round range task found
  have fewer {key : Nat × FullRangeId}
      (found : (process.endTask key).tasks.find (round, range) = some task) :
      ∃ remaining spawned, process.rounds.find round = some (.spawning remaining spawned) ∧
        range ∈ spawned ∧ range ∉ remaining := by
    rw [find_endTask] at found
    split at found
    next => simp at found
    next => exact shaped.tasks round range task found
  cases moves with
  | @markNonEmpty txs round' adding unused =>
    obtain ⟨remaining, spawned, here, inside⟩ := shaped.tasks round range task found
    refine ⟨remaining, spawned, ?_, inside⟩
    rw [find_setRound, if_neg]
    · exact here
    · rintro rfl
      rw [unused] at here
      simp at here
  | snapshot here => exact moved here (by simp) found
  | @spawn round' range' remaining spawned here listed =>
    rw [find_setTask] at found
    change ∃ remaining' spawned', (process.setRound round'
      (.spawning (remaining.erase range') (insert range' spawned))).rounds.find round =
        some (.spawning remaining' spawned') ∧ range ∈ spawned' ∧ range ∉ remaining'
    rw [find_setRound]
    split at found
    next same =>
      cases same
      rw [if_pos rfl]
      exact ⟨_, _, rfl, Finset.mem_insert_self _ _, Finset.notMem_erase _ _⟩
    next =>
      obtain ⟨remaining', spawned', here', inside, outside⟩ :=
        shaped.tasks round range task found
      split
      next same =>
        rw [same, here] at here'
        cases here'
        exact ⟨_, _, rfl, Finset.mem_insert_of_mem inside,
          fun mem => outside (Finset.mem_of_mem_erase mem)⟩
      next => exact ⟨_, _, here', inside, outside⟩
  | @join round' spawned here done =>
    obtain ⟨remaining', spawned', here', inside, outside⟩ :=
      shaped.tasks round range task found
    refine ⟨remaining', spawned', ?_, inside, outside⟩
    rw [find_setRound, if_neg]
    · exact here'
    · rintro rfl
      rw [here] at here'
      cases here'
      change process.tasks.find (round, range) = some task at found
      rw [done range inside] at found
      simp at found
  | countDown here => exact moved here (by simp) found
  | miscount here => exact ended here (by simp) found
  | notify here => exact ended here (by simp) found
  | take here => exact kept here found
  | @unmark round' range' txs here =>
    simp only [afterUnmarking] at found ⊢
    split at found
    next => exact fewer found
    next => exact kept here found
  | record here => exact kept here found
  | issue here => exact kept here found
  | apply here => exact kept here found
  | complete here => exact kept here found
  | giveBack => exact fewer found
  | fail => exact fewer found
  | _ => exact shaped.tasks round range task found

theorem Shaped.untaken_step (round : Nat) (range : FullRangeId)
    (txs : List TransactionInfo)
    (found : next.tasks.find (round, range) = some ⟨.taking, txs⟩) :
    txs = [] := by
  have kept {key : Nat × FullRangeId} {new : Task} (later : new.stage ≠ .taking)
      (found : (process.setTask key new).tasks.find (round, range) =
        some ⟨.taking, txs⟩) : txs = [] := by
    rw [find_setTask] at found
    split at found
    next =>
      cases found
      simp at later
    next => exact shaped.untaken round range txs found
  have fewer {key : Nat × FullRangeId}
      (found : (process.endTask key).tasks.find (round, range) =
        some ⟨.taking, txs⟩) : txs = [] := by
    rw [find_endTask] at found
    split at found
    next => simp at found
    next => exact shaped.untaken round range txs found
  cases moves with
  | spawn =>
    rw [find_setTask] at found
    split at found
    next =>
      cases found
      rfl
    next => exact shaped.untaken round range txs found
  | take => exact kept (by simp) found
  | unmark here =>
    simp only [afterUnmarking] at found
    split at found
    next => exact fewer found
    next first _ => exact kept (by cases first.fake <;> simp) found
  | record => exact kept (by simp) found
  | issue => exact kept (by simp) found
  | apply => exact kept (by simp) found
  | complete => exact kept (by simp) found
  | giveBack => exact fewer found
  | fail => exact fewer found
  | _ => exact shaped.untaken round range txs found

end Step

theorem Shaped.step {label : Label} (shaped : Shaped process) (moves : Moves process label next)
    (once : SubmittedOnce process label) : Shaped next where
  sound := moves.sound once shaped.sound
  writes := shaped.writes_step moves once
  adding := shaped.adding_step moves once
  tasks := shaped.tasks_step moves
  untaken := shaped.untaken_step moves

end Sangria.Resolver.Process
