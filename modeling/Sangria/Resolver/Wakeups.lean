import Sangria.Resolver.Shape

/-!
# No lost wakeup

`non_empty_groups` is a hint that is written outside the locks of the groups,
and `returned_transactions` is shared by all rounds.  A group with transactions
is nevertheless always awaited by a call that will take it, and returned
transactions by a round that will collect them.
-/

namespace Sangria.Resolver.Process

open TransitionSystem

variable {process next : Process} {range : FullRangeId}

/-- A call of `add_transactions` has extended the group and will mark it. -/
def Extended (process : Process) (range : FullRangeId) : Prop :=
  ∃ transactions remaining, process.adding = some ⟨transactions, .extending remaining⟩ ∧
    range ∈ tmpRanges transactions ∧ range ∉ remaining

def Scheduled (process : Process) (range : FullRangeId) : Prop :=
  ∃ round remaining spawned,
    process.rounds.find round = some (.spawning remaining spawned) ∧ range ∈ remaining

def Started (process : Process) : Prop := ∃ round, process.rounds.find round = some .started

def Taking (process : Process) (range : FullRangeId) : Prop :=
  ∃ round transactions, process.tasks.find (round, range) = some ⟨.taking, transactions⟩

def Awaited (process : Process) (range : FullRangeId) : Prop :=
  process.Extended range ∨ process.Taking range ∨
    (range ∈ process.group.nonEmptyGroups ∧ process.Started) ∨ process.Scheduled range

def Round.collects : Round → Bool
  | .started | .spawning .. => true
  | _ => false

structure Wakeful (process : Process) : Prop where
  shaped : Shaped process
  groups : ∀ range, process.group.groupOf range ≠ [] → process.Awaited range
  returned : process.group.returnedTransactions ≠ [] →
    ∃ round stage, process.rounds.find round = some stage ∧ Round.collects stage = true
  locked : ∀ range ∈ process.locked, process.group.groupOf range = [] ∧
    ∃ round transactions, process.tasks.find (round, range) = some ⟨.unmarking, transactions⟩
  unmarking : ∀ round range transactions,
    process.tasks.find (round, range) = some ⟨.unmarking, transactions⟩ →
    range ∈ process.locked ∧ ∀ other transactions',
      process.tasks.find (other, range) = some ⟨.unmarking, transactions'⟩ → other = round
  marked : ∀ range ∈ process.group.nonEmptyGroups, HasGroup process.group range
  spawning : ∀ round remaining spawned,
    process.rounds.find round = some (.spawning remaining spawned) →
    ∀ range ∈ remaining, HasGroup process.group range

theorem Wakeful.empty : Wakeful empty := by
  constructor
  case shaped => exact Shaped.empty
  all_goals simp [Process.empty, GroupCommit.empty, GroupCommit.groupOf]

section Step

variable {label : Label} (wakeful : Wakeful process) (moves : Moves process label next)
variable {round : Nat} {transactions : List TransactionInfo}

include moves

/-! ## Who awaits a group after a step -/

theorem Moves.started (started : process.Started) :
    next.Started ∨ ∀ range ∈ process.group.nonEmptyGroups, next.Scheduled range := by
  obtain ⟨round, present⟩ := started
  by_cases same : label.onRound = some round
  · cases moves with
    | snapshot =>
      cases same
      refine .inr fun range marked => ⟨round, _, ∅, ?_, marked⟩
      rw [find_setRound, if_pos rfl]
    | spawn found | join found | countDown found | miscount found | notify found =>
      cases same
      exact absurd (found.symm.trans present) (by simp)
    | _ => simp [Label.onRound] at same
  · exact .inl ⟨round, moves.keepsRound same present⟩

theorem Moves.scheduled (scheduled : process.Scheduled range) :
    next.Scheduled range ∨ next.Taking range := by
  obtain ⟨round, remaining, spawned, present, listed⟩ := scheduled
  by_cases same : label.onRound = some round
  · cases moves with
    | @spawn round' range' remaining' spawned' found listed' =>
      cases same
      cases found.symm.trans present
      by_cases here : range = range'
      · subst here
        exact .inr ⟨round, [], by rw [find_setTask, if_pos rfl]⟩
      · refine .inl ⟨round, _, insert range' spawned, ?_,
          Finset.mem_erase.mpr ⟨here, listed⟩⟩
        exact (find_setRound _ _ _ _).trans (if_pos rfl)
    | join found =>
      cases same
      cases found.symm.trans present
      simp at listed
    | snapshot found | countDown found | miscount found | notify found =>
      cases same
      exact absurd (found.symm.trans present) (by simp)
    | _ => simp [Label.onRound] at same
  · exact .inl ⟨round, remaining, spawned, moves.keepsRound same present, listed⟩

theorem Moves.taking (shaped : Shaped process) (taking : process.Taking range) :
    next.Taking range ∨ next.group.groupOf range = [] := by
  obtain ⟨round, transactions, present⟩ := taking
  by_cases same : label.onTask = some (round, range)
  · cases moves with
    | spawn found listed =>
      cases same
      obtain ⟨remaining', spawned', found', -, gone⟩ := shaped.tasks _ _ _ present
      cases found.symm.trans found'
      exact absurd listed gone
    | take =>
      cases same
      right
      simp only [setTask, GroupCommit.groupOf_clearGroup, if_true]
    | unmark found | record found | issue found | apply found | complete found
    | giveBack found =>
      cases same
      exact absurd (found.symm.trans present) (by simp)
    | fail found stages =>
      cases same
      cases found.symm.trans present
      simp at stages
    | _ => simp [Label.onTask] at same
  · exact .inl ⟨round, transactions, (moves.keepsTask same).trans present⟩

theorem Moves.extended (extended : process.Extended range) :
    next.Extended range ∨ range ∈ next.group.nonEmptyGroups ∧ next.Started := by
  obtain ⟨transactions, remaining, present, listed, gone⟩ := extended
  cases moves with
  | submit writes free | registerExternal free | register listed' free =>
    simp [free] at present
  | readRanges adding | insertRanges adding | countPending adding =>
    simp [adding] at present
  | extend adding =>
    cases adding.symm.trans present
    exact .inl ⟨transactions, _, rfl, listed, fun kept => gone (List.mem_of_mem_erase kept)⟩
  | @markNonEmpty transactions' round adding unused =>
    cases adding.symm.trans present
    refine .inr ⟨?_, round, by rw [find_setRound, if_pos rfl]⟩
    exact Finset.mem_union_right _ (List.mem_toFinset.mpr listed)
  | _ => exact .inl ⟨transactions, remaining, present, listed, gone⟩

theorem Moves.filled (shaped : Shaped process) (filled : next.group.groupOf range ≠ []) :
    process.group.groupOf range ≠ [] ∨ range ∉ process.locked ∧ next.Extended range := by
  cases moves with
  | insertRanges adding | countPending adding => exact .inl (by simpa using filled)
  | @extend transactions remaining range' adding listed free =>
    simp only [GroupCommit.groupOf_extend] at filled
    split at filled
    next here =>
      obtain ⟨rfl, -⟩ := here
      obtain ⟨-, -, -, distinct, inside, -⟩ := shaped.adding _ adding
      exact .inr ⟨free, transactions, _, rfl, inside listed, distinct.not_mem_erase⟩
    next => exact .inl filled
  | take =>
    simp only [setTask, GroupCommit.groupOf_clearGroup] at filled
    split at filled
    next => exact absurd rfl filled
    next => exact .inl filled
  | _ => exact .inl filled

/-- A mark is removed by a task that holds the lock of the group. -/
theorem Moves.unmarked (marked : range ∈ process.group.nonEmptyGroups) :
    range ∈ next.group.nonEmptyGroups ∨ ∃ round transactions,
      process.tasks.find (round, range) = some ⟨.unmarking, transactions⟩ ∧
        next.group.groupOf range = process.group.groupOf range := by
  cases moves with
  | insertRanges =>
    rw [(GroupCommit.insertRanges_frame _ _).2.1]
    exact .inl marked
  | countPending =>
    rw [(GroupCommit.countPending_frame _ _).2.1]
    exact .inl marked
  | extend =>
    rw [(GroupCommit.extend_frame _ _ _).2.1]
    exact .inl marked
  | markNonEmpty => exact .inl (Finset.mem_union_left _ marked)
  | @unmark round range' transactions found =>
    by_cases here : range = range'
    · subst here
      exact .inr ⟨round, transactions, found, rfl⟩
    · exact .inl (Finset.mem_erase.mpr ⟨here, marked⟩)
  | _ => exact .inl marked

theorem Moves.marked (shaped : Shaped process) (marked : range ∈ next.group.nonEmptyGroups) :
    range ∈ process.group.nonEmptyGroups ∨ HasGroup process.group range := by
  cases moves with
  | insertRanges =>
    rw [(GroupCommit.insertRanges_frame _ _).2.1] at marked
    exact .inl marked
  | countPending =>
    rw [(GroupCommit.countPending_frame _ _).2.1] at marked
    exact .inl marked
  | extend =>
    rw [(GroupCommit.extend_frame _ _ _).2.1] at marked
    exact .inl marked
  | markNonEmpty adding =>
    rcases Finset.mem_union.mp marked with before | new
    · exact .inl before
    · obtain ⟨-, -, -, -, -, present⟩ := shaped.adding _ adding
      exact .inr (present range (List.mem_toFinset.mp new))
  | @unmark round range' transactions found =>
    exact .inl (Finset.mem_of_mem_erase marked)
  | _ => exact .inl marked

/-- Transactions are returned by the tasks of a round that joins them. -/
theorem Moves.returned (shaped : Shaped process)
    (returned : next.group.returnedTransactions ≠ []) :
    (process.group.returnedTransactions ≠ [] ∨
      ∃ round remaining spawned,
        process.rounds.find round = some (.spawning remaining spawned)) ∧
      ∀ round, label ≠ .join round := by
  cases moves with
  | insertRanges =>
    rw [(GroupCommit.insertRanges_frame _ _).2.2] at returned
    exact ⟨.inl returned, by simp⟩
  | countPending =>
    rw [(GroupCommit.countPending_frame _ _).2.2] at returned
    exact ⟨.inl returned, by simp⟩
  | extend =>
    rw [(GroupCommit.extend_frame _ _ _).2.2] at returned
    exact ⟨.inl returned, by simp⟩
  | join => exact absurd rfl returned
  | giveBack found =>
    obtain ⟨remaining, spawned, present, -⟩ := shaped.tasks _ _ _ found
    exact ⟨.inr ⟨_, remaining, spawned, present⟩, by simp⟩
  | _ => exact ⟨.inl returned, by simp⟩

theorem Moves.collects {stage : Round}
    (present : process.rounds.find round = some stage) (collects : Round.collects stage = true)
    (other : ∀ round, label ≠ .join round) :
    ∃ stage', next.rounds.find round = some stage' ∧ Round.collects stage' = true := by
  by_cases same : label.onRound = some round
  · cases moves with
    | snapshot =>
      cases same
      exact ⟨_, (find_setRound _ _ _ _).trans (if_pos rfl), rfl⟩
    | spawn =>
      cases same
      exact ⟨_, (find_setRound _ _ _ _).trans (if_pos rfl), rfl⟩
    | join => exact absurd rfl (other _)
    | countDown found | miscount found | notify found =>
      cases same
      cases found.symm.trans present
      simp [Round.collects] at collects
    | _ => simp [Label.onRound] at same
  · exact ⟨stage, moves.keepsRound same present, collects⟩

/-- Locks are taken with a batch and given up when the group is unmarked. -/
theorem Moves.locks : next.locked = process.locked ∨
    (∃ round range transactions, label = .advance round range ∧
      process.tasks.find (round, range) = some ⟨.taking, transactions⟩ ∧
      range ∉ process.locked ∧ next.locked = insert range process.locked ∧
      next.group = process.group.clearGroup range ∧
      next.tasks.find (round, range) = some ⟨.unmarking, process.group.groupOf range⟩) ∨
    ∃ round range transactions, label = .advance round range ∧
      process.tasks.find (round, range) = some ⟨.unmarking, transactions⟩ ∧
      next.locked = process.locked.erase range := by
  cases moves with
  | take found free =>
    exact .inr (.inl ⟨_, _, _, rfl, found, free, rfl, rfl,
      (find_setTask _ _ _ _).trans (if_pos rfl)⟩)
  | @unmark round range' transactions found =>
    exact .inr (.inr ⟨_, _, _, rfl, found, rfl⟩)
  | _ => exact .inl rfl

theorem Moves.unmarking (found : next.tasks.find (round, range) = some ⟨.unmarking, transactions⟩) :
    process.tasks.find (round, range) = some ⟨.unmarking, transactions⟩ ∧
        label.onTask ≠ some (round, range) ∨
      label = .advance round range ∧ range ∉ process.locked ∧
        next.locked = insert range process.locked := by
  by_cases same : label.onTask = some (round, range)
  · have replaced {key : Nat × FullRangeId} {task : Task}
        (found : (process.setTask key task).tasks.find key = some ⟨.unmarking, transactions⟩)
        (other : task.stage ≠ .unmarking) : False := by
      rw [find_setTask, if_pos rfl] at found
      cases found
      exact other rfl
    have ended {key : Nat × FullRangeId}
        (found : (process.endTask key).tasks.find key = some ⟨.unmarking, transactions⟩) :
        False := by
      rw [find_endTask, if_pos rfl] at found
      simp at found
    cases moves with
    | take _ free =>
      cases same
      exact .inr ⟨rfl, free, rfl⟩
    | @unmark round' range' transactions' found' =>
      cases same
      cases transactions' with
      | nil => exact (ended found).elim
      | cons first => exact (replaced found (by cases first.fake <;> simp)).elim
    | spawn found' | record found' | issue found' | apply found' | complete found' =>
      cases same
      exact (replaced found (by simp)).elim
    | giveBack found' | fail found' =>
      cases same
      exact (ended found).elim
    | _ => simp [Label.onTask] at same
  · exact .inl ⟨(moves.keepsTask same).symm.trans found, same⟩

/-! ## The invariant -/

include wakeful

theorem Wakeful.groups_step (filled : next.group.groupOf range ≠ []) : next.Awaited range := by
  rcases moves.filled wakeful.shaped filled with before | ⟨-, extended⟩
  · rcases wakeful.groups range before with extended | taking | ⟨marked, started⟩ | scheduled
    · exact (moves.extended extended).elim .inl fun hinted => .inr (.inr (.inl hinted))
    · rcases moves.taking wakeful.shaped taking with kept | cleared
      · exact .inr (.inl kept)
      · exact absurd cleared filled
    · rcases moves.started started with kept | snapshot
      · rcases moves.unmarked marked with still | ⟨round, transactions, found, same⟩
        · exact .inr (.inr (.inl ⟨still, kept⟩))
        · -- the task that removes the mark holds the lock of an empty group
          have locked := (wakeful.unmarking _ _ _ found).1
          exact absurd (same.trans (wakeful.locked range locked).1) filled
      · exact .inr (.inr (.inr (snapshot range marked)))
    · exact (moves.scheduled scheduled).elim (fun kept => .inr (.inr (.inr kept)))
        fun taking => .inr (.inl taking)
  · exact .inl extended

theorem Wakeful.returned_step (returned : next.group.returnedTransactions ≠ []) :
    ∃ round stage, next.rounds.find round = some stage ∧ Round.collects stage = true := by
  obtain ⟨origin, other⟩ := moves.returned wakeful.shaped returned
  have collecting : ∃ round stage, process.rounds.find round = some stage ∧
      Round.collects stage = true := by
    rcases origin with before | ⟨round, remaining, spawned, present⟩
    · exact wakeful.returned before
    · exact ⟨round, _, present, rfl⟩
  obtain ⟨round, stage, present, collects⟩ := collecting
  exact ⟨round, moves.collects present collects other⟩

theorem Wakeful.unmarking_or
    (found : process.tasks.find (round, range) = some ⟨.unmarking, transactions⟩) :
    label = .advance round range ∧ next.locked = process.locked.erase range ∨
      next.tasks.find (round, range) = some ⟨.unmarking, transactions⟩ := by
  by_cases same : label.onTask = some (round, range)
  · cases moves with
    | spawn found' listed =>
      cases same
      obtain ⟨remaining', spawned', present, -, gone⟩ := wakeful.shaped.tasks _ _ _ found
      cases found'.symm.trans present
      exact absurd listed gone
    | unmark =>
      cases same
      exact .inl ⟨rfl, rfl⟩
    | take found' | record found' | issue found' | apply found' | complete found'
    | giveBack found' =>
      cases same
      exact absurd (found'.symm.trans found) (by simp)
    | fail found' stages =>
      cases same
      cases found'.symm.trans found
      simp at stages
    | _ => simp [Label.onTask] at same
  · exact .inr ((moves.keepsTask same).trans found)

theorem Wakeful.locked_step (locked : range ∈ next.locked) :
    next.group.groupOf range = [] ∧ ∃ round transactions,
      next.tasks.find (round, range) = some ⟨.unmarking, transactions⟩ := by
  have carried (before : range ∈ process.locked) : next.group.groupOf range = [] ∧
      ∃ round transactions,
        next.tasks.find (round, range) = some ⟨.unmarking, transactions⟩ := by
    obtain ⟨empty, round, transactions, found⟩ := wakeful.locked range before
    refine ⟨?_, ?_⟩
    · by_contra filled
      rcases moves.filled wakeful.shaped filled with full | ⟨free, -⟩
      · exact full empty
      · exact free before
    · rcases wakeful.unmarking_or moves found with ⟨-, erased⟩ | kept
      · rw [erased] at locked
        exact absurd locked (Finset.notMem_erase _ _)
      · exact ⟨round, transactions, kept⟩
  rcases moves.locks with same | ⟨round, other, transactions, -, found, free, grown, group, task⟩ |
    ⟨round, other, transactions, -, found, fewer⟩
  · exact carried (same ▸ locked)
  · rw [grown] at locked
    rcases Finset.mem_insert.mp locked with rfl | before
    · refine ⟨?_, round, _, task⟩
      rw [group, GroupCommit.groupOf_clearGroup, if_pos rfl]
    · exact carried before
  · rw [fewer] at locked
    exact carried (Finset.mem_of_mem_erase locked)

theorem Wakeful.unmarking_step
    (found : next.tasks.find (round, range) = some ⟨.unmarking, transactions⟩) :
    range ∈ next.locked ∧ ∀ other transactions',
      next.tasks.find (other, range) = some ⟨.unmarking, transactions'⟩ → other = round := by
  rcases moves.unmarking found with ⟨before, apart⟩ | ⟨taken, free, grown⟩
  · obtain ⟨locked, exclusive⟩ := wakeful.unmarking _ _ _ before
    refine ⟨?_, ?_⟩
    · rcases moves.locks with same | ⟨_, _, _, -, -, -, grown, -⟩ |
        ⟨round', range', transactions', rfl, found', fewer⟩
      · rw [same]
        exact locked
      · rw [grown]
        exact Finset.mem_insert_of_mem locked
      · rw [fewer]
        refine Finset.mem_erase.mpr ⟨?_, locked⟩
        rintro rfl
        obtain rfl := exclusive _ _ found'
        exact apart rfl
    · intro other transactions' found'
      rcases moves.unmarking found' with ⟨before', -⟩ | ⟨-, free, -⟩
      · exact exclusive other transactions' before'
      · exact absurd locked free
  · refine ⟨grown ▸ Finset.mem_insert_self _ _, ?_⟩
    intro other transactions' found'
    rcases moves.unmarking found' with ⟨before', -⟩ | ⟨taken', -⟩
    · exact absurd (wakeful.unmarking _ _ _ before').1 free
    · cases taken.symm.trans taken'
      rfl

theorem Wakeful.marked_step (marked : range ∈ next.group.nonEmptyGroups) :
    HasGroup next.group range :=
  moves.hasGroup ((moves.marked wakeful.shaped marked).elim (wakeful.marked range) fun here => here)

theorem Wakeful.spawning_step {remaining spawned : Finset FullRangeId}
    (found : next.rounds.find round = some (.spawning remaining spawned))
    (listed : range ∈ remaining) : HasGroup next.group range := by
  apply moves.hasGroup
  by_cases same : label.onRound = some round
  · have replaced {stage : Round}
        (found : (process.setRound round stage).rounds.find round =
          some (.spawning remaining spawned)) : stage = .spawning remaining spawned := by
      rw [find_setRound, if_pos rfl] at found
      exact Option.some.inj found
    cases moves with
    | snapshot =>
      cases same
      cases replaced found
      exact wakeful.marked range listed
    | spawn found' =>
      cases same
      cases replaced found
      exact wakeful.spawning _ _ _ found' range (Finset.mem_of_mem_erase listed)
    | join found' | countDown found' =>
      cases same
      cases replaced found
    | miscount found' | notify found' =>
      cases same
      have ended := (find_endRound process round round).symm.trans found
      simp at ended
    | _ => simp [Label.onRound] at same
  · rcases moves.roundOrStarted same with kept | ⟨-, started⟩
    · exact wakeful.spawning _ _ _ (kept.symm.trans found) range listed
    · cases started.symm.trans found

theorem Wakeful.step (once : SubmittedOnce process label) : Wakeful next where
  shaped := wakeful.shaped.step moves once
  groups := fun _ filled => wakeful.groups_step moves filled
  returned := fun returned => wakeful.returned_step moves returned
  locked := fun _ locked => wakeful.locked_step moves locked
  unmarking := fun _ _ _ found => wakeful.unmarking_step moves found
  marked := fun _ marked => wakeful.marked_step moves marked
  spawning := fun _ _ _ found _ listed => wakeful.spawning_step moves found listed

end Step

end Sangria.Resolver.Process
