import Sangria.Resolver.Dependencies

/-!
# Group commit

The shared data of `GroupCommit` in `core/group_commit.rs` and its sections:
each definition below is what one task does under one lock.  The tasks that run
them are in `Sangria.Resolver.Process`.
-/

namespace Sangria.Resolver

variable {txs : List TransactionInfo} {range : FullRangeId}

/-- The ranges a transaction writes to, with one entry for each participant. -/
def TransactionInfo.writeRanges (info : TransactionInfo) : List FullRangeId :=
  (info.participantRangesInfo.filter (·.hasWrites)).map (·.participantRange)

def State.writeRanges (state : State) (id : Uuid) : List FullRangeId :=
  (state.infoPerTransaction.find id).elim [] TransactionInfo.writeRanges

/-- `tmp_group_per_participant[range]`: a transaction is pushed once for every
writing participant entry of the range. -/
def tmpGroup (transactions : List TransactionInfo) (range : FullRangeId) :
    List TransactionInfo :=
  transactions.flatMap fun transaction =>
    List.replicate (transaction.writeRanges.count range) transaction

def tmpRanges (transactions : List TransactionInfo) : List FullRangeId :=
  (transactions.flatMap (·.writeRanges)).dedup

structure GroupCommit where
  groupPerParticipant : HashMap FullRangeId (List TransactionInfo)
  numPendingParticipantCommitsPerTransaction : HashMap Uuid Nat
  nonEmptyGroups : Finset FullRangeId
  returnedTransactions : List TransactionInfo

namespace GroupCommit

def empty : GroupCommit := ⟨∅, ∅, ∅, []⟩

/-! ### `maybe_insert_new_participant_ranges` -/

def missingRanges (group : GroupCommit) (ranges : List FullRangeId) : List FullRangeId :=
  ranges.filter fun range => group.groupPerParticipant.find range = none

/-- `entry(range).or_insert_with(empty group)` for each range. -/
def insertRanges (group : GroupCommit) : List FullRangeId → GroupCommit
  | [] => group
  | range :: rest =>
    let groups := match group.groupPerParticipant.find range with
      | some _ => group.groupPerParticipant
      | none => group.groupPerParticipant.insert range []
    { group with groupPerParticipant := groups }.insertRanges rest

/-! ### `add_transactions` -/

def countPending (group : GroupCommit) : List TransactionInfo → GroupCommit
  | [] => group
  | transaction :: rest =>
    { group with
      numPendingParticipantCommitsPerTransaction :=
        group.numPendingParticipantCommitsPerTransaction.insert transaction.id
          transaction.writeRanges.length }.countPending rest

/-- Append to the group of a range.  Without a group the spawned task panics and
the join set drops its result. -/
def extend (group : GroupCommit) (range : FullRangeId)
    (transactions : List TransactionInfo) : GroupCommit :=
  match group.groupPerParticipant.find range with
  | none => group
  | some present =>
    { group with
      groupPerParticipant := group.groupPerParticipant.insert range
        (present ++ transactions) }

def markNonEmpty (group : GroupCommit) (ranges : List FullRangeId) : GroupCommit :=
  { group with nonEmptyGroups := group.nonEmptyGroups ∪ ranges.toFinset }

/-! ### `commit` -/

def groupOf (group : GroupCommit) (range : FullRangeId) : List TransactionInfo :=
  (group.groupPerParticipant.find range).getD []

/-- `mem::take` of a group; the caller keeps what `groupOf` returned before. -/
def clearGroup (group : GroupCommit) (range : FullRangeId) : GroupCommit :=
  { group with groupPerParticipant := group.groupPerParticipant.insert range [] }

def unmark (group : GroupCommit) (range : FullRangeId) : GroupCommit :=
  { group with nonEmptyGroups := group.nonEmptyGroups.erase range }

def giveBack (group : GroupCommit) (transactions : List TransactionInfo) : GroupCommit :=
  { group with returnedTransactions := group.returnedTransactions ++ transactions }

def takeReturned (group : GroupCommit) : GroupCommit :=
  { group with returnedTransactions := [] }

/-- The loop over the returned transactions: what is left of the counters and
the transactions whose last participant commit returned.  A missing counter
fails the `assert!` and a zero one the subtraction; the counters written before
that stay, and there is no result. -/
def countDown (pending : HashMap Uuid Nat) :
    List TransactionInfo → HashMap Uuid Nat × Option (List TransactionInfo)
  | [] => (pending, some [])
  | transaction :: rest =>
    match pending.find transaction.id with
    | none => (pending, none)
    | some 0 => (pending, none)
    | some 1 =>
      let result := countDown (pending.erase transaction.id) rest
      (result.1, result.2.map (transaction :: ·))
    | some (left + 2) => countDown (pending.insert transaction.id (left + 1)) rest

end GroupCommit

/-! ### Lookups after a section -/

theorem mem_tmpGroup {tx : TransactionInfo} : tx ∈ tmpGroup txs range ↔
      tx ∈ txs ∧ range ∈ tx.writeRanges := by
  simp only [tmpGroup, List.mem_flatMap, List.mem_replicate, ← Nat.pos_iff_ne_zero,
    List.count_pos_iff]
  constructor
  · rintro ⟨other, listed, writes, rfl⟩
    exact ⟨listed, writes⟩
  · rintro ⟨listed, writes⟩
    exact ⟨tx, listed, writes, rfl⟩

theorem nodup_tmpRanges (txs : List TransactionInfo) : (tmpRanges txs).Nodup :=
  List.nodup_dedup _

theorem mem_tmpRanges : range ∈ tmpRanges txs ↔
      ∃ tx ∈ txs, range ∈ tx.writeRanges := by
  simp [tmpRanges]

namespace GroupCommit

variable (group : GroupCommit)

@[simp]
theorem groupOf_extend (range other : FullRangeId) (txs : List TransactionInfo) :
    (group.extend range txs).groupOf other =
      if other = range ∧ group.groupPerParticipant.find range ≠ none then
        group.groupOf other ++ txs
      else group.groupOf other := by
  simp only [extend]
  cases found : group.groupPerParticipant.find range with
  | none => simp
  | some =>
    by_cases same : other = range
    · simp [groupOf, same, found]
    · simp [groupOf, same, FiniteMap.find_insert]

@[simp]
theorem groupOf_clearGroup (range other : FullRangeId) :
    (group.clearGroup range).groupOf other =
      if other = range then [] else group.groupOf other := by
  simp only [groupOf, clearGroup, FiniteMap.find_insert]
  split <;> simp

theorem find_insertRanges (ranges : List FullRangeId) (other : FullRangeId) :
    (group.insertRanges ranges).groupPerParticipant.find other =
      if group.groupPerParticipant.find other = none ∧ other ∈ ranges then some []
      else group.groupPerParticipant.find other := by
  induction ranges generalizing group with
  | nil => simp [insertRanges]
  | cons range _ ih =>
    simp only [insertRanges, ih]
    cases found : group.groupPerParticipant.find range with
    | some =>
      by_cases same : other = range
      · simp [same, found]
      · simp [same]
    | none =>
      by_cases same : other = range
      · simp [same, found]
      · simp [same, FiniteMap.find_insert]

@[simp]
theorem groupOf_insertRanges (ranges : List FullRangeId) (other : FullRangeId) :
    (group.insertRanges ranges).groupOf other = group.groupOf other := by
  simp only [groupOf, find_insertRanges]
  split
  next missing => simp [missing.1]
  next => rfl

theorem insertRanges_frame (ranges : List FullRangeId) :
    (group.insertRanges ranges).numPendingParticipantCommitsPerTransaction =
        group.numPendingParticipantCommitsPerTransaction ∧
      (group.insertRanges ranges).nonEmptyGroups = group.nonEmptyGroups ∧
      (group.insertRanges ranges).returnedTransactions = group.returnedTransactions := by
  induction ranges generalizing group with
  | nil => exact ⟨rfl, rfl, rfl⟩
  | cons _ _ ih => exact ih _

theorem countPending_frame (txs : List TransactionInfo) :
    (group.countPending txs).groupPerParticipant = group.groupPerParticipant ∧
      (group.countPending txs).nonEmptyGroups = group.nonEmptyGroups ∧
      (group.countPending txs).returnedTransactions = group.returnedTransactions := by
  induction txs generalizing group with
  | nil => exact ⟨rfl, rfl, rfl⟩
  | cons _ _ ih => exact ih _

@[simp]
theorem groupOf_countPending (txs : List TransactionInfo) (other : FullRangeId) :
    (group.countPending txs).groupOf other = group.groupOf other := by
  simp only [groupOf, (countPending_frame group txs).1]

theorem extend_frame (range : FullRangeId) (txs : List TransactionInfo) :
    (group.extend range txs).numPendingParticipantCommitsPerTransaction =
        group.numPendingParticipantCommitsPerTransaction ∧
      (group.extend range txs).nonEmptyGroups = group.nonEmptyGroups ∧
      (group.extend range txs).returnedTransactions = group.returnedTransactions := by
  simp only [extend]
  split <;> exact ⟨rfl, rfl, rfl⟩

theorem countDown_subset {pending left : HashMap Uuid Nat}
    {txs finished : List TransactionInfo}
    (res : countDown pending txs = (left, some finished)) :
    finished ⊆ txs := by
  induction txs generalizing pending left finished with
  | nil =>
    simp only [countDown, Prod.mk.injEq, Option.some.injEq] at res
    simp [← res.2]
  | cons tx rest ih =>
    simp only [countDown] at res
    split at res
    next => simp at res
    next => simp at res
    next =>
      cases last : countDown (pending.erase tx.id) rest with
      | mk _ answer =>
        cases answer with
        | none => simp [last] at res
        | some =>
          simp only [last, Option.map_some, Prod.mk.injEq, Option.some.injEq] at res
          rw [← res.2]
          exact List.cons_subset_cons _ (ih last)
    next => exact List.subset_cons_of_subset _ (ih res)

end GroupCommit

end Sangria.Resolver
