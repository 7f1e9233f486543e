import Mathlib.Algebra.BigOperators.Ring.List
import Mathlib.Algebra.Order.BigOperators.Group.List
import Mathlib.Algebra.Order.Ring.Nat
import Sangria.Resolver.Shape

/-!
# Where the participant commits of a transaction are

`num_pending_participant_commits_per_transaction` counts the entries of a
transaction that are still on their way: to be added to a group, in a group, in
a batch, returned, or lost in a batch that failed.  The sums below are over
weights of transactions, so that entries of one transaction, or of one
transaction in one range, can be counted by the same lemmas.
-/

namespace Sangria.Resolver.Process

open FiniteMap
open TransitionSystem Release

variable {process next : Process}
variable {list transactions : List TransactionInfo} {id : Uuid} {tx : TransactionInfo}
  {ranges : List FullRangeId} {pending : HashMap Uuid Nat}

def weigh (weight : TransactionInfo → Nat) (list : List TransactionInfo) : Nat :=
  (list.map weight).sum

@[simp]
theorem weigh_nil (weight : TransactionInfo → Nat) : weigh weight [] = 0 := rfl

@[simp]
theorem weigh_append (weight : TransactionInfo → Nat) (first second : List TransactionInfo) :
    weigh weight (first ++ second) = weigh weight first + weigh weight second := by
  simp [weigh]

theorem weigh_cons (weight : TransactionInfo → Nat) (tx : TransactionInfo)
    (rest : List TransactionInfo) :
    weigh weight (tx :: rest) = weight tx + weigh weight rest := by
  simp [weigh]

theorem le_weigh (weight : TransactionInfo → Nat) (listed : tx ∈ list) :
    weight tx ≤ weigh weight list :=
  List.le_sum_of_mem (List.mem_map_of_mem listed)

/-- What a call of `add_transactions` has still to add to the groups. -/
def addWeight (weight : FullRangeId → TransactionInfo → Nat) : Option Add → Nat
  | some ⟨transactions, .extending remaining⟩ =>
    (remaining.map fun range => weigh (weight range) (tmpGroup transactions range)).sum
  | _ => 0

def groupWeight (weight : FullRangeId → TransactionInfo → Nat) (group : GroupCommit) : Nat :=
  group.groupPerParticipant.tally fun range list => weigh (weight range) list

def taskWeight (weight : FullRangeId → TransactionInfo → Nat) (counts : TaskStage → Bool)
    (key : Nat × FullRangeId) (task : Task) : Nat :=
  if counts task.stage then weigh (weight key.2) task.transactions else 0

/-- Entries on their way to a batch, and in the batches at the given stages. -/
def underway (weight : FullRangeId → TransactionInfo → Nat) (counts : TaskStage → Bool)
    (process : Process) : Nat :=
  addWeight weight process.adding + groupWeight weight process.group +
    process.tasks.tally (taskWeight weight counts)

/-! ## Groups -/

section Groups

variable (weight : FullRangeId → TransactionInfo → Nat) (group : GroupCommit)

theorem groupWeight_insertRanges (ranges : List FullRangeId) :
    groupWeight weight (group.insertRanges ranges) = groupWeight weight group := by
  induction ranges generalizing group with
  | nil => rfl
  | cons range _ ih =>
    simp only [GroupCommit.insertRanges, ih]
    cases found : group.groupPerParticipant.find range with
    | some => rfl
    | none =>
      simp only [groupWeight]
      rw [tally_insert_of_none _ _ found]
      simp

theorem groupWeight_extend {range : FullRangeId} (transactions : List TransactionInfo)
    (present : HasGroup group range) :
    groupWeight weight (group.extend range transactions) =
      groupWeight weight group + weigh (weight range) transactions := by
  simp only [GroupCommit.extend]
  cases found : group.groupPerParticipant.find range with
  | none => exact absurd found present
  | some list =>
    have exchanged := tally_insert_of_find
      (fun range list => weigh (weight range) list) (list ++ transactions) found
    simp only [weigh_append] at exchanged
    simp only [groupWeight]
    omega

theorem groupWeight_clearGroup (range : FullRangeId) :
    groupWeight weight (group.clearGroup range) +
      weigh (weight range) (group.groupOf range) = groupWeight weight group := by
  simp only [groupWeight, GroupCommit.clearGroup, GroupCommit.groupOf]
  cases found : group.groupPerParticipant.find range with
  | none =>
    rw [tally_insert_of_none _ _ found]
    simp
  | some list =>
    have exchanged := tally_insert_of_find
      (fun range list => weigh (weight range) list) [] found
    simpa using exchanged

end Groups

/-! ## Tasks -/

section Tasks

variable (weight : FullRangeId → TransactionInfo → Nat) (counts : TaskStage → Bool)
  {key : Nat × FullRangeId} {old : Task}

theorem tally_setTask (new : Task) (found : process.tasks.find key = some old) :
    (process.setTask key new).tasks.tally (taskWeight weight counts) +
        taskWeight weight counts key old =
      process.tasks.tally (taskWeight weight counts) + taskWeight weight counts key new :=
  tally_insert_of_find _ _ found

theorem tally_endTask (found : process.tasks.find key = some old) :
    (process.endTask key).tasks.tally (taskWeight weight counts) +
        taskWeight weight counts key old =
      process.tasks.tally (taskWeight weight counts) :=
  tally_erase_of_find _ found

theorem tally_spawn (missing : process.tasks.find key = none) :
    (process.setTask key ⟨.taking, []⟩).tasks.tally (taskWeight weight counts) =
      process.tasks.tally (taskWeight weight counts) := by
  simp only [setTask]
  rw [tally_insert_of_none _ _ missing]
  simp [taskWeight]

end Tasks

/-! ## The transactions that enter -/

theorem weigh_tmpGroup_cons (weight : TransactionInfo → Nat) (tx : TransactionInfo)
    (rest : List TransactionInfo) (range : FullRangeId) :
    weigh weight (tmpGroup (tx :: rest) range) =
      tx.writeRanges.count range * weight tx +
        weigh weight (tmpGroup rest range) := by
  simp [tmpGroup, weigh]

theorem weigh_tmpGroup (weight : TransactionInfo → Nat) (transactions : List TransactionInfo)
    (range : FullRangeId) :
    weigh weight (tmpGroup transactions range) =
      weigh (fun tx => tx.writeRanges.count range * weight tx)
        transactions := by
  induction transactions with
  | nil => rfl
  | cons _ _ ih =>
    rw [weigh_tmpGroup_cons, ih, weigh_cons]

theorem sum_count (distinct : ranges.Nodup)
    {listed : List FullRangeId} (covered : listed ⊆ ranges) :
    (ranges.map fun range => listed.count range).sum = listed.length := by
  have whole := Multiset.sum_count_eq_card (s := ranges.toFinset) (m := (listed : Multiset _))
    fun range mem => List.mem_toFinset.mpr (covered (Multiset.mem_coe.mp mem))
  rw [← List.sum_toFinset _ distinct]
  simpa using whole

theorem sum_tmpGroup {weight : TransactionInfo → Nat} (distinct : ranges.Nodup)
    (covered : ∀ tx ∈ transactions, tx.writeRanges ⊆ ranges) :
    (ranges.map fun range => weigh weight (tmpGroup transactions range)).sum =
      weigh (fun tx => tx.writeRanges.length * weight tx)
        transactions := by
  induction transactions with
  | nil => simp [tmpGroup]
  | cons tx _ ih =>
    simp only [weigh_tmpGroup_cons, List.sum_map_add, List.sum_map_mul_right]
    rw [sum_count distinct (covered tx List.mem_cons_self),
      ih fun other listed => covered other (List.mem_cons_of_mem _ listed),
      weigh_cons]

/-! ## Counters -/

def entry (id : Uuid) (transaction : TransactionInfo) : Nat :=
  if transaction.id = id then 1 else 0

theorem weigh_entry_pos
    (listed : tx ∈ list) (same : tx.id = id) : 0 < weigh (entry id) list := by
  have := le_weigh (entry id) listed
  simp only [entry, if_pos same] at this
  omega

def hasCounter (pending : HashMap Uuid Nat) (id : Uuid) : Nat :=
  if pending.find id = none then 0 else 1

def counter (pending : HashMap Uuid Nat) (id : Uuid) : Nat := (pending.find id).getD 0

section Counters

variable (pending : HashMap Uuid Nat) (key id : Uuid)

theorem counter_erase : counter (pending.erase key) id =
    if id = key then 0 else counter pending id := by
  simp only [counter, find_erase]
  split <;> rfl

theorem hasCounter_erase : hasCounter (pending.erase key) id =
    if id = key then 0 else hasCounter pending id := by
  simp only [hasCounter, find_erase]
  by_cases same : id = key <;> simp [same]

theorem counter_insert (count : Nat) : counter (pending.insert key count) id =
    if id = key then count else counter pending id := by
  simp only [counter, find_insert]
  split <;> rfl

theorem hasCounter_insert (count : Nat) : hasCounter (pending.insert key count) id =
    if id = key then 1 else hasCounter pending id := by
  simp only [hasCounter, find_insert]
  by_cases same : id = key <;> simp [same]

end Counters

theorem counter_of_find {count : Nat} (found : pending.find id = some count) :
    counter pending id = count ∧ hasCounter pending id = 1 := by
  simp [counter, hasCounter, found]

/-- Counting down what was counted: nothing fails, counters stay positive, and a
transaction whose counter is gone is finished once. -/
theorem countDown_spec (enough : ∀ id, weigh (entry id) transactions ≤ counter pending id)
    (positive : ∀ id count, pending.find id = some count → 0 < count) :
    ∃ left finished, GroupCommit.countDown pending transactions = (left, some finished) ∧
      (∀ id, counter left id + weigh (entry id) transactions = counter pending id) ∧
      (∀ id count, left.find id = some count → 0 < count) ∧
      ∀ id, weigh (entry id) finished + hasCounter left id = hasCounter pending id := by
  induction transactions generalizing pending with
  | nil => exact ⟨pending, [], rfl, by simp, positive, by simp⟩
  | cons tx rest ih =>
    have here := enough tx.id
    rw [weigh_cons, entry, if_pos rfl] at here
    -- `after` is the map with one entry of the tx counted
    have continues (after : HashMap Uuid Nat) (last : Nat)
        (counts : ∀ id, counter after id + entry id tx = counter pending id)
        (positive' : ∀ id count, after.find id = some count → 0 < count)
        (finishes : ∀ id, last * entry id tx + hasCounter after id =
          hasCounter pending id) :
        ∃ left finished, GroupCommit.countDown after rest = (left, some finished) ∧
          (∀ id, counter left id + weigh (entry id) (tx :: rest) =
            counter pending id) ∧
          (∀ id count, left.find id = some count → 0 < count) ∧
          ∀ id, last * entry id tx + weigh (entry id) finished +
            hasCounter left id = hasCounter pending id := by
      have enough' (id : Uuid) : weigh (entry id) rest ≤ counter after id := by
        have total := enough id
        have before := counts id
        rw [weigh_cons] at total
        omega
      obtain ⟨left, finished, res, counts', positive'', finishes'⟩ :=
        ih enough' positive'
      refine ⟨left, finished, res, ?_, positive'', ?_⟩
      · intro id
        have before := counts id
        have after := counts' id
        rw [weigh_cons]
        omega
      · intro id
        have before := finishes id
        have after := finishes' id
        omega
    cases found : pending.find tx.id with
    | none =>
      simp only [counter, found, Option.getD_none] at here
      omega
    | some count =>
      obtain ⟨same, present⟩ := counter_of_find found
      match count with
      | 0 => omega
      | 1 =>
        obtain ⟨left, finished, res, counts, positive', finishes⟩ :=
          continues (pending.erase tx.id) 1
            (by
              intro id
              rw [counter_erase, entry]
              by_cases equal : id = tx.id
              · simp [equal, same]
              · simp [equal, Ne.symm equal])
            (by
              intro id count' found'
              rw [find_erase] at found'
              split at found'
              next => simp at found'
              next => exact positive id count' found')
            (by
              intro id
              rw [hasCounter_erase, entry]
              by_cases equal : id = tx.id
              · simp [equal, present]
              · simp [equal, Ne.symm equal])
        refine ⟨left, tx :: finished, ?_, counts, positive', ?_⟩
        · simp only [GroupCommit.countDown, found, res, Option.map_some]
        · intro id
          have := finishes id
          rw [weigh_cons]
          omega
      | more + 2 =>
        obtain ⟨left, finished, res, counts, positive', finishes⟩ :=
          continues (pending.insert tx.id (more + 1)) 0
            (by
              intro id
              rw [counter_insert, entry]
              by_cases equal : id = tx.id
              · simp [equal, same]
              · simp [equal, Ne.symm equal])
            (by
              intro id count' found'
              rw [find_insert] at found'
              split at found'
              next =>
                cases found'
                omega
              next => exact positive id count' found')
            (by
              intro id
              rw [hasCounter_insert]
              by_cases equal : id = tx.id
              · simp [equal, present]
              · simp [equal])
        refine ⟨left, finished, ?_, counts, positive', ?_⟩
        · simp only [GroupCommit.countDown, found, res]
        · intro id
          have := finishes id
          omega

end Sangria.Resolver.Process
