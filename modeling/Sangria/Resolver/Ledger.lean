import Sangria.Resolver.Accounting
import Sangria.Resolver.Awaiting

/-!
# The ledger of group commit

Every transaction handed to group commit is in one place: about to be counted,
counted, finished and about to be notified, or notified.  The counter of a
counted transaction is the number of its entries underway.
-/

namespace Sangria.Resolver.Process

open FiniteMap
open TransitionSystem Release

variable {process next : Process}
variable {transactions : List TransactionInfo} {key : Nat × FullRangeId} {old : Task} {id : Uuid}
  {tx : TransactionInfo} {group : GroupCommit}

def gathered : Round → List TransactionInfo
  | .collected transactions => transactions
  | _ => []

def finished : Round → List TransactionInfo
  | .notifying transactions => transactions
  | _ => []

def early (process : Process) (id : Uuid) : Nat :=
  match process.adding with
  | some ⟨_, .extending _⟩ => 0
  | some ⟨transactions, _⟩ => weigh (entry id) transactions
  | none => 0

def gathering (rounds : HashMap Nat Round) (id : Uuid) : Nat :=
  rounds.tally fun _ stage => weigh (entry id) (gathered stage)

/-- The entries of a transaction that have not been counted down. -/
def load (process : Process) (id : Uuid) : Nat :=
  underway (fun _ => entry id) (fun _ => true) process +
    weigh (entry id) process.group.returnedTransactions + gathering process.rounds id +
    weigh (entry id) process.lost

def finishing (rounds : HashMap Nat Round) (id : Uuid) : Nat :=
  rounds.tally fun _ stage => weigh (entry id) (finished stage)

def notifications (process : Process) (id : Uuid) : Nat :=
  process.history.count (.notified id)

def places (process : Process) (id : Uuid) : Nat :=
  process.early id +
    hasCounter process.group.numPendingParticipantCommitsPerTransaction id +
    finishing process.rounds id + process.notifications id

/-- Counters are the entries that have not been counted down. -/
structure Balanced (process : Process) : Prop where
  counted : ∀ id, process.load id =
    counter process.group.numPendingParticipantCommitsPerTransaction id
  positive : ∀ id count,
    process.group.numPendingParticipantCommitsPerTransaction.find id = some count → 0 < count

structure Accounted (process : Process) : Prop where
  shaped : Shaped process
  balanced : Balanced process
  once : ∀ id, process.places id ≤ if id ∈ process.graph.handed then 1 else 0

theorem Accounted.empty : Accounted empty := by
  refine ⟨Shaped.empty, ⟨?_, ?_⟩, ?_⟩
  all_goals
    simp [Process.empty, Graph.empty, GroupCommit.empty, load, underway, addWeight, groupWeight,
      places, early, gathering, finishing, notifications, counter, hasCounter]

/-! ## Rounds -/

section Rounds

variable {rounds : HashMap Nat Round} {round : Nat} {old : Round} (id : Uuid)

theorem gathering_insert (new : Round) (found : rounds.find round = some old) :
    gathering (rounds.insert round new) id + weigh (entry id) (gathered old) =
      gathering rounds id + weigh (entry id) (gathered new) :=
  tally_insert_of_find (fun _ stage => weigh (entry id) (gathered stage)) new found

theorem finishing_insert (new : Round) (found : rounds.find round = some old) :
    finishing (rounds.insert round new) id + weigh (entry id) (finished old) =
      finishing rounds id + weigh (entry id) (finished new) :=
  tally_insert_of_find (fun _ stage => weigh (entry id) (finished stage)) new found

theorem gathering_insert_started (unused : rounds.find round = none) :
    gathering (rounds.insert round .started) id = gathering rounds id :=
  tally_insert_of_none (fun _ stage => weigh (entry id) (gathered stage)) .started
    unused

theorem finishing_insert_started (unused : rounds.find round = none) :
    finishing (rounds.insert round .started) id = finishing rounds id :=
  tally_insert_of_none (fun _ stage => weigh (entry id) (finished stage)) .started
    unused

theorem gathering_erase (found : rounds.find round = some old) :
    gathering (rounds.erase round) id + weigh (entry id) (gathered old) = gathering rounds id :=
  tally_erase_of_find (fun _ stage => weigh (entry id) (gathered stage)) found

theorem finishing_erase (found : rounds.find round = some old) :
    finishing (rounds.erase round) id + weigh (entry id) (finished old) = finishing rounds id :=
  tally_erase_of_find (fun _ stage => weigh (entry id) (finished stage)) found

end Rounds

theorem count_notifyAll {waiting dropped : Finset Uuid}
    {left : Finset Uuid} {notified : List Uuid} {completed : Bool}
    (res : notifyAll waiting dropped transactions = (left, notified, completed)) (id : Uuid) :
    notified.count id ≤ weigh (entry id) transactions := by
  induction transactions generalizing waiting left notified completed with
  | nil =>
    simp only [notifyAll, Prod.mk.injEq] at res
    simp [← res.2.1]
  | cons tx rest ih =>
    simp only [notifyAll] at res
    split at res
    next =>
      simp only [Prod.mk.injEq] at res
      simp [← res.2.1]
    next =>
      split at res
      next =>
        simp only [Prod.mk.injEq] at res
        simp [← res.2.1]
      next =>
        generalize later : notifyAll (waiting.erase tx.id) dropped rest = tail at res
        obtain ⟨left', notified', completed'⟩ := tail
        simp only [Prod.mk.injEq] at res
        have fewer := ih later
        rw [← res.2.1, List.count_cons, weigh_cons, entry]
        simp only [beq_iff_eq]
        omega

/-! ## Handing over and counting -/

theorem weigh_entry_eq_count (id : Uuid) (list : List TransactionInfo) :
    weigh (entry id) list = (list.map (·.id)).count id := by
  induction list with
  | nil => rfl
  | cons _ _ ih =>
    rw [weigh_cons, ih, List.map_cons, List.count_cons, entry, Nat.add_comm]
    simp only [beq_iff_eq]

theorem weigh_mul_entry_of_notMem (weight : TransactionInfo → Nat)
    (missing : id ∉ transactions.map (·.id)) :
    weigh (fun other => weight other * entry id other) transactions = 0 := by
  apply List.sum_eq_zero
  intro value mem
  obtain ⟨other, listed, rfl⟩ := List.mem_map.mp mem
  rw [entry, if_neg, Nat.mul_zero]
  rintro rfl
  exact missing (List.mem_map_of_mem listed)

theorem weigh_mul_entry_of_mem (weight : TransactionInfo → Nat)
    (distinct : (transactions.map (·.id)).Nodup) (listed : tx ∈ transactions) :
    weigh (fun other => weight other * entry tx.id other) transactions =
      weight tx := by
  induction transactions with
  | nil => simp at listed
  | cons first _ ih =>
    rw [List.map_cons, List.nodup_cons] at distinct
    rw [weigh_cons]
    rcases List.mem_cons.mp listed with rfl | later
    · rw [weigh_mul_entry_of_notMem weight distinct.1, entry, if_pos rfl, Nat.mul_one,
        Nat.add_zero]
    · have ne : first.id ≠ tx.id := by
        intro same
        exact distinct.1 (same ▸ List.mem_map_of_mem later)
      rw [entry, if_neg ne, ih distinct.2 later, Nat.mul_zero,
        Nat.zero_add]

def newlyHanded (process next : Process) (id : Uuid) : Nat :=
  if id ∈ next.graph.handed ∧ id ∉ process.graph.handed then 1 else 0

theorem newlyHanded_of_eq (id : Uuid) (same : next.graph.handed = process.graph.handed) :
    newlyHanded process next id = 0 := by
  rw [newlyHanded, same, if_neg]
  exact fun both => both.2 both.1

/-- A step that hands transactions over to a new call of `add_transactions`. -/
structure Hands (process next : Process) (transactions : List TransactionInfo) : Prop where
  free : process.adding = none
  entering : next.adding = if transactions = [] then none else some ⟨transactions, .reading⟩
  distinct : (transactions.map (·.id)).Nodup
  fresh : ∀ transaction ∈ transactions, transaction.id ∉ process.graph.handed
  ranges : ∀ transaction ∈ transactions,
    next.graph.state.writeRanges transaction.id = transaction.writeRanges
  handed : next.graph.handed = process.graph.handed ∪ (transactions.map (·.id)).toFinset
  group : next.group = process.group
  rounds : next.rounds = process.rounds
  tasks : next.tasks = process.tasks
  lost : next.lost = process.lost
  history : next.history = process.history

theorem Shaped.hands {label : Label} (shaped : Shaped process) (moves : Moves process label next)
    (once : SubmittedOnce process label) (updates : label.updates = true) :
    next = process ∨ ∃ transactions, Hands process next transactions := by
  have linked := shaped.sound.linked
  cases moves with
  | readOnly => exact .inl rfl
  | @submit transactionId deps participants fake state info writes free res =>
    have enrolled := State.enrolled res
    have named := linked.enrolled_id enrolled
    refine .inr ⟨if info.numDependencies = 0 then [info] else [], free, ?_, ?_, ?_, ?_, ?_,
      rfl, rfl, rfl, rfl, rfl⟩
    · simp only
      split <;> rfl
    · split <;> simp
    · intro tx listed
      rw [(List.mem_ite_nil_right.mp listed).2 |> List.mem_singleton.mp, named]
      exact fun handed => once.1 (shaped.sound.handed handed)
    · intro tx listed
      rw [(List.mem_ite_nil_right.mp listed).2 |> List.mem_singleton.mp, named]
      simp only [State.writeRanges, enrolled.found, Option.elim_some]
    · simp only
      split <;> simp [named]
  | registerExternal free res =>
    have registered := linked.registered res
    refine .inr ⟨_, free, rfl, registered.once, ?_, ?_, rfl, rfl, rfl, rfl, rfl, rfl⟩
    · exact fun tx listed => (registered.first.waits (List.mem_map_of_mem listed)).2
    · exact fun tx listed =>
        (registered.writeRanges _).trans (registered.writeRanges_cloned listed)
  | register listed free res =>
    have registered := linked.registered res
    refine .inr ⟨_, free, rfl, registered.once, ?_, ?_, rfl, rfl, rfl, rfl, rfl, rfl⟩
    · exact fun tx listed => (registered.first.waits (List.mem_map_of_mem listed)).2
    · exact fun tx listed =>
        (registered.writeRanges _).trans (registered.writeRanges_cloned listed)
  | _ => simp [Label.updates] at updates

theorem Hands.weigh_eq (hands : Hands process next transactions)
    (weight : List FullRangeId → Nat) (id : Uuid) :
    weigh (fun tx => weight tx.writeRanges * entry id tx) transactions =
      newlyHanded process next id * weight (next.graph.state.writeRanges id) := by
  by_cases mem : id ∈ transactions.map (·.id)
  · obtain ⟨tx, listed, rfl⟩ := List.mem_map.mp mem
    rw [weigh_mul_entry_of_mem _ hands.distinct listed, hands.ranges tx listed,
      newlyHanded, if_pos, Nat.one_mul]
    refine ⟨?_, hands.fresh tx listed⟩
    rw [hands.handed]
    exact Finset.mem_union_right _ (List.mem_toFinset.mpr mem)
  · rw [weigh_mul_entry_of_notMem _ mem, newlyHanded, if_neg, Nat.zero_mul]
    rintro ⟨now, before⟩
    rw [hands.handed, Finset.mem_union, List.mem_toFinset] at now
    exact now.elim before mem

theorem Hands.places (hands : Hands process next transactions) (id : Uuid) :
    next.places id = process.places id + newlyHanded process next id := by
  have before : process.early id = 0 := by simp [early, hands.free]
  have after : next.early id = weigh (entry id) transactions := by
    by_cases none : transactions = []
    · simp [early, hands.entering, none]
    · simp [early, hands.entering, none]
  have entered : weigh (entry id) transactions = newlyHanded process next id := by
    simpa using hands.weigh_eq (fun _ => 1) id
  simp only [Process.places, before, after, hands.group, hands.rounds, notifications,
    hands.history]
  omega

theorem find_countPending_of_notMem (missing : id ∉ transactions.map (·.id)) :
    (group.countPending transactions).numPendingParticipantCommitsPerTransaction.find id =
      group.numPendingParticipantCommitsPerTransaction.find id := by
  induction transactions generalizing group with
  | nil => rfl
  | cons _ _ ih =>
    rw [List.map_cons, List.mem_cons, not_or] at missing
    rw [GroupCommit.countPending, ih missing.2, find_insert,
      if_neg missing.1]

theorem find_countPending_of_mem (distinct : (transactions.map (·.id)).Nodup)
    (listed : tx ∈ transactions) :
    (group.countPending transactions).numPendingParticipantCommitsPerTransaction.find
      tx.id = some tx.writeRanges.length := by
  induction transactions generalizing group with
  | nil => simp at listed
  | cons _ _ ih =>
    rw [List.map_cons, List.nodup_cons] at distinct
    rcases List.mem_cons.mp listed with rfl | later
    · rw [GroupCommit.countPending, find_countPending_of_notMem distinct.1,
        find_insert_self]
    · exact ih distinct.2 later

def counting (process : Process) (transactions : List TransactionInfo) : Process :=
  { process with
    group := process.group.countPending transactions
    adding := some ⟨transactions, .extending (tmpRanges transactions)⟩ }

section Counting

variable {transactions : List TransactionInfo} (accounted : Accounted process)
  (adding : process.adding = some ⟨transactions, .counting⟩)

include adding

theorem early_of_counting (id : Uuid) : process.early id = (transactions.map (·.id)).count id := by
  simp [early, adding, weigh_entry_eq_count]

include accounted

/-- A transaction that is about to be counted is in no other place. -/
theorem Accounted.uncounted {tx : TransactionInfo} (listed : tx ∈ transactions) :
    process.group.numPendingParticipantCommitsPerTransaction.find tx.id = none := by
  obtain ⟨distinct, handed, -⟩ := accounted.shaped.adding _ adding
  have place := accounted.once tx.id
  rw [places, early_of_counting adding,
    List.count_eq_one_of_mem distinct (List.mem_map_of_mem listed),
    if_pos (handed tx listed)] at place
  cases found : process.group.numPendingParticipantCommitsPerTransaction.find
    tx.id with
  | none => rfl
  | some count =>
    rw [(counter_of_find found).2] at place
    omega

theorem Accounted.balanced_counting : Balanced (process.counting transactions) := by
  obtain ⟨distinct, -, writes, -⟩ := accounted.shaped.adding _ adding
  obtain ⟨groups, -, returned⟩ := GroupCommit.countPending_frame process.group transactions
  have entries (id : Uuid) : addWeight (fun _ => entry id)
      (some ⟨transactions, .extending (tmpRanges transactions)⟩) =
        weigh (fun other => other.writeRanges.length * entry id other) transactions := by
    apply sum_tmpGroup (nodup_tmpRanges _)
    intro tx listed range mem
    exact mem_tmpRanges.mpr ⟨tx, listed, mem⟩
  have outside (id : Uuid) : addWeight (fun _ => entry id) process.adding = 0 := by
    rw [adding]
    rfl
  refine ⟨?_, ?_⟩
  · intro id
    have before := accounted.balanced.counted id
    simp only [load, underway, counting, groupWeight, groups, returned, outside,
      entries] at before ⊢
    by_cases mem : id ∈ transactions.map (·.id)
    · obtain ⟨tx, listed, rfl⟩ := List.mem_map.mp mem
      rw [counter, accounted.uncounted adding listed] at before
      rw [weigh_mul_entry_of_mem _ distinct listed,
        (counter_of_find (find_countPending_of_mem distinct listed)).1]
      simp only [Option.getD_none] at before
      omega
    · rw [weigh_mul_entry_of_notMem _ mem, counter, find_countPending_of_notMem mem]
      rw [counter] at before
      omega
  · intro id count found
    by_cases mem : id ∈ transactions.map (·.id)
    · obtain ⟨tx, listed, rfl⟩ := List.mem_map.mp mem
      cases (find_countPending_of_mem distinct listed).symm.trans found
      exact List.length_pos_of_ne_nil (writes tx listed)
    · exact accounted.balanced.positive id count
        ((find_countPending_of_notMem mem).symm.trans found)

theorem Accounted.places_counting (id : Uuid) :
    (process.counting transactions).places id = process.places id := by
  obtain ⟨distinct, -⟩ := accounted.shaped.adding _ adding
  have counters : hasCounter (process.counting
      transactions).group.numPendingParticipantCommitsPerTransaction id =
      (transactions.map (·.id)).count id +
        hasCounter process.group.numPendingParticipantCommitsPerTransaction id := by
    by_cases mem : id ∈ transactions.map (·.id)
    · obtain ⟨tx, listed, rfl⟩ := List.mem_map.mp mem
      rw [List.count_eq_one_of_mem distinct mem, hasCounter,
        if_neg (by simp [counting, find_countPending_of_mem distinct listed]), hasCounter,
        if_pos (accounted.uncounted adding listed)]
    · rw [List.count_eq_zero.mpr mem, Nat.zero_add]
      simp only [hasCounter, counting, find_countPending_of_notMem mem]
  have now : (process.counting transactions).early id = 0 := rfl
  rw [places, now, counters, places, early_of_counting adding, Nat.zero_add]
  rfl

end Counting

/-! ## Steps -/

theorem load_setTask (new : Task) (id : Uuid) (found : process.tasks.find key = some old) :
    (process.setTask key new).load id + weigh (entry id) old.transactions =
      process.load id + weigh (entry id) new.transactions := by
  have exchanged := tally_setTask (fun _ => entry id) (fun _ => true) new found
  simp only [taskWeight, if_true] at exchanged
  simp only [load, underway, setTask] at exchanged ⊢
  omega

theorem load_endTask (id : Uuid) (found : process.tasks.find key = some old) :
    (process.endTask key).load id + weigh (entry id) old.transactions = process.load id := by
  have exchanged := tally_endTask (fun _ => entry id) (fun _ => true) found
  simp only [load, underway, endTask, taskWeight, if_true] at exchanged ⊢
  omega

theorem notifications_log (events : List Event) (id : Uuid) :
    (process.log events).notifications id =
      process.notifications id + events.count (.notified id) := by
  simp [notifications, log]

theorem Balanced.carry (balanced : Balanced process)
    (pending : next.group.numPendingParticipantCommitsPerTransaction =
      process.group.numPendingParticipantCommitsPerTransaction)
    (loads : ∀ id, next.load id = process.load id) : Balanced next := by
  refine ⟨?_, ?_⟩
  · intro id
    rw [loads, pending]
    exact balanced.counted id
  · rw [pending]
    exact balanced.positive

theorem Balanced.advance {stage : TaskStage} {events : List Event} (balanced : Balanced process)
    (found : process.tasks.find key = some old) :
    Balanced ((process.setTask key ⟨stage, old.transactions⟩).log events) := by
  refine balanced.carry rfl ?_
  intro id
  have moved := load_setTask ⟨stage, old.transactions⟩ id found
  change (process.setTask key ⟨stage, old.transactions⟩).load id = process.load id
  exact Nat.add_right_cancel moved

/-- Collected transactions are counted, so counting them down succeeds. -/
theorem Accounted.countDown {round : Nat} (accounted : Accounted process)
    (found : process.rounds.find round = some (.collected transactions)) :
    ∃ left finished, GroupCommit.countDown
        process.group.numPendingParticipantCommitsPerTransaction transactions =
          (left, some finished) ∧
      (∀ id, counter left id + weigh (entry id) transactions =
        counter process.group.numPendingParticipantCommitsPerTransaction id) ∧
      (∀ id count, left.find id = some count → 0 < count) ∧
      ∀ id, weigh (entry id) finished + hasCounter left id =
        hasCounter process.group.numPendingParticipantCommitsPerTransaction id := by
  apply countDown_spec
  · intro id
    have inside : weigh (entry id) transactions ≤ gathering process.rounds id :=
      le_tally (fun _ stage => weigh (entry id) (gathered stage)) found
    have total := accounted.balanced.counted id
    simp only [load] at total
    omega
  · exact accounted.balanced.positive

section Step

variable {label : Label} (accounted : Accounted process) (moves : Moves process label next)

include accounted moves

theorem Accounted.balanced_step : Balanced next := by
  have balanced := accounted.balanced
  cases moves with
  | submit _ free =>
    refine balanced.carry rfl ?_
    intro id
    simp only [load, underway, free]
    split <;> rfl
  | registerExternal free =>
    refine balanced.carry rfl ?_
    intro id
    simp only [load, underway, free]
    split <;> rfl
  | register _ free =>
    refine balanced.carry rfl ?_
    intro id
    simp only [load, underway, free]
    split <;> rfl
  | @readRanges transactions adding =>
    refine balanced.carry rfl ?_
    intro id
    by_cases missing : process.group.missingRanges (tmpRanges transactions) = [] <;>
      simp [load, underway, setAdding, adding, addWeight, missing]
  | @insertRanges transactions missing adding =>
    obtain ⟨pending, -, returned⟩ := GroupCommit.insertRanges_frame process.group missing
    apply balanced.carry pending
    intro id
    simp only [load, underway, groupWeight_insertRanges, returned, adding, addWeight]
  | countPending adding => exact accounted.balanced_counting adding
  | @extend transactions remaining range adding listed free =>
    obtain ⟨pending, -, returned⟩ := GroupCommit.extend_frame process.group range
      (tmpGroup transactions range)
    obtain ⟨-, -, -, distinct, inside, present⟩ := accounted.shaped.adding _ adding
    apply balanced.carry pending
    intro id
    have taken := List.sum_map_erase
      (fun range => weigh (entry id) (tmpGroup transactions range)) listed
    simp only [load, underway, returned, adding, addWeight,
      groupWeight_extend _ _ _ (present range (inside listed))]
    omega
  | @markNonEmpty transactions round adding unused =>
    refine balanced.carry rfl ?_
    intro id
    have same := gathering_insert_started id unused
    simp only [load, underway, adding, addWeight, List.map_nil, List.sum_nil]
    exact congrArg (· + _) (congrArg (_ + ·) same)
  | snapshot found =>
    refine balanced.carry rfl ?_
    intro id
    exact congrArg (· + _) (congrArg (_ + ·) (gathering_insert id _ found))
  | @spawn round range remaining spawned found listed =>
    refine balanced.carry rfl ?_
    intro id
    have same := tally_spawn (fun _ => entry id) (fun _ => true)
      (accounted.shaped.notSpawned found listed)
    have moved := gathering_insert id
      (.spawning (remaining.erase range) (insert range spawned)) found
    simp only [gathered, weigh_nil] at moved
    simp only [load, underway, setTask, setRound] at same ⊢
    omega
  | join found =>
    refine balanced.carry rfl ?_
    intro id
    have moved := gathering_insert id (.collected process.group.returnedTransactions) found
    simp only [gathered, weigh_nil] at moved
    simp only [load, underway, groupWeight, setRound, GroupCommit.takeReturned, weigh_nil]
    omega
  | @countDown round transactions pending ended found res =>
    obtain ⟨left, ended', res', counts, positive, -⟩ := accounted.countDown found
    cases res.symm.trans res'
    refine ⟨?_, positive⟩
    intro id
    have total := balanced.counted id
    have moved := gathering_insert id (.notifying ended) found
    have fewer := counts id
    simp only [gathered, weigh_nil] at moved
    simp only [load, underway, groupWeight, setRound] at total ⊢
    omega
  | miscount found res =>
    obtain ⟨left, ended, res', -⟩ := accounted.countDown found
    cases res.symm.trans res'
  | notify found =>
    refine balanced.carry rfl ?_
    intro id
    exact congrArg (· + _) (congrArg (_ + ·) (gathering_erase id found))
  | @take round range transactions found unlocked =>
    obtain rfl := accounted.shaped.untaken _ _ _ found
    refine balanced.carry rfl ?_
    intro id
    have cleared := groupWeight_clearGroup (fun _ => entry id) process.group range
    have moved := load_setTask ⟨.unmarking, process.group.groupOf range⟩ id found
    simp only [weigh_nil, load, underway, setTask, GroupCommit.clearGroup] at moved cleared ⊢
    omega
  | @unmark round range transactions found =>
    cases transactions with
    | nil =>
      refine balanced.carry rfl ?_
      intro id
      exact load_endTask id found
    | cons first rest =>
      refine balanced.carry rfl ?_
      intro id
      have moved := load_setTask
        ⟨if first.fake then .returning else .recording, first :: rest⟩ id found
      exact Nat.add_right_cancel moved
  | record found | issue found | apply found | complete found => exact balanced.advance found
  | giveBack found =>
    refine balanced.carry rfl ?_
    intro id
    have moved := load_endTask id found
    simp only [load, underway, groupWeight, endTask, GroupCommit.giveBack,
      weigh_append] at moved ⊢
    omega
  | fail found =>
    refine balanced.carry rfl ?_
    intro id
    have moved := load_endTask id found
    simp only [load, underway, endTask, log, weigh_append] at moved ⊢
    omega
  | _ => exact ⟨balanced.counted, balanced.positive⟩

omit accounted in
theorem Moves.notifications (other : ∀ round, label ≠ .notify round) (id : Uuid) :
    next.notifications id = process.notifications id := by
  have silent {events : List Event} (quiet : Event.notified id ∉ events) :
      (process.history ++ events).count (.notified id) =
        process.history.count (.notified id) := by
    rw [List.count_append, List.count_eq_zero.mpr quiet, Nat.add_zero]
  cases moves with
  | notify => exact absurd rfl (other _)
  | recordDirectly | record | issue | apply | complete => exact silent (by simp)
  | fail _ _ emitted =>
    apply silent
    rcases emitted with rfl | ⟨-, rfl⟩ <;> simp
  | _ => rfl

omit accounted in
theorem Moves.places_notify {round : Nat} (same : label = .notify round) (id : Uuid) :
    next.places id ≤ process.places id := by
  cases moves with
  | @notify round ended left notified completed found res =>
    have moved := finishing_erase id found
    have fewer := count_notifyAll res id
    have sent : (notified.map Event.notified).count (.notified id) = notified.count id :=
      List.count_map_of_injective _ _ (fun _ _ same => by cases same; rfl) _
    simp only [finished] at moved
    change process.early id +
      hasCounter process.group.numPendingParticipantCommitsPerTransaction id +
      finishing (process.rounds.erase round) id +
      (process.history ++ notified.map Event.notified).count (.notified id) ≤ _
    rw [List.count_append, sent, places, Process.notifications]
    omega
  | _ => simp at same

theorem Accounted.places_step (once : SubmittedOnce process label)
    (other : ∀ round, label ≠ .notify round) (id : Uuid) :
    next.places id = process.places id + newlyHanded process next id := by
  have quiet := moves.notifications other id
  have unchanged (early : next.early id = process.early id)
      (pending : next.group.numPendingParticipantCommitsPerTransaction =
        process.group.numPendingParticipantCommitsPerTransaction)
      (rounds : finishing next.rounds id = finishing process.rounds id)
      (handed : next.graph.handed = process.graph.handed) :
      next.places id = process.places id + newlyHanded process next id := by
    rw [places, early, pending, rounds, quiet, newlyHanded_of_eq id handed]
    rfl
  have handed (updates : label.updates = true) :
      next.places id = process.places id + newlyHanded process next id := by
    rcases accounted.shaped.hands moves once updates with rfl | ⟨transactions, hands⟩
    · exact unchanged rfl rfl rfl rfl
    · exact hands.places id
  cases moves with
  | readOnly | submit | registerExternal | register => exact handed rfl
  | @readRanges transactions adding =>
    refine unchanged ?_ rfl rfl rfl
    by_cases missing : process.group.missingRanges (tmpRanges transactions) = [] <;>
      simp [early, setAdding, adding, missing]
  | @insertRanges transactions missing adding =>
    refine unchanged ?_ (GroupCommit.insertRanges_frame process.group missing).1 rfl rfl
    simp only [early, adding]
  | countPending adding =>
    rw [newlyHanded_of_eq id (by rfl)]
    exact accounted.places_counting adding id
  | extend adding =>
    refine unchanged ?_ (GroupCommit.extend_frame _ _ _).1 rfl rfl
    simp only [early, adding]
  | markNonEmpty adding unused =>
    refine unchanged ?_ rfl (finishing_insert_started id unused) rfl
    simp only [early, adding]
    rfl
  | snapshot found => exact unchanged rfl rfl (finishing_insert id _ found) rfl
  | spawn found => exact unchanged rfl rfl (finishing_insert id _ found) rfl
  | join found => exact unchanged rfl rfl (finishing_insert id _ found) rfl
  | @countDown round transactions pending ended found res =>
    obtain ⟨left, ended', res', -, -, finishes⟩ := accounted.countDown found
    cases res.symm.trans res'
    rw [newlyHanded_of_eq id (by rfl)]
    have moved := finishing_insert id (.notifying ended) found
    have gone := finishes id
    simp only [finished, weigh_nil] at moved
    change process.early id + hasCounter pending id +
      finishing (process.rounds.insert round (.notifying ended)) id +
        process.notifications id = process.places id
    simp only [places]
    omega
  | miscount found res =>
    obtain ⟨left, ended, res', -⟩ := accounted.countDown found
    cases res.symm.trans res'
  | notify => exact absurd rfl (other _)
  | _ => exact unchanged rfl rfl rfl rfl

omit accounted in
theorem Moves.handed : process.graph.handed ⊆ next.graph.handed := by
  cases moves with
  | submit =>
    simp only
    split
    · exact Finset.subset_insert _ _
    · exact subset_rfl
  | registerExternal | register => exact Finset.subset_union_left
  | _ => exact subset_rfl

theorem Accounted.step (once : SubmittedOnce process label) : Accounted next := by
  refine ⟨accounted.shaped.step moves once, accounted.balanced_step moves, ?_⟩
  intro id
  have before := accounted.once id
  by_cases notifies : ∃ round, label = .notify round
  · obtain ⟨round, rfl⟩ := notifies
    have fewer := moves.places_notify rfl id
    rw [(moves.frame rfl).1]
    omega
  · have exact := accounted.places_step moves once (fun round same => notifies ⟨round, same⟩) id
    simp only [newlyHanded] at exact
    by_cases known : id ∈ process.graph.handed
    · rw [if_pos known] at before
      rw [if_neg (fun both => both.2 known)] at exact
      rw [if_pos (moves.handed known)]
      omega
    · rw [if_neg known] at before
      split
      next => split at exact <;> omega
      next missing =>
        rw [if_neg (fun both => missing both.1)] at exact
        omega

end Step

end Sangria.Resolver.Process
