import Sangria.Resolver.Ledger
import Sangria.Resolver.Wakeups

/-!
# No transaction is stuck

As long as no call fails and no client goes away, a handed over transaction is
in exactly one place of the ledger.  When no task of the resolver can run, that
place can only be the last one: it was notified.
-/

namespace Sangria.Resolver.Process

open FiniteMap
open TransitionSystem Release

variable {process next : Process}

/-- Each id is submitted once, no call fails and no client goes away. -/
def Faultless (process : Process) : Label → Prop
  | .commit transactionId dependencies _ _ =>
    transactionId ∉ process.graph.submitted ∧ dependencies.Nodup
  | .drop .. | .fail .. => False
  | _ => True

instance (process : Process) (label : Label) : Decidable (Faultless process label) :=
  match label with
  | .commit .. => inferInstanceAs (Decidable (_ ∧ _))
  | .drop .. | .fail .. => isFalse id
  | .recordDirectly .. | .registerExternal .. | .register .. | .readRanges | .insertRanges
  | .countPending | .extend .. | .markNonEmpty .. | .snapshot .. | .spawn .. | .join ..
  | .countDown .. | .notify .. | .advance .. => isTrue trivial

theorem Faultless.submittedOnce {label : Label} (faultless : Faultless process label) :
    SubmittedOnce process label := by
  cases label with
  | commit => exact faultless
  | _ => trivial

def Quiescent (process : Process) : Prop :=
  ∀ label : Label, label.internal = true → process.step label = none

structure Idle (process : Process) : Prop where
  adding : process.adding = none
  rounds : process.rounds = ∅
  tasks : process.tasks = ∅
  registers : process.registers = []

theorem Wakeful.idle (wakeful : Wakeful process) (quiescent : Quiescent process) :
    Idle process := by
  have noTasks (key : Nat × FullRangeId) : process.tasks.find key = none := by
    cases found : process.tasks.find key with
    | none => rfl
    | some task =>
      have unlocked : key.2 ∉ process.locked := by
        intro locked
        obtain ⟨-, round, txs, holder⟩ := wakeful.locked key.2 locked
        have blocked := quiescent (.advance round key.2) rfl
        simp [Process.step, advance, holder] at blocked
      have blocked := quiescent (.advance key.1 key.2) rfl
      obtain ⟨stage, txs⟩ := task
      cases stage <;> simp [Process.step, advance, found, unlocked] at blocked
  have noRounds (round : Nat) : process.rounds.find round = none := by
    cases found : process.rounds.find round with
    | none => rfl
    | some stage =>
      cases stage with
      | started =>
        have blocked := quiescent (.snapshot round) rfl
        simp [Process.step, snapshot, found] at blocked
      | spawning remaining =>
        rcases remaining.eq_empty_or_nonempty with rfl | ⟨range, listed⟩
        · have blocked := quiescent (.join round) rfl
          simp [Process.step, join, found, noTasks] at blocked
        · have present := wakeful.spawning _ _ _ found range listed
          have blocked := quiescent (.spawn round range) rfl
          simp only [HasGroup] at present
          simp [Process.step, spawn, found, listed, present] at blocked
      | collected =>
        have blocked := quiescent (.countDown round) rfl
        simp only [Process.step, Process.countDown, found] at blocked
        split at blocked <;> simp at blocked
      | notifying =>
        have blocked := quiescent (.notify round) rfl
        simp [Process.step, notify, found] at blocked
  have idle : process.adding = none := by
    cases found : process.adding with
    | none => rfl
    | some add =>
      obtain ⟨txs, stage⟩ := add
      cases stage with
      | reading =>
        have blocked := quiescent .readRanges rfl
        simp [Process.step, readRanges, found] at blocked
      | inserting =>
        have blocked := quiescent .insertRanges rfl
        simp [Process.step, insertRanges, found] at blocked
      | counting =>
        have blocked := quiescent .countPending rfl
        simp [Process.step, Process.countPending, found] at blocked
      | extending remaining =>
        cases remaining with
        | nil =>
          have blocked := quiescent (.markNonEmpty 0) rfl
          simp [Process.step, markNonEmpty, found, noRounds] at blocked
        | cons range =>
          have unlocked : range ∉ process.locked := by
            intro locked
            obtain ⟨-, round, txs, holder⟩ := wakeful.locked range locked
            simp [noTasks] at holder
          have blocked := quiescent (.extend range) rfl
          simp [Process.step, extend, found, unlocked] at blocked
  refine ⟨idle, ext fun round => ?_, ext fun key => ?_, ?_⟩
  · rw [noRounds, find_empty]
  · rw [noTasks, find_empty]
  · cases listed : process.registers with
    | nil => rfl
    | cons ids =>
      obtain ⟨after, ready, res, -⟩ :=
        wakeful.shaped.sound.linked.registerCommittedTransactions .ascending ids
      have blocked := quiescent (.register ids .ascending) rfl
      simp [Process.step, registerCommitted, listed, idle, res] at blocked

theorem Idle.quiescent (idle : Idle process) : Quiescent process := by
  obtain ⟨adding, rounds, tasks, registers⟩ := idle
  intro label internal
  cases label with
  | commit | drop | recordDirectly | registerExternal | fail => simp [Label.internal] at internal
  | register => simp [Process.step, registers]
  | readRanges => simp [Process.step, readRanges, adding]
  | insertRanges => simp [Process.step, insertRanges, adding]
  | countPending => simp [Process.step, Process.countPending, adding]
  | extend => simp [Process.step, extend, adding]
  | markNonEmpty => simp [Process.step, markNonEmpty, adding]
  | snapshot => simp [Process.step, snapshot, rounds]
  | spawn => simp [Process.step, spawn, rounds]
  | join => simp [Process.step, join, rounds]
  | countDown => simp [Process.step, Process.countDown, rounds]
  | notify => simp [Process.step, notify, rounds]
  | advance => simp [Process.step, advance, tasks]

/-! ## The last place -/

structure Live (process : Process) : Prop where
  accounted : Accounted process
  wakeful : Wakeful process
  kept : process.lost = []
  listening : process.droppedReceivers = ∅
  placed : ∀ id ∈ process.graph.handed, process.places id = 1
  waiting : ∀ id, id ∈ process.waitingTransactions ↔
    id ∈ process.graph.submitted ∧ process.notifications id = 0
  told : ∀ id, 0 < process.notifications id →
    id ∈ process.graph.state.resolvedTransactions ∨ ∃ ids ∈ process.registers, id ∈ ids
  external : process.external ⊆ process.graph.state.resolvedTransactions
  edges : ∀ dependency id, process.graph.state.Blocks dependency id →
    dependency ∈ process.dependenciesOf id

theorem Live.empty : Live empty := by
  refine ⟨Accounted.empty, Wakeful.empty, ?_, ?_, ?_, ?_, ?_, ?_, ?_⟩
  all_goals simp [Process.empty, Graph.empty, State.empty, State.Blocks, notifications]

theorem notifyAll_complete {waiting dropped : Finset Uuid} {txs : List TransactionInfo}
    (distinct : (txs.map (·.id)).Nodup)
    (listening : ∀ tx ∈ txs, tx.id ∈ waiting)
    (present : ∀ tx ∈ txs, tx.id ∉ dropped) :
    notifyAll waiting dropped txs =
      (waiting \ (txs.map (·.id)).toFinset, txs.map (·.id), true) := by
  induction txs generalizing waiting with
  | nil => simp [notifyAll]
  | cons tx rest ih =>
    rw [List.map_cons, List.nodup_cons] at distinct
    have later : ∀ other ∈ rest, other.id ∈ waiting.erase tx.id := by
      intro other listed
      refine Finset.mem_erase.mpr ⟨?_, listening other (List.mem_cons_of_mem _ listed)⟩
      intro same
      exact distinct.1 (same ▸ List.mem_map_of_mem listed)
    have here := listening tx List.mem_cons_self
    rw [notifyAll, if_neg (not_not_intro here), if_neg (present tx List.mem_cons_self),
      ih distinct.2 later
        fun other listed => present other (List.mem_cons_of_mem _ listed),
      List.map_cons, List.toFinset_cons, Finset.sdiff_insert, Finset.erase_sdiff_comm]

section Finished

variable {round : Nat} {ended : List TransactionInfo}
  (found : process.rounds.find round = some (.notifying ended))

include found

/-- A finished transaction was handed over, and it is finished once. -/
theorem Accounted.finished (accounted : Accounted process) {id : Uuid}
    (listed : id ∈ ended.map (·.id)) :
    id ∈ process.graph.handed ∧ process.notifications id = 0 ∧
      (ended.map (·.id)).count id = 1 := by
  have inside : weigh (entry id) ended ≤ finishing process.rounds id :=
    le_tally (fun _ stage => weigh (entry id) (Process.finished stage)) found
  have place := accounted.once id
  have here := List.count_pos_iff.mpr listed
  rw [weigh_entry_eq_count] at inside
  rw [places] at place
  by_cases handed : id ∈ process.graph.handed
  · rw [if_pos handed] at place
    refine ⟨handed, ?_, ?_⟩ <;> omega
  · rw [if_neg handed] at place
    omega

theorem Accounted.nodup_finished (accounted : Accounted process) : (ended.map (·.id)).Nodup := by
  rw [List.nodup_iff_count_le_one]
  intro id
  by_cases listed : id ∈ ended.map (·.id)
  · exact (accounted.finished found listed).2.2.le
  · rw [List.count_eq_zero.mpr listed]
    exact Nat.zero_le _

theorem Live.notifyAll (live : Live process) :
    notifyAll process.waitingTransactions process.droppedReceivers ended =
      (process.waitingTransactions \ (ended.map (·.id)).toFinset, ended.map (·.id), true) := by
  rw [live.listening]
  apply notifyAll_complete (live.accounted.nodup_finished found)
  · intro tx mem
    obtain ⟨handed, silent, -⟩ :=
      live.accounted.finished found (List.mem_map_of_mem mem)
    exact (live.waiting _).mpr ⟨live.accounted.shaped.sound.handed handed, silent⟩
  · exact fun tx _ => Finset.notMem_empty _

end Finished

def notifying (process : Process) (round : Nat) (ended : List TransactionInfo) : Process :=
  ({ process with
    waitingTransactions :=
      process.waitingTransactions \ (ended.map TransactionInfo.id).toFinset
    registers := if ended = [] then process.registers
      else process.registers ++ [ended.map TransactionInfo.id] }.endRound round).log
        ((ended.map TransactionInfo.id).map Event.notified)

theorem Live.moves_notify {round : Nat} (live : Live process)
    (moves : Moves process (.notify round) next) :
    ∃ ended, process.rounds.find round = some (.notifying ended) ∧
      next = process.notifying round ended := by
  cases moves with
  | @notify _ ended left notified completed found res =>
    cases res.symm.trans (live.notifyAll found)
    refine ⟨ended, found, ?_⟩
    simp only [notifying, true_and, ite_not]

theorem notifications_notifying (round : Nat) (ended : List TransactionInfo) (id : Uuid) :
    (process.notifying round ended).notifications id =
      process.notifications id + (ended.map (·.id)).count id := by
  rw [notifying, notifications_log, List.count_map_of_injective _ _
    (fun _ _ same => by cases same; rfl)]
  rfl

theorem Live.notify {round : Nat} {ended : List TransactionInfo} (live : Live process)
    (found : process.rounds.find round = some (.notifying ended))
    (accounted : Accounted (process.notifying round ended))
    (wakeful : Wakeful (process.notifying round ended)) :
    Live (process.notifying round ended) := by
  refine ⟨accounted, wakeful, live.kept, live.listening, ?_, ?_, ?_, live.external, live.edges⟩
  · intro id handed
    have place := live.placed id handed
    have moved := finishing_erase id found
    rw [Process.finished, weigh_entry_eq_count] at moved
    rw [places, notifications_notifying]
    change process.early id +
      hasCounter process.group.numPendingParticipantCommitsPerTransaction id +
      finishing (process.rounds.erase round) id + _ = 1
    rw [places] at place
    omega
  · intro id
    change id ∈ process.waitingTransactions \ _ ↔ id ∈ process.graph.submitted ∧ _
    rw [notifications_notifying, Finset.mem_sdiff, List.mem_toFinset, live.waiting,
      Nat.add_eq_zero_iff, List.count_eq_zero, and_assoc]
  · intro id positive
    rw [notifications_notifying] at positive
    simp only [notifying, log, endRound]
    by_cases listed : id ∈ ended.map (·.id)
    · have some : ended ≠ [] := by
        rintro rfl
        simp at listed
      rw [if_neg some]
      exact .inr ⟨_, List.mem_append_right _ List.mem_cons_self, listed⟩
    · rw [List.count_eq_zero.mpr listed, Nat.add_zero] at positive
      rcases live.told id positive with resolved | ⟨ids, mem, listed'⟩
      · exact .inl resolved
      · refine .inr ⟨ids, ?_, listed'⟩
        split
        · exact mem
        · exact List.mem_append_left _ mem

section Step

variable {label : Label} (live : Live process) (moves : Moves process label next)
  (faultless : Faultless process label) (other : ∀ round, label ≠ .notify round)

include moves faultless in
theorem Moves.keeps : next.lost = process.lost ∧
    next.droppedReceivers = process.droppedReceivers := by
  cases moves with
  | drop => exact faultless.elim
  | fail => exact faultless.elim
  | _ => exact ⟨rfl, rfl⟩

include live moves faultless other

theorem Live.placed_step {id : Uuid} (handed : id ∈ next.graph.handed) : next.places id = 1 := by
  rw [live.accounted.places_step moves faultless.submittedOnce other, newlyHanded]
  have most := live.accounted.once id
  by_cases known : id ∈ process.graph.handed
  · rw [live.placed id known, if_neg (fun both => both.2 known)]
  · rw [if_neg known] at most
    rw [if_pos ⟨handed, known⟩]
    omega

theorem Live.waiting_step (id : Uuid) : id ∈ next.waitingTransactions ↔
    id ∈ next.graph.submitted ∧ next.notifications id = 0 := by
  rw [moves.notifications other]
  cases moves with
  | @submit transactionId deps participants fake state info writes free res =>
    change id ∈ insert transactionId process.waitingTransactions ↔
      id ∈ insert transactionId process.graph.submitted ∧ _
    rw [Finset.mem_insert, Finset.mem_insert, live.waiting]
    by_cases same : id = transactionId
    · have place := live.accounted.once id
      rw [if_neg (fun handed => faultless.1 (same ▸ live.wakeful.shaped.sound.handed handed)),
        places] at place
      simp only [same, true_or, true_and, true_iff]
      rw [← same]
      omega
    · simp [same]
  | notify => exact absurd rfl (other _)
  | _ => exact live.waiting id

theorem Live.told_step (id : Uuid) (positive : 0 < next.notifications id) :
    id ∈ next.graph.state.resolvedTransactions ∨ ∃ ids ∈ next.registers, id ∈ ids := by
  rw [moves.notifications other] at positive
  have before := live.told id positive
  have linked := live.wakeful.shaped.sound.linked
  cases moves with
  | @submit transactionId deps participants fake state info writes free res =>
    have enrolled := State.enrolled res
    exact before.imp_left fun resolved => enrolled.resolved ▸ resolved
  | registerExternal _ res =>
    refine before.imp_left fun resolved => ?_
    rw [(linked.registered res).resolved]
    exact Finset.mem_union_left _ resolved
  | @register ids order state ready listed free res =>
    change id ∈ state.resolvedTransactions ∨ ∃ ids' ∈ process.registers.erase ids, id ∈ ids'
    rw [(linked.registered res).resolved]
    rcases before with resolved | ⟨ids', listed', mem⟩
    · exact .inl (Finset.mem_union_left _ resolved)
    · by_cases same : ids' = ids
      · subst same
        exact .inl (Finset.mem_union_right _ (List.mem_toFinset.mpr mem))
      · exact .inr ⟨ids', (List.mem_erase_of_ne same).mpr listed', mem⟩
  | notify => exact absurd rfl (other _)
  | _ => exact before

omit other

theorem Live.external_step : next.external ⊆ next.graph.state.resolvedTransactions := by
  have linked := live.wakeful.shaped.sound.linked
  cases moves with
  | submit _ _ res =>
    rw [(State.enrolled res).resolved]
    exact live.external
  | registerExternal _ res =>
    change process.external ∪ _ ⊆ _
    rw [(linked.registered res).resolved]
    exact Finset.union_subset_union_left live.external
  | register _ _ res =>
    rw [(linked.registered res).resolved]
    exact live.external.trans Finset.subset_union_left
  | _ => exact live.external

theorem Live.edges_step (dep id : Uuid)
    (blocks : next.graph.state.Blocks dep id) :
    dep ∈ next.dependenciesOf id := by
  have linked := live.wakeful.shaped.sound.linked
  cases moves with
  | @submit transactionId deps participants fake state info writes free res =>
    simp only [dependenciesOf, find_insert]
    rcases ((State.enrolled res).edges _ _).mp blocks with before | ⟨rfl, listed, -⟩
    · rw [if_neg]
      · exact live.edges _ _ before
      · rintro rfl
        exact faultless.1 (linked.blocked _ _ before).1
    · rw [if_pos rfl]
      exact listed
  | registerExternal free res | register listed free res =>
    exact live.edges _ _ (((linked.registered res).edges _ _).mp blocks).1
  | _ => exact live.edges _ _ blocks

theorem Live.step : Live next := by
  have accounted := live.accounted.step moves faultless.submittedOnce
  have wakeful := live.wakeful.step moves faultless.submittedOnce
  by_cases notifies : ∃ round, label = .notify round
  · obtain ⟨round, rfl⟩ := notifies
    obtain ⟨ended, found, rfl⟩ := live.moves_notify moves
    exact live.notify found accounted wakeful
  · have other (round : Nat) : label ≠ .notify round := fun same => notifies ⟨round, same⟩
    obtain ⟨lost, dropped⟩ := moves.keeps faultless
    exact ⟨accounted, wakeful, lost.trans live.kept, dropped.trans live.listening,
      fun _ handed => live.placed_step moves faultless other handed,
      live.waiting_step moves faultless other, live.told_step moves faultless other,
      live.external_step moves faultless, live.edges_step moves faultless⟩

end Step

/-! ## Quiescent states -/

section Settled

variable (live : Live process) (idle : Idle process)

include live idle

theorem Live.groupOf_of_idle (range : FullRangeId) : process.group.groupOf range = [] := by
  obtain ⟨adding, rounds, tasks, -⟩ := idle
  by_contra filled
  rcases live.wakeful.groups range filled with ⟨_, _, present, -⟩ | ⟨_, _, present⟩ |
    ⟨-, _, present⟩ | ⟨_, _, _, present, -⟩
  · simp [adding] at present
  · simp [tasks] at present
  · simp [rounds] at present
  · simp [rounds] at present

theorem Live.returned_of_idle : process.group.returnedTransactions = [] := by
  by_contra returned
  obtain ⟨round, stage, present, -⟩ := live.wakeful.returned returned
  simp [idle.rounds] at present

theorem Live.pending_of_idle :
    process.group.numPendingParticipantCommitsPerTransaction = ∅ := by
  apply ext
  intro id
  have empty : process.load id = 0 := by
    have groups : groupWeight (fun _ => entry id) process.group = 0 := by
      apply tally_eq_zero
      intro range list found
      have none := live.groupOf_of_idle idle range
      rw [GroupCommit.groupOf, found, Option.getD_some] at none
      rw [none, weigh_nil]
    simp [load, underway, idle.adding, addWeight, groups, idle.tasks, idle.rounds, gathering,
      live.returned_of_idle idle, live.kept]
  cases found : process.group.numPendingParticipantCommitsPerTransaction.find id with
  | none => simp
  | some count =>
    have positive := live.accounted.balanced.positive id count found
    have total := live.accounted.balanced.counted id
    rw [(counter_of_find found).1] at total
    omega

theorem Live.notified_of_idle {id : Uuid} (handed : id ∈ process.graph.handed) :
    process.notifications id = 1 ∧ id ∈ process.graph.state.resolvedTransactions := by
  have place := live.placed id handed
  have notified : process.notifications id = 1 := by
    simpa [places, early, idle.adding, live.pending_of_idle idle, hasCounter, finishing,
      idle.rounds] using place
  refine ⟨notified, ?_⟩
  rcases live.told id (by omega) with resolved | ⟨ids, listed, -⟩
  · exact resolved
  · simp [idle.registers] at listed

theorem Live.blocked_of_idle
    (supplied : ∀ id ∈ process.graph.submitted, ∀ dep ∈ process.dependenciesOf id,
      dep ∈ process.graph.submitted ∨ dep ∈ process.external)
    {id : Uuid} (waits : process.graph.Waiting id) :
    ∃ dep, process.DependsOn dep id ∧ process.graph.Waiting dep := by
  have linked := live.wakeful.shaped.sound.linked
  obtain ⟨info, -, count, positive⟩ := linked.counted id waits
  rw [count] at positive
  obtain ⟨dep, listed⟩ := Finset.card_pos.mp positive
  have blocks := State.mem_blockers.mp listed
  have unresolved : dep ∉ process.graph.state.resolvedTransactions :=
    fun resolved => linked.settled _ resolved _ blocks
  have depends := live.edges _ _ blocks
  refine ⟨dep, depends, ?_, ?_⟩
  · rcases supplied id waits.1 dep depends with submitted | external
    · exact submitted
    · exact absurd (live.external external) unresolved
  · intro handed
    exact unresolved (live.notified_of_idle idle handed).2

end Settled

/-- When the resolver has come to rest, every submitted transaction has been
notified once and is resolved, and nothing is left behind. -/
theorem no_transaction_stuck {process : Process}
    (reached : Reachable step Faultless Initial process) (quiescent : Quiescent process)
    (acyclic : Acyclic process.DependsOn)
    (supplied : ∀ id ∈ process.graph.submitted, ∀ dependency ∈ process.dependenciesOf id,
      dependency ∈ process.graph.submitted ∨ dependency ∈ process.external) :
    (∀ id ∈ process.graph.submitted, process.history.count (.notified id) = 1 ∧
      id ∈ process.graph.state.resolvedTransactions) ∧
    process.waitingTransactions = ∅ ∧
    process.group.numPendingParticipantCommitsPerTransaction = ∅ ∧
    ∀ range, process.group.groupOf range = [] := by
  have live : Live process := by
    refine reached.invariant ?_ fun _ _ _ live permitted taken =>
      live.step (.of_step taken) permitted
    rintro _ rfl
    exact Live.empty
  have idle := live.wakeful.idle quiescent
  have handed (id : Uuid) (submitted : id ∈ process.graph.submitted) :
      id ∈ process.graph.handed := by
    by_contra missing
    exact acyclic.not_of_descent process.graph.submitted (fun _ waits => waits.1)
      (fun _ waits => live.blocked_of_idle idle supplied waits) id ⟨submitted, missing⟩
  refine ⟨?_, ?_, live.pending_of_idle idle, live.groupOf_of_idle idle⟩
  · exact fun id submitted => live.notified_of_idle idle (handed id submitted)
  · rw [Finset.eq_empty_iff_forall_notMem]
    intro id waiting
    obtain ⟨submitted, silent⟩ := (live.waiting id).mp waiting
    have notified := (live.notified_of_idle idle (handed id submitted)).1
    omega

/-- The tasks of one round commit a chain of two transactions. -/
theorem no_transaction_stuck_chain :
    ∃ process, Reachable step Faultless Initial process ∧ Quiescent process ∧
      process.graph.submitted = {2, 3} ∧
      ∀ id ∈ process.graph.submitted, process.history.count (.notified id) = 1 := by
  have run : ∃ process, Reachable step Faultless Initial process ∧
      decide ((process.adding = none ∧ process.rounds = ∅ ∧ process.tasks = ∅ ∧
        process.registers = []) ∧ process.graph.submitted = {2, 3} ∧
        Descending process ∧
        ∀ id ∈ process.graph.submitted, ∀ dependency ∈ process.dependenciesOf id,
          dependency ∈ process.graph.submitted ∨ dependency ∈ process.external) = true :=
    exists_reachable_of_run (show Initial empty from rfl)
      (chain 1 2 ++ handOver [range 1, range 2] 0 ++ commitRange 0 (range 1) ++
        commitRange 0 (range 2) ++ [.join 0, .countDown 0, .notify 0,
          .register [2, 3] .ascending]) _ (by decide +kernel)
  obtain ⟨process, reached, observed⟩ := run
  obtain ⟨⟨adding, rounds, tasks, registers⟩, submitted, descending, supplied⟩ :=
    of_decide_eq_true observed
  have quiescent := Idle.quiescent ⟨adding, rounds, tasks, registers⟩
  have settled := no_transaction_stuck reached quiescent (Descending.acyclic descending) supplied
  exact ⟨process, reached, quiescent, submitted, fun id known => (settled.1 id known).1⟩

end Sangria.Resolver.Process
