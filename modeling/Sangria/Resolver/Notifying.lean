import Sangria.Resolver.Progress

/-!
# Clients that have gone away

`trigger_commit` notifies the finished transactions of a round and registers
them.  Every transaction that is not notified yet has a sender, so the only
`unwrap` that can fail is that of a send to a client that has gone away.
-/

namespace Sangria.Resolver.Process

open TransitionSystem Release

variable {process next : Process} {label : Label}

structure Attended (process : Process) : Prop where
  accounted : Accounted process
  senders : ∀ id ∈ process.graph.submitted,
    id ∉ process.graph.handed ∨ process.notifications id < process.places id →
      id ∈ process.waitingTransactions

theorem Attended.empty : Attended empty :=
  ⟨Accounted.empty, by simp [Process.empty, Graph.empty]⟩

theorem mem_notifyAll {waiting dropped left : Finset Uuid} {txs : List TransactionInfo}
    {notified : List Uuid} {completed : Bool}
    (res : notifyAll waiting dropped txs = (left, notified, completed)) {id : Uuid}
    (present : id ∈ waiting) (unlisted : id ∉ txs.map (·.id)) : id ∈ left := by
  induction txs generalizing waiting left notified completed with
  | nil =>
    simp only [notifyAll, Prod.mk.injEq] at res
    rw [← res.1]
    exact present
  | cons tx rest ih =>
    rw [List.map_cons, List.mem_cons, not_or] at unlisted
    have stays : id ∈ waiting.erase tx.id :=
      Finset.mem_erase.mpr ⟨unlisted.1, present⟩
    simp only [notifyAll] at res
    split at res
    next =>
      simp only [Prod.mk.injEq] at res
      rw [← res.1]
      exact present
    next =>
      split at res
      next =>
        simp only [Prod.mk.injEq] at res
        rw [← res.1]
        exact stays
      next =>
        generalize later : notifyAll (waiting.erase tx.id) dropped rest = tail at res
        obtain ⟨left', notified', completed'⟩ := tail
        simp only [Prod.mk.injEq] at res
        rw [← res.1]
        exact ih later stays unlisted.2

section Step

variable (attended : Attended process) (moves : Moves process label next)
  (once : SubmittedOnce process label)

include attended moves

theorem Attended.senders_notify {round : Nat} (same : label = .notify round) (id : Uuid)
    (submitted : id ∈ next.graph.submitted)
    (unnotified : id ∉ next.graph.handed ∨ next.notifications id < next.places id) :
    id ∈ next.waitingTransactions := by
  have accounted := attended.accounted
  cases moves with
  | @notify round ended left notified completed found res =>
    have unlisted : id ∉ ended.map (·.id) := by
      intro listed
      obtain ⟨handed, silent, here⟩ := accounted.finished found listed
      have moved := finishing_erase id found
      have place := accounted.once id
      rcases unnotified with missing | fewer
      · exact missing handed
      · rw [if_pos handed] at place
        simp only [Process.finished, weigh_entry_eq_count, here] at moved
        simp only [places] at place
        change _ < process.early id +
          hasCounter process.group.numPendingParticipantCommitsPerTransaction id +
          finishing (process.rounds.erase round) id + _ at fewer
        omega
    refine mem_notifyAll res (attended.senders id submitted ?_) unlisted
    rcases unnotified with missing | fewer
    · exact .inl missing
    · have moved := finishing_erase id found
      simp only [Process.finished] at moved
      change _ < process.early id +
        hasCounter process.group.numPendingParticipantCommitsPerTransaction id +
        finishing (process.rounds.erase round) id + _ at fewer
      right
      simp only [places]
      omega
  | _ => cases same

include once

theorem Attended.senders_step (other : ∀ round, label ≠ .notify round) (id : Uuid)
    (submitted : id ∈ next.graph.submitted)
    (unnotified : id ∉ next.graph.handed ∨ next.notifications id < next.places id) :
    id ∈ next.waitingTransactions := by
  have carried (before : id ∈ process.graph.submitted) : id ∈ process.waitingTransactions := by
    apply attended.senders id before
    by_cases handed : id ∈ process.graph.handed
    · right
      have place := attended.accounted.places_step moves once other id
      rw [newlyHanded, if_neg (fun both => both.2 handed)] at place
      rw [moves.notifications other] at unnotified
      have still := unnotified.resolve_left (not_not_intro (moves.handed handed))
      omega
    · exact .inl handed
  cases moves with
  | submit =>
    rcases Finset.mem_insert.mp submitted with rfl | before
    · exact Finset.mem_insert_self _ _
    · exact Finset.mem_insert_of_mem (carried before)
  | notify => exact absurd rfl (other _)
  | _ => exact carried submitted

theorem Attended.step : Attended next := by
  refine ⟨attended.accounted.step moves once, ?_⟩
  by_cases notifies : ∃ round, label = .notify round
  · obtain ⟨round, same⟩ := notifies
    exact attended.senders_notify moves same
  · exact attended.senders_step moves once fun round same => notifies ⟨round, same⟩

end Step

theorem Attended.of_reachable (reached : Reachable Process.step SubmittedOnce Initial process) :
    Attended process := by
  refine reached.invariant ?_ fun _ _ _ attended once taken => attended.step (.of_step taken) once
  rintro _ rfl
  exact Attended.empty

theorem Attended.notifyAll (attended : Attended process) {round : Nat}
    {ended : List TransactionInfo} (found : process.rounds.find round = some (.notifying ended))
    (present : ∀ tx ∈ ended, tx.id ∉ process.droppedReceivers) :
    notifyAll process.waitingTransactions process.droppedReceivers ended =
      (process.waitingTransactions \ (ended.map (·.id)).toFinset, ended.map (·.id), true) := by
  have accounted := attended.accounted
  refine notifyAll_complete (accounted.nodup_finished found) ?_ present
  intro tx member
  have listed := List.mem_map_of_mem (f := TransactionInfo.id) member
  obtain ⟨handed, silent, here⟩ := accounted.finished found listed
  apply attended.senders _ (accounted.shaped.sound.handed handed)
  right
  have inside : weigh (entry tx.id) ended ≤ finishing process.rounds tx.id :=
    FiniteMap.le_tally (fun _ stage => weigh (entry tx.id) (Process.finished stage)) found
  rw [weigh_entry_eq_count, here] at inside
  simp only [places]
  omega

/-- A call of `register_committed_transactions` with these ids, made when the
lock of the resolver state is free: nobody waits for them any more, and what
waited for nothing else is handed over. -/
def Releases (process : Process) (ids : List Uuid) : Prop :=
  ids ∈ process.registers → process.adding = none → ∀ order,
    ∃ next, process.step (.register ids order) = some next ∧
      (∀ id ∈ ids, ∀ dependent, ¬ next.graph.state.Blocks id dependent) ∧
      ∀ dependent, Released process.graph.state.Blocks process.graph.Waiting (· ∈ ids) dependent →
        dependent ∈ next.graph.handed

theorem Attended.releases (attended : Attended process) (ids : List Uuid) :
    process.Releases ids := by
  intro listed free order
  obtain ⟨after, ready, res, registered⟩ :=
    attended.accounted.shaped.sound.linked.registerCommittedTransactions order ids
  have taken : ∃ next, process.step (.register ids order) = some next ∧
      next.graph.state = after ∧
      next.graph.handed = process.graph.handed ∪ (ready.map (·.id)).toFinset := by
    simp [Process.step, listed, registerCommitted, free, res]
  obtain ⟨next, step, state, handed⟩ := taken
  refine ⟨next, step, ?_, ?_⟩
  · intro id member dependent blocks
    rw [state] at blocks
    exact ((registered.edges id dependent).mp blocks).2.1 member
  · intro dependent released
    rw [handed]
    apply Finset.mem_union_right
    exact List.mem_toFinset.mpr ((registered.released dependent).mpr released)

/-- Notifications that reach the end found every receiver. -/
theorem present_of_notifyAll {waiting dropped : Finset Uuid} {txs : List TransactionInfo}
    (completed : (notifyAll waiting dropped txs).2.2 = true) :
    ∀ tx ∈ txs, tx.id ∉ dropped := by
  induction txs generalizing waiting with
  | nil => simp
  | cons tx rest ih =>
    unfold notifyAll at completed
    split at completed
    next => cases completed
    next =>
      split at completed
      next => cases completed
      next present => exact List.forall_mem_cons.mpr ⟨present, ih completed⟩

/-- The clients of a round that still wait are notified and its transactions are registered
exactly when none of its clients has gone away.  A registration releases the dependents. -/
theorem finished_notified_and_registered
    (reached : Reachable step SubmittedOnce Initial process) {round : Nat}
    {ended : List TransactionInfo} (found : process.rounds.find round = some (.notifying ended)) :
    ((∃ next, process.step (.notify round) = some next ∧
      (∀ transaction ∈ ended, transaction.id ∉ process.droppedReceivers →
        .notified transaction.id ∈ next.history) ∧
      (ended ≠ [] → next.registers = process.registers ++ [ended.map TransactionInfo.id])) ↔
        ∀ transaction ∈ ended, transaction.id ∉ process.droppedReceivers) ∧
      ∀ later, Reachable step SubmittedOnce Initial later →
        later.Releases (ended.map TransactionInfo.id) := by
  have taken : ∃ next, process.step (.notify round) = some next ∧
      next.history = process.history ++
        (notifyAll process.waitingTransactions process.droppedReceivers ended).2.1.map .notified ∧
      next.registers =
        if (notifyAll process.waitingTransactions process.droppedReceivers ended).2.2 = true ∧
          ended ≠ [] then process.registers ++ [ended.map TransactionInfo.id]
        else process.registers := by
    simp [Process.step, notify, found, log, endRound]
  obtain ⟨next, step, history, registers⟩ := taken
  refine ⟨⟨?_, ?_⟩, fun later reached' => (Attended.of_reachable reached').releases _⟩
  · rintro ⟨next', step', -, registered⟩ transaction member
    cases step.symm.trans step'
    refine @present_of_notifyAll process.waitingTransactions _ _ ?_ transaction member
    by_contra incomplete
    have same := registered (List.ne_nil_of_mem member)
    rw [registers, if_neg fun both => incomplete both.1] at same
    simp at same
  · intro present
    have complete := (Attended.of_reachable reached).notifyAll found present
    rw [complete] at history registers
    refine ⟨next, step, ?_, ?_⟩
    · intro transaction member _
      rw [history]
      exact List.mem_append_right _ (List.mem_map_of_mem (List.mem_map_of_mem member))
    · intro some
      rw [registers, if_pos ⟨rfl, some⟩]

/-- Two transactions of one range, in one batch, and a third that waits for the
second.  The round has counted them. -/
def sharedBatch : List Label :=
  [.commit 1 [] (Graph.writer 1) false] ++ handOver [range 1] 0 ++
    [.commit 2 [] (Graph.writer 1) false, .readRanges, .countPending, .extend (range 1),
      .markNonEmpty 1, .commit 3 [2] (Graph.writer 1) false] ++
    commitRange 0 (range 1) ++ [.join 0, .countDown 0]

def sharedInfo (id : Uuid) : TransactionInfo := ⟨id, 0, ∅, Graph.writer 1, false⟩

/-- The client of transaction 1 has gone away: 2 is not notified, nothing is
registered and 3 keeps waiting. -/
theorem departed_client_blocks_others :
    ∃ process next, Reachable step SubmittedOnce Initial process ∧
      process.rounds.find 0 = some (.notifying [sharedInfo 1, sharedInfo 2]) ∧
      process.droppedReceivers = {1} ∧ process.step (.notify 0) = some next ∧
      .notified 2 ∉ next.history ∧ next.registers = [] ∧ next.graph.Waiting 3 := by
  obtain ⟨process, reached, passed⟩ := @exists_reachable_of_run _ _ step SubmittedOnce Initial _
    empty rfl (sharedBatch ++ [.drop 1])
    (fun process => decide (
      process.rounds.find 0 = some (.notifying [sharedInfo 1, sharedInfo 2]) ∧
      process.droppedReceivers = {1} ∧ (process.step (.notify 0)).isSome ∧
      ∀ next ∈ process.step (.notify 0), Event.notified 2 ∉ next.history ∧
        next.registers = [] ∧ next.graph.Waiting 3)) (by decide +kernel)
  obtain ⟨found, dropped, possible, outcome⟩ := of_decide_eq_true passed
  obtain ⟨next, taken⟩ := Option.isSome_iff_exists.mp possible
  exact ⟨process, next, reached, found, dropped, taken, outcome next taken⟩

/-- Another client has gone away, one that waits for a dependency. -/
theorem finished_notified_and_registered_shared :
    ∃ process next : Process, Reachable step SubmittedOnce Initial process ∧
      process.droppedReceivers = {3} ∧ process.step (.notify 0) = some next ∧
      .notified 2 ∈ next.history ∧ next.registers = process.registers ++ [[1, 2]] := by
  obtain ⟨process, reached, passed⟩ := @exists_reachable_of_run _ _ step SubmittedOnce Initial _
    empty rfl (sharedBatch ++ [.drop 3])
    (fun process => decide (
      process.rounds.find 0 = some (.notifying [sharedInfo 1, sharedInfo 2]) ∧
      process.droppedReceivers = {3})) (by decide +kernel)
  obtain ⟨found, dropped⟩ := of_decide_eq_true passed
  have present : ∀ transaction ∈ [sharedInfo 1, sharedInfo 2],
      transaction.id ∉ process.droppedReceivers := by
    rw [dropped]
    decide
  obtain ⟨next, taken, notified, registered⟩ :=
    (finished_notified_and_registered reached found).1.mpr present
  exact ⟨process, next, reached, dropped, taken,
    notified (sharedInfo 2) (by simp) (present _ (by simp)), registered (by simp)⟩

end Sangria.Resolver.Process
