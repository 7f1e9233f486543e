import Sangria.Coordinator.Coordination

/-!
# What coordinators and the resolver know of each other

The resolver has what a transaction delegated, as long as it was delegated; a
coordinator that records its commit itself never delegates it.
-/

namespace Sangria.Resolver.Process

open FiniteMap

variable {process next : Process} {label : Label} {id : Uuid}

theorem Moves.mem_submitted (moves : Moves process label next)
    (submitted : id ∈ next.graph.submitted) :
    id ∈ process.graph.submitted ∨
      ∃ deps participants fake, label = .commit id deps participants fake := by
  cases moves with
  | submit =>
    rcases Finset.mem_insert.mp submitted with same | before
    · exact .inr ⟨_, _, _, by rw [same]⟩
    · exact .inl before
  | _ => exact .inl submitted

theorem Moves.mem_external (moves : Moves process label next) (external : id ∈ next.external) :
    id ∈ process.external ∨ ∃ ids order, label = .registerExternal ids order ∧ id ∈ ids := by
  cases moves with
  | registerExternal =>
    rcases Finset.mem_union.mp external with before | now
    · exact .inl before
    · exact .inr ⟨_, _, rfl, List.mem_toFinset.mp now⟩
  | _ => exact .inl external

theorem Moves.recordedDirectly (moves : Moves process label next)
    (recorded : .recordedDirectly id ∈ next.history) :
    .recordedDirectly id ∈ process.history ∨ label = .recordDirectly id := by
  cases moves with
  | recordDirectly =>
    rcases List.mem_append.mp recorded with before | now
    · exact .inl before
    · cases List.mem_singleton.mp now
      exact .inr rfl
  | notify =>
    rcases List.mem_append.mp recorded with before | now
    · exact .inl before
    · simp at now
  | record | issue | apply | complete =>
    rcases List.mem_append.mp recorded with before | now
    · exact .inl before
    · simp at now
  | fail _ _ emitted =>
    rcases List.mem_append.mp recorded with before | now
    · exact .inl before
    · rcases emitted with rfl | ⟨-, rfl⟩ <;> simp at now
  | _ => exact .inl recorded

theorem Moves.history_subset (moves : Moves process label next) :
    process.history ⊆ next.history := by
  obtain ⟨events, history, -⟩ := moves.events
  rw [history]
  exact List.subset_append_left _ _

end Sangria.Resolver.Process

namespace Sangria.Coordinator

open FiniteMap

open Resolver (Process)
open Resolver.Process (Tracked Trailed Addressed Consistent)
open TxStateStore (OpResult)

namespace Transaction

variable {tx next : Transaction} {label : Label}

theorem Moves.acknowledged (moves : Moves tx label next)
    (acknowledged : next.acknowledged = true) :
    tx.acknowledged = true ∨
      (∃ early, tx.stage = .committing ∅ early) ∧ next = tx.acknowledge ∨
      label = .resolved true ∧ next = tx.acknowledge := by
  cases moves with
  | join committing => exact .inr (.inl ⟨⟨_, committing⟩, rfl⟩)
  | resolve => exact .inr (.inr ⟨rfl, rfl⟩)
  | _ => exact .inl acknowledged

theorem Moves.keeps_acknowledged (moves : Moves tx label next)
    (acknowledged : tx.acknowledged = true) : next.acknowledged = true := by
  cases moves with
  | join | resolve => rfl
  | _ => exact acknowledged

theorem Moves.committed_of_state (moves : Moves tx label next)
    (committed : next.state = .committed) :
    tx.state = .committed ∨ ∃ answer, label = .recorded (some answer) := by
  cases moves with
  | record => exact .inr ⟨_, rfl⟩
  | leaderChanged | abort | prepare | prepareFailed => cases committed
  | _ => exact .inl committed

theorem Coherent.decided_of_committed (coherent : Coherent tx)
    (committed : tx.state = .committed) : Decided tx := by
  refine ⟨.inr committed, ?_⟩
  intro load clients waiting early preparing
  have state : tx.state = .preparing := coherent.state_of_stage preparing rfl
  rw [committed] at state
  cases state

theorem Coherent.decided_of_acknowledged (coherent : Coherent tx)
    (acknowledged : tx.acknowledged = true) : Decided tx := by
  obtain ⟨⟨response, returned⟩, state⟩ := coherent.acknowledged acknowledged
  refine ⟨state.symm.imp_left And.left, ?_⟩
  intro load clients waiting early preparing
  rw [returned] at preparing
  cases preparing

theorem writers_congr (same : next.participantRanges = tx.participantRanges) :
    next.writers = tx.writers := by
  unfold writers getParticipantRange
  rw [same]

theorem mem_participantsInfo (tx : Transaction) {ranges : List FullRangeId}
    {range : FullRangeId} (enumerates : Enumerates ranges tx.participantRanges.keys) :
    range ∈ ((tx.participantsInfo ranges).filter (·.hasWrites)).map
        (·.participantRange) ↔ range ∈ tx.writers := by
  simp only [participantsInfo, writers, List.mem_map, List.mem_filter, Finset.mem_filter,
    ← enumerates.mem_iff]
  constructor
  · rintro ⟨_, ⟨⟨other, listed, rfl⟩, writes⟩, rfl⟩
    exact ⟨listed, writes⟩
  · rintro ⟨listed, writes⟩
    exact ⟨_, ⟨⟨range, listed, rfl⟩, writes⟩, rfl⟩

end Transaction

structure Attached (resolver : Process) (id : Uuid) (transaction : Transaction) : Prop where
  coherent : transaction.Coherent
  submitted : id ∈ resolver.graph.submitted → transaction.Decided ∧
    transaction.state = .preparing ∧
    (∀ dependency, dependency ∈ resolver.dependenciesOf id ↔
      dependency ∈ transaction.dependencies) ∧
    ∀ range, range ∈ resolver.graph.state.writeRanges id ↔ range ∈ transaction.writers
  recorded : .recordedDirectly id ∈ resolver.history → transaction.state = .committed
  direct : transaction.state = .committed → transaction.commitStrategy ≠ .traditional →
    .recordedDirectly id ∈ resolver.history
  answered : transaction.acknowledged = true → transaction.state = .preparing →
    transaction.writers = ∅ ∨ .notified id ∈ resolver.history

section Attached

variable {resolver resolver' : Process} {id : Uuid} {tx tx' : Transaction}

theorem Attached.act {label : Label} (attached : Attached resolver id tx)
    (moves : tx.Moves label tx')
    (direct : ∀ answer, label = .recorded (some answer) →
      tx.commitStrategy = .traditional)
    (told : label = .resolved true →
      tx.writers = ∅ ∨ .notified id ∈ resolver.history) :
    Attached resolver id tx' where
  coherent := attached.coherent.step moves
  submitted := by
    intro submitted
    obtain ⟨decided, preparing, deps, ranges⟩ := attached.submitted submitted
    obtain ⟨decided', state, same, same'⟩ := decided.step attached.coherent moves
    rw [state, same, Transaction.writers_congr same']
    exact ⟨decided', preparing, deps, ranges⟩
  recorded := by
    intro recorded
    have committed := attached.recorded recorded
    have decided := attached.coherent.decided_of_committed committed
    rw [(decided.step attached.coherent moves).2.1]
    exact committed
  direct := by
    intro committed other
    rw [moves.commitStrategy] at other
    rcases moves.committed_of_state committed with before | ⟨answer, recorded⟩
    · exact attached.direct before other
    · exact absurd (direct answer recorded) other
  answered := by
    intro acknowledged preparing
    rcases moves.acknowledged acknowledged with
      before | ⟨⟨early, committing⟩, rfl⟩ | ⟨resolved, rfl⟩
    · have decided := attached.coherent.decided_of_acknowledged before
      obtain ⟨-, state, -, same⟩ := decided.step attached.coherent moves
      rw [Transaction.writers_congr same]
      exact attached.answered before (state.symm.trans preparing)
    · have committed : tx.state = .committed :=
        attached.coherent.state_of_stage committing rfl
      exact absurd (committed.symm.trans preparing) (by decide)
    · exact told resolved

theorem Attached.elsewhere {label : Process.Label} (attached : Attached resolver id tx)
    (tracked : Tracked resolver) (moves : resolver.Moves label resolver')
    (consistent : Consistent resolver label)
    (others : ∀ deps participants fake, label ≠ .commit id deps participants fake)
    (others' : label ≠ .recordDirectly id) : Attached resolver' id tx where
  coherent := attached.coherent
  submitted := by
    intro submitted
    rcases moves.mem_submitted submitted with before | ⟨deps, participants, fake, same⟩
    · rw [moves.dependenciesOf consistent.submittedOnce before,
        tracked.writeRanges_step moves consistent before]
      exact attached.submitted before
    · exact absurd same (others _ _ _)
  recorded := fun recorded =>
    attached.recorded ((moves.recordedDirectly recorded).resolve_right others')
  direct := fun committed other => moves.history_subset (attached.direct committed other)
  answered := fun acknowledged preparing =>
    (attached.answered acknowledged preparing).imp_right fun told => moves.history_subset told

/-- The coordinator records the commit, whatever the store answers. -/
theorem Attached.record {answer : OpResult} (attached : Attached resolver id tx)
    (moves : tx.Moves (.recorded (some answer)) tx')
    (other : tx.commitStrategy ≠ .traditional) :
    Attached (resolver.log [.recordedDirectly id]) id tx' := by
  have coherent := attached.coherent.step moves
  cases moves with
  | refuse idle call | access idle call => cases call
  | aborting ofAbort => cases ofAbort
  | notRecorded _ refused =>
    rcases refused with none | traditional
    · cases none
    · exact absurd traditional other
  | record preparing =>
    refine ⟨coherent, ?_, fun _ => rfl, ?_, ?_⟩
    · intro submitted
      exact absurd preparing ((attached.submitted submitted).1.2 _ _ _ _)
    · intro _ _
      exact List.mem_append_right _ (List.mem_singleton_self _)
    · intro _ state
      cases state

theorem Attached.new (unknown : id ∉ resolver.graph.submitted)
    (unrecorded : .recordedDirectly id ∉ resolver.history) (commitStrategy : CommitStrategy) :
    Attached resolver id (.new id commitStrategy) where
  coherent := .new id commitStrategy
  submitted := fun submitted => absurd submitted unknown
  recorded := fun recorded => absurd recorded unrecorded
  direct := nofun
  answered := nofun

theorem Attached.delegate {deps : List Uuid} {ranges : List FullRangeId}
    (attached : Attached resolver id tx)
    (moves : tx.Moves .delegated tx')
    (moves' : resolver.Moves
      (.commit id deps (tx.participantsInfo ranges) false) resolver')
    (enumerates : Enumerates deps tx.dependencies)
    (enumerates' : Enumerates ranges tx.participantRanges.keys) :
    Attached resolver' id tx' := by
  have coherent := attached.coherent.step moves
  cases moves' with
  | readOnly =>
    refine attached.act moves ?_ ?_
    · intro answer same
      cases same
    · intro same
      cases same
  | @submit _ _ _ _ state info writes free res =>
    cases moves with
    | refuse idle call | access idle call => cases call
    | aborting ofAbort => cases ofAbort
    | @delegate load clients early preparing delegates =>
      have current : tx.state = .preparing :=
        attached.coherent.state_of_stage preparing rfl
      refine ⟨coherent, ?_, attached.recorded, attached.direct, ?_⟩
      · intro _
        refine ⟨⟨.inl current, ?_⟩, current, ?_, ?_⟩
        · intro _ _ _ _ same
          cases same
        · intro dep
          simp only [Process.dependenciesOf, find_insert, if_true, Option.getD_some]
          exact enumerates.mem_iff
        · intro range
          have enrolled := Resolver.State.enrolled res
          simp only [Resolver.State.writeRanges, enrolled.found, Option.elim_some]
          rw [Resolver.TransactionInfo.writeRanges, enrolled.participants]
          exact tx.mem_participantsInfo enumerates'
      · intro acknowledged
        have pending := attached.coherent.pending_of_stage (by simp [preparing])
        exact absurd (pending.symm.trans acknowledged) (by decide)

end Attached

namespace Coordination

structure Linked (system : Coordination) : Prop where
  tracked : Tracked system.resolver
  trailed : Trailed system.resolver
  addressed : Addressed system.resolver
  attached : ∀ id transaction, system.transactions.find id = some transaction →
    Attached system.resolver id transaction
  known : ∀ id, id ∈ system.resolver.graph.submitted ∨
    .recordedDirectly id ∈ system.resolver.history →
    ∃ transaction, system.transactions.find id = some transaction
  registered : ∀ id, id ∈ system.registering ∨ id ∈ system.resolver.external →
    .recordedDirectly id ∈ system.resolver.history ∧ system.Acknowledged id

variable {system next : Coordination} {label : Label} {id : Uuid}
  {tx tx' : Transaction}

theorem Linked.empty : Linked empty where
  tracked := .empty
  trailed := .empty
  addressed := .empty
  attached := by simp [Coordination.empty]
  known := by simp [Coordination.empty, Process.empty, Resolver.Graph.empty]
  registered := by simp [Coordination.empty, Process.empty]

theorem Acknowledged.put {other : Uuid} (acknowledged : system.Acknowledged other)
    (found : system.transactions.find id = some tx)
    (txs : next.transactions = system.transactions.insert id tx')
    (kept : tx.acknowledged = true → tx'.acknowledged = true) :
    next.Acknowledged other := by
  unfold Acknowledged at acknowledged ⊢
  rw [txs, find_insert]
  split
  next same =>
    rw [same, found] at acknowledged
    exact kept acknowledged
  next => exact acknowledged

/-- A transaction goes on, and the resolver may do something for it. -/
theorem Linked.transact (linked : Linked system)
    (found : system.transactions.find id = some tx)
    (txs : next.transactions = system.transactions.insert id tx')
    (attached : Attached next.resolver id tx')
    (kept : tx.acknowledged = true → tx'.acknowledged = true)
    (resolver : Tracked next.resolver ∧ Trailed next.resolver ∧ Addressed next.resolver)
    (others : ∀ other tx, other ≠ id → Attached system.resolver other tx →
      Attached next.resolver other tx)
    (submitted : ∀ other ∈ next.resolver.graph.submitted,
      other ∈ system.resolver.graph.submitted ∨ other = id)
    (recorded : ∀ other, .recordedDirectly other ∈ next.resolver.history →
      .recordedDirectly other ∈ system.resolver.history ∨ other = id)
    (history : system.resolver.history ⊆ next.resolver.history)
    (registered : ∀ other, other ∈ next.registering ∨ other ∈ next.resolver.external →
      (other ∈ system.registering ∨ other ∈ system.resolver.external) ∨
        other = id ∧ .recordedDirectly id ∈ system.resolver.history ∧
          tx'.acknowledged = true) :
    Linked next where
  tracked := resolver.1
  trailed := resolver.2.1
  addressed := resolver.2.2
  attached := by
    intro other tx found'
    rw [txs, find_insert] at found'
    split at found'
    next same =>
      cases found'
      rw [same]
      exact attached
    next ne => exact others other tx ne (linked.attached _ _ found')
  known := by
    intro other cause
    rw [txs, find_insert]
    split
    next => exact ⟨_, rfl⟩
    next ne =>
      apply linked.known
      rcases cause with now | now
      · exact .inl ((submitted other now).resolve_right ne)
      · exact .inr ((recorded other now).resolve_right ne)
  registered := by
    intro other cause
    rcases registered other cause with before | ⟨rfl, direct, acknowledged⟩
    · obtain ⟨direct, acknowledged⟩ := linked.registered other before
      exact ⟨history direct, acknowledged.put found txs kept⟩
    · refine ⟨history direct, ?_⟩
      rw [Acknowledged, txs, find_insert, if_pos rfl]
      exact acknowledged

theorem Linked.act {answer : Coordinator.Label} (linked : Linked system)
    (found : system.transactions.find id = some tx)
    (moves : tx.Moves answer tx')
    (txs : next.transactions = system.transactions.insert id tx')
    (resolver : next.resolver = system.resolver)
    (direct : ∀ res, answer = .recorded (some res) →
      tx.commitStrategy = .traditional)
    (told : answer = .resolved true →
      tx.writers = ∅ ∨ .notified id ∈ system.resolver.history)
    (registering : ∀ other ∈ next.registering, other ∈ system.registering ∨
      other = id ∧ .recordedDirectly id ∈ system.resolver.history ∧
        tx'.acknowledged = true) : Linked next := by
  have attached := (linked.attached id tx found).act moves direct told
  apply linked.transact found txs
  case attached =>
    rw [resolver]
    exact attached
  case kept => exact moves.keeps_acknowledged
  case resolver =>
    rw [resolver]
    exact ⟨linked.tracked, linked.trailed, linked.addressed⟩
  case others =>
    rw [resolver]
    exact fun _ _ _ before => before
  case submitted =>
    rw [resolver]
    exact fun _ before => .inl before
  case recorded =>
    rw [resolver]
    exact fun _ before => .inl before
  case history => rw [resolver]; exact fun _ before => before
  case registered =>
    rw [resolver]
    intro other cause
    rcases cause with waiting | before
    · exact (registering other waiting).imp_left .inl
    · exact .inl (.inr before)

theorem Linked.together {req : Process.Label} (linked : Linked system)
    (found : system.transactions.find id = some tx)
    (attached : Attached next.resolver id tx')
    (kept : tx.acknowledged = true → tx'.acknowledged = true)
    (moves : system.resolver.Moves req next.resolver)
    (consistent : Consistent system.resolver req) (real : req.Genuine)
    (only : ∀ other, (∃ deps participants fake,
      req = .commit other deps participants fake) ∨ req = .recordDirectly other →
      other = id)
    (internal : ∀ ids order, req ≠ .registerExternal ids order)
    (txs : next.transactions = system.transactions.insert id tx')
    (registering : next.registering = system.registering) : Linked next := by
  apply linked.transact found txs attached kept
  case resolver =>
    exact ⟨linked.tracked.step moves consistent real,
      linked.trailed.step moves linked.tracked.genuine,
      linked.addressed.step linked.tracked moves consistent⟩
  case others =>
    intro other tx ne before
    refine before.elsewhere linked.tracked moves consistent ?_ ?_
    · exact fun _ _ _ same => ne (only other (.inl ⟨_, _, _, same⟩))
    · exact fun same => ne (only other (.inr same))
  case submitted =>
    intro other now
    exact (moves.mem_submitted now).imp_right fun same => only other (.inl same)
  case recorded =>
    intro other now
    exact (moves.recordedDirectly now).imp_right fun same => only other (.inr same)
  case history => exact moves.history_subset
  case registered =>
    intro other cause
    rw [registering] at cause
    rcases cause with waiting | external
    · exact .inl (.inl waiting)
    · rcases moves.mem_external external with before | ⟨ids, order, same, -⟩
      · exact .inl (.inr before)
      · exact absurd same (internal ids order)

theorem Linked.elsewhere {req : Process.Label} (linked : Linked system)
    (moves : system.resolver.Moves req next.resolver)
    (consistent : Consistent system.resolver req)
    (own : ∀ other, (∀ deps participants fake,
      req ≠ .commit other deps participants fake) ∧ req ≠ .recordDirectly other)
    (external : ∀ ids order, req = .registerExternal ids order →
      ∀ other ∈ ids, other ∈ system.registering)
    (txs : next.transactions = system.transactions)
    (registering : next.registering ⊆ system.registering) : Linked next where
  tracked := by
    refine linked.tracked.step moves consistent ?_
    cases req with
    | commit other => exact absurd rfl ((own other).1 _ _ _)
    | _ => trivial
  trailed := linked.trailed.step moves linked.tracked.genuine
  addressed := linked.addressed.step linked.tracked moves consistent
  attached := by
    intro other tx found
    rw [txs] at found
    exact (linked.attached other tx found).elsewhere linked.tracked moves consistent
      (own other).1 (own other).2
  known := by
    intro other cause
    rw [txs]
    apply linked.known
    rcases cause with now | now
    · refine .inl ((moves.mem_submitted now).resolve_right ?_)
      rintro ⟨deps, participants, fake, same⟩
      exact (own other).1 _ _ _ same
    · exact .inr ((moves.recordedDirectly now).resolve_right (own other).2)
  registered := by
    intro other cause
    have before : other ∈ system.registering ∨ other ∈ system.resolver.external := by
      rcases cause with waiting | now
      · exact .inl (registering waiting)
      · rcases moves.mem_external now with before | ⟨ids, order, same, listed⟩
        · exact .inr before
        · exact .inl (external ids order same other listed)
    obtain ⟨direct, acknowledged⟩ := linked.registered other before
    refine ⟨moves.history_subset direct, ?_⟩
    rw [Acknowledged, txs]
    exact acknowledged

theorem Linked.consistent_commit {deps : List Uuid} {ranges : List FullRangeId}
    (linked : Linked system) (found : system.transactions.find id = some tx)
    (moves : tx.Moves .delegated tx')
    (enumerates : Enumerates deps tx.dependencies) :
    Consistent system.resolver
      (.commit id deps (tx.participantsInfo ranges) false) := by
  have attached := linked.attached id tx found
  cases moves with
  | refuse idle call | access idle call => cases call
  | aborting ofAbort => cases ofAbort
  | delegate preparing =>
    have current : tx.state = .preparing :=
      attached.coherent.state_of_stage preparing rfl
    refine ⟨?_, enumerates.1, ?_⟩
    · intro submitted
      exact absurd preparing ((attached.submitted submitted).1.2 _ _ _ _)
    · intro external
      have committed := attached.recorded (linked.registered id (.inr external)).1
      exact absurd (current.symm.trans committed) (by decide)

theorem Linked.consistent_register (linked : Linked system) (listed : id ∈ system.registering)
    (order : Resolver.IterationOrder) :
    Consistent system.resolver (.registerExternal [id] order) := by
  intro other same
  cases List.mem_singleton.mp same
  have direct := (linked.registered id (.inl listed)).1
  refine ⟨direct, ?_⟩
  intro submitted
  obtain ⟨tx, found⟩ := linked.known id (.inl submitted)
  have attached := linked.attached id tx found
  have committed := attached.recorded direct
  have preparing := (attached.submitted submitted).2.1
  exact absurd (preparing.symm.trans committed) (by decide)

theorem Linked.direct_of_joined (linked : Linked system)
    (found : system.transactions.find id = some tx)
    (moves : tx.Moves .joined tx') (registers : tx.registers = true) :
    .recordedDirectly id ∈ system.resolver.history ∧ tx'.acknowledged = true := by
  have attached := linked.attached id tx found
  cases moves with
  | refuse idle call | access idle call => cases call
  | aborting ofAbort => cases ofAbort
  | join committing =>
    have committed : tx.state = .committed :=
      attached.coherent.state_of_stage committing rfl
    simp only [Transaction.registers, committing, Bool.and_eq_true, decide_eq_true_eq] at registers
    exact ⟨attached.direct committed registers.2, rfl⟩

theorem Linked.start {commitStrategy : CommitStrategy} (linked : Linked system)
    (unused : system.transactions.find id = none) :
    Linked (system.put id (.new id commitStrategy)) where
  tracked := linked.tracked
  trailed := linked.trailed
  addressed := linked.addressed
  attached := by
    have unknown : ¬ (id ∈ system.resolver.graph.submitted ∨
        .recordedDirectly id ∈ system.resolver.history) := by
      intro cause
      obtain ⟨tx, found⟩ := linked.known id cause
      rw [unused] at found
      cases found
    intro other tx found
    rw [put, find_insert] at found
    split at found
    next same =>
      cases found
      rw [same]
      exact .new (fun now => unknown (.inl now)) (fun now => unknown (.inr now)) commitStrategy
    next => exact linked.attached other tx found
  known := by
    intro other cause
    rw [put, find_insert]
    split
    next => exact ⟨_, rfl⟩
    next => exact linked.known other cause
  registered := by
    intro other cause
    obtain ⟨direct, acknowledged⟩ := linked.registered other cause
    refine ⟨direct, ?_⟩
    unfold Acknowledged at acknowledged ⊢
    rw [put, find_insert]
    split
    next same =>
      rw [same, unused] at acknowledged
      cases acknowledged
    next => exact acknowledged

theorem Linked.step (linked : Linked system) (moves : Moves system label next) : Linked next := by
  cases moves with
  | start unused => exact linked.start unused
  | act outside found moves =>
    refine linked.act found moves rfl rfl ?_ ?_ fun _ before => .inl before
    · rintro _ rfl
      cases outside
    · rintro rfl
      cases outside
  | @record id tx tx' found moves =>
    by_cases traditional : tx.commitStrategy = .traditional
    · refine linked.act found moves rfl (if_pos traditional) (fun _ _ => traditional) nofun ?_
      exact fun _ before => .inl before
    · have logged : (if tx.commitStrategy = .traditional then system.resolver
          else system.resolver.log [.recordedDirectly id]) =
            system.resolver.log [.recordedDirectly id] := if_neg traditional
      rw [logged]
      refine linked.together found ((linked.attached id _ found).record moves traditional)
        moves.keeps_acknowledged .recordDirectly trivial trivial ?_ nofun rfl rfl
      rintro other (⟨_, _, _, same⟩ | same)
      · cases same
      · cases same
        rfl
  | fail failing found moves =>
    refine linked.act found moves rfl rfl ?_ ?_ fun _ before => .inl before
    · rintro _ rfl
      cases failing
    · rintro rfl
      cases failing
  | @delegate id deps ranges tx tx' resolver found enumerates
      enumerates' moves moves' =>
      refine linked.together found
        ((linked.attached id _ found).delegate moves moves' enumerates enumerates')
        moves.keeps_acknowledged moves' (linked.consistent_commit found moves enumerates) rfl ?_
        nofun rfl rfl
      rintro other (⟨_, _, _, same⟩ | same)
      · cases same
        rfl
      · cases same
  | delegateLost found moves =>
    exact linked.act found moves rfl rfl nofun nofun fun _ before => .inl before
  | answer found told moves =>
    exact linked.act found moves rfl rfl nofun (fun _ => told) fun _ before => .inl before
  | @finish id tx tx' found moves =>
    refine linked.act found moves rfl rfl nofun nofun ?_
    intro other waiting
    change other ∈ (if tx.registers = true then insert id system.registering
      else system.registering) at waiting
    split at waiting
    next registers =>
      cases Finset.mem_insert.mp waiting with
      | inr before => exact .inl before
      | inl same => exact .inr ⟨same, linked.direct_of_joined found moves registers⟩
    next => exact .inl waiting
  | @register id order resolver listed moves =>
    refine linked.elsewhere moves (linked.consistent_register listed order)
      (fun _ => ⟨nofun, nofun⟩) ?_ rfl (Finset.erase_subset _ _)
    intro ids order' same other mem
    cases same
    cases List.mem_singleton.mp mem
    exact listed
  | abortElsewhere => exact { linked with }
  | @resolve label resolver own moves =>
    refine linked.elsewhere moves ?_ ?_ ?_ rfl fun _ before => before
    · cases label <;> trivial
    · intro other
      constructor
      · rintro _ _ _ rfl
        cases own
      · rintro rfl
        cases own
    · rintro _ _ rfl
      cases own

end Coordination

end Sangria.Coordinator
