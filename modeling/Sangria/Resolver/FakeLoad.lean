import Sangria.Resolver.Trail

/-!
# Fake load next to real transactions

Calls of `Resolver::commit` with and without the fake flag.  The flag of a
transaction is stored with its entry, which is made when the transaction is
first mentioned, and a batch follows the flag of its first member.
-/

namespace Sangria.Resolver

open FiniteMap

/-! ## The flags of the entries -/

def State.flag (state : State) (id : Uuid) : Option Bool :=
  (state.infoPerTransaction.find id).map TransactionInfo.fake

theorem State.flag_of_find {state : State} {id : Uuid} {info : TransactionInfo}
    (found : state.infoPerTransaction.find id = some info) : state.flag id = some info.fake := by
  rw [flag, found]
  rfl

section Enrolment

variable {state after : State} {info : TransactionInfo} {transactionId : Uuid} {fake : Bool}
  {dependencies : List Uuid} {participants : List ParticipantRangeInfo}
  (result : state.enroll transactionId dependencies participants fake = (after, info))

include result

theorem State.flag_enroll {id : Uuid} {flag : Bool} (flagged : state.flag id = some flag) :
    after.flag id = some flag := by
  obtain ⟨old, found, rfl⟩ := Option.map_eq_some_iff.mp flagged
  by_cases same : id = transactionId
  · subst same
    obtain ⟨kept, found', data⟩ :=
      (@State.addDependencies_spec id fake state 0 dependencies).1.kept id old found
    have enrolled := congrArg (fun pair => pair.2.fake) result
    rw [State.flag_of_find (State.enrolled result).found, ← enrolled]
    simp only [State.enroll, State.entry, found', Option.getD_some, data.2.2.2]
  · obtain ⟨new, found', data⟩ := (State.enrolled result).kept id old same found
    rw [State.flag_of_find found', data.2.2.2]

theorem State.flag_enroll_self (unknown : state.flag transactionId = none) :
    after.flag transactionId = some fake := by
  rcases (State.enrolled result).origin _ _ (State.enrolled result).found with
    ⟨old, found, -, -⟩ | ⟨-, same⟩
  · rw [State.flag_of_find found] at unknown
    cases unknown
  · rw [State.flag_of_find (State.enrolled result).found, same]

end Enrolment

/-- The call has still to place its transactions in the group of a range. -/
def Grouping.ToPlace (range : FullRangeId) : AddStage → Prop
  | .extending remaining => range ∈ remaining
  | _ => True

namespace Process

open TransitionSystem

open Grouping (ToPlace)

variable {process next : Process} {label : Label}
variable {id : Uuid} {range : FullRangeId} {stage : TaskStage}

theorem Moves.flag (moves : Moves process label next) (sound : process.graph.Sound)
    {flag : Bool} (flagged : process.graph.state.flag id = some flag) :
    next.graph.state.flag id = some flag := by
  have registers {state : State} {ready : List TransactionInfo} {ids : List Uuid}
      {order : IterationOrder}
      (result : process.graph.state.registerCommittedTransactions order ids =
        some (state, ready)) : state.flag id = some flag := by
    have registered := sound.linked.registered result
    obtain ⟨old, found, rfl⟩ := Option.map_eq_some_iff.mp flagged
    cases found' : state.infoPerTransaction.find id with
    | none => cases (registered.present id found').symm.trans found
    | some info =>
      obtain ⟨old', before, -, same⟩ := registered.kept id info found'
      cases before.symm.trans found
      rw [State.flag_of_find found', same]
  cases moves with
  | submit _ _ result => exact State.flag_enroll result flagged
  | registerExternal _ result => exact registers result
  | register _ _ result => exact registers result
  | _ => exact flagged

/-- Clones in the groups and batches have the flags of the entries. -/
def Faithful (process : Process) : Prop :=
  Flow (fun _ batch => ∀ transaction ∈ batch,
    process.graph.state.flag transaction.id = some transaction.fake) process

theorem Faithful.step (faithful : Faithful process) (moves : Moves process label next)
    (sound : process.graph.Sound) : Faithful next := by
  have carried : Flow (fun _ batch => ∀ tx ∈ batch,
      next.graph.state.flag tx.id = some tx.fake) process :=
    faithful.mono fun _ _ good tx member => moves.flag sound (good tx member)
  have registers {state : State} {ready : List TransactionInfo} {ids : List Uuid}
      {order : IterationOrder}
      (result : process.graph.state.registerCommittedTransactions order ids =
        some (state, ready)) (tx : TransactionInfo) (member : tx ∈ ready) :
      process.graph.state.flag tx.id = some tx.fake := by
    obtain ⟨old, found, -, same⟩ := (sound.linked.registered result).cloned tx member
    rw [State.flag_of_find found, same]
  refine carried.step (by simp) ?_ moves ?_
  · intro range first second left right tx member
    exact (List.mem_append.mp member).elim (left tx) (right tx)
  · intro add idle adding range tx grouped
    have member := (mem_tmpGroup.mp grouped).1
    by_cases updates : label.updates = true
    · cases moves with
      | readOnly => cases idle.symm.trans adding
      | @submit id dependencies participants fake state info writes free result =>
        cases (Option.ite_none_right_eq_some.mp adding).2
        obtain rfl := List.mem_singleton.mp member
        have enrolled := State.enrolled result
        rw [sound.linked.enrolled_id enrolled]
        exact State.flag_of_find enrolled.found
      | registerExternal free result =>
        have moves := Moves.registerExternal free result
        cases (Option.ite_none_left_eq_some.mp adding).2
        exact moves.flag sound (registers result tx member)
      | register listed free result =>
        have moves := Moves.register listed free result
        cases (Option.ite_none_left_eq_some.mp adding).2
        exact moves.flag sound (registers result tx member)
      | _ => simp [Label.updates] at updates
    · obtain ⟨-, -, -, free⟩ := moves.frame (Bool.eq_false_iff.mpr updates)
      rw [free idle] at adding
      cases adding

/-! ## The way to a range -/

/-- The transaction was recorded as committed for a range and sent to it. -/
structure Sent (history : List Event) (range : FullRangeId) (id : Uuid) : Prop where
  recorded : id ∈ idsAt .recording range history
  issued : id ∈ idsAt .issuing range history

/-- What was done for a batch at a stage before it is given back. -/
def Underway (history : List Event) (range : FullRangeId) (id : Uuid) : TaskStage → Prop
  | .taking | .unmarking | .recording => True
  | .issuing => id ∈ idsAt .recording range history
  | .applying | .completing => Sent history range id
  | .returning => False

/-- Where a transaction is on its way to a range it writes to. -/
inductive Way (process : Process) (id : Uuid) (range : FullRangeId) : Prop where
  | entering {transactions stage transaction} :
      process.adding = some ⟨transactions, stage⟩ → transaction ∈ transactions →
      transaction.id = id → range ∈ transaction.writeRanges → ToPlace range stage →
      Way process id range
  | grouped {transaction} :
      transaction ∈ process.group.groupOf range → transaction.id = id → Way process id range
  | taken {round stage transactions transaction} :
      process.tasks.find (round, range) = some ⟨stage, transactions⟩ →
      transaction ∈ transactions → transaction.id = id →
      Underway process.history range id stage → Way process id range
  | sent : Sent process.history range id → Way process id range
  | lost {transaction} :
      transaction ∈ process.lost → transaction.id = id → Way process id range

theorem Moves.mem_idsAt (moves : Moves process label next)
    (reported : id ∈ idsAt stage range process.history) :
    id ∈ idsAt stage range next.history := by
  obtain ⟨events, history, -⟩ := moves.events
  rw [history, mem_idsAt_append]
  exact .inl reported

theorem Sent.step (sent : Sent process.history range id)
    (moves : Moves process label next) : Sent next.history range id :=
  ⟨moves.mem_idsAt sent.recorded, moves.mem_idsAt sent.issued⟩

theorem Underway.step
    (underway : Underway process.history range id stage) (moves : Moves process label next) :
    Underway next.history range id stage := by
  cases stage with
  | taking | unmarking | recording => trivial
  | issuing => exact moves.mem_idsAt underway
  | applying | completing => exact Sent.step underway moves
  | returning => exact underway

section Way

variable {id : Uuid} {range : FullRangeId} {tx : TransactionInfo}
  (moves : Moves process label next)

include moves

theorem Way.of_grouped (grouped : tx ∈ process.group.groupOf range)
    (named : tx.id = id) : Way next id range := by
  cases moves with
  | insertRanges =>
    refine .grouped ?_ named
    simpa only [GroupCommit.groupOf_insertRanges] using grouped
  | countPending =>
    refine .grouped ?_ named
    simpa only [GroupCommit.groupOf_countPending] using grouped
  | @extend txs _ placed adding listed free =>
    have still : tx ∈
        (process.group.extend placed (tmpGroup txs placed)).groupOf range := by
      rw [GroupCommit.groupOf_extend]
      split
      next => exact List.mem_append_left _ grouped
      next => exact grouped
    exact .grouped still named
  | @take _ other _ found free =>
    by_cases same : range = other
    · subst same
      exact .taken (find_insert_self _ _ _) grouped named trivial
    · refine .grouped ?_ named
      simp only [setTask, GroupCommit.groupOf_clearGroup, if_neg same]
      exact grouped
  | _ => exact .grouped grouped named

theorem Way.of_entering (shaped : Shaped process) {txs : List TransactionInfo}
    {stage : AddStage} (adding : process.adding = some ⟨txs, stage⟩)
    (member : tx ∈ txs) (named : tx.id = id)
    (writes : range ∈ tx.writeRanges) (toPlace : ToPlace range stage) :
    Way next id range := by
  cases moves with
  | submit _ free => cases free.symm.trans adding
  | registerExternal free => cases free.symm.trans adding
  | register _ free => cases free.symm.trans adding
  | readRanges here =>
    cases here.symm.trans adding
    refine .entering rfl member named writes ?_
    split <;> trivial
  | insertRanges here =>
    cases here.symm.trans adding
    exact .entering rfl member named writes trivial
  | countPending here =>
    cases here.symm.trans adding
    exact .entering rfl member named writes (mem_tmpRanges.mpr ⟨tx, member, writes⟩)
  | @extend _ remaining placed here listed free =>
    cases here.symm.trans adding
    by_cases same : placed = range
    · subst same
      obtain ⟨-, -, -, -, inside, present⟩ := shaped.adding _ adding
      refine .grouped ?_ named
      rw [GroupCommit.groupOf_extend, if_pos ⟨rfl, present placed (inside listed)⟩]
      exact List.mem_append_right _ (mem_tmpGroup.mpr ⟨member, writes⟩)
    · refine .entering rfl member named writes ?_
      exact (List.mem_erase_of_ne (Ne.symm same)).mpr toPlace
  | markNonEmpty here =>
    cases here.symm.trans adding
    cases toPlace
  | _ => exact .entering adding member named writes toPlace

/-- A batch whose first member is not fake is recorded and sent before it is
given back. -/
theorem Way.of_taken (shaped : Shaped process)
    (unfaked : ∀ round txs,
      process.tasks.find (round, range) = some ⟨.unmarking, txs⟩ →
      ∀ tx ∈ txs, tx.id = id →
        ∀ first ∈ txs.head?, first.fake = false)
    {round : Nat} {stage : TaskStage} {txs : List TransactionInfo}
    (found : process.tasks.find (round, range) = some ⟨stage, txs⟩)
    (member : tx ∈ txs) (named : tx.id = id)
    (underway : Underway process.history range id stage) : Way next id range := by
  have stays : Underway next.history range id stage := underway.step moves
  have kept {changed : Nat × FullRangeId} {new : Task}
      (tasks : next.tasks = process.tasks.insert changed new)
      (replaces : changed = (round, range) → Way next id range) : Way next id range := by
    by_cases same : changed = (round, range)
    · exact replaces same
    · have here : next.tasks.find (round, range) = some ⟨stage, txs⟩ := by
        rw [tasks, find_insert_of_ne _ (Ne.symm same)]
        exact found
      exact .taken here member named stays
  have ended {changed : Nat × FullRangeId} (tasks : next.tasks = process.tasks.erase changed)
      (replaces : changed = (round, range) → Way next id range) : Way next id range := by
    by_cases same : changed = (round, range)
    · exact replaces same
    · have here : next.tasks.find (round, range) = some ⟨stage, txs⟩ := by
        rw [tasks, find_erase_of_ne (Ne.symm same)]
        exact found
      exact .taken here member named stays
  have listed : id ∈ txs.map TransactionInfo.id := named ▸ List.mem_map_of_mem member
  cases moves with
  | spawn running here =>
    refine kept rfl ?_
    intro same
    cases same
    cases (shaped.notSpawned running here).symm.trans found
  | take here =>
    refine kept rfl ?_
    intro same
    cases same
    cases here.symm.trans found
    obtain rfl := shaped.untaken _ _ _ here
    cases member
  | @unmark _ _ batch here =>
    cases batch with
    | nil =>
      refine ended rfl ?_
      intro same
      cases same
      cases here.symm.trans found
      cases member
    | cons first =>
      refine kept rfl ?_
      intro same
      cases same
      cases here.symm.trans found
      have real := unfaked _ _ here tx member named first rfl
      refine .taken (find_insert_self _ _ _) member named ?_
      simp only [real, Bool.false_eq_true, if_false]
      trivial
  | record here =>
    refine kept rfl ?_
    intro same
    cases same
    cases here.symm.trans found
    refine .taken (find_insert_self _ _ _) member named ?_
    exact mem_idsAt_append.mpr (.inr (mem_idsAt_singleton.mpr
      ((reports_recorded _ _ _ _ _).mpr ⟨rfl, rfl, listed⟩)))
  | issue here =>
    refine kept rfl ?_
    intro same
    cases same
    cases here.symm.trans found
    refine .taken (find_insert_self _ _ _) member named ⟨?_, ?_⟩
    · exact mem_idsAt_append.mpr (.inl underway)
    · exact mem_idsAt_append.mpr (.inr (mem_idsAt_singleton.mpr
        ((reports_issued _ _ _ _ _).mpr ⟨rfl, rfl, listed⟩)))
  | apply here =>
    refine kept rfl ?_
    intro same
    cases same
    cases here.symm.trans found
    exact .taken (find_insert_self _ _ _) member named stays
  | complete here =>
    refine kept rfl ?_
    intro same
    cases same
    cases here.symm.trans found
    exact .sent stays
  | giveBack here =>
    refine ended rfl ?_
    intro same
    cases same
    cases here.symm.trans found
    cases underway
  | fail here =>
    refine ended rfl ?_
    intro same
    cases same
    cases here.symm.trans found
    exact .lost (List.mem_append_right _ member) named
  | _ => exact .taken found member named stays

theorem Way.step (way : Way process id range) (shaped : Shaped process)
    (unfaked : ∀ round txs,
      process.tasks.find (round, range) = some ⟨.unmarking, txs⟩ →
      ∀ tx ∈ txs, tx.id = id →
        ∀ first ∈ txs.head?, first.fake = false) : Way next id range := by
  cases way with
  | entering adding member named writes toPlace =>
    exact Way.of_entering moves shaped adding member named writes toPlace
  | grouped here named => exact Way.of_grouped moves here named
  | taken found member named underway =>
    exact Way.of_taken moves shaped unfaked found member named underway
  | sent sent => exact .sent (sent.step moves)
  | lost dropped named =>
    cases moves with
    | fail => exact .lost (List.mem_append_left _ dropped) named
    | _ => exact .lost dropped named

end Way

theorem Way.sent_of_notified (way : Way process id range)
    (accounted : Accounted process) (notified : 0 < process.notifications id) :
    Sent process.history range id := by
  obtain ⟨empty, counted⟩ := accounted.settled_of_notified notified
  simp only [load, underway] at empty
  cases way with
  | @entering txs stage tx adding member named writes toPlace =>
    have positive := weigh_entry_pos member named
    cases stage with
    | extending =>
      have here := weigh_entry_pos (mem_tmpGroup.mpr ⟨member, writes⟩) named
      have part := List.le_sum_of_mem (List.mem_map_of_mem
        (f := fun range => weigh (entry id) (tmpGroup txs range)) toPlace)
      simp only [adding, addWeight] at empty
      omega
    | _ =>
      simp only [early, adding] at counted
      omega
  | grouped here named =>
    have positive := weigh_entry_pos here named
    have cleared := groupWeight_clearGroup (fun _ => entry id) process.group range
    omega
  | @taken round stage txs tx found member named underway =>
    have inside : weigh (entry id) txs ≤
        process.tasks.tally (taskWeight (fun _ => entry id) fun _ => true) :=
      le_tally (taskWeight (fun _ => entry id) fun _ => true) found
    have positive := weigh_entry_pos member named
    omega
  | sent sent => exact sent
  | lost dropped named =>
    have positive := weigh_entry_pos dropped named
    omega

/-- A batch that starts with a fake transaction has no others. -/
def Unmixed (batch : List TransactionInfo) : Prop :=
  ∀ first ∈ batch.head?, first.fake = true → ∀ transaction ∈ batch, transaction.fake = true

instance (batch : List TransactionInfo) : Decidable (Unmixed batch) :=
  inferInstanceAs (Decidable (∀ first ∈ batch.head?, _))

theorem unmixed_step (moves : Moves process label next)
    (unmixed : ∀ round range txs,
      process.tasks.find (round, range) = some ⟨.unmarking, txs⟩ → Unmixed txs)
    (takes : ∀ round range, label = .advance round range → ∀ task,
      process.tasks.find (round, range) = some task → task.stage = .taking →
        Unmixed (process.group.groupOf range))
    (round : Nat) (range : FullRangeId) (txs : List TransactionInfo)
    (found : next.tasks.find (round, range) = some ⟨.unmarking, txs⟩) :
    Unmixed txs := by
  have replaced {changed : Nat × FullRangeId} {new : Task} (later : new.stage ≠ .unmarking)
      (found : find (process.tasks.insert changed new) (round, range) =
        some ⟨.unmarking, txs⟩) : Unmixed txs := by
    rcases eq_or_find_of_insert found with ⟨-, same⟩ | ⟨-, before⟩
    · rw [← same] at later
      exact absurd rfl later
    · exact unmixed _ _ _ before
  cases moves with
  | spawn => exact replaced (by simp) found
  | @take taker taken _ here free =>
    rcases eq_or_find_of_insert found with ⟨-, same⟩ | ⟨-, before⟩
    · cases same
      exact takes taker taken rfl _ here rfl
    · exact unmixed _ _ _ before
  | @unmark _ _ batch here =>
    cases batch with
    | nil => exact unmixed _ _ _ (find_of_erase found).2
    | cons first => exact replaced (by cases first.fake <;> simp) found
  | record => exact replaced (by simp) found
  | issue => exact replaced (by simp) found
  | apply => exact replaced (by simp) found
  | complete => exact replaced (by simp) found
  | giveBack => exact unmixed _ _ _ (find_of_erase found).2
  | fail => exact unmixed _ _ _ (find_of_erase found).2
  | _ => exact unmixed _ _ _ found

end Process

/-! ## Whole runs -/

/-- The resolver, with an observer: the transactions that were submitted with
`fake = false` and the ranges they write to. -/
structure Load where
  process : Process
  real : HashMap Uuid (List FullRangeId)

namespace Load

open TransitionSystem Process

def observe : Label → HashMap Uuid (List FullRangeId) → HashMap Uuid (List FullRangeId)
  | .commit transactionId _ participants false, real =>
    if readOnly participants then real
    else real.insert transactionId
      ((participants.filter (·.hasWrites)).map (·.participantRange))
  | _, real => real

def step (load : Load) (label : Label) : Option Load :=
  (load.process.step label).map fun next => ⟨next, observe label load.real⟩

def empty : Load := ⟨.empty, ∅⟩

def Initial (load : Load) : Prop := load = empty

def SubmittedOnce (load : Load) (label : Label) : Prop := load.process.SubmittedOnce label

instance (load : Load) (label : Label) : Decidable (load.SubmittedOnce label) :=
  inferInstanceAs (Decidable (Process.SubmittedOnce _ _))

/-- A transaction that is submitted as real was not first mentioned by a fake
one, and no round takes a group in which a fake transaction is the first and a
real one follows. -/
def FlagsApart (load : Load) : Label → Prop
  | .commit transactionId _ _ fake =>
    fake = false → load.process.graph.state.flag transactionId ≠ some true
  | .advance round range => ∀ task ∈ load.process.tasks.find (round, range),
      task.stage = .taking → Unmixed (load.process.group.groupOf range)
  | _ => True

instance (load : Load) (label : Label) : Decidable (load.FlagsApart label) :=
  match label with
  | .commit .. => inferInstanceAs (Decidable (_ → _))
  | .advance round range =>
    inferInstanceAs (Decidable (∀ task ∈ load.process.tasks.find (round, range), _))
  | .drop .. | .recordDirectly .. | .registerExternal .. | .register .. | .readRanges
  | .insertRanges | .countPending | .extend .. | .markNonEmpty .. | .snapshot .. | .spawn ..
  | .join .. | .countDown .. | .notify .. | .fail .. => isTrue trivial

structure Kept (load : Load) : Prop where
  accounted : Accounted load.process
  faithful : Faithful load.process
  unmixed : ∀ round range transactions,
    load.process.tasks.find (round, range) = some ⟨.unmarking, transactions⟩ →
      Unmixed transactions
  flags : ∀ id ranges, load.real.find id = some ranges →
    load.process.graph.state.flag id = some false
  submitted : ∀ id ranges, load.real.find id = some ranges → id ∈ load.process.graph.submitted
  ranges : ∀ id ranges, load.real.find id = some ranges →
    load.process.graph.state.writeRanges id = ranges
  ways : ∀ id ranges, load.real.find id = some ranges → id ∈ load.process.graph.handed →
    ∀ range ∈ ranges, Way load.process id range

theorem Kept.empty : Kept empty := by
  refine ⟨Accounted.empty, ⟨?_, ?_, ?_⟩, ?_, ?_, ?_, ?_, ?_⟩
  all_goals
    simp [Load.empty, Process.empty, Graph.empty, State.empty, GroupCommit.empty,
      GroupCommit.groupOf]

variable {load : Load} {next : Process} {label : Label}

theorem find_observe {id : Uuid} {ranges : List FullRangeId}
    (found : (observe label load.real).find id = some ranges) :
    load.real.find id = some ranges ∨ ∃ dependencies participants,
      label = .commit id dependencies participants false ∧ readOnly participants = false ∧
        ranges = (participants.filter (·.hasWrites)).map (·.participantRange) := by
  cases label with
  | commit _ dependencies participants fake =>
    cases fake with
    | true => exact .inl found
    | false =>
      simp only [observe] at found
      split at found
      next => exact .inl found
      next writes =>
        rcases eq_or_find_of_insert found with ⟨rfl, rfl⟩ | ⟨-, before⟩
        · exact .inr ⟨dependencies, participants, rfl, Bool.eq_false_iff.mpr writes, rfl⟩
        · exact .inl before
  | _ => exact .inl found

section Step

variable (kept : Kept load) (moves : Moves load.process label next)
  (once : load.SubmittedOnce label)

include kept moves

theorem Kept.flags_step (apart : load.FlagsApart label) (id : Uuid) (ranges : List FullRangeId)
    (real : (observe label load.real).find id = some ranges) :
    next.graph.state.flag id = some false := by
  have sound := kept.accounted.shaped.sound
  rcases find_observe real with before | ⟨dependencies, participants, rfl, writes, -⟩
  · exact moves.flag sound (kept.flags id ranges before)
  · have unfaked := apart rfl
    cases known : load.process.graph.state.flag id with
    | some flag =>
      cases flag with
      | true => exact absurd known unfaked
      | false => exact moves.flag sound known
    | none =>
      cases moves with
      | readOnly noWrites => cases noWrites.symm.trans writes
      | submit _ _ result => exact State.flag_enroll_self result known

theorem Kept.submitted_step (id : Uuid) (ranges : List FullRangeId)
    (real : (observe label load.real).find id = some ranges) : id ∈ next.graph.submitted := by
  rcases find_observe real with before | ⟨dependencies, participants, rfl, writes, -⟩
  · exact moves.submitted (kept.submitted id ranges before)
  · cases moves with
    | readOnly noWrites => cases noWrites.symm.trans writes
    | submit => exact Finset.mem_insert_self _ _

include once

theorem Kept.ranges_step (id : Uuid) (ranges : List FullRangeId)
    (real : (observe label load.real).find id = some ranges) :
    next.graph.state.writeRanges id = ranges := by
  rcases find_observe real with before | ⟨dependencies, participants, rfl, writes, rfl⟩
  · obtain ⟨info, found, -⟩ := Option.map_eq_some_iff.mp (kept.flags id ranges before)
    rw [moves.writeRanges once kept.accounted.shaped.sound (kept.submitted id ranges before) found]
    exact kept.ranges id ranges before
  · cases moves with
    | readOnly noWrites => cases noWrites.symm.trans writes
    | submit _ _ result =>
      have enrolled := State.enrolled result
      simp only [State.writeRanges, enrolled.found, Option.elim_some,
        TransactionInfo.writeRanges, enrolled.participants]

theorem Kept.ways_step (id : Uuid) (ranges : List FullRangeId)
    (real : (observe label load.real).find id = some ranges) (handed : id ∈ next.graph.handed)
    (range : FullRangeId) (listed : range ∈ ranges) : Way next id range := by
  have shaped := kept.accounted.shaped
  by_cases before : id ∈ load.process.graph.handed
  · have known : load.real.find id = some ranges := by
      rcases find_observe real with known | ⟨dependencies, participants, rfl, -⟩
      · exact known
      · exact absurd (shaped.sound.handed before) once.1
    refine (kept.ways id ranges known before range listed).step moves shaped ?_
    intro round txs found tx member named first front
    have flag := kept.faithful.tasks _ _ _ found tx member
    rw [named, kept.flags id ranges known] at flag
    cases fake : first.fake with
    | false => rfl
    | true =>
      have all := kept.unmixed _ _ _ found first front fake tx member
      rw [all] at flag
      cases flag
  · by_cases updates : label.updates = true
    · rcases shaped.hands moves once updates with same | ⟨txs, hands⟩
      · rw [same] at handed
        exact absurd handed before
      · rw [hands.handed, Finset.mem_union, List.mem_toFinset] at handed
        obtain ⟨tx, member, rfl⟩ := List.mem_map.mp (handed.resolve_left before)
        have entering := hands.entering
        rw [if_neg (List.ne_nil_of_mem member)] at entering
        refine .entering entering member rfl ?_ trivial
        rw [← hands.ranges tx member, kept.ranges_step moves once _ _ real]
        exact listed
    · obtain ⟨graph, -⟩ := moves.frame (Bool.eq_false_iff.mpr updates)
      rw [graph] at handed
      exact absurd handed before

theorem Kept.carry (apart : load.FlagsApart label) : Kept ⟨next, observe label load.real⟩ where
  accounted := kept.accounted.step moves once
  faithful := kept.faithful.step moves kept.accounted.shaped.sound
  unmixed := by
    refine unmixed_step moves kept.unmixed ?_
    rintro round range rfl task found
    exact apart task found
  flags := kept.flags_step moves apart
  submitted := kept.submitted_step moves
  ranges := kept.ranges_step moves once
  ways := kept.ways_step moves once

end Step

theorem Kept.step (load next : Load) (label : Label) (kept : Kept load)
    (permitted : load.SubmittedOnce label ∧ load.FlagsApart label)
    (taken : load.step label = some next) : Kept next := by
  obtain ⟨process, ran, rfl⟩ := Option.map_eq_some_iff.mp taken
  exact kept.carry (Moves.of_step ran) permitted.1 permitted.2

/-- A real transaction is reported finished after it was recorded and sent. -/
theorem finished_after_sent {load : Load}
    (reached : Reachable step
      (fun load label => load.SubmittedOnce label ∧ load.FlagsApart label) Initial load)
    {id : Uuid} {ranges : List FullRangeId} (real : load.real.find id = some ranges)
    (finished : .notified id ∈ load.process.history) {range : FullRangeId}
    (writes : range ∈ ranges) : Sent load.process.history range id := by
  have kept : Kept load :=
    reached.invariant (fun _ started => started ▸ Kept.empty) Kept.step
  have notified : 0 < load.process.notifications id := List.count_pos_iff.mpr finished
  have handed := kept.accounted.handed_of_notified notified
  exact (kept.ways id ranges real handed range writes).sent_of_notified kept.accounted notified

/-- A real transaction that is reported finished without having been recorded for
a range it writes to, and without having been sent to it. -/
def Swallowed (load : Load) (id : Uuid) (range : FullRangeId) : Prop :=
  load.real.find id = some [range] ∧ .notified id ∈ load.process.history ∧
    id ∉ idsAt .recording range load.process.history ∧
    id ∉ idsAt .issuing range load.process.history

instance (load : Load) (id : Uuid) (range : FullRangeId) :
    Decidable (load.Swallowed id range) := inferInstanceAs (Decidable (_ ∧ _ ∧ _ ∧ _))

/-- A round gives a batch back without sending it, and its transactions are notified. -/
def giveBackUnsent (round : Nat) (range : FullRangeId) : List Label :=
  .spawn round range :: List.replicate 3 (.advance round range) ++
    [.join round, .countDown round, .notify round]

/-- The fake transaction 2 mentions the real transaction 1 before it is submitted;
or a fake transaction is the first in the batch of the real transaction 2. -/
theorem real_transaction_swallowed :
    (∃ load, Reachable step SubmittedOnce Initial load ∧ load.Swallowed 1 (Process.range 1)) ∧
      ∃ load, Reachable step SubmittedOnce Initial load ∧ load.Swallowed 2 (Process.range 1) := by
  refine ⟨?_, ?_⟩
  · obtain ⟨load, reached, passed⟩ := @exists_reachable_of_run _ _ step SubmittedOnce Initial _
      empty rfl
      ([.commit 2 [1] (Graph.writer 2) true, .commit 1 [] (Graph.writer 1) false] ++
        handOver [Process.range 1] 0 ++ giveBackUnsent 0 (Process.range 1))
      (fun load => decide (load.Swallowed 1 (Process.range 1))) (by decide +kernel)
    exact ⟨load, reached, of_decide_eq_true passed⟩
  · obtain ⟨load, reached, passed⟩ := @exists_reachable_of_run _ _ step SubmittedOnce Initial _
      empty rfl
      ([.commit 1 [] (Graph.writer 1) true] ++ handOver [Process.range 1] 0 ++
        [.commit 2 [] (Graph.writer 1) false, .readRanges, .countPending,
          .extend (Process.range 1), .markNonEmpty 1] ++ giveBackUnsent 0 (Process.range 1))
      (fun load => decide (load.Swallowed 2 (Process.range 1))) (by decide +kernel)
    exact ⟨load, reached, of_decide_eq_true passed⟩

/-- A fake transaction waits for a real one. -/
theorem finished_after_sent_awaited : ∃ load : Load,
    Reachable step (fun load label => load.SubmittedOnce label ∧ load.FlagsApart label) Initial
      load ∧ load.real.find 1 = some [Process.range 1] ∧ .notified 1 ∈ load.process.history ∧
      Sent load.process.history (Process.range 1) 1 := by
  obtain ⟨load, reached, passed⟩ := @exists_reachable_of_run _ _ step
    (fun load label => load.SubmittedOnce label ∧ load.FlagsApart label) Initial _ empty rfl
    ([.commit 1 [] (Graph.writer 1) false] ++ handOver [Process.range 1] 0 ++
      [.commit 2 [1] (Graph.writer 1) true] ++ commitRange 0 (Process.range 1) ++
      [.join 0, .countDown 0, .notify 0])
    (fun load => decide (load.real.find 1 = some [Process.range 1] ∧
      .notified 1 ∈ load.process.history)) (by decide +kernel)
  obtain ⟨real, finished⟩ := of_decide_eq_true passed
  exact ⟨load, reached, real, finished,
    finished_after_sent reached real finished (List.mem_singleton_self _)⟩

end Load

end Sangria.Resolver
