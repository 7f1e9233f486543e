import Sangria.Resolver.Process

/-!
# What a step of the resolver process can do

`Moves` lists the effects of the step function, one constructor for each
outcome, with the state before it taken apart.  Invariants are proved by cases
on it.
-/

namespace Sangria.Resolver

open TransitionSystem Release

namespace Process

variable {process next : Process}

inductive Moves : Process → Label → Process → Prop where
  | readOnly {process transactionId dependencies participants fake} :
      readOnly participants = true →
      Moves process (.commit transactionId dependencies participants fake) process
  | submit {process transactionId dependencies participants fake state info} :
      readOnly participants = false →
      process.adding = none →
      process.graph.state.enroll transactionId dependencies participants fake = (state, info) →
      Moves process (.commit transactionId dependencies participants fake)
        { process with
          graph :=
            { state := state
              submitted := insert transactionId process.graph.submitted
              handed := if info.numDependencies = 0 then
                insert transactionId process.graph.handed else process.graph.handed }
          waitingTransactions := insert transactionId process.waitingTransactions
          adding := if info.numDependencies = 0 then some ⟨[info], .reading⟩ else none
          dependencies := process.dependencies.insert transactionId dependencies }
  | drop {process transactionId} :
      Moves process (.drop transactionId)
        { process with
          droppedReceivers := insert transactionId process.droppedReceivers }
  | recordDirectly {process transactionId} :
      Moves process (.recordDirectly transactionId)
        (process.log [.recordedDirectly transactionId])
  | registerExternal {process transactionIds order state ready} :
      process.adding = none →
      process.graph.state.registerCommittedTransactions order transactionIds =
        some (state, ready) →
      Moves process (.registerExternal transactionIds order)
        { process with
          graph := { process.graph with
            state := state
            handed := process.graph.handed ∪ (ready.map (·.id)).toFinset }
          adding := if ready = [] then none else some ⟨ready, .reading⟩
          external := process.external ∪ transactionIds.toFinset }
  | register {process transactionIds order state ready} :
      transactionIds ∈ process.registers →
      process.adding = none →
      process.graph.state.registerCommittedTransactions order transactionIds =
        some (state, ready) →
      Moves process (.register transactionIds order)
        { process with
          graph := { process.graph with
            state := state
            handed := process.graph.handed ∪ (ready.map (·.id)).toFinset }
          adding := if ready = [] then none else some ⟨ready, .reading⟩
          registers := process.registers.erase transactionIds }
  | readRanges {process transactions} :
      process.adding = some ⟨transactions, .reading⟩ →
      Moves process .readRanges
        (process.setAdding ⟨transactions,
          if process.group.missingRanges (tmpRanges transactions) = [] then .counting
          else .inserting (process.group.missingRanges (tmpRanges transactions))⟩)
  | insertRanges {process transactions missing} :
      process.adding = some ⟨transactions, .inserting missing⟩ →
      Moves process .insertRanges
        { process with
          group := process.group.insertRanges missing
          adding := some ⟨transactions, .counting⟩ }
  | countPending {process transactions} :
      process.adding = some ⟨transactions, .counting⟩ →
      Moves process .countPending
        { process with
          group := process.group.countPending transactions
          adding := some ⟨transactions, .extending (tmpRanges transactions)⟩ }
  | extend {process transactions remaining range} :
      process.adding = some ⟨transactions, .extending remaining⟩ →
      range ∈ remaining → range ∉ process.locked →
      Moves process (.extend range)
        { process with
          group := process.group.extend range (tmpGroup transactions range)
          adding := some ⟨transactions, .extending (remaining.erase range)⟩ }
  | markNonEmpty {process transactions round} :
      process.adding = some ⟨transactions, .extending []⟩ →
      process.rounds.find round = none →
      Moves process (.markNonEmpty round)
        ({ process with
          group := process.group.markNonEmpty (tmpRanges transactions)
          adding := none }.setRound round .started)
  | snapshot {process round} :
      process.rounds.find round = some .started →
      Moves process (.snapshot round)
        (process.setRound round (.spawning process.group.nonEmptyGroups ∅))
  | spawn {process round range remaining spawned} :
      process.rounds.find round = some (.spawning remaining spawned) →
      range ∈ remaining →
      Moves process (.spawn round range)
        ((process.setRound round
          (.spawning (remaining.erase range) (insert range spawned))).setTask (round, range)
            ⟨.taking, []⟩)
  | join {process round spawned} :
      process.rounds.find round = some (.spawning ∅ spawned) →
      (∀ range ∈ spawned, process.tasks.find (round, range) = none) →
      Moves process (.join round)
        ({ process with group := process.group.takeReturned }.setRound round
          (.collected process.group.returnedTransactions))
  | countDown {process round transactions pending finished} :
      process.rounds.find round = some (.collected transactions) →
      GroupCommit.countDown process.group.numPendingParticipantCommitsPerTransaction
        transactions = (pending, some finished) →
      Moves process (.countDown round)
        ({ process with
          group := { process.group with
            numPendingParticipantCommitsPerTransaction := pending } }.setRound round
              (.notifying finished))
  | miscount {process round transactions pending} :
      process.rounds.find round = some (.collected transactions) →
      GroupCommit.countDown process.group.numPendingParticipantCommitsPerTransaction
        transactions = (pending, none) →
      Moves process (.countDown round)
        ({ process with
          group := { process.group with
            numPendingParticipantCommitsPerTransaction := pending } }.endRound round)
  | notify {process round finished left notified completed} :
      process.rounds.find round = some (.notifying finished) →
      notifyAll process.waitingTransactions process.droppedReceivers finished =
        (left, notified, completed) →
      Moves process (.notify round)
        (({ process with
          waitingTransactions := left
          registers := if completed ∧ finished ≠ [] then
            process.registers ++ [finished.map TransactionInfo.id]
            else process.registers }.endRound round).log (notified.map .notified))
  | take {process round range transactions} :
      process.tasks.find (round, range) = some ⟨.taking, transactions⟩ →
      range ∉ process.locked →
      Moves process (.advance round range)
        ({ process with
          group := process.group.clearGroup range
          locked := insert range process.locked }.setTask (round, range)
            ⟨.unmarking, process.group.groupOf range⟩)
  | unmark {process round range transactions} :
      process.tasks.find (round, range) = some ⟨.unmarking, transactions⟩ →
      Moves process (.advance round range)
        { process with
          group := process.group.unmark range
          locked := process.locked.erase range
          tasks := afterUnmarking process.tasks (round, range) transactions }
  | record {process round range transactions} :
      process.tasks.find (round, range) = some ⟨.recording, transactions⟩ →
      Moves process (.advance round range)
        ((process.setTask (round, range) ⟨.issuing, transactions⟩).log
          [.recorded range (transactions.map (·.id))])
  | issue {process round range transactions} :
      process.tasks.find (round, range) = some ⟨.issuing, transactions⟩ →
      Moves process (.advance round range)
        ((process.setTask (round, range) ⟨.applying, transactions⟩).log
          [.issued range (transactions.map (·.id))])
  | apply {process round range transactions} :
      process.tasks.find (round, range) = some ⟨.applying, transactions⟩ →
      Moves process (.advance round range)
        ((process.setTask (round, range) ⟨.completing, transactions⟩).log
          [.applied range (transactions.map (·.id))])
  | complete {process round range transactions} :
      process.tasks.find (round, range) = some ⟨.completing, transactions⟩ →
      Moves process (.advance round range)
        ((process.setTask (round, range) ⟨.returning, transactions⟩).log
          [.completed range (transactions.map (·.id))])
  | giveBack {process round range transactions} :
      process.tasks.find (round, range) = some ⟨.returning, transactions⟩ →
      Moves process (.advance round range)
        ({ process with group := process.group.giveBack transactions }.endTask (round, range))
  | fail {process round range stage transactions effective events} :
      process.tasks.find (round, range) = some ⟨stage, transactions⟩ →
      stage = .recording ∨ stage = .applying ∨ stage = .completing →
      (events = [] ∨
        (stage = .recording ∧ effective = true) ∧
          events = [.recorded range (transactions.map (·.id))]) →
      Moves process (.fail round range effective)
        (({ process with lost := process.lost ++ transactions }.endTask (round, range)).log
          events)

theorem Moves.of_registerCommitted {transactionIds : List Uuid} {order : IterationOrder}
    (taken : process.registerCommitted transactionIds order = some next) :
    ∃ state ready, process.adding = none ∧
      process.graph.state.registerCommittedTransactions order transactionIds =
        some (state, ready) ∧
      next = { process with
        graph := { process.graph with
          state := state
          handed := process.graph.handed ∪ (ready.map (·.id)).toFinset }
        adding := if ready = [] then none else some ⟨ready, .reading⟩ } := by
  simp only [registerCommitted] at taken
  split at taken
  next free =>
    split at taken
    next => simp at taken
    next state ready res =>
      cases taken
      exact ⟨state, ready, free, res, rfl⟩
  next => simp at taken

theorem Moves.of_advance {round : Nat} {range : FullRangeId}
    (taken : process.advance round range = some next) :
    Moves process (.advance round range) next := by
  simp only [advance] at taken
  split at taken
  next => simp at taken
  next stage _ found =>
    cases stage with
    | taking =>
      simp only at taken
      split at taken
      next => simp at taken
      next free =>
        cases taken
        exact .take found free
    | unmarking =>
      cases taken
      exact .unmark found
    | recording =>
      cases taken
      exact .record found
    | issuing =>
      cases taken
      exact .issue found
    | applying =>
      cases taken
      exact .apply found
    | completing =>
      cases taken
      exact .complete found
    | returning =>
      cases taken
      exact .giveBack found

theorem log_nil (process : Process) : process.log [] = process := by
  simp [log]

theorem Moves.of_fail {round : Nat} {range : FullRangeId} {effective : Bool}
    (taken : process.fail round range effective = some next) :
    Moves process (.fail round range effective) next := by
  simp only [Process.fail] at taken
  split at taken
  next => simp at taken
  next stage txs found =>
    cases stage with
    | recording =>
      cases effective with
      | false =>
        cases taken
        have moved := @Moves.fail process round range .recording txs false []
          found (.inl rfl) (.inl rfl)
        rwa [log_nil] at moved
      | true =>
        cases taken
        exact .fail found (.inl rfl) (.inr ⟨⟨rfl, rfl⟩, rfl⟩)
    | applying =>
      cases taken
      have moved := @Moves.fail process round range .applying txs effective []
        found (.inr (.inl rfl)) (.inl rfl)
      rwa [log_nil] at moved
    | completing =>
      cases taken
      have moved := @Moves.fail process round range .completing txs effective []
        found (.inr (.inr rfl)) (.inl rfl)
      rwa [log_nil] at moved
    | taking | unmarking | issuing | returning => simp at taken

theorem Moves.of_step {label : Label} (taken : step process label = some next) :
    Moves process label next := by
  cases label with
  | commit =>
    simp only [step, commit] at taken
    split at taken
    next noWrites =>
      cases taken
      exact .readOnly noWrites
    next writes =>
      split at taken
      next free =>
        cases taken
        exact .submit (by simpa using writes) free rfl
      next => simp at taken
  | drop =>
    cases taken
    exact .drop
  | recordDirectly =>
    cases taken
    exact .recordDirectly
  | registerExternal =>
    obtain ⟨state, ready, free, res, rfl⟩ := Moves.of_registerCommitted taken
    exact .registerExternal free res
  | register =>
    simp only [step] at taken
    split at taken
    next listed =>
      obtain ⟨state, ready, free, res, rfl⟩ := Moves.of_registerCommitted taken
      exact .register listed free res
    next => simp at taken
  | readRanges =>
    simp only [step, Process.readRanges] at taken
    split at taken
    next adding =>
      cases taken
      exact .readRanges adding
    next => simp at taken
  | insertRanges =>
    simp only [step, Process.insertRanges] at taken
    split at taken
    next adding =>
      cases taken
      exact .insertRanges adding
    next => simp at taken
  | countPending =>
    simp only [step, Process.countPending] at taken
    split at taken
    next adding =>
      cases taken
      exact .countPending adding
    next => simp at taken
  | extend =>
    simp only [step, Process.extend] at taken
    split at taken
    next adding =>
      split at taken
      next free =>
        cases taken
        exact .extend adding free.1 free.2
      next => simp at taken
    next => simp at taken
  | markNonEmpty =>
    simp only [step, Process.markNonEmpty] at taken
    split at taken
    next adding =>
      split at taken
      next unused =>
        cases taken
        exact .markNonEmpty adding unused
      next => simp at taken
    next => simp at taken
  | snapshot =>
    simp only [step, Process.snapshot] at taken
    split at taken
    next found =>
      cases taken
      exact .snapshot found
    next => simp at taken
  | spawn =>
    simp only [step, Process.spawn] at taken
    split at taken
    next found =>
      split at taken
      next listed =>
        cases taken
        exact .spawn found listed.1
      next => simp at taken
    next => simp at taken
  | join =>
    simp only [step, Process.join] at taken
    split at taken
    next found =>
      split at taken
      next ended =>
        cases taken
        obtain ⟨rfl, ended⟩ := ended
        exact .join found ended
      next => simp at taken
    next => simp at taken
  | countDown =>
    simp only [step, Process.countDown] at taken
    split at taken
    next found =>
      split at taken
      next res =>
        cases taken
        exact .countDown found (Prod.ext rfl res)
      next res =>
        cases taken
        exact .miscount found (Prod.ext rfl res)
    next => simp at taken
  | notify =>
    simp only [step, Process.notify] at taken
    split at taken
    next found =>
      cases taken
      exact .notify found rfl
    next => simp at taken
  | advance => exact .of_advance taken
  | fail => exact .of_fail taken

/-! ## Frames -/

def Label.updates : Label → Bool
  | .commit .. | .registerExternal .. | .register .. => true
  | _ => false

/-- All other steps leave the graph and the submissions alone, and do not start
a call of `add_transactions`. -/
theorem Moves.frame {label : Label} (moves : Moves process label next)
    (other : label.updates = false) :
    next.graph = process.graph ∧ next.dependencies = process.dependencies ∧
      next.external = process.external ∧ (process.adding = none → next.adding = none) := by
  cases moves with
  | readOnly | submit | registerExternal | register => simp [Label.updates] at other
  | readRanges adding | insertRanges adding | countPending adding | extend adding =>
    exact ⟨rfl, rfl, rfl, fun free => absurd (free.symm.trans adding) (by simp)⟩
  | markNonEmpty => exact ⟨rfl, rfl, rfl, fun _ => rfl⟩
  | _ => exact ⟨rfl, rfl, rfl, fun free => free⟩

def Emits (process : Process) : Event → Prop
  | .recorded range ids => ∃ round transactions,
      process.tasks.find (round, range) = some ⟨.recording, transactions⟩ ∧
        ids = transactions.map (·.id)
  | .issued range ids => ∃ round transactions,
      process.tasks.find (round, range) = some ⟨.issuing, transactions⟩ ∧
        ids = transactions.map (·.id)
  | .applied range ids => ∃ round transactions,
      process.tasks.find (round, range) = some ⟨.applying, transactions⟩ ∧
        ids = transactions.map (·.id)
  | .completed range ids => ∃ round transactions,
      process.tasks.find (round, range) = some ⟨.completing, transactions⟩ ∧
        ids = transactions.map (·.id)
  | .recordedDirectly _ | .notified _ => True

theorem Moves.events {label : Label} (moves : Moves process label next) :
    ∃ events, next.history = process.history ++ events ∧
      ((∃ event, events = [event] ∧ process.Emits event) ∨
        ∀ event ∈ events, ∃ id, event = .notified id) := by
  have silent : process.history = process.history ++ [] := (List.append_nil _).symm
  cases moves with
  | recordDirectly => exact ⟨_, rfl, .inl ⟨_, rfl, trivial⟩⟩
  | notify => exact ⟨_, rfl, .inr (by simp)⟩
  | @record round range txs found =>
    exact ⟨_, rfl, .inl ⟨_, rfl, round, txs, found, rfl⟩⟩
  | @issue round range txs found =>
    exact ⟨_, rfl, .inl ⟨_, rfl, round, txs, found, rfl⟩⟩
  | @apply round range txs found =>
    exact ⟨_, rfl, .inl ⟨_, rfl, round, txs, found, rfl⟩⟩
  | @complete round range txs found =>
    exact ⟨_, rfl, .inl ⟨_, rfl, round, txs, found, rfl⟩⟩
  | @fail round range stage txs effective events found stage' logged =>
    refine ⟨events, rfl, ?_⟩
    rcases logged with rfl | ⟨⟨rfl, -⟩, rfl⟩
    · exact .inr (by simp)
    · exact .inl ⟨_, rfl, round, txs, found, rfl⟩
  | _ => exact ⟨[], silent, .inr (by simp)⟩

/-! ## The graph of the process -/

def SubmittedOnce (process : Process) : Label → Prop
  | .commit transactionId dependencies _ _ =>
    transactionId ∉ process.graph.submitted ∧ dependencies.Nodup
  | _ => True

instance (process : Process) (label : Label) : Decidable (SubmittedOnce process label) :=
  match label with
  | .commit .. => inferInstanceAs (Decidable (_ ∧ _))
  | .drop .. | .recordDirectly .. | .registerExternal .. | .register .. | .readRanges
  | .insertRanges | .countPending | .extend .. | .markNonEmpty .. | .snapshot .. | .spawn ..
  | .join .. | .countDown .. | .notify .. | .advance .. | .fail .. => isTrue trivial

/-- What the callers promise: an id is submitted once and does not depend on
itself, and a coordinator registers what it recorded as committed itself, which
is never submitted. -/
def Honest (process : Process) : Label → Prop
  | .commit transactionId dependencies _ _ =>
    transactionId ∉ process.graph.submitted ∧ dependencies.Nodup ∧
      transactionId ∉ dependencies ∧ transactionId ∉ process.external
  | .registerExternal transactionIds _ => ∀ id ∈ transactionIds,
      .recordedDirectly id ∈ process.history ∧ id ∉ process.graph.submitted
  | _ => True

instance (process : Process) (label : Label) : Decidable (Honest process label) :=
  match label with
  | .commit .. => inferInstanceAs (Decidable (_ ∧ _ ∧ _ ∧ _))
  | .registerExternal .. => inferInstanceAs (Decidable (∀ id ∈ _, _ ∧ _))
  | .drop .. | .recordDirectly .. | .register .. | .readRanges | .insertRanges
  | .countPending | .extend .. | .markNonEmpty .. | .snapshot .. | .spawn .. | .join ..
  | .countDown .. | .notify .. | .advance .. | .fail .. => isTrue trivial

/-- What the bookkeeping relies on, whatever a transaction depends on. -/
def Consistent (process : Process) : Label → Prop
  | .commit transactionId dependencies _ _ =>
    transactionId ∉ process.graph.submitted ∧ dependencies.Nodup ∧
      transactionId ∉ process.external
  | .registerExternal transactionIds _ => ∀ id ∈ transactionIds,
      .recordedDirectly id ∈ process.history ∧ id ∉ process.graph.submitted
  | _ => True

theorem Honest.consistent {label : Label} (honest : Honest process label) :
    Consistent process label := by
  cases label with
  | commit => exact ⟨honest.1, honest.2.1, honest.2.2.2⟩
  | registerExternal => exact honest
  | _ => trivial

theorem Consistent.submittedOnce {label : Label} (consistent : Consistent process label) :
    SubmittedOnce process label := by
  cases label with
  | commit => exact ⟨consistent.1, consistent.2.1⟩
  | _ => trivial

def Initial (process : Process) : Prop := process = empty

/-- The graph of the process makes the moves of the graph alone. -/
theorem Moves.graph {label : Label} (moves : Moves process label next)
    (once : SubmittedOnce process label) :
    next.graph = process.graph ∨ ∃ graphLabel,
      Graph.SubmittedOnce process.graph graphLabel ∧
        Graph.step process.graph graphLabel = some next.graph := by
  cases moves with
  | @submit id deps participants fake state info writes free res =>
    refine .inr ⟨.commit id deps participants fake, once, ?_⟩
    simp only [Graph.step, writes, res, Bool.false_eq_true, if_false]
  | @registerExternal ids order state ready free res =>
    exact .inr ⟨.register ids order, trivial, by simp only [Graph.step, res]⟩
  | @register ids order state ready listed free res =>
    exact .inr ⟨.register ids order, trivial, by simp only [Graph.step, res]⟩
  | _ => exact .inl rfl

theorem Moves.sound {label : Label} (moves : Moves process label next)
    (once : SubmittedOnce process label) (sound : process.graph.Sound) : next.graph.Sound := by
  rcases moves.graph once with same | ⟨graphLabel, once', taken⟩
  · rw [same]
    exact sound
  · cases graphLabel with
    | commit => exact sound.commit once' taken
    | register => exact sound.register taken

/-! ## Schedules -/

def range (number : Nat) : FullRangeId := ⟨⟨0⟩, BitVec.ofNat 128 number⟩

/-- One call of `add_transactions` that extends the given ranges, new ones, and
the snapshot of the round that it triggers. -/
def handOver (ranges : List FullRangeId) (round : Nat) : List Label :=
  [.readRanges, .insertRanges, .countPending] ++ ranges.map .extend ++
    [.markNonEmpty round, .snapshot round]

/-- Transaction 3 waits for 2, which waits for 1; a coordinator commits 1. -/
def chain (second third : Nat) : List Label :=
  [.commit 2 [1] (Graph.writer second) false, .commit 3 [2] (Graph.writer third) false,
    .recordDirectly 1, .registerExternal [1] .ascending]

def commitRange (round : Nat) (range : FullRangeId) : List Label :=
  .spawn round range :: List.replicate 7 (.advance round range)

end Process

end Sangria.Resolver
