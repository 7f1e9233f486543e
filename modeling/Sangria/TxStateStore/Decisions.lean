import Sangria.Lib.TransitionSystem
import Sangria.TxStateStore.Cassandra

/-!
# When decisions of the transaction state store are irrevocable

The commit statement carries no condition, so the store keeps the first
decision for an id only while callers commit started transactions (or repeat a
commit with its epoch) and do not start an id that was already presumed
aborted.  `Disciplined` is that condition, statement by statement; `Agreement`
is the invariant that ties rows, answers and first decisions together under it.
-/

namespace Sangria.TxStateStore

open FiniteMap
open TransitionSystem

variable {pick : Uuid}
variable {store next : Store} {transactionId other : Uuid} {epoch : UInt64} {outcome : OpResult}
  {client : Nat} {call : Call}

/-- What a decided transaction looks like in the table: a presumed abort may
have no row at all. -/
def Recorded (row : Option Row) : OpResult → Prop
  | .transactionIsAborted => ∀ present, row = some present → present.status = .aborted
  | .transactionIsCommitted info => row = some ⟨.committed, some info.epoch.toInt64⟩

/-- The recorded status and epoch and every answer agree with the first
decision taken for the id. -/
def Irrevocable (store : Store) : Prop :=
  (∀ transactionId outcome, store.outcomes.find transactionId = some outcome →
    Recorded (store.rows.find transactionId) outcome) ∧
  ∀ transactionId answer, (transactionId, answer) ∈ store.answers →
    store.outcomes.find transactionId = some answer

/-- A step leaves the row and the outcome of every decided id as they are. -/
def Keeps (store next : Store) : Prop :=
  ∀ transactionId outcome, store.outcomes.find transactionId = some outcome →
    next.rows.find transactionId = store.rows.find transactionId ∧
      next.outcomes.find transactionId = some outcome

def Row.Valid (row : Row) : Prop := row.status = .committed → row.epoch ≠ none

/-- Any table that the operations may find, with nothing in flight. -/
def Initial (store : Store) : Prop :=
  store.calls = ∅ ∧ store.answers = [] ∧
    (∀ transactionId row, store.rows.find transactionId = some row → row.Valid) ∧
    ∀ transactionId, store.outcomes.find transactionId =
      (store.rows.find transactionId).bind Row.outcome

/-- A commit statement finds its row started, or committed with this epoch. -/
def CommitFinds (rows : Transactions) (transactionId : Uuid) (epoch : UInt64) : Prop :=
  match rows.find transactionId with
  | none => False
  | some row => row.status = .started ∨ row = ⟨.committed, some epoch.toInt64⟩

instance (rows : Transactions) (transactionId : Uuid) (epoch : UInt64) :
    Decidable (CommitFinds rows transactionId epoch) := by
  unfold CommitFinds
  split <;> infer_instance

/-- A start finds a row, or an id for which no abort has been answered or is
waiting for its lookup. -/
def StartFinds (store : Store) (transactionId : Uuid) : Prop :=
  transactionId ∈ store.rows ∨
    (transactionId ∉ store.outcomes ∧
      ∀ client ∈ store.calls.keys,
        store.calls.find client ≠ some (.abortLookup transactionId))

instance (store : Store) (transactionId : Uuid) : Decidable (StartFinds store transactionId) :=
  inferInstanceAs (Decidable (_ ∨ _))

def Disciplined (store : Store) : Label → Prop
  | .invoke _ _ => True
  | .execute client pick =>
    match store.calls.find client with
    | some (.start transactionId) => StartFinds store transactionId
    | some (.commit transactionId epoch) => CommitFinds store.rows transactionId epoch
    | some (.batchCommit _ remaining epoch) =>
      pick ∈ remaining → CommitFinds store.rows pick epoch
    | _ => True

instance (store : Store) (label : Label) : Decidable (Disciplined store label) := by
  unfold Disciplined
  split
  · infer_instance
  · split <;> infer_instance

/-! ## The invariant -/

/-- A row carries its own decision; an id without a row is undecided or
presumed aborted. -/
def Agrees : Option Row → Option OpResult → Prop
  | none, outcome => outcome = none ∨ outcome = some .transactionIsAborted
  | some row, outcome => row.Valid ∧ outcome = row.outcome

structure Agreement (store : Store) : Prop where
  rows : ∀ transactionId,
    Agrees (store.rows.find transactionId) (store.outcomes.find transactionId)
  answers : ∀ transactionId answer, (transactionId, answer) ∈ store.answers →
    store.outcomes.find transactionId = some answer
  lookups : ∀ client transactionId,
    store.calls.find client = some (.abortLookup transactionId) →
    ∀ row, store.rows.find transactionId = some row → row.status = .committed
  batches : ∀ client transactionIds remaining epoch,
    store.calls.find client = some (.batchCommit transactionIds remaining epoch) →
    ∀ transactionId ∈ transactionIds, transactionId ∈ remaining ∨
      store.outcomes.find transactionId = some (.transactionIsCommitted ⟨epoch⟩)

theorem Agrees.recorded {row : Option Row}
    (agrees : Agrees row (some outcome)) : Recorded row outcome := by
  cases row with
  | none =>
    rcases agrees with undecided | presumed
    · simp at undecided
    · cases presumed
      simp [Recorded]
  | some row =>
    obtain ⟨valid, decided⟩ := agrees
    obtain ⟨status, epoch⟩ := row
    cases status with
    | started => simp [Row.outcome] at decided
    | aborted =>
      simp only [Row.outcome, Option.some.injEq] at decided
      subst decided
      simp [Recorded]
    | committed =>
      cases epoch with
      | none => exact absurd rfl (valid rfl)
      | some =>
        simp only [Row.outcome, Option.some.injEq] at decided
        subst decided
        simp [Recorded]

theorem Agreement.irrevocable (agreement : Agreement store) : Irrevocable store := by
  refine ⟨?_, agreement.answers⟩
  intro transactionId outcome decided
  have agrees := agreement.rows transactionId
  rw [decided] at agrees
  exact agrees.recorded

theorem Agreement.of_initial (initial : Initial store) : Agreement store := by
  obtain ⟨noCalls, noAnswers, valid, observed⟩ := initial
  constructor
  · intro transactionId
    rw [observed transactionId]
    cases found : store.rows.find transactionId with
    | none => exact .inl rfl
    | some => exact ⟨valid _ _ found, rfl⟩
  · simp [noAnswers]
  · simp [noCalls]
  · simp [noCalls]

/-! ## What the statements do -/

theorem find_observe (outcomes : HashMap Uuid OpResult) (transactionId other : Uuid)
    (decision : OpResult) :
    (observe outcomes transactionId decision).find other =
      if other = transactionId then some ((outcomes.find transactionId).getD decision)
      else outcomes.find other := by
  unfold observe
  split
  next present =>
    obtain ⟨outcome, found⟩ := mem_iff.mp present
    split
    next same => simp [same, found]
    next => rfl
  next absent =>
    rw [find_insert, find_eq_none.mpr absent]
    rfl

theorem observe_keeps {outcomes : HashMap Uuid OpResult} {decision : OpResult}
    (decided : outcomes.find other = some outcome) :
    (observe outcomes transactionId decision).find other = some outcome := by
  rw [find_observe]
  split
  next same =>
    subst same
    simp [decided]
  next => exact decided

theorem commitStatement_decides (agrees : Agrees (store.rows.find transactionId)
      (store.outcomes.find transactionId))
    (finds : CommitFinds store.rows transactionId epoch) :
    (store.commitStatement transactionId epoch).outcomes.find transactionId =
      some (.transactionIsCommitted ⟨epoch⟩) := by
  simp only [Store.commitStatement, find_observe, if_true, commitDecision]
  unfold CommitFinds at finds
  cases found : store.rows.find transactionId with
  | none => simp [found] at finds
  | some row =>
    rw [found] at finds agrees
    rcases finds with started | committed
    · have undecided : store.outcomes.find transactionId = none := by
        rw [agrees.2]
        obtain ⟨status, epoch⟩ := row
        simp only at started
        subst started
        rfl
      simp [undecided, started]
    · rw [agrees.2]
      subst committed
      simp [Row.outcome]

theorem commitStatement_rows (store : Store) (transactionId other : Uuid) (epoch : UInt64) :
    (store.commitStatement transactionId epoch).rows.find other =
      if other = transactionId then some ⟨.committed, some epoch.toInt64⟩
      else store.rows.find other := by
  simp only [Store.commitStatement, commitTransactionQuery, find_insert]

theorem commitStatement_agrees
    (agrees : ∀ other, Agrees (store.rows.find other) (store.outcomes.find other))
    (finds : CommitFinds store.rows transactionId epoch) (other : Uuid) :
    Agrees ((store.commitStatement transactionId epoch).rows.find other)
      ((store.commitStatement transactionId epoch).outcomes.find other) := by
  by_cases same : other = transactionId
  · subst same
    rw [commitStatement_decides (agrees other) finds, commitStatement_rows, if_pos rfl]
    exact ⟨by simp [Row.Valid], by simp [Row.outcome]⟩
  · have unchanged : (store.commitStatement transactionId epoch).outcomes.find other =
        store.outcomes.find other := by
      simp [Store.commitStatement, find_observe, same]
    rw [commitStatement_rows, if_neg same, unchanged]
    exact agrees other

theorem commitStatement_keeps
    (agrees : ∀ other, Agrees (store.rows.find other) (store.outcomes.find other))
    (finds : CommitFinds store.rows transactionId epoch) :
    Keeps store (store.commitStatement transactionId epoch) := by
  intro other outcome decided
  refine ⟨?_, observe_keeps decided⟩
  rw [commitStatement_rows]
  split
  next same =>
    subst same
    have agreesHere := agrees other
    unfold CommitFinds at finds
    cases found : store.rows.find other with
    | none => simp [found] at finds
    | some row =>
      rw [found] at finds agreesHere
      rcases finds with started | committed
      · obtain ⟨status, epoch⟩ := row
        simp only at started
        subst started
        have undecided := agreesHere.2
        rw [decided] at undecided
        simp [Row.outcome] at undecided
      · rw [committed]
  next => rfl

theorem start_agrees (agrees : ∀ other, Agrees (store.rows.find other) (store.outcomes.find other))
    (finds : StartFinds store transactionId) (other : Uuid) :
    Agrees ((startTransactionQuery store.rows transactionId).find other)
      (store.outcomes.find other) := by
  unfold startTransactionQuery
  split
  next => exact agrees other
  next absent =>
    rw [find_insert]
    split
    next same =>
      subst same
      have undecided := (finds.resolve_left absent).1
      exact ⟨by simp [Row.Valid], by simp [find_eq_none.mpr undecided, Row.outcome]⟩
    next => exact agrees other

theorem start_keeps (finds : StartFinds store transactionId)
    (decided : store.outcomes.find other = some outcome) :
    (startTransactionQuery store.rows transactionId).find other = store.rows.find other := by
  unfold startTransactionQuery
  split
  next => rfl
  next absent =>
    rw [find_insert]
    split
    next same =>
      subst same
      have undecided := (finds.resolve_left absent).1
      exact absurd (mem_iff.mpr ⟨outcome, decided⟩) undecided
    next => rfl

theorem abortTransactionQuery_cases (rows : Transactions) (transactionId : Uuid) :
    (∃ row, rows.find transactionId = some row ∧
        (row.status = .started ∨ row.status = .aborted) ∧
        abortTransactionQuery rows transactionId =
          (rows.insert transactionId { row with status := .aborted }, true)) ∨
      ((∀ row, rows.find transactionId = some row → row.status = .committed) ∧
        abortTransactionQuery rows transactionId = (rows, false)) := by
  unfold abortTransactionQuery
  cases found : rows.find transactionId with
  | none => exact .inr ⟨by simp, rfl⟩
  | some row =>
    by_cases applies : row.status = .started ∨ row.status = .aborted
    · exact .inl ⟨row, rfl, applies, by simp [applies]⟩
    · refine .inr ⟨?_, by simp [applies]⟩
      intro present same
      cases same
      cases status : row.status <;> simp_all

theorem maybeGetCommitEpoch_of_agrees {rows : Transactions} {outcome : Option OpResult}
    (agrees : Agrees (rows.find transactionId) outcome)
    (settled : ∀ row, rows.find transactionId = some row → row.status = .committed) :
    maybeGetCommitEpoch rows transactionId =
      some (outcome.getD .transactionIsAborted) := by
  unfold maybeGetCommitEpoch getCommitEpochQuery
  cases found : rows.find transactionId with
  | none =>
    rw [found] at agrees
    rcases agrees with undecided | presumed
    · simp [undecided]
    · simp [presumed]
  | some row =>
    rw [found] at agrees
    have committed := settled row found
    obtain ⟨status, epoch⟩ := row
    simp only at committed
    subst committed
    cases epoch with
    | none => exact absurd rfl (agrees.1 rfl)
    | some => simp [agrees.2, Row.outcome]

/-! ## Every disciplined step keeps the invariant -/

theorem find_calls_finish {other : Nat}
    (found : (store.finish client).calls.find other = some call) :
    store.calls.find other = some call := by
  simp only [Store.finish, find_erase] at found
  split at found
  next => simp at found
  next => exact found

theorem find_calls_become {other : Nat} {became : Call}
    (found : (store.become client became).calls.find other = some call) :
    call = became ∨ store.calls.find other = some call := by
  simp only [Store.become, find_insert] at found
  split at found
  next => exact .inl (Option.some.inj found).symm
  next => exact .inr found

/-- Rebuild the invariant after a statement: the calls still in flight were
there before, or are the one that has just moved on. -/
theorem Agreement.after (agreement : Agreement store) (keeps : Keeps store next)
    (rows : ∀ transactionId,
      Agrees (next.rows.find transactionId) (next.outcomes.find transactionId))
    (answers : ∀ transactionId answer, (transactionId, answer) ∈ next.answers →
      (transactionId, answer) ∈ store.answers ∨
        next.outcomes.find transactionId = some answer)
    (settles : ∀ client transactionId,
      store.calls.find client = some (.abortLookup transactionId) →
      ∀ row, next.rows.find transactionId = some row →
        store.rows.find transactionId = some row ∨ row.status = .committed)
    (calls : ∀ client call, next.calls.find client = some call →
      store.calls.find client = some call ∨
        match call with
        | .abortLookup transactionId =>
          ∀ row, next.rows.find transactionId = some row → row.status = .committed
        | .batchCommit transactionIds remaining epoch =>
          ∀ transactionId ∈ transactionIds, transactionId ∈ remaining ∨
            next.outcomes.find transactionId = some (.transactionIsCommitted ⟨epoch⟩)
        | _ => True) :
    Agreement next := by
  refine ⟨rows, ?_, ?_, ?_⟩
  · intro transactionId answer mem
    rcases answers _ _ mem with before | decided
    · exact (keeps _ _ (agreement.answers _ _ before)).2
    · exact decided
  · intro client transactionId found row present
    rcases calls _ _ found with before | moved
    · rcases settles _ _ before _ present with unchanged | committed
      · exact agreement.lookups _ _ before _ unchanged
      · exact committed
    · exact moved _ present
  · intro client transactionIds remaining epoch found transactionId mem
    rcases calls _ _ found with before | moved
    · rcases agreement.batches _ _ _ _ before _ mem with waiting | decided
      · exact .inl waiting
      · exact .inr (keeps _ _ decided).2
    · exact moved _ mem

theorem Agreement.invoke (agreement : Agreement store) (client : Nat)
    (operation : Operation) : Agreement (store.become client operation.call) := by
  apply agreement.after
  · intro transactionId outcome decided
    exact ⟨rfl, decided⟩
  · exact agreement.rows
  · intro transactionId answer mem
    exact .inl mem
  · intro _ transactionId _ row present
    exact .inl present
  · intro other call found
    rcases find_calls_become found with same | before
    · right
      subst same
      cases operation with
      | batchCommitTransactions =>
        intro transactionId listed
        exact .inl listed
      | _ => trivial
    · exact .inl before

theorem Agreement.start (agreement : Agreement store) (client : Nat)
    (finds : StartFinds store transactionId)
    (next : Store)
    (taken : store.execute client pick (.start transactionId) = some next) :
    Agreement next ∧ Keeps store next := by
  simp only [Store.execute, Option.some.injEq] at taken
  subst taken
  have keeps : Keeps store ({ store with
      rows := startTransactionQuery store.rows transactionId }.finish client) :=
    fun other outcome decided => ⟨start_keeps finds decided, decided⟩
  refine ⟨agreement.after keeps ?_ ?_ ?_ ?_, keeps⟩
  · exact start_agrees agreement.rows finds
  · intro other answer mem
    exact .inl mem
  · intro other waiting found row present
    left
    simp only [Store.finish, startTransactionQuery] at present
    split at present
    next => exact present
    next absent =>
      rw [find_insert] at present
      split at present
      next same =>
        subst same
        have unseen := (finds.resolve_left absent).2 other
          (Finmap.mem_keys.mpr (mem_iff.mpr ⟨_, found⟩))
        exact absurd found unseen
      next => exact present
  · intro other call found
    exact .inl (find_calls_finish found)

theorem Agreement.commit (agreement : Agreement store) (client : Nat)
    (finds : CommitFinds store.rows transactionId epoch) (next : Store)
    (taken : store.execute client pick (.commit transactionId epoch) = some next) :
    Agreement next ∧ Keeps store next := by
  simp only [Store.execute, Option.some.injEq] at taken
  subst taken
  have keeps := commitStatement_keeps agreement.rows finds
  refine ⟨agreement.after keeps ?_ ?_ ?_ ?_, keeps⟩
  · exact commitStatement_agrees agreement.rows finds
  · intro other answer mem
    rcases List.mem_append.mp mem with before | added
    · exact .inl before
    · right
      simp only [List.mem_singleton, Prod.mk.injEq] at added
      obtain ⟨rfl, rfl⟩ := added
      exact commitStatement_decides (agreement.rows other) finds
  · intro other waiting _ row present
    change (store.commitStatement transactionId epoch).rows.find waiting = some row at present
    rw [commitStatement_rows] at present
    split at present
    next =>
      cases present
      exact .inr rfl
    next => exact .inl present
  · intro other call found
    exact .inl (find_calls_finish found)

theorem Agreement.batchCommit (agreement : Agreement store) (client : Nat)
    {transactionIds remaining : List Uuid}
    (running : store.calls.find client =
      some (.batchCommit transactionIds remaining epoch))
    (finds : pick ∈ remaining → CommitFinds store.rows pick epoch) (next : Store)
    (taken : store.execute client pick (.batchCommit transactionIds remaining epoch) =
      some next) :
    Agreement next ∧ Keeps store next := by
  simp only [Store.execute] at taken
  split at taken
  next completed =>
    simp only [Option.some.injEq] at taken
    subst taken
    have keeps : Keeps store ({ store with
        answers := store.answers ++ transactionIds.map fun transactionId =>
          (transactionId, OpResult.transactionIsCommitted ⟨epoch⟩) }.finish client) :=
      fun _ _ decided => ⟨rfl, decided⟩
    refine ⟨agreement.after keeps agreement.rows ?_ ?_ ?_, keeps⟩
    · intro other answer mem
      rcases List.mem_append.mp mem with before | added
      · exact .inl before
      · right
        obtain ⟨transactionId, listed, same⟩ := List.mem_map.mp added
        cases same
        rcases agreement.batches _ _ _ _ running _ listed with waiting | decided
        · simp [completed] at waiting
        · exact decided
    · intro _ _ _ row present
      exact .inl present
    · intro other call found
      exact .inl (find_calls_finish found)
  next =>
    split at taken
    next chosen =>
      simp only [Option.some.injEq] at taken
      subst taken
      have keeps := commitStatement_keeps agreement.rows (finds chosen)
      refine ⟨agreement.after keeps ?_ ?_ ?_ ?_, keeps⟩
      · exact commitStatement_agrees agreement.rows (finds chosen)
      · intro other answer mem
        exact .inl mem
      · intro other waiting _ row present
        change (store.commitStatement pick epoch).rows.find waiting = some row at present
        rw [commitStatement_rows] at present
        split at present
        next =>
          cases present
          exact .inr rfl
        next => exact .inl present
      · intro other call found
        rcases find_calls_become found with same | before
        · right
          subst same
          intro transactionId listed
          by_cases executed : transactionId = pick
          · subst executed
            exact .inr (commitStatement_decides (agreement.rows _) (finds chosen))
          · rcases agreement.batches _ _ _ _ running _ listed with waiting | decided
            · exact .inl ((List.mem_erase_of_ne executed).mpr waiting)
            · exact .inr (keeps _ _ decided).2
        · exact .inl before
    next => simp at taken

theorem Agreement.abort (agreement : Agreement store) (client : Nat) (next : Store)
    (taken : store.execute client pick (.abort transactionId) = some next) :
    Agreement next ∧ Keeps store next := by
  simp only [Store.execute] at taken
  rcases abortTransactionQuery_cases store.rows transactionId with
    ⟨row, found, applies, answered⟩ | ⟨settled, answered⟩
  · simp only [answered, Option.some.injEq] at taken
    subst taken
    have agreesHere := agreement.rows transactionId
    rw [found] at agreesHere
    have decides : (store.outcomes.find transactionId).getD .transactionIsAborted =
        .transactionIsAborted := by
      rw [agreesHere.2]
      obtain ⟨status, epoch⟩ := row
      rcases applies with started | aborted
      · simp only at started
        subst started
        rfl
      · simp only at aborted
        subst aborted
        rfl
    have keeps : Keeps store (({ store with
        rows := store.rows.insert transactionId { row with status := .aborted }
        outcomes := observe store.outcomes transactionId .transactionIsAborted }.answer
          transactionId .transactionIsAborted).finish client) := by
      intro other outcome decided
      refine ⟨?_, observe_keeps decided⟩
      simp only [Store.answer, Store.finish, find_insert]
      split
      next same =>
        subst same
        rw [found]
        rw [decided] at agreesHere
        obtain ⟨status, epoch⟩ := row
        rcases applies with started | aborted
        · simp only at started
          subst started
          simp [Agrees, Row.outcome] at agreesHere
        · simp only at aborted
          subst aborted
          rfl
      next => rfl
    refine ⟨agreement.after keeps ?_ ?_ ?_ ?_, keeps⟩
    · intro other
      simp only [Store.answer, Store.finish, find_insert, find_observe]
      split
      next => exact ⟨by simp [Row.Valid], by rw [decides]; rfl⟩
      next => exact agreement.rows other
    · intro other answer mem
      rcases List.mem_append.mp mem with before | added
      · exact .inl before
      · right
        simp only [List.mem_singleton, Prod.mk.injEq] at added
        obtain ⟨rfl, rfl⟩ := added
        simp only [Store.answer, Store.finish, find_observe, if_true, decides]
    · intro other waiting looking present found'
      left
      simp only [Store.answer, Store.finish, find_insert] at found'
      split at found'
      next same =>
        subst same
        have committed := agreement.lookups _ _ looking _ found
        simp [committed] at applies
      next => exact found'
    · intro other call found'
      exact .inl (find_calls_finish found')
  · simp only [answered, Option.some.injEq] at taken
    subst taken
    have keeps : Keeps store (store.become client (.abortLookup transactionId)) :=
      fun _ _ decided => ⟨rfl, decided⟩
    refine ⟨agreement.after keeps agreement.rows ?_ ?_ ?_, keeps⟩
    · intro other answer mem
      exact .inl mem
    · intro _ _ _ row present
      exact .inl present
    · intro other call found
      rcases find_calls_become found with same | before
      · right
        subst same
        exact settled
      · exact .inl before

theorem Agreement.abortLookup (agreement : Agreement store) (client : Nat)
    (running : store.calls.find client = some (.abortLookup transactionId)) (next : Store)
    (taken : store.execute client pick (.abortLookup transactionId) = some next) :
    Agreement next ∧ Keeps store next := by
  have settled := agreement.lookups _ _ running
  have agreesHere := agreement.rows transactionId
  have answered := maybeGetCommitEpoch_of_agrees agreesHere settled
  simp only [Store.execute, answered, Option.some.injEq] at taken
  subst taken
  generalize decision : (store.outcomes.find transactionId).getD .transactionIsAborted =
    result
  have keeps : Keeps store (({ store with
      outcomes := observe store.outcomes transactionId result }.answer
        transactionId result).finish client) :=
    fun _ _ decided => ⟨rfl, observe_keeps decided⟩
  refine ⟨agreement.after keeps ?_ ?_ ?_ ?_, keeps⟩
  · intro other
    simp only [Store.answer, Store.finish, find_observe]
    split
    next same =>
      subst same
      cases decided : store.outcomes.find other with
      | some =>
        rw [decided] at agreesHere
        exact agreesHere
      | none =>
        -- an undecided id at its lookup has no row
        rw [decided] at decision agreesHere
        cases found : store.rows.find other with
        | none => exact .inr (by simp [← decision])
        | some row =>
          rw [found] at agreesHere
          have committed := settled row found
          obtain ⟨status, epoch⟩ := row
          simp only at committed
          subst committed
          cases epoch with
          | none => exact absurd rfl (agreesHere.1 rfl)
          | some => simp [Agrees, Row.outcome] at agreesHere
    next => exact agreement.rows other
  · intro other answer mem
    rcases List.mem_append.mp mem with before | added
    · exact .inl before
    · right
      simp only [List.mem_singleton, Prod.mk.injEq] at added
      obtain ⟨rfl, rfl⟩ := added
      simp only [Store.answer, Store.finish, find_observe, if_true]
      cases decided : store.outcomes.find other with
      | none => rfl
      | some => simpa [decided] using decision
  · intro _ _ _ row present
    exact .inl present
  · intro other call found
    exact .inl (find_calls_finish found)

theorem Agreement.step {label : Label} (agreement : Agreement store)
    (disciplined : Disciplined store label) (taken : step store label = some next) :
    Agreement next ∧ Keeps store next := by
  cases label with
  | invoke client operation =>
    simp only [TxStateStore.step] at taken
    split at taken
    next => simp at taken
    next =>
      simp only [Option.some.injEq] at taken
      subst taken
      exact ⟨agreement.invoke client operation, fun _ _ decided => ⟨rfl, decided⟩⟩
  | execute client =>
    simp only [TxStateStore.step] at taken
    cases running : store.calls.find client with
    | none => simp [running] at taken
    | some call =>
      simp only [running] at taken
      simp only [Disciplined, running] at disciplined
      cases call with
      | start => exact agreement.start client disciplined next taken
      | commit =>
        exact agreement.commit client disciplined next taken
      | batchCommit =>
        exact agreement.batchCommit client running disciplined next taken
      | abort => exact agreement.abort client next taken
      | abortLookup =>
        exact agreement.abortLookup client running next taken

/-- In every run whose statements are disciplined, recorded decisions and all
answers agree with the first decision, and no later statement touches them. -/
theorem decisions_irrevocable (store : Store)
    (reached : Reachable step Disciplined Initial store) :
    Irrevocable store ∧
      ∀ label next, Disciplined store label → step store label = some next →
        Keeps store next := by
  have agreement : Agreement store :=
    reached.invariant (fun _ initial => .of_initial initial)
      (fun _ _ _ known disciplined taken => (known.step disciplined taken).1)
  exact ⟨agreement.irrevocable,
    fun label next disciplined taken => (agreement.step disciplined taken).2⟩

def commitThenAbort : List Label :=
  [.invoke 0 (.startTransaction 1), .execute 0 1,
   .invoke 0 (.commitTransaction 1 5), .invoke 1 (.abortTransaction 1),
   .execute 0 1, .execute 1 1, .execute 1 1]

def emptyStore : Store := ⟨∅, ∅, [], ∅⟩

theorem emptyStore_initial : Initial emptyStore := by
  refine ⟨rfl, rfl, ?_, ?_⟩
  · simp [emptyStore]
  · simp [emptyStore]

theorem decisions_irrevocable_commitThenAbort :
    ∃ store, runWhere step Disciplined emptyStore commitThenAbort = some store ∧
      store.answers = [(1, .transactionIsCommitted ⟨5⟩), (1, .transactionIsCommitted ⟨5⟩)] ∧
      Irrevocable store := by
  have ran : ∃ store, runWhere step Disciplined emptyStore commitThenAbort = some store ∧
      store.answers =
        [(1, .transactionIsCommitted ⟨5⟩), (1, .transactionIsCommitted ⟨5⟩)] := by
    refine ⟨_, rfl, ?_⟩
    decide +kernel
  obtain ⟨store, ran, answers⟩ := ran
  exact ⟨store, ran, answers,
    (decisions_irrevocable store
      (.append_run commitThenAbort (.start emptyStore_initial) ran)).1⟩

/-- A started transaction is aborted and then committed: the commit statement
overwrites the abort and answers that the transaction is committed. -/
def commitAfterAbort : List Label :=
  [.invoke 0 (.startTransaction 1), .execute 0 1,
   .invoke 0 (.abortTransaction 1), .execute 0 1,
   .invoke 0 (.commitTransaction 1 6), .execute 0 1]

theorem commit_overrides_abort :
    ¬ ∀ store, Reachable step (fun _ _ => True) Initial store → Irrevocable store := by
  intro always
  have violated : ∃ store, Reachable step (fun _ _ => True) Initial store ∧
      decide (store.outcomes.find 1 = some .transactionIsAborted ∧
        (1, OpResult.transactionIsCommitted ⟨6⟩) ∈ store.answers) = true :=
    exists_reachable_of_run emptyStore_initial commitAfterAbort _ (by decide +kernel)
  obtain ⟨store, reached, tested⟩ := violated
  obtain ⟨decided, answered⟩ := of_decide_eq_true tested
  have agreed := (always store reached).2 _ _ answered
  rw [decided] at agreed
  simp at agreed

end Sangria.TxStateStore
