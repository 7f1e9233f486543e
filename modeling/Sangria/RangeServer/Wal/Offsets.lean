import Sangria.RangeServer.Wal.Order

/-!
# Offsets of a single writer

One instance executes its calls one after the other, and a statement that fails
has no effect.  Between the calls a synced instance has the offsets of the
metadata row, unless a batch of a flush has failed, after which the offsets were
advanced in memory only, or the log was trimmed behind its end.
-/

namespace Sangria.RangeServer.Wal

open FiniteMap
open TransitionSystem

universe u

variable {δ : Type u} {owner : Nat} {log log' : Log δ} {wal wal' : CassandraWal δ}

namespace Log

/-- Every offset of the log has a row, and no row lies below them. -/
structure Covers (metadata : LogState) (offsets : Finset Int) : Prop where
  le : base metadata ≤ metadata.nextOffset
  stored : ∀ offset, base metadata ≤ offset → offset < metadata.nextOffset → offset ∈ offsets
  above : ∀ offset ∈ offsets, base metadata ≤ offset

/-- A log without a metadata row is as one that was just initialized. -/
def Whole (log : Log δ) : Prop := Covers (log.metadata.getD ⟨none, 0⟩) log.rows.keys

def Agrees (log : Log δ) (state : State) : Prop :=
  log.Whole ∧ ∀ logState, state = .synced logState → log.metadata = some logState

/-- What the offsets of a synced instance say about the table. -/
def Matches (log : Log δ) (state : State) : Prop :=
  ∀ logState, state = .synced logState → log.metadata = some logState ∧
    ∀ first, logState.firstOffset = some first → first ≤ logState.nextOffset ∧
      (∀ offset, first ≤ offset → offset < logState.nextOffset → offset ∈ log.rows.keys) ∧
      ∀ offset ∈ log.rows.keys, first ≤ offset

theorem Agrees.matches {state : State} (agrees : log.Agrees state) : log.Matches state := by
  intro logState synced
  have stored := agrees.2 logState synced
  have whole := agrees.1
  rw [Whole, stored] at whole
  refine ⟨stored, ?_⟩
  intro first known
  have begins : base logState = first := by rw [base, known, Option.getD_some]
  have le := whole.le
  have rows := whole.stored
  have above := whole.above
  rw [Option.getD_some, begins] at le rows above
  exact ⟨le, rows, above⟩

theorem Whole.agrees (whole : log.Whole) : log.Agrees .notSynced := by
  refine ⟨whole, ?_⟩
  intro logState synced
  cases synced

theorem keys_insertRows (log : Log δ) (rows : List (Int × Row δ)) :
    (log.insertRows rows).rows.keys = log.rows.keys ∪ (rows.map Prod.fst).toFinset := by
  unfold insertRows
  simp only
  generalize log.rows = table
  induction rows generalizing table with
  | nil => simp
  | cons row rows ih =>
    rw [List.foldl_cons, ih]
    ext offset
    simp only [Finset.mem_union, mem_keys, find_insert, List.map_cons, List.toFinset_cons,
      Finset.mem_insert]
    split <;> simp_all

theorem Covers.insert {metadata : LogState} {offsets new : Finset Int}
    (covers : Covers metadata offsets) (behind : ∀ offset ∈ new, metadata.nextOffset ≤ offset) :
    Covers metadata (offsets ∪ new) := by
  refine ⟨covers.le, ?_, ?_⟩
  · intro offset after within
    exact Finset.mem_union_left _ (covers.stored offset after within)
  · intro offset present
    rcases Finset.mem_union.mp present with old | fresh
    · exact covers.above offset old
    · exact covers.le.trans (behind offset fresh)

theorem Covers.advance {logState : LogState} {offsets : Finset Int} {count : Nat}
    (covers : Covers logState offsets)
    (written : ∀ offset, logState.nextOffset ≤ offset → offset < logState.nextOffset + count →
      offset ∈ offsets) : Covers (CassandraWal.advance logState count) offsets := by
  have begins : base (CassandraWal.advance logState count) = base logState := rfl
  have le := covers.le
  refine ⟨?_, ?_, ?_⟩
  · rw [begins]
    simp only [CassandraWal.advance]
    omega
  · intro offset after within
    rw [begins] at after
    by_cases old : offset < logState.nextOffset
    · exact covers.stored offset after old
    · exact written offset (not_lt.mp old) within
  · rw [begins]
    exact covers.above

theorem Whole.trim {logState : LogState} {first offset : Int} (whole : log.Whole)
    (stored : log.metadata = some logState) (known : logState.firstOffset = some first)
    (behind : first ≤ offset) (before : offset ≤ logState.nextOffset) :
    (log.trim first offset).Whole := by
  have begins : base logState = first := by rw [base, known, Option.getD_some]
  rw [Whole, stored, Option.getD_some] at whole
  have rows := whole.stored
  rw [begins] at rows
  simp only [Whole, Log.trim, stored, known, if_true, Option.getD_some]
  refine ⟨before, ?_, ?_⟩
  · intro other after within
    change offset ≤ other at after
    obtain ⟨row, found⟩ := mem_keys.mp (rows other (behind.trans after) within)
    refine mem_keys.mpr ⟨row, ?_⟩
    rw [find_filterMap, found, Option.bind_some, if_neg (not_lt.mpr after)]
  · intro other present
    obtain ⟨row, found⟩ := mem_keys.mp present
    rw [find_filterMap] at found
    obtain ⟨_, _, kept⟩ := Option.bind_eq_some_iff.mp found
    split at kept
    next => cases kept
    next least => exact not_lt.mp least

end Log

/-! ## Calls one after the other -/

def Task.isDone : Task δ → Bool
  | .flush _ (.notified ..) | .sync (.returned _) | .trimmed _ => true
  | _ => false

/-- The task is at one of the two batches of a flush. -/
def Task.isWriting : Task δ → Bool
  | .flush _ (.inserting _) | .flush _ (.updating _) => true
  | _ => false

def State.reaches (offset : Int) : State → Bool
  | .synced logState => decide (offset ≤ logState.nextOffset)
  | .notSynced => true

namespace CassandraWal

def Idle (wal : CassandraWal δ) : Prop :=
  ∀ id ∈ wal.tasks.keys, ∀ task ∈ wal.tasks.find id, task.isDone = true

instance (wal : CassandraWal δ) : Decidable wal.Idle :=
  inferInstanceAs (Decidable (∀ id ∈ wal.tasks.keys, ∀ task ∈ wal.tasks.find id, _))

/-- A call starts when no other one is in progress, and a failed statement has no effect. -/
def OneCall (wal : CassandraWal δ) : Label δ → Prop
  | .flush _ | .sync _ | .trim .. => wal.Idle
  | .fail _ _ effective => effective = false
  | _ => True

instance (wal : CassandraWal δ) (label : Label δ) : Decidable (wal.OneCall label) :=
  match label with
  | .flush _ | .sync _ | .trim .. => inferInstanceAs (Decidable wal.Idle)
  | .fail _ _ effective => inferInstanceAs (Decidable (effective = false))
  | .append .. | .lock .. | .run _ => instDecidableTrue

/-- The batches of a flush do not fail, and the log is trimmed up to its end at most. -/
def KeepsOffsets (wal : CassandraWal δ) : Label δ → Prop
  | .fail task _ _ => ∀ found ∈ wal.tasks.find task, found.isWriting = false
  | .trim _ offset => wal.state.reaches offset = true
  | _ => True

instance (wal : CassandraWal δ) (label : Label δ) : Decidable (wal.KeepsOffsets label) :=
  match label with
  | .fail task _ _ => inferInstanceAs (Decidable (∀ found ∈ wal.tasks.find task, _))
  | .trim _ offset => inferInstanceAs (Decidable (wal.state.reaches offset = true))
  | .append .. | .flush _ | .sync _ | .lock .. | .run _ => instDecidableTrue

end CassandraWal

/-- The rows were numbered from the metadata row, and the state was advanced in memory. -/
def Numbers (log : Log δ) (state : State) (entries : List (BufferedEntry δ))
    (rows : List (Int × Row δ)) (logState : LogState) (writeIds : List Uuid) : Prop :=
  log.metadata = some logState ∧ state = .synced (CassandraWal.advance logState entries.length) ∧
    writeIds.length = entries.length ∧
    rows = CassandraWal.number logState.nextOffset entries writeIds

/-- What holds before the next section or statement of the only call in progress. -/
def Task.Stage (log : Log δ) (state : State) : Task δ → Prop
  | .flush entries (.inserting rows) =>
    log.Whole ∧ ∃ logState writeIds, Numbers log state entries rows logState writeIds
  | .flush entries (.updating rows) =>
    log.Whole ∧ (∃ logState writeIds, Numbers log state entries rows logState writeIds) ∧
      ∀ offset ∈ rows.map Prod.fst, offset ∈ log.rows.keys
  | .sync .locking => log.Whole
  | .sync .selecting => log.Whole ∧ state = .notSynced
  | .sync .initializing => log.Whole ∧ state = .notSynced ∧ log.metadata = none
  | .trim offset => log.Agrees state ∧ state.reaches offset = true
  | .trimming first offset => log.Agrees state ∧ ∃ logState, state = .synced logState ∧
      logState.firstOffset = some first ∧ first ≤ offset ∧ offset ≤ logState.nextOffset
  | _ => log.Agrees state

theorem Task.Stage.agrees {state : State} {task : Task δ} (stage : task.Stage log state)
    (done : task.isDone = true) : log.Agrees state := by
  unfold Task.isDone at done
  split at done
  next => exact stage
  next => exact stage
  next => exact stage
  next => cases done

def Alone (wal : CassandraWal δ) (id : Nat) : Prop :=
  ∀ other found, wal.tasks.find other = some found → other ≠ id → found.isDone = true

def Consistent (log : Log δ) (wal : CassandraWal δ) : Prop :=
  (wal.Idle ∧ log.Agrees wal.state) ∨
    ∃ id task, wal.tasks.find id = some task ∧ Alone wal id ∧ task.Stage log wal.state

namespace Consistent

variable {id : Nat} {task next : Task δ}

theorem stage (consistent : Consistent log wal) (found : wal.tasks.find id = some task)
    (running : task.isDone = false) : Alone wal id ∧ task.Stage log wal.state := by
  rcases consistent with ⟨idle, _⟩ | ⟨other, known, present, alone, stage⟩
  · rw [idle id (mem_keys.mpr ⟨task, found⟩) task found] at running
    cases running
  · by_cases same : id = other
    · subst same
      rw [found] at present
      cases present
      exact ⟨alone, stage⟩
    · rw [alone id task found same] at running
      cases running

theorem agrees (consistent : Consistent log wal) (idle : wal.Idle) : log.Agrees wal.state := by
  rcases consistent with ⟨_, agrees⟩ | ⟨id, task, found, _, stage⟩
  · exact agrees
  · exact stage.agrees (idle id (mem_keys.mpr ⟨task, found⟩) task found)

theorem put (alone : Alone wal id) (tasks : wal'.tasks = wal.tasks.insert id next)
    (stage : next.Stage log wal'.state) : Consistent log wal' := by
  refine .inr ⟨id, next, ?_, ?_, stage⟩
  · rw [tasks, find_insert_self]
  · intro other found present different
    rw [tasks, find_insert_of_ne _ different] at present
    exact alone other found present different

theorem spawn (idle : wal.Idle) (tasks : wal'.tasks = wal.tasks.insert id next)
    (stage : next.Stage log wal'.state) : Consistent log wal' := by
  refine put ?_ tasks stage
  intro other found present _
  exact idle other (mem_keys.mpr ⟨found, present⟩) found present

theorem insert {entries : List (BufferedEntry δ)} {rows : List (Int × Row δ)} {state : State}
    (stage : (Task.flush entries (.inserting rows)).Stage log state) (statement : Statement δ) :
    (Task.flush entries (.updating rows)).Stage
      ((log.insertRows rows).observe owner id statement) state := by
  obtain ⟨whole, logState, writeIds, stored, advanced, count, rfl⟩ := stage
  refine ⟨?_, ⟨logState, writeIds, stored, advanced, count, rfl⟩, ?_⟩
  · unfold Log.Whole at whole ⊢
    change Log.Covers (log.metadata.getD _) (log.insertRows _).rows.keys
    rw [Log.keys_insertRows]
    refine whole.insert ?_
    intro offset new
    rw [stored]
    exact (CassandraWal.mem_offset_number count (List.mem_toFinset.mp new)).1
  · intro offset new
    change offset ∈ (log.insertRows _).rows.keys
    rw [Log.keys_insertRows]
    exact Finset.mem_union_right _ (List.mem_toFinset.mpr new)

theorem update {entries : List (BufferedEntry δ)} {row : Int × Row δ} {rest : List (Int × Row δ)}
    {logState : LogState}
    (stage : (Task.flush entries (.updating (row :: rest))).Stage log (.synced logState))
    (statement : Statement δ) :
    ((log.updateMetadata logState row.1).observe owner id statement).Agrees
      (.synced logState) := by
  obtain ⟨whole, ⟨before, writeIds, stored, advanced, count, numbered⟩, written⟩ := stage
  cases advanced
  have applied : log.updateMetadata (CassandraWal.advance before entries.length) row.1 =
      { log with metadata := some (CassandraWal.advance before entries.length) } := by
    rw [CassandraWal.head_number numbered]
    simp [Log.updateMetadata, Log.isNext, stored]
  rw [applied]
  rw [Log.Whole, stored, Option.getD_some] at whole
  refine ⟨whole.advance ?_, fun _ same => congrArg some (State.synced.inj same)⟩
  intro offset after within
  refine written offset ?_
  rw [numbered, CassandraWal.map_offset_number _ _ _ count, List.mem_map]
  exact ⟨(offset - before.nextOffset).toNat, List.mem_range.mpr (by omega), by omega⟩

theorem trimFrom {offset : Int} (agrees : log.Agrees wal.state)
    (reaches : wal.state.reaches offset = true) :
    (wal.trimFrom offset).Stage log wal.state := by
  cases synced : wal.state with
  | notSynced =>
    simp only [CassandraWal.trimFrom, synced]
    exact synced ▸ agrees
  | synced logState =>
    rw [synced] at agrees reaches
    cases known : logState.firstOffset with
    | none =>
      simp only [CassandraWal.trimFrom, synced, known]
      exact agrees
    | some first =>
      simp only [CassandraWal.trimFrom, synced, known]
      split
      next => exact agrees
      next least =>
        exact ⟨agrees, logState, rfl, known, not_lt.mp least, of_decide_eq_true reaches⟩

theorem trim {first offset : Int}
    (stage : (Task.trimming first offset).Stage log wal.state) :
    (log.trim first offset).Whole := by
  obtain ⟨agrees, logState, synced, known, behind, before⟩ := stage
  exact agrees.1.trim (agrees.2 logState synced) known behind before

theorem moves {label : Label δ} (consistent : Consistent log wal) (oneCall : wal.OneCall label)
    (keeps : wal.KeepsOffsets label)
    (moves : CassandraWal.Moves owner log wal label log' wal') : Consistent log' wal' := by
  cases moves with
  | append => exact consistent
  | drain => exact spawn oneCall rfl (consistent.agrees oneCall)
  | spawn unbuffered =>
    cases unbuffered with
    | sync => exact spawn oneCall rfl (consistent.agrees oneCall).1
    | trim => exact spawn oneCall rfl ⟨consistent.agrees oneCall, keeps⟩
  | refuse found | notify found | verify found | failVerify found =>
    obtain ⟨alone, stage⟩ := consistent.stage found rfl
    exact put alone rfl stage
  | number found _ synced count =>
    obtain ⟨alone, stage⟩ := consistent.stage found rfl
    exact put alone rfl ⟨stage.1, _, _, stage.2 _ synced, rfl, count, rfl⟩
  | insert found =>
    obtain ⟨alone, stage⟩ := consistent.stage found rfl
    exact put alone rfl (insert stage _)
  | update found synced =>
    obtain ⟨alone, stage⟩ := consistent.stage found rfl
    rw [synced] at stage
    refine put alone rfl ?_
    change Log.Agrees _ wal.state
    rw [synced]
    exact update stage _
  | lose found =>
    obtain ⟨alone, stage⟩ := consistent.stage found rfl
    exact put alone rfl (Log.Whole.agrees stage.1)
  | failInsert found | failUpdate found => cases keeps _ found
  | beginSync found =>
    obtain ⟨alone, stage⟩ := consistent.stage found rfl
    exact put alone rfl ⟨stage, rfl⟩
  | select found present =>
    obtain ⟨alone, stage⟩ := consistent.stage found rfl
    refine put alone rfl ⟨stage.1, ?_⟩
    rintro _ ⟨⟩
    exact present
  | miss found missing =>
    obtain ⟨alone, stage⟩ := consistent.stage found rfl
    exact put alone rfl ⟨stage.1, stage.2, missing⟩
  | create found =>
    obtain ⟨alone, whole, _, missing⟩ := consistent.stage found rfl
    rw [Log.Whole, missing] at whole
    refine put alone rfl ⟨whole, ?_⟩
    rintro _ ⟨⟩
    rfl
  | failSelect found =>
    obtain ⟨alone, whole, unsynced⟩ := consistent.stage found rfl
    exact put alone rfl (unsynced ▸ whole.agrees)
  | failCreate found =>
    obtain ⟨alone, whole, unsynced, _⟩ := consistent.stage found rfl
    cases oneCall
    exact put alone rfl (unsynced ▸ whole.agrees)
  | beginTrim found =>
    obtain ⟨alone, agrees, reaches⟩ := consistent.stage found rfl
    exact put alone rfl (trimFrom agrees reaches)
  | trim found =>
    obtain ⟨alone, stage⟩ := consistent.stage found rfl
    exact put alone rfl (trim stage)
  | failTrim found =>
    obtain ⟨alone, agrees, _⟩ := consistent.stage found rfl
    cases oneCall
    exact put alone rfl agrees

end Consistent

/-- A new instance over a log that covers its offsets, such as an empty one. -/
def Opened (pair : Log δ × CassandraWal δ) : Prop := pair.1.Whole ∧ pair.2 = CassandraWal.new

/-- Between the calls of a single writer that keeps its offsets, they match the log. -/
theorem offsets_match (pair : Log δ × CassandraWal δ)
    (reached : Reachable (oneStep owner)
      (fun pair label => pair.2.OneCall label ∧ pair.2.KeepsOffsets label) Opened pair)
    (idle : pair.2.Idle) : pair.1.Matches pair.2.state := by
  have consistent : Consistent pair.1 pair.2 := by
    refine @Reachable.invariant _ _ (oneStep owner) _ Opened
      (fun pair => Consistent pair.1 pair.2) ?_ ?_ _ reached
    · rintro ⟨log, _⟩ ⟨whole, rfl⟩
      refine .inl ⟨?_, Log.Whole.agrees whole⟩
      intro id present
      cases present
    · rintro ⟨log, wal⟩ ⟨log', wal'⟩ label consistent ⟨oneCall, keeps⟩ taken
      exact consistent.moves oneCall keeps (CassandraWal.moves_of_step taken)
  exact (consistent.agrees idle).matches

def emptyLog : Log Unit × CassandraWal Unit := (⟨none, ∅, []⟩, .new)

theorem opened_emptyLog : Opened emptyLog := by
  refine ⟨⟨le_rfl, ?_, ?_⟩, rfl⟩
  · intro offset after within
    exact absurd within (not_lt.mpr after)
  · intro offset present
    cases present

def syncCall (task : Nat) : List (Label Unit) := [.sync task, .run task, .run task, .run task]

def flushCall (task : Nat) : List (Label Unit) :=
  [.append .prepare (), .flush task, .lock task [10], .run task, .run task, .run task, .run task]

def trimCall (task : Nat) (offset : Int) : List (Label Unit) :=
  [.trim task offset, .run task, .run task, .run task, .run task]

theorem offsets_match_trimmed : ∃ pair : Log Unit × CassandraWal Unit,
    Reachable (oneStep 0) (fun pair label => pair.2.OneCall label ∧ pair.2.KeepsOffsets label)
      Opened pair ∧ pair.2.Idle ∧
    pair.2.state = .synced ⟨some 1, 2⟩ ∧ pair.1.Matches pair.2.state := by
  obtain ⟨pair, reached, passed⟩ := @exists_reachable_of_run _ _ (oneStep 0)
    (fun pair label => pair.2.OneCall label ∧ pair.2.KeepsOffsets label) Opened _ _
    opened_emptyLog (syncCall 0 ++ flushCall 1 ++ flushCall 2 ++ trimCall 3 1)
    (fun pair => decide (pair.2.Idle ∧ pair.2.state = .synced ⟨some 1, 2⟩)) (by decide +kernel)
  obtain ⟨idle, synced⟩ := of_decide_eq_true passed
  exact ⟨pair, reached, idle, synced, offsets_match pair reached idle⟩

/-- The insertion of a flush fails, and a log of one entry is trimmed before its fifth. -/
theorem offsets_diverge :
    (∃ pair : Log Unit × CassandraWal Unit,
      Reachable (oneStep 0) (fun pair label => pair.2.OneCall label) Opened pair ∧ pair.2.Idle ∧
        pair.2.state = .synced ⟨some 0, 1⟩ ∧ pair.1.metadata = some ⟨none, 0⟩ ∧
        ¬ pair.1.Matches pair.2.state) ∧
    ∃ pair : Log Unit × CassandraWal Unit,
      Reachable (oneStep 0) (fun pair label => pair.2.OneCall label) Opened pair ∧ pair.2.Idle ∧
        pair.2.state = .synced ⟨some 5, 1⟩ ∧ ¬ pair.1.Matches pair.2.state := by
  constructor
  · obtain ⟨pair, reached, passed⟩ := @exists_reachable_of_run _ _ (oneStep 0)
      (fun pair label => pair.2.OneCall label) Opened _ _ opened_emptyLog
      (syncCall 0 ++ [.append .prepare (), .flush 1, .lock 1 [10], .fail 1 .internal false, .run 1])
      (fun pair => decide (pair.2.Idle ∧ pair.2.state = .synced ⟨some 0, 1⟩ ∧
        pair.1.metadata = some ⟨none, 0⟩)) (by decide +kernel)
    obtain ⟨idle, synced, stored⟩ := of_decide_eq_true passed
    refine ⟨pair, reached, idle, synced, stored, ?_⟩
    intro same
    cases stored.symm.trans (same _ synced).1
  · obtain ⟨pair, reached, passed⟩ := @exists_reachable_of_run _ _ (oneStep 0)
      (fun pair label => pair.2.OneCall label) Opened _ _ opened_emptyLog
      (syncCall 0 ++ flushCall 1 ++ trimCall 2 5)
      (fun pair => decide (pair.2.Idle ∧ pair.2.state = .synced ⟨some 5, 1⟩)) (by decide +kernel)
    obtain ⟨idle, synced⟩ := of_decide_eq_true passed
    refine ⟨pair, reached, idle, synced, ?_⟩
    intro same
    exact absurd ((same _ synced).2 5 rfl).1 (by decide)

end Sangria.RangeServer.Wal
