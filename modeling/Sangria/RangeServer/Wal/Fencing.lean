import Sangria.Lib.TransitionSystem
import Sangria.RangeServer.Wal.Numbering

/-!
# Fencing

Two instances that were synced at the same offset both insert their rows and
both find them.  A flush is fenced when its rows are inserted only at the stored
next offset and while no other flush is between its insertion and its update of
the metadata.
-/

namespace Sangria.RangeServer.Wal

open FiniteMap
open TransitionSystem

universe u

variable {δ : Type u}

/-- The rows of a verified flush and the rows of a later insertion by another
instance have different offsets. -/
def Clear (earlier later : Nat × Nat × Statement δ) : Prop :=
  ∀ rows rows', earlier.2.2 = .verified rows true → later.2.2 = .inserted rows' →
    earlier.1 ≠ later.1 → ∀ row ∈ rows, ∀ row' ∈ rows', row.1 ≠ row'.1

/-- What the log shows of the flushes that verified their rows. -/
structure Fenced (log : Log δ) : Prop where
  /-- Their rows are not overwritten by another instance. -/
  kept : log.history.Pairwise Clear
  /-- One flush from an offset verifies its rows. -/
  unique : ∀ {owner owner' task task' : Nat} {row row' : Int × Row δ}
      {rest rest' : List (Int × Row δ)},
    (owner, task, .verified (row :: rest) true) ∈ log.history →
    (owner', task', .verified (row' :: rest') true) ∈ log.history →
    row.1 = row'.1 → owner = owner' ∧ task = task'
  /-- Their update of the metadata was applied. -/
  applied : ∀ {owner task : Nat} {rows : List (Int × Row δ)},
    (owner, task, .verified rows true) ∈ log.history →
    (owner, task, .updated rows true) ∈ log.history

namespace SharedLog

def Succeeds (_ : SharedLog δ) : Nat × Label δ → Prop
  | (_, .fail ..) | (_, .trim ..) => False
  | _ => True

instance (shared : SharedLog δ) (label : Nat × Label δ) : Decidable (shared.Succeeds label) := by
  unfold Succeeds
  split <;> infer_instance

def taskOf (shared : SharedLog δ) : Nat × Label δ → Option (Task δ)
  | (owner, .run task) => (shared.wals.find owner).bind fun wal => wal.tasks.find task
  | _ => none

end SharedLog

def Task.isUpdating : Task δ → Bool
  | .flush _ (.updating _) => true
  | _ => false

namespace SharedLog

/-- No flush is between its insertion and its update of the metadata. -/
def noneUpdating (shared : SharedLog δ) : Bool :=
  decide (∀ owner ∈ shared.wals.keys, (shared.wals.find owner).all fun wal =>
    decide (∀ id ∈ wal.tasks.keys, (wal.tasks.find id).all fun task => !task.isUpdating))

/-- A statement that writes finds the metadata it was prepared for. -/
def Current (shared : SharedLog δ) : Task δ → Prop
  | .flush _ (.inserting (row :: _)) =>
    shared.log.isNext row.1 = true ∧ shared.noneUpdating = true
  | .sync .initializing => shared.log.metadata = none
  | .trimming .. => False
  | _ => True

instance (shared : SharedLog δ) (task : Task δ) : Decidable (shared.Current task) := by
  unfold Current
  split <;> infer_instance

def Fences (shared : SharedLog δ) (label : Nat × Label δ) : Prop :=
  shared.Succeeds label ∧ ∀ task ∈ shared.taskOf label, shared.Current task

instance (shared : SharedLog δ) (label : Nat × Label δ) : Decidable (shared.Fences label) :=
  inferInstanceAs (Decidable (_ ∧ _))

def Runs (shared : SharedLog δ) (owner id : Nat) (task : Task δ) : Prop :=
  ∃ wal, shared.wals.find owner = some wal ∧ wal.tasks.find id = some task

theorem not_updating_of_noneUpdating {shared : SharedLog δ} (quiet : shared.noneUpdating = true)
    {owner id : Nat} {entries : List (BufferedEntry δ)} {rows : List (Int × Row δ)} :
    ¬ shared.Runs owner id (.flush entries (.updating rows)) := by
  intro runs
  obtain ⟨wal, present, found⟩ := runs
  have here := of_decide_eq_true quiet owner (mem_keys.mpr ⟨wal, present⟩)
  rw [present, Option.all_some] at here
  have there := of_decide_eq_true here id (mem_keys.mpr ⟨_, found⟩)
  rw [found] at there
  cases there

theorem runs_of_tasks_eq {shared next : SharedLog δ} {owner : Nat} {wal wal' : CassandraWal δ}
    (present : shared.wals.find owner = some wal)
    (wals : next.wals = shared.wals.insert owner wal') (tasks : wal'.tasks = wal.tasks)
    {other number : Nat} {current : Task δ} (runs : next.Runs other number current) :
    shared.Runs other number current := by
  obtain ⟨wal'', there, found⟩ := runs
  rw [wals, find_insert] at there
  split at there
  next same =>
    cases there
    exact ⟨wal, same ▸ present, tasks ▸ found⟩
  next => exact ⟨wal'', there, found⟩

theorem runs_of_insert {shared next : SharedLog δ} {owner id : Nat} {wal wal' : CassandraWal δ}
    {task : Task δ} (present : shared.wals.find owner = some wal)
    (wals : next.wals = shared.wals.insert owner wal')
    (tasks : wal'.tasks = wal.tasks.insert id task) {other number : Nat} {current : Task δ}
    (runs : next.Runs other number current) :
    other = owner ∧ number = id ∧ current = task ∨
      ¬ (other = owner ∧ number = id) ∧ shared.Runs other number current := by
  obtain ⟨wal'', there, found⟩ := runs
  rw [wals, find_insert] at there
  split at there
  next same =>
    cases there
    rw [tasks, find_insert] at found
    split at found
    next here =>
      cases found
      exact .inl ⟨same, here, rfl⟩
    next elsewhere => exact .inr ⟨fun both => elsewhere both.2, wal, same ▸ present, found⟩
  next elsewhere => exact .inr ⟨fun both => elsewhere both.1, wal'', there, found⟩

end SharedLog

/-! ## The invariant -/

namespace Log

def Stores (log : Log δ) (rows : List (Int × Row δ)) : Prop :=
  ∀ row ∈ rows, log.rows.find row.1 = some row.2

def Passed (log : Log δ) (offset : Int) : Prop :=
  ∃ metadata, log.metadata = some metadata ∧ offset < metadata.nextOffset

end Log

/-- The flushes that updated the metadata: their rows are stored before the next
offset, and each offset belongs to one of them. -/
structure Settled (log : Log δ) : Prop where
  stored : ∀ {owner id rows applied}, (owner, id, .updated rows applied) ∈ log.history →
    log.Stores rows ∧ ∀ row ∈ rows, log.Passed row.1
  distinct : ∀ {owner owner' id id' rows rows' applied applied'},
    (owner, id, .updated rows applied) ∈ log.history →
    (owner', id', .updated rows' applied') ∈ log.history →
    ∀ row ∈ rows, ∀ row' ∈ rows', row.1 = row'.1 → owner = owner' ∧ id = id'
  verified : ∀ {owner id rows found}, (owner, id, .verified rows found) ∈ log.history →
    (owner, id, .updated rows true) ∈ log.history
  kept : log.history.Pairwise Clear

namespace Log

variable {log : Log δ} {owner id : Nat} {statement : Statement δ}

theorem mem_observe {other : Nat × Nat × Statement δ} :
    other ∈ (log.observe owner id statement).history ↔
      other ∈ log.history ∨ other = (owner, id, statement) := by
  rw [observe, List.mem_append, List.mem_singleton]

theorem stores_insertRows {rows old : List (Int × Row δ)} (stores : log.Stores old)
    (apart : ∀ row ∈ old, ∀ row' ∈ rows, row.1 ≠ row'.1) : (log.insertRows rows).Stores old := by
  intro row mem
  rw [insertRows, find_foldl_insert_of_notMem]
  · exact stores row mem
  · intro inside
    obtain ⟨other, here, same⟩ := List.mem_map.mp inside
    exact apart row mem other here same.symm

end Log

namespace Settled

variable {log : Log δ} {owner id : Nat} {rows : List (Int × Row δ)}

theorem fenced (settled : Settled log) : Fenced log where
  kept := settled.kept
  unique := by
    intro owner owner' task task' row row' rest rest' first second same
    exact settled.distinct (settled.verified first) (settled.verified second)
      row List.mem_cons_self row' List.mem_cons_self same
  applied := settled.verified

theorem of_history_eq_nil (history : log.history = []) : Settled log := by
  refine ⟨?_, ?_, ?_, ?_⟩
  · intro _ _ _ _ mem
    rw [history] at mem
    cases mem
  · intro _ _ _ _ _ _ _ _ mem
    rw [history] at mem
    cases mem
  · intro _ _ _ _ mem
    rw [history] at mem
    cases mem
  · rw [history]
    exact .nil

theorem insertRows (settled : Settled log)
    (behind : ∀ offset, log.Passed offset → ∀ row ∈ rows, offset < row.1) :
    Settled ((log.insertRows rows).observe owner id (.inserted rows)) := by
  have old : ∀ {owner' id' rows' applied},
      (owner', id', .updated rows' applied) ∈
        ((log.insertRows rows).observe owner id (.inserted rows)).history →
      (owner', id', .updated rows' applied) ∈ log.history := by
    intro _ _ _ _ mem
    exact (Log.mem_observe.mp mem).resolve_right (by simp)
  refine ⟨?_, ?_, ?_, ?_⟩
  · intro _ _ _ _ mem
    obtain ⟨stores, passed⟩ := settled.stored (old mem)
    refine ⟨Log.stores_insertRows stores ?_, passed⟩
    intro row here row' there
    exact (behind row.1 (passed row here) row' there).ne
  · intro _ _ _ _ _ _ _ _ first second
    exact settled.distinct (old first) (old second)
  · intro _ _ _ _ mem
    apply Log.mem_observe.mpr
    exact .inl (settled.verified ((Log.mem_observe.mp mem).resolve_right (by simp)))
  · apply List.pairwise_append.mpr
    refine ⟨settled.kept, List.pairwise_singleton _ _, ?_⟩
    intro earlier before later here rows' rows'' verified inserted _ row inRows row' inRows'
    rw [List.mem_singleton.mp here] at inserted
    cases inserted
    obtain ⟨owner', id', statement⟩ := earlier
    cases verified
    have passed := (settled.stored (settled.verified before)).2 row inRows
    exact (behind row.1 passed row' inRows').ne

/-- The metadata moves behind rows that were stored at the next offset. -/
theorem updateMetadata {row : Int × Row δ} {rest : List (Int × Row δ)} {logState : LogState}
    (settled : Settled log) (stores : log.Stores (row :: rest)) (isNext : log.isNext row.1 = true)
    (offsets : ∀ other ∈ row :: rest, row.1 ≤ other.1 ∧ other.1 < logState.nextOffset) :
    Settled ((log.updateMetadata logState row.1).observe owner id
      (.updated (row :: rest) (log.isNext row.1))) := by
  have updated : log.updateMetadata logState row.1 = { log with metadata := some logState } := by
    rw [Log.updateMetadata, if_pos isNext]
  have below : ∀ {offset}, log.Passed offset → offset < row.1 := by
    intro offset passed
    obtain ⟨metadata, stored, less⟩ := passed
    simp only [Log.isNext, stored, decide_eq_true_eq] at isNext
    exact isNext ▸ less
  have first := (offsets row List.mem_cons_self).2
  rw [updated]
  refine ⟨?_, ?_, ?_, ?_⟩
  · intro _ _ _ _ mem
    rcases Log.mem_observe.mp mem with before | here
    · obtain ⟨kept, passed⟩ := settled.stored before
      exact ⟨kept, fun other here => ⟨logState, rfl, (below (passed other here)).trans first⟩⟩
    · cases here
      exact ⟨stores, fun other here => ⟨logState, rfl, (offsets other here).2⟩⟩
  · intro _ _ _ _ _ _ _ _ left right one inLeft other inRight same
    rcases Log.mem_observe.mp left with before | here
    · rcases Log.mem_observe.mp right with before' | here
      · exact settled.distinct before before' one inLeft other inRight same
      · cases here
        have := below ((settled.stored before).2 one inLeft)
        have := (offsets other inRight).1
        omega
    · cases here
      rcases Log.mem_observe.mp right with before | here
      · have := below ((settled.stored before).2 other inRight)
        have := (offsets one inLeft).1
        omega
      · cases here
        exact ⟨rfl, rfl⟩
  · intro _ _ _ _ mem
    apply Log.mem_observe.mpr
    exact .inl (settled.verified ((Log.mem_observe.mp mem).resolve_right (by simp)))
  · apply List.pairwise_append.mpr
    refine ⟨settled.kept, List.pairwise_singleton _ _, ?_⟩
    intro earlier before later here rows' rows'' verified inserted
    rw [List.mem_singleton.mp here] at inserted
    cases inserted

theorem observe_verified {found : Bool} (settled : Settled log)
    (updated : (owner, id, .updated rows true) ∈ log.history) :
    Settled (log.observe owner id (.verified rows found)) := by
  have old : ∀ {owner' id' rows' applied},
      (owner', id', .updated rows' applied) ∈
        (log.observe owner id (.verified rows found)).history →
      (owner', id', .updated rows' applied) ∈ log.history := by
    intro _ _ _ _ mem
    exact (Log.mem_observe.mp mem).resolve_right (by simp)
  refine ⟨?_, ?_, ?_, ?_⟩
  · intro _ _ _ _ mem
    exact settled.stored (old mem)
  · intro _ _ _ _ _ _ _ _ first second
    exact settled.distinct (old first) (old second)
  · intro _ _ _ _ mem
    apply Log.mem_observe.mpr
    rcases Log.mem_observe.mp mem with before | here
    · exact .inl (settled.verified before)
    · cases here
      exact .inl updated
  · apply List.pairwise_append.mpr
    refine ⟨settled.kept, List.pairwise_singleton _ _, ?_⟩
    intro earlier before later here rows' rows'' verified inserted
    rw [List.mem_singleton.mp here] at inserted
    cases inserted

theorem create (settled : Settled log) (missing : log.metadata = none) (metadata : LogState) :
    Settled { log with metadata := some metadata } := by
  refine ⟨?_, settled.distinct, settled.verified, settled.kept⟩
  intro _ _ _ _ mem
  obtain ⟨stores, passed⟩ := settled.stored mem
  refine ⟨stores, ?_⟩
  intro row here
  obtain ⟨old, present, _⟩ := passed row here
  rw [missing] at present
  cases present

end Settled

/-! ## The tasks -/

structure Exclusive (shared : SharedLog δ) : Prop where
  settled : Settled shared.log
  held : ∀ {owner wal}, shared.wals.find owner = some wal → wal.Held
  updating : ∀ {owner id entries rows},
    shared.Runs owner id (.flush entries (.updating rows)) →
    shared.log.Stores rows ∧ ∀ row ∈ rows.head?, shared.log.isNext row.1 = true
  alone : ∀ {owner owner' id id' entries entries' rows rows'},
    shared.Runs owner id (.flush entries (.updating rows)) →
    shared.Runs owner' id' (.flush entries' (.updating rows')) → owner = owner' ∧ id = id'
  verifying : ∀ {owner id entries rows},
    shared.Runs owner id (.flush entries (.verifying rows)) →
    (owner, id, .updated rows true) ∈ shared.log.history

/-- The task is not between its insertion and its verification. -/
def Task.Idle : Task δ → Prop
  | .flush _ (.updating _) | .flush _ (.verifying _) => False
  | _ => True

namespace Exclusive

variable {shared next : SharedLog δ}

theorem start (initial : shared.Initial) : Exclusive shared := by
  obtain ⟨history, created⟩ := initial
  have noTask : ∀ {owner id} {task : Task δ}, ¬ shared.Runs owner id task := by
    intro owner id task runs
    obtain ⟨wal, present, found⟩ := runs
    rw [created owner wal present, CassandraWal.new, find_empty] at found
    cases found
  refine ⟨.of_history_eq_nil history, ?_, ?_, ?_, ?_⟩
  · intro owner wal present
    exact created owner wal present ▸ CassandraWal.held_new
  · intro _ _ _ _ runs
    exact absurd runs noTask
  · intro _ _ _ _ _ _ _ _ runs
    exact absurd runs noTask
  · intro _ _ _ _ runs
    exact absurd runs noTask

variable {owner id : Nat} {wal wal' : CassandraWal δ} {entries : List (BufferedEntry δ)}

theorem held_insert (exclusive : Exclusive shared) (held : wal'.Held)
    (wals : next.wals = shared.wals.insert owner wal') {other : Nat} {current : CassandraWal δ}
    (present : next.wals.find other = some current) : current.Held := by
  rw [wals, find_insert] at present
  split at present
  next =>
    cases present
    exact held
  next => exact exclusive.held present

/-- The task becomes idle or stays where it was, and the log keeps what the
other flushes know of it. -/
theorem rest (exclusive : Exclusive shared) (settled : Settled next.log)
    (held : ∀ {owner wal}, next.wals.find owner = some wal → wal.Held)
    (old : ∀ {owner id task}, next.Runs owner id task → task.Idle ∨ shared.Runs owner id task)
    (rows : next.log.rows = shared.log.rows)
    (isNext : ∀ {offset}, shared.log.isNext offset = true → next.log.isNext offset = true)
    (history : ∀ statement ∈ shared.log.history, statement ∈ next.log.history) :
    Exclusive next := by
  have before : ∀ {owner id task}, next.Runs owner id task → ¬ task.Idle →
      shared.Runs owner id task := by
    intro owner id task runs active
    exact (old runs).resolve_left active
  refine ⟨settled, held, ?_, ?_, ?_⟩
  · intro _ _ _ _ runs
    obtain ⟨stores, first⟩ := exclusive.updating (before runs id)
    refine ⟨?_, fun row head => isNext (first row head)⟩
    intro row mem
    rw [rows]
    exact stores row mem
  · intro _ _ _ _ _ _ _ _ first second
    exact exclusive.alone (before first id) (before second id)
  · intro _ _ _ _ runs
    exact history _ (exclusive.verifying (before runs id))

theorem insert {rows : List (Int × Row δ)} (exclusive : Exclusive shared)
    (present : shared.wals.find owner = some wal)
    (found : wal.tasks.find id = some (.flush entries (.inserting rows)))
    (current : shared.Current (.flush entries (.inserting rows)))
    (wals : next.wals = shared.wals.insert owner
      (wal.put id (.flush entries (.updating rows))))
    (log : next.log = (shared.log.insertRows rows).observe owner id (.inserted rows))
    (held : (wal.put id (.flush entries (.updating rows))).Held) : Exclusive next := by
  have old := @SharedLog.runs_of_insert _ _ _ _ id _ _ _ present wals rfl
  obtain ⟨row, rest, _, rfl, _, distinct, offsets⟩ := (exclusive.held present _ _ found).2.offsets
  obtain ⟨isNext, noneUpdating⟩ := current
  have alone : ∀ {owner' id' entries' rows'},
      next.Runs owner' id' (.flush entries' (.updating rows')) →
      owner' = owner ∧ id' = id ∧ rows' = row :: rest := by
    intro _ _ _ _ runs
    rcases old runs with ⟨sameOwner, sameTask, same⟩ | before
    · cases same
      exact ⟨sameOwner, sameTask, rfl⟩
    · exact absurd before.2 (SharedLog.not_updating_of_noneUpdating noneUpdating)
  have behind : ∀ offset, shared.log.Passed offset → ∀ other ∈ row :: rest, offset < other.1 := by
    intro offset passed other mem
    obtain ⟨metadata, stored, less⟩ := passed
    have first := (offsets other mem).1
    simp only [Log.isNext, stored, decide_eq_true_eq] at isNext
    omega
  refine ⟨?_, exclusive.held_insert held wals, ?_, ?_, ?_⟩
  · rw [log]
    exact exclusive.settled.insertRows behind
  · intro _ _ _ _ runs
    obtain ⟨_, _, rfl⟩ := alone runs
    rw [log]
    refine ⟨?_, ?_⟩
    · intro other mem
      exact find_foldl_insert_of_mem _ distinct mem
    · intro first head
      cases head
      exact isNext
  · intro _ _ _ _ _ _ _ _ first second
    obtain ⟨rfl, rfl, _⟩ := alone first
    obtain ⟨rfl, rfl, _⟩ := alone second
    exact ⟨rfl, rfl⟩
  · intro _ _ _ _ runs
    rw [log, Log.mem_observe]
    rcases old runs with here | before
    · cases here.2.2
    · exact .inl (exclusive.verifying before.2)

theorem update {row : Int × Row δ} {rest : List (Int × Row δ)} {logState : LogState}
    (exclusive : Exclusive shared) (present : shared.wals.find owner = some wal)
    (found : wal.tasks.find id = some (.flush entries (.updating (row :: rest))))
    (state : wal.state = .synced logState)
    (wals : next.wals = shared.wals.insert owner
      (wal.put id (.flush entries (.verifying (row :: rest)))))
    (log : next.log = (shared.log.updateMetadata logState row.1).observe owner id
      (.updated (row :: rest) (shared.log.isNext row.1)))
    (held : (wal.put id (.flush entries (.verifying (row :: rest)))).Held) :
    Exclusive next := by
  have old := @SharedLog.runs_of_insert _ _ _ _ id _ _ _ present wals rfl
  obtain ⟨_, _, _, split, same, _, offsets⟩ := (exclusive.held present _ _ found).2.offsets
  cases split
  cases state.symm.trans same
  have runs : shared.Runs owner id (.flush entries (.updating (row :: rest))) :=
    ⟨wal, present, found⟩
  obtain ⟨stores, head⟩ := exclusive.updating runs
  have isNext := head row rfl
  have noOther : ∀ {owner' id' entries' rows'},
      ¬ next.Runs owner' id' (.flush entries' (.updating rows')) := by
    intro _ _ _ _ runs'
    rcases old runs' with here | before
    · cases here.2.2
    · obtain ⟨rfl, rfl⟩ := exclusive.alone before.2 runs
      exact before.1 ⟨rfl, rfl⟩
  refine ⟨?_, exclusive.held_insert held wals, ?_, ?_, ?_⟩
  · rw [log]
    exact exclusive.settled.updateMetadata stores isNext offsets
  · intro _ _ _ _ runs'
    exact absurd runs' noOther
  · intro _ _ _ _ _ _ _ _ runs'
    exact absurd runs' noOther
  · intro _ _ _ _ runs'
    rw [log, Log.mem_observe, isNext]
    rcases old runs' with ⟨rfl, rfl, same⟩ | before
    · cases same
      exact .inr rfl
    · have known := exclusive.verifying before.2
      refine .inl ?_
      rw [Log.updateMetadata, if_pos isNext]
      exact known

theorem idle_or_runs {task : Task δ} (present : shared.wals.find owner = some wal)
    (wals : next.wals = shared.wals.insert owner wal')
    (tasks : wal'.tasks = wal.tasks.insert id task) (idle : task.Idle) {other number : Nat}
    {current : Task δ} (runs : next.Runs other number current) :
    current.Idle ∨ shared.Runs other number current := by
  rcases SharedLog.runs_of_insert present wals tasks runs with here | before
  · exact .inl (here.2.2 ▸ idle)
  · exact .inr before.2

/-- A move that leaves the log alone and ends with an idle task. -/
theorem quiet {task : Task δ} (exclusive : Exclusive shared)
    (present : shared.wals.find owner = some wal) (held : wal'.Held)
    (wals : next.wals = shared.wals.insert owner wal') (log : next.log = shared.log)
    (tasks : wal'.tasks = wal.tasks.insert id task) (idle : task.Idle) : Exclusive next := by
  apply exclusive.rest (log ▸ exclusive.settled) (exclusive.held_insert held wals)
    (idle_or_runs present wals tasks idle)
  · rw [log]
  · rw [log]
    exact fun isNext => isNext
  · rw [log]
    exact fun _ mem => mem

theorem verify {rows : List (Int × Row δ)} {res : Bool} {task : Task δ}
    (exclusive : Exclusive shared) (present : shared.wals.find owner = some wal)
    (found : wal.tasks.find id = some (.flush entries (.verifying rows))) (held : wal'.Held)
    (wals : next.wals = shared.wals.insert owner wal')
    (log : next.log = shared.log.observe owner id (.verified rows res))
    (tasks : wal'.tasks = wal.tasks.insert id task) (idle : task.Idle) : Exclusive next := by
  have updated := exclusive.verifying ⟨wal, present, found⟩
  apply exclusive.rest (log ▸ exclusive.settled.observe_verified updated)
    (exclusive.held_insert held wals) (idle_or_runs present wals tasks idle)
  · rw [log]
    rfl
  · rw [log]
    exact fun isNext => isNext
  · intro statement mem
    rw [log, Log.mem_observe]
    exact .inl mem

theorem idle_trimFrom (wal : CassandraWal δ) (offset : Int) : (wal.trimFrom offset).Idle := by
  unfold CassandraWal.trimFrom
  split
  next => trivial
  next =>
    split
    next => trivial
    next =>
      split <;> trivial

theorem step {label : Nat × Label δ} (exclusive : Exclusive shared)
    (fences : shared.Fences label) (taken : shared.step label = some next) : Exclusive next := by
  obtain ⟨owner, label⟩ := label
  obtain ⟨wal, wal', present, moves, wals⟩ := SharedLog.moves_of_step taken
  have held := (exclusive.held present).moves moves
  have current : ∀ {id task}, label = .run id → wal.tasks.find id = some task →
      shared.Current task := by
    intro id task same found
    subst same
    apply fences.2
    rw [Option.mem_def, SharedLog.taskOf, present]
    exact found
  have succeeds := fences.1
  generalize after : next.log = log at moves
  cases moves with
  | append =>
    apply exclusive.rest (after ▸ exclusive.settled) (exclusive.held_insert held wals)
    · intro other number task runs
      exact .inr (SharedLog.runs_of_tasks_eq present wals rfl runs)
    · rw [after]
    · rw [after]
      exact fun isNext => isNext
    · rw [after]
      exact fun _ mem => mem
  | drain | refuse | number | notify | beginSync | select | miss =>
    exact exclusive.quiet present held wals after rfl trivial
  | spawn unbuffered =>
    cases unbuffered with
    | sync | trim => exact exclusive.quiet present held wals after rfl trivial
  | insert found => exact exclusive.insert present found (current rfl found) wals after held
  | update found state => exact exclusive.update present found state wals after held
  | verify found | lose found => exact exclusive.verify present found held wals after rfl trivial
  | create found =>
    have missing : shared.log.metadata = none := current rfl found
    apply exclusive.rest (after ▸ exclusive.settled.create missing _)
      (exclusive.held_insert held wals) (idle_or_runs present wals rfl trivial)
    · rw [after]
    · intro offset isNext
      rw [Log.isNext, missing] at isNext
      cases isNext
    · rw [after]
      exact fun _ mem => mem
  | beginTrim =>
    exact exclusive.quiet present held wals after rfl (idle_trimFrom wal _)
  | trim found => exact absurd (current rfl found) id
  | failInsert | failUpdate | failVerify | failSelect | failCreate | failTrim =>
    exact absurd succeeds id

end Exclusive

/-! ## Runs -/

/-- Fencing in every run whose writes find the metadata they were prepared for. -/
theorem fenced_of_reachable {shared : SharedLog δ}
    (reached : Reachable SharedLog.step SharedLog.Fences SharedLog.Initial shared) :
    Fenced shared.log := by
  have exclusive : Exclusive shared := by
    apply reached.invariant
    · exact fun _ => Exclusive.start
    · exact fun _ _ _ exclusive fences taken => exclusive.step fences taken
  exact exclusive.settled.fenced

def twoInstances : SharedLog Unit :=
  ⟨⟨none, ∅, []⟩, ((∅ : HashMap Nat (CassandraWal Unit)).insert 0 .new).insert 1 .new⟩

theorem initial_twoInstances : twoInstances.Initial := by
  refine ⟨rfl, ?_⟩
  intro owner wal found
  simp only [twoInstances, find_insert, find_empty] at found
  split at found
  next =>
    cases found
    rfl
  next =>
    split at found
    next =>
      cases found
      rfl
    next => cases found

/-- The first call of `sync` creates the metadata row, the second one reads it. -/
def syncBoth : List (Nat × Label Unit) :=
  [(0, .sync 0), (0, .run 0), (0, .run 0), (0, .run 0), (1, .sync 0), (1, .run 0), (1, .run 0)]

/-- Both instances were synced at offset 0; the rows of the first flush are
overwritten after they were verified, and the second flush verifies its own. -/
theorem verified_row_overwritten :
    ∃ shared : SharedLog Unit,
      Reachable SharedLog.step SharedLog.Succeeds SharedLog.Initial shared ∧
      ¬ shared.log.history.Pairwise Clear ∧
      ∃ row row', (0, 1, .verified [(0, row)] true) ∈ shared.log.history ∧
        (1, 1, .verified [(0, row')] true) ∈ shared.log.history ∧
        (1, 1, .updated [(0, row')] true) ∉ shared.log.history := by
  let row : Row Unit := ⟨(.prepare, ()), 10⟩
  let row' : Row Unit := ⟨(.prepare, ()), 11⟩
  let history : List (Nat × Nat × Statement Unit) :=
    [(0, 1, .inserted [(0, row)]), (0, 1, .updated [(0, row)] true),
      (0, 1, .verified [(0, row)] true), (1, 1, .inserted [(0, row')]),
      (1, 1, .updated [(0, row')] false), (1, 1, .verified [(0, row')] true)]
  obtain ⟨shared, reached, passed⟩ := @exists_reachable_of_run _ _ SharedLog.step
    SharedLog.Succeeds _ _ _ initial_twoInstances
    (syncBoth ++
      [(0, .append .prepare ()), (0, .flush 1), (0, .lock 1 [10]),
        (1, .append .prepare ()), (1, .flush 1), (1, .lock 1 [11]),
        (0, .run 1), (0, .run 1), (0, .run 1), (1, .run 1), (1, .run 1), (1, .run 1)])
    (fun shared => decide (shared.log.history = history)) (by decide +kernel)
  have same : shared.log.history = history := of_decide_eq_true passed
  refine ⟨shared, reached, ?_, row, row', ?_, ?_, ?_⟩
  · rw [same]
    intro kept
    have apart := List.pairwise_iff_getElem.mp kept 2 3 (by decide) (by decide) (by decide)
    exact apart _ _ rfl rfl (by decide) (0, row) List.mem_cons_self (0, row')
      List.mem_cons_self rfl
  · rw [same]
    decide +kernel
  · rw [same]
    decide +kernel
  · rw [same]
    decide +kernel

/-- The second instance is synced after the first one has flushed, and flushes behind it. -/
theorem fenced_of_reachable_handover :
    ∃ shared : SharedLog Unit,
      Reachable SharedLog.step SharedLog.Fences SharedLog.Initial shared ∧
      (0, 1, .verified [(0, ⟨(.prepare, ()), 10⟩)] true) ∈ shared.log.history ∧
      (1, 1, .verified [(1, ⟨(.commit, ()), 11⟩)] true) ∈ shared.log.history ∧
      Fenced shared.log := by
  obtain ⟨shared, reached, passed⟩ := @exists_reachable_of_run _ _ SharedLog.step
    SharedLog.Fences _ _ _ initial_twoInstances
    [(0, .sync 0), (0, .run 0), (0, .run 0), (0, .run 0), (0, .append .prepare ()),
      (0, .flush 1), (0, .lock 1 [10]), (0, .run 1), (0, .run 1), (0, .run 1),
      (1, .sync 0), (1, .run 0), (1, .run 0), (1, .append .commit ()), (1, .flush 1),
      (1, .lock 1 [11]), (1, .run 1), (1, .run 1), (1, .run 1)]
    (fun shared => decide
      ((0, 1, .verified [(0, ⟨(.prepare, ()), 10⟩)] true) ∈ shared.log.history ∧
        (1, 1, .verified [(1, ⟨(.commit, ()), 11⟩)] true) ∈ shared.log.history))
    (by decide +kernel)
  have verified := of_decide_eq_true passed
  exact ⟨shared, reached, verified.1, verified.2, fenced_of_reachable reached⟩

end Sangria.RangeServer.Wal
