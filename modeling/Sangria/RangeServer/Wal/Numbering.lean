import Sangria.RangeServer.Wal.Moves

/-!
# Offsets under the write lock

The rows of a flush have consecutive offsets.  As long as the flush has the write
lock of the state, the next offset of the state is the one behind its rows.
-/

namespace Sangria.RangeServer.Wal

universe u

variable {δ : Type u}

def BufferedEntry.content (entry : BufferedEntry δ) : Entry × δ := (entry.entryType, entry.data)

namespace CassandraWal

theorem map_content_number (offset : Int) (entries : List (BufferedEntry δ))
    (writeIds : List Uuid) (count : writeIds.length = entries.length) :
    (number offset entries writeIds).map (fun row => row.2.content) =
      entries.map BufferedEntry.content := by
  induction entries generalizing offset writeIds with
  | nil => cases writeIds <;> rfl
  | cons _ _ ih =>
    cases writeIds with
    | nil => cases count
    | cons _ others =>
      simp only [number, List.map_cons, ih _ others (Nat.succ.inj count)]
      rfl

theorem map_offset_number (offset : Int) (entries : List (BufferedEntry δ))
    (writeIds : List Uuid) (count : writeIds.length = entries.length) :
    (number offset entries writeIds).map Prod.fst =
      (List.range entries.length).map fun index : Nat => offset + index := by
  induction entries generalizing offset writeIds with
  | nil => cases writeIds <;> rfl
  | cons _ _ ih =>
    cases writeIds with
    | nil => cases count
    | cons _ others =>
      simp only [number, List.map_cons, List.length_cons, List.range_succ_eq_map,
        ih _ others (Nat.succ.inj count), List.map_map]
      congr 1
      · simp
      · apply List.map_congr_left
        intro index _
        simp only [Function.comp_apply, Nat.succ_eq_add_one]
        omega

theorem nodup_number (offset : Int) {entries : List (BufferedEntry δ)} {writeIds : List Uuid}
    (count : writeIds.length = entries.length) :
    ((number offset entries writeIds).map Prod.fst).Nodup := by
  rw [map_offset_number offset entries writeIds count]
  apply List.nodup_range.map
  intro left right same
  exact Int.ofNat.inj (Int.add_left_cancel same)

theorem mem_offset_number {offset : Int} {entries : List (BufferedEntry δ)}
    {writeIds : List Uuid} (count : writeIds.length = entries.length) {other : Int}
    (mem : other ∈ (number offset entries writeIds).map Prod.fst) :
    offset ≤ other ∧ other < offset + entries.length := by
  rw [map_offset_number offset entries writeIds count] at mem
  obtain ⟨index, bound, rfl⟩ := List.mem_map.mp mem
  rw [List.mem_range] at bound
  omega

theorem head_number {offset : Int} {entries : List (BufferedEntry δ)} {writeIds : List Uuid}
    {row : Int × Row δ} {rest : List (Int × Row δ)}
    (same : row :: rest = number offset entries writeIds) : row.1 = offset := by
  unfold number at same
  split at same
  next =>
    cases same
    rfl
  next => cases same

theorem number_ne_nil {offset : Int} {entries : List (BufferedEntry δ)} {writeIds : List Uuid}
    (count : writeIds.length = entries.length) (nonempty : entries ≠ []) :
    number offset entries writeIds ≠ [] := by
  intro empty
  have offsets := map_offset_number offset entries writeIds count
  rw [empty, List.map_nil, eq_comm, List.map_eq_nil_iff, List.range_eq_nil,
    List.length_eq_zero_iff] at offsets
  exact nonempty offsets

end CassandraWal

/-! ## The write lock -/

/-- The rows were numbered from the state, and the state was advanced behind them. -/
def NumberedBy (state : State) (entries : List (BufferedEntry δ)) (rows : List (Int × Row δ)) :
    Prop :=
  entries ≠ [] ∧ ∃ (before : LogState) (writeIds : List Uuid), writeIds.length = entries.length ∧
    rows = CassandraWal.number before.nextOffset entries writeIds ∧
    state = .synced (CassandraWal.advance before entries.length)

/-- The offsets of the rows, from the first one to the next offset of the state. -/
theorem NumberedBy.offsets {state : State} {entries : List (BufferedEntry δ)}
    {rows : List (Int × Row δ)} (numbered : NumberedBy state entries rows) :
    ∃ row rest logState, rows = row :: rest ∧ state = .synced logState ∧
      (rows.map Prod.fst).Nodup ∧
      ∀ other ∈ rows, row.1 ≤ other.1 ∧ other.1 < logState.nextOffset := by
  obtain ⟨nonempty, before, writeIds, count, same, rfl⟩ := numbered
  obtain ⟨row, rest, split⟩ := List.exists_cons_of_ne_nil
    (@CassandraWal.number_ne_nil _ before.nextOffset _ _ count nonempty)
  refine ⟨row, rest, _, same.trans split, rfl, ?_, ?_⟩
  · rw [same]
    exact CassandraWal.nodup_number _ count
  · intro other mem
    rw [same] at mem
    rw [CassandraWal.head_number split.symm]
    exact CassandraWal.mem_offset_number count (List.mem_map_of_mem mem)

def Task.Fits (state : State) (writer : Option Nat) (id : Nat) : Task δ → Prop
  | .flush entries .locking => entries ≠ []
  | .flush entries (.inserting rows) | .flush entries (.updating rows)
  | .flush entries (.verifying rows) => writer = some id ∧ NumberedBy state entries rows
  | .sync .selecting | .sync .initializing => writer = some id
  | _ => True

namespace CassandraWal

def Held (wal : CassandraWal δ) : Prop :=
  ∀ id task, wal.tasks.find id = some task → task.Fits wal.state wal.writer id

theorem held_new : Held (new : CassandraWal δ) := by
  intro id task found
  rw [new, FiniteMap.find_empty] at found
  cases found

end CassandraWal

theorem Task.Fits.transfer {state state' : State} {writer writer' : Option Nat} {id : Nat}
    {task : Task δ} (fits : task.Fits state writer id)
    (kept : writer = some id → writer' = some id ∧ state' = state) :
    task.Fits state' writer' id := by
  unfold Task.Fits at fits ⊢
  split at fits
  next => exact fits
  iterate 3
    next =>
      obtain ⟨mine, numbered⟩ := fits
      obtain ⟨still, same⟩ := kept mine
      exact ⟨still, same ▸ numbered⟩
  iterate 2
    next => exact (kept fits).1
  next => trivial

namespace CassandraWal.Held

variable {wal wal' : CassandraWal δ}

theorem change {id : Nat} {next : Task δ} (held : Held wal)
    (tasks : wal'.tasks = wal.tasks.insert id next)
    (fits : next.Fits wal'.state wal'.writer id)
    (others : ∀ other, other ≠ id → wal.writer = some other →
      wal'.writer = some other ∧ wal'.state = wal.state) : Held wal' := by
  intro other task found
  rw [tasks, FiniteMap.find_insert] at found
  split at found
  next same =>
    cases found
    exact same ▸ fits
  next ne => exact (held other task found).transfer (others other ne)

theorem put {id : Nat} {next : Task δ} (held : Held wal)
    (fits : next.Fits wal.state wal.writer id) : Held (wal.put id next) :=
  held.change rfl fits fun _ _ locked => ⟨locked, rfl⟩

theorem unlock {id : Nat} {next : Task δ} (held : Held wal) (locked : wal.writer = some id)
    (tasks : wal'.tasks = wal.tasks.insert id next) (unlocked : wal'.writer = none)
    (fits : next.Fits wal'.state none id) : Held wal' := by
  apply held.change tasks
  · rw [unlocked]
    exact fits
  · intro other ne mine
    rw [locked] at mine
    exact absurd (Option.some.inj mine).symm ne

theorem lock {id : Nat} {next : Task δ} (held : Held wal) (free : wal.writer = none)
    (tasks : wal'.tasks = wal.tasks.insert id next) (locked : wal'.writer = some id)
    (fits : next.Fits wal'.state (some id) id) : Held wal' := by
  apply held.change tasks
  · rw [locked]
    exact fits
  · intro other ne mine
    rw [free] at mine
    cases mine

theorem writer_of_sync {id : Nat} {stage : SyncStage} (held : Held wal)
    (found : wal.tasks.find id = some (.sync stage))
    (active : stage = .selecting ∨ stage = .initializing) : wal.writer = some id := by
  have fits := held id _ found
  cases active with
  | inl same | inr same =>
    subst same
    exact fits

theorem moves {owner : Nat} {log log' : Log δ} {label : Label δ} (held : Held wal)
    (moves : Moves owner log wal label log' wal') : Held wal' := by
  cases moves with
  | append => exact held
  | drain nonempty => exact held.change rfl nonempty fun _ _ locked => ⟨locked, rfl⟩
  | spawn unbuffered =>
    cases unbuffered with
    | sync | trim => exact held.put trivial
  | refuse | trim | failTrim => exact held.put trivial
  | number found free _ count =>
    exact held.lock free rfl rfl ⟨rfl, held _ _ found, _, _, count, rfl, rfl⟩
  | insert found | update found =>
    have fits := held _ _ found
    exact held.put fits
  | verify found | lose found | failInsert found | failUpdate found | failVerify found =>
    exact held.unlock (held _ _ found).1 rfl rfl trivial
  | notify => exact held.change rfl trivial fun _ _ locked => ⟨locked, rfl⟩
  | beginSync _ free => exact held.lock free rfl rfl rfl
  | select found | failSelect found =>
    exact held.unlock (held.writer_of_sync found (.inl rfl)) rfl rfl trivial
  | miss found => exact held.put (held.writer_of_sync found (.inl rfl))
  | create found | failCreate found =>
    exact held.unlock (held.writer_of_sync found (.inr rfl)) rfl rfl trivial
  | beginTrim =>
    apply held.put
    unfold trimFrom
    split
    next => trivial
    next =>
      split
      next => trivial
      next =>
        split <;> trivial

end CassandraWal.Held

end Sangria.RangeServer.Wal
