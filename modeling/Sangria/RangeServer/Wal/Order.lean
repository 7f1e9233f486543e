import Sangria.Lib.TransitionSystem
import Sangria.RangeServer.Wal.Numbering

/-!
# Log order and append order

The buffer is drained under one lock and the offsets are given under another, so
that two flushes can pass each other in between.  With at most one drained flush
in front of the write lock the log is a prefix of what was appended, and all of
it once the flushes have returned.
-/

namespace Sangria.RangeServer.Wal

open FiniteMap
open TransitionSystem

universe u

variable {δ : Type u}
variable {waiting flying : List (BufferedEntry δ)} {id : Nat} {metadata : LogState}


namespace Log

/-- The first offset of a log, where an empty one begins with its next entry. -/
def base (metadata : LogState) : Int := metadata.firstOffset.getD metadata.nextOffset

/-- The contents of the rows from `first_offset` to `next_offset - 1`. -/
def contents (log : Log δ) : List (Option (Entry × δ)) :=
  match log.metadata with
  | none => []
  | some metadata =>
    (List.range (metadata.nextOffset - base metadata).toNat).map fun index : Nat =>
      (log.rows.find (base metadata + index)).map Row.content

variable {log : Log δ} {metadata : LogState}

theorem contents_congr {log' : Log δ} (stored : log.metadata = some metadata)
    (stored' : log'.metadata = some metadata)
    (same : ∀ offset, offset < metadata.nextOffset →
      log'.rows.find offset = log.rows.find offset) : log'.contents = log.contents := by
  rw [contents, contents, stored, stored']
  apply List.map_congr_left
  intro index bound
  rw [List.mem_range] at bound
  rw [same]
  omega

end Log

namespace CassandraWal

theorem contents_advance {log : Log δ} {metadata : LogState} {entries : List (BufferedEntry δ)}
    {writeIds : List Uuid} (stored : log.metadata = some metadata)
    (begun : Log.base metadata ≤ metadata.nextOffset)
    (count : writeIds.length = entries.length)
    (rows : ∀ row ∈ number metadata.nextOffset entries writeIds,
      log.rows.find row.1 = some row.2) :
    Log.contents { log with metadata := some (advance metadata entries.length) } =
      log.contents ++ entries.map fun entry => some entry.content := by
  have length : (metadata.nextOffset + entries.length - Log.base metadata).toNat =
      (metadata.nextOffset - Log.base metadata).toNat + entries.length := by omega
  have offsets := map_offset_number metadata.nextOffset entries writeIds count
  have contents := map_content_number metadata.nextOffset entries writeIds count
  simp only [Log.contents, stored]
  change (List.range (metadata.nextOffset + entries.length - Log.base metadata).toNat).map
    (fun index : Nat => (log.rows.find (Log.base metadata + index)).map Row.content) = _
  rw [length, List.range_add, List.map_append, List.map_map]
  congr 1
  calc (List.range entries.length).map _
      = ((List.range entries.length).map fun index : Nat => metadata.nextOffset + index).map
          fun offset => (log.rows.find offset).map Row.content := by
        rw [List.map_map]
        apply List.map_congr_left
        intro index _
        simp only [Function.comp_apply]
        congr 2
        omega
    _ = (number metadata.nextOffset entries writeIds).map fun row => some row.2.content := by
        rw [← offsets, List.map_map]
        apply List.map_congr_left
        intro row mem
        simp only [Function.comp_apply, rows row mem, Option.map_some]
    _ = entries.map fun entry => some entry.content := by
        change _ = entries.map (some ∘ BufferedEntry.content)
        rw [← List.map_map, ← contents, List.map_map]
        rfl

end CassandraWal

/-! ## Runs of one instance -/

def oneStep (owner : Nat) (pair : Log δ × CassandraWal δ) (label : Label δ) :
    Option (Log δ × CassandraWal δ) :=
  pair.2.step owner pair.1 label

/-- The instance has just been synced with a log that has the entries `old`. -/
structure JustSynced (old : List (Entry × δ)) (pair : Log δ × CassandraWal δ) : Prop where
  state : ∃ metadata, pair.1.metadata = some metadata ∧ pair.2.state = .synced metadata ∧
    Log.base metadata ≤ metadata.nextOffset
  contents : pair.1.contents = old.map some
  writer : pair.2.writer = none
  tasks : pair.2.tasks = ∅
  buffer : pair.2.buffer = []
  appended : pair.2.appended = []

/-- Entries are appended and flushed, and all statements succeed. -/
def Appends (_ : Log δ × CassandraWal δ) : Label δ → Prop
  | .fail .. | .sync .. | .trim .. => False
  | _ => True

instance (pair : Log δ × CassandraWal δ) (label : Label δ) : Decidable (Appends pair label) := by
  unfold Appends
  split <;> infer_instance

def Task.isLocking : Task δ → Bool
  | .flush _ .locking => true
  | _ => false

/-- The buffer is drained only when no drained flush waits for the write lock. -/
def DrainsAlone (pair : Log δ × CassandraWal δ) : Label δ → Prop
  | .flush _ => ∀ id ∈ pair.2.tasks.keys,
      ((pair.2.tasks.find id).all fun task => !task.isLocking) = true
  | label => Appends pair label

instance (pair : Log δ × CassandraWal δ) (label : Label δ) :
    Decidable (DrainsAlone pair label) := by
  unfold DrainsAlone
  split <;> infer_instance

/-! ## The invariant -/

/-- The flush that has the write lock, and its entries that are not yet counted
by the metadata. -/
inductive Flying (log : Log δ) (wal : CassandraWal δ) (metadata : LogState) :
    List (BufferedEntry δ) → Prop where
  | idle (free : wal.writer = none) (state : wal.state = .synced metadata) :
      Flying log wal metadata []
  | inserting {id : Nat} {entries : List (BufferedEntry δ)} {writeIds : List Uuid}
      (count : writeIds.length = entries.length) (locked : wal.writer = some id)
      (found : wal.tasks.find id = some (.flush entries
        (.inserting (CassandraWal.number metadata.nextOffset entries writeIds))))
      (state : wal.state = .synced (CassandraWal.advance metadata entries.length)) :
      Flying log wal metadata entries
  | updating {id : Nat} {entries : List (BufferedEntry δ)} {writeIds : List Uuid}
      (count : writeIds.length = entries.length) (locked : wal.writer = some id)
      (found : wal.tasks.find id = some (.flush entries
        (.updating (CassandraWal.number metadata.nextOffset entries writeIds))))
      (state : wal.state = .synced (CassandraWal.advance metadata entries.length))
      (rows : ∀ row ∈ CassandraWal.number metadata.nextOffset entries writeIds,
        log.rows.find row.1 = some row.2) :
      Flying log wal metadata entries
  | verifying {id : Nat} {entries : List (BufferedEntry δ)} {row : Int × Row δ}
      {rest : List (Int × Row δ)} (locked : wal.writer = some id)
      (found : wal.tasks.find id = some (.flush entries (.verifying (row :: rest))))
      (state : wal.state = .synced metadata) (retrieved : log.retrieves row = true) :
      Flying log wal metadata []

def Task.isNumbered : Task δ → Bool
  | .flush _ (.inserting _) | .flush _ (.updating _) | .flush _ (.verifying _) => true
  | _ => false

/-- The entries of the flush in front of the write lock. -/
inductive Waiting (wal : CassandraWal δ) : List (BufferedEntry δ) → Prop where
  | nobody (absent : ∀ id entries, wal.tasks.find id ≠ some (.flush entries .locking)) :
      Waiting wal []
  | one {id : Nat} {entries : List (BufferedEntry δ)}
      (found : wal.tasks.find id = some (.flush entries .locking))
      (alone : ∀ other entries', wal.tasks.find other = some (.flush entries' .locking) →
        other = id) : Waiting wal entries

structure Ordered (old : List (Entry × δ)) (log : Log δ) (wal : CassandraWal δ) : Prop where
  held : wal.Held
  flushes : ∀ {id task}, wal.tasks.find id = some task →
    ∃ entries stage, task = .flush entries stage
  order : ∃ written flying waiting metadata, log.metadata = some metadata ∧
    Log.base metadata ≤ metadata.nextOffset ∧ Flying log wal metadata flying ∧
    Waiting wal waiting ∧ wal.appended = written ++ flying ++ waiting ++ wal.buffer ∧
    log.contents = (old ++ written.map BufferedEntry.content).map some

variable {log log' : Log δ} {wal wal' : CassandraWal δ} {old : List (Entry × δ)}

theorem Waiting.transfer (queue : Waiting wal waiting)
    (same : ∀ id entries, wal'.tasks.find id = some (.flush entries .locking) ↔
      wal.tasks.find id = some (.flush entries .locking)) : Waiting wal' waiting := by
  cases queue with
  | nobody absent =>
    exact .nobody fun id entries found => absent id entries ((same id entries).mp found)
  | one found alone =>
    exact .one ((same _ _).mpr found) fun other entries here =>
      alone other entries ((same other entries).mp here)

theorem locking_iff_of_insert {before next : Task δ}
    (found : wal.tasks.find id = some before) (tasks : wal'.tasks = wal.tasks.insert id next)
    (wasNot : before.isLocking = false) (isNot : next.isLocking = false) (other : Nat)
    (entries : List (BufferedEntry δ)) :
    wal'.tasks.find other = some (.flush entries .locking) ↔
      wal.tasks.find other = some (.flush entries .locking) := by
  rw [tasks, find_insert]
  split
  next same =>
    subst same
    rw [found]
    constructor
    · intro equal
      cases equal
      cases isNot
    · intro equal
      cases equal
      cases wasNot
  next => rfl

theorem Flying.transfer (flight : Flying log wal metadata flying) (state : wal'.state = wal.state)
    (writer : wal'.writer = wal.writer)
    (tasks : ∀ id task, wal.tasks.find id = some task → task.isNumbered = true →
      wal'.tasks.find id = some task) :
    Flying log wal' metadata flying := by
  cases flight with
  | idle free synced => exact .idle (writer.trans free) (state.trans synced)
  | inserting count locked found synced =>
    exact .inserting count (writer.trans locked) (tasks _ _ found rfl)
      (state.trans synced)
  | updating count locked found synced rows =>
    exact .updating count (writer.trans locked) (tasks _ _ found rfl)
      (state.trans synced) rows
  | verifying locked found synced retrieved =>
    exact .verifying (writer.trans locked) (tasks _ _ found rfl)
      (state.trans synced) retrieved

theorem Flying.of_free (flight : Flying log wal metadata flying) (free : wal.writer = none) :
    flying = [] ∧ wal.state = .synced metadata := by
  cases flight with
  | idle _ synced => exact ⟨rfl, synced⟩
  | inserting _ locked | updating _ locked | verifying locked =>
    rw [free] at locked
    cases locked

theorem Waiting.eq_of_locking {entries : List (BufferedEntry δ)}
    (queue : Waiting wal waiting) (found : wal.tasks.find id = some (.flush entries .locking)) :
    waiting = entries ∧ ∀ other entries',
      wal.tasks.find other = some (.flush entries' .locking) → other = id := by
  cases queue with
  | nobody absent => exact absurd found (absent id entries)
  | one found' alone =>
    cases alone id entries found
    cases found'.symm.trans found
    exact ⟨rfl, alone⟩

namespace Ordered

variable {id owner : Nat} {entries : List (BufferedEntry δ)} {row : Int × Row δ}
  {rest rows : List (Int × Row δ)} {logState : LogState} {pair : Log δ × CassandraWal δ}

theorem flushes_insert {stage : FlushStage δ} (ordered : Ordered old log wal)
    (tasks : wal'.tasks = wal.tasks.insert id (.flush entries stage)) {other : Nat} {task : Task δ}
    (found : wal'.tasks.find other = some task) : ∃ entries stage, task = .flush entries stage := by
  rw [tasks, find_insert] at found
  split at found
  next =>
    cases found
    exact ⟨entries, stage, rfl⟩
  next => exact ordered.flushes found

theorem append (ordered : Ordered old log wal) (entryType : Entry) (data : δ) :
    Ordered old log (wal.appendEntry entryType data) := by
  obtain ⟨written, flying, waiting, metadata, stored, begun, flight, queue, appended, contents⟩ :=
    ordered.order
  refine ⟨ordered.held, ordered.flushes, written, flying, waiting, metadata, stored, begun,
    flight.transfer rfl rfl fun _ _ found _ => found, queue.transfer fun _ _ => Iff.rfl, ?_,
    contents⟩
  simp only [CassandraWal.appendEntry, appended, List.append_assoc]

theorem drain (ordered : Ordered old log wal)
    (alone : DrainsAlone (log, wal) (.flush id)) (unused : wal.tasks.find id = none)
    (held : ({ wal with buffer := [] }.put id (.flush wal.buffer .locking)).Held) :
    Ordered old log ({ wal with buffer := [] }.put id (.flush wal.buffer .locking)) := by
  obtain ⟨written, flying, waiting, metadata, stored, begun, flight, queue, appended, contents⟩ :=
    ordered.order
  have nobody : ∀ other entries, wal.tasks.find other ≠ some (.flush entries .locking) := by
    intro other entries found
    have := alone other (mem_keys.mpr ⟨_, found⟩)
    rw [found] at this
    cases this
  have empty : waiting = [] := by
    cases queue with
    | nobody => rfl
    | one found => exact absurd found (nobody _ _)
  subst empty
  refine ⟨held, ordered.flushes_insert rfl, written, flying, wal.buffer, metadata, stored, begun,
    flight.transfer rfl rfl ?_, @Waiting.one _ _ id _ ?_ ?_, ?_, contents⟩
  · intro other task found _
    change find (wal.tasks.insert id _) other = _
    rw [find_insert, if_neg]
    · exact found
    · intro same
      rw [same, unused] at found
      cases found
  · exact find_insert_self ..
  · intro other entries found
    change find (wal.tasks.insert id _) other = _ at found
    rw [find_insert] at found
    split at found
    next same => exact same
    next => exact absurd found (nobody other entries)
  · simpa [CassandraWal.put] using appended

theorem number {writeIds : List Uuid} (ordered : Ordered old log wal)
    (found : wal.tasks.find id = some (.flush entries .locking)) (free : wal.writer = none)
    (state : wal.state = .synced logState) (count : writeIds.length = entries.length)
    (after : wal' = { wal with
      state := .synced (CassandraWal.advance logState entries.length)
      writer := some id }.put id
        (.flush entries (.inserting (CassandraWal.number logState.nextOffset entries writeIds))))
    (held : wal'.Held) : Ordered old log wal' := by
  subst after
  obtain ⟨written, flying, waiting, metadata, stored, begun, flight, queue, appended, contents⟩ :=
    ordered.order
  obtain ⟨rfl, synced⟩ := flight.of_free free
  obtain ⟨rfl, alone⟩ := queue.eq_of_locking found
  cases state.symm.trans synced
  refine ⟨held, ordered.flushes_insert rfl, written, waiting, [], _, stored, begun,
    .inserting count rfl (find_insert_self ..) rfl, .nobody ?_, ?_, contents⟩
  · intro other entries' here
    change find (wal.tasks.insert id _) other = _ at here
    rw [find_insert] at here
    split at here
    next => cases here
    next ne => exact ne (alone other entries' here)
  · simpa [CassandraWal.put] using appended

theorem insert (ordered : Ordered old log wal)
    (found : wal.tasks.find id = some (.flush entries (.inserting rows)))
    (held : (wal.put id (.flush entries (.updating rows))).Held) :
    Ordered old ((log.insertRows rows).observe owner id (.inserted rows))
      (wal.put id (.flush entries (.updating rows))) := by
  obtain ⟨written, flying, waiting, metadata, stored, begun, flight, queue, appended, contents⟩ :=
    ordered.order
  have locked := (ordered.held id _ found).1
  cases flight with
  | idle free =>
    rw [free] at locked
    cases locked
  | inserting count locked' found' state =>
    cases locked.symm.trans locked'
    cases found.symm.trans found'
    refine ⟨held, ordered.flushes_insert rfl, written, entries, waiting, metadata, stored, begun,
      .updating count locked (find_insert_self ..) state ?_,
      queue.transfer (locking_iff_of_insert found rfl rfl rfl), appended, ?_⟩
    · intro row mem
      exact find_foldl_insert_of_mem _ (CassandraWal.nodup_number _ count) mem
    · rw [← contents]
      refine Log.contents_congr stored (show _ = some metadata from stored) ?_
      intro offset before
      change find (List.foldl _ log.rows _) offset = _
      rw [find_foldl_insert_of_notMem]
      intro inside
      have := (CassandraWal.mem_offset_number count inside).1
      omega
  | updating _ locked' found' | verifying locked' found' =>
    cases locked.symm.trans locked'
    cases found.symm.trans found'

theorem update (ordered : Ordered old log wal)
    (found : wal.tasks.find id = some (.flush entries (.updating (row :: rest))))
    (synced : wal.state = .synced logState)
    (held : (wal.put id (.flush entries (.verifying (row :: rest)))).Held) :
    Ordered old ((log.updateMetadata logState row.1).observe owner id
        (.updated (row :: rest) (log.isNext row.1)))
      (wal.put id (.flush entries (.verifying (row :: rest)))) := by
  obtain ⟨written, flying, waiting, metadata, stored, begun, flight, queue, appended, contents⟩ :=
    ordered.order
  have locked := (ordered.held id _ found).1
  cases flight with
  | idle free =>
    rw [free] at locked
    cases locked
  | inserting _ locked' found' | verifying locked' found' =>
    cases locked.symm.trans locked'
    cases found.symm.trans found'
  | @updating _ _ writeIds count locked' found' state rows =>
    cases locked.symm.trans locked'
    cases synced.symm.trans state
    rw [found] at found'
    simp only [Option.some.injEq, Task.flush.injEq, FlushStage.updating.injEq] at found'
    obtain ⟨rfl, numbered⟩ := found'
    have isNext : log.isNext row.1 = true := by
      rw [Log.isNext, stored, CassandraWal.head_number numbered]
      exact decide_eq_true rfl
    have updated : log.updateMetadata (CassandraWal.advance metadata entries.length) row.1 =
        { log with metadata := some (CassandraWal.advance metadata entries.length) } := by
      rw [Log.updateMetadata, if_pos isNext]
    rw [updated]
    refine ⟨held, ordered.flushes_insert rfl, written ++ entries, [], waiting,
      CassandraWal.advance metadata entries.length, rfl, ?_,
      .verifying locked (find_insert_self ..) state ?_,
      queue.transfer (locking_iff_of_insert found rfl rfl rfl), ?_, ?_⟩
    · change Log.base metadata ≤ metadata.nextOffset + entries.length
      omega
    · have first := rows row (numbered ▸ List.mem_cons_self)
      simp only [Log.retrieves, Log.observe, first, decide_true]
    · simpa [CassandraWal.put] using appended
    · change Log.contents { log with
        metadata := some (CassandraWal.advance metadata entries.length) } = _
      rw [CassandraWal.contents_advance stored begun count rows, contents]
      simp

theorem verify (ordered : Ordered old log wal)
    (found : wal.tasks.find id = some (.flush entries (.verifying (row :: rest))))
    (held : (wal.unlock id (.flush entries (.notifying (row :: rest) (.ok ())))).Held) :
    Ordered old (log.observe owner id (.verified (row :: rest) true))
      (wal.unlock id (.flush entries (.notifying (row :: rest) (.ok ())))) := by
  obtain ⟨written, flying, waiting, metadata, stored, begun, flight, queue, appended, contents⟩ :=
    ordered.order
  have locked := (ordered.held id _ found).1
  cases flight with
  | idle free =>
    rw [free] at locked
    cases locked
  | inserting _ locked' found' | updating _ locked' found' =>
    cases locked.symm.trans locked'
    cases found.symm.trans found'
  | verifying _ _ state =>
    refine ⟨held, ordered.flushes_insert rfl, written, [], waiting, metadata, stored, begun,
      .idle rfl state, queue.transfer (locking_iff_of_insert found rfl rfl rfl), appended,
      contents⟩

theorem retrieves (ordered : Ordered old log wal)
    (found : wal.tasks.find id = some (.flush entries (.verifying (row :: rest)))) :
    log.retrieves row = true := by
  obtain ⟨_, _, _, _, _, _, flight, _, _, _⟩ := ordered.order
  have locked := (ordered.held id _ found).1
  cases flight with
  | idle free =>
    rw [free] at locked
    cases locked
  | inserting _ locked' found' | updating _ locked' found' =>
    cases locked.symm.trans locked'
    cases found.symm.trans found'
  | verifying locked' found' _ retrieved =>
    cases locked.symm.trans locked'
    cases found.symm.trans found'
    exact retrieved

theorem notify {res : Except Error Unit} (ordered : Ordered old log wal)
    (found : wal.tasks.find id = some (.flush entries (.notifying rows res)))
    (held : ((wal.notify entries).put id (.flush entries (.notified rows res))).Held) :
    Ordered old log ((wal.notify entries).put id (.flush entries (.notified rows res))) := by
  obtain ⟨written, flying, waiting, metadata, stored, begun, flight, queue, appended, contents⟩ :=
    ordered.order
  refine ⟨held, ordered.flushes_insert rfl, written, flying, waiting, metadata, stored, begun,
    flight.transfer rfl rfl ?_, queue.transfer (locking_iff_of_insert found rfl rfl rfl), appended,
    contents⟩
  intro other task there numbered
  change find (wal.tasks.insert id _) other = _
  rw [find_insert, if_neg]
  · exact there
  · intro same
    cases (same ▸ there).symm.trans found
    cases numbered

theorem start (synced : JustSynced old pair) : Ordered old pair.1 pair.2 := by
  have noTask : ∀ {id task}, pair.2.tasks.find id ≠ some task := by
    intro id task found
    rw [synced.tasks, find_empty] at found
    cases found
  obtain ⟨metadata, stored, state, begun⟩ := synced.state
  refine ⟨fun _ _ found => absurd found noTask, fun found => absurd found noTask, [], [], [],
    metadata, stored, begun, .idle synced.writer state, .nobody fun _ _ => noTask, ?_, ?_⟩
  · rw [synced.appended, synced.buffer]
    rfl
  · rw [synced.contents, List.map_nil, List.append_nil]

theorem step {next : Log δ × CassandraWal δ} {label : Label δ}
    (ordered : Ordered old pair.1 pair.2) (guard : DrainsAlone pair label)
    (taken : oneStep owner pair label = some next) : Ordered old next.1 next.2 := by
  obtain ⟨log, wal⟩ := pair
  obtain ⟨log', wal'⟩ := next
  have moves := CassandraWal.moves_of_step taken
  have held := ordered.held.moves moves
  cases moves with
  | append entryType data => exact ordered.append entryType data
  | drain _ unused => exact ordered.drain guard unused held
  | spawn unbuffered =>
    cases unbuffered with
    | sync | trim => exact absurd guard id
  | refuse _ free state =>
    obtain ⟨_, _, _, _, _, _, flight, _⟩ := ordered.order
    cases state.symm.trans (flight.of_free free).2
  | number found free state count => exact ordered.number found free state count rfl held
  | insert found => exact ordered.insert found held
  | update found state => exact ordered.update found state held
  | verify found => exact ordered.verify found held
  | lose found lost =>
    rw [ordered.retrieves found] at lost
    cases lost
  | notify found => exact ordered.notify found held
  | beginSync found | select found | miss found | create found | beginTrim found | trim found =>
    obtain ⟨_, _, flush⟩ := ordered.flushes found
    cases flush
  | failInsert | failUpdate | failVerify | failSelect | failCreate | failTrim =>
    exact absurd guard id

/-- When all flushes have returned and the buffer is empty, everything is written. -/
theorem settled (ordered : Ordered old log wal) (empty : wal.buffer = [])
    (returned : ∀ id entries stage, wal.tasks.find id = some (.flush entries stage) →
      ∃ rows res, stage = .notifying rows res ∨ stage = .notified rows res) :
    log.contents = (old ++ wal.appended.map BufferedEntry.content).map some ∧
      ∃ metadata, log.metadata = some metadata ∧ wal.state = .synced metadata := by
  obtain ⟨written, flying, waiting, metadata, stored, begun, flight, queue, appended, contents⟩ :=
    ordered.order
  have nobody : waiting = [] := by
    cases queue with
    | nobody => rfl
    | one found =>
      obtain ⟨_, _, stage⟩ := returned _ _ _ found
      cases stage with
      | inl same | inr same => cases same
  have idle : flying = [] ∧ wal.state = .synced metadata := by
    cases flight with
    | idle _ state => exact ⟨rfl, state⟩
    | inserting _ _ found | updating _ _ found | verifying _ found =>
      obtain ⟨_, _, stage⟩ := returned _ _ _ found
      cases stage with
      | inl same | inr same => cases same
  refine ⟨?_, metadata, stored, idle.2⟩
  rw [contents, appended, nobody, idle.1, empty]
  simp

end Ordered

/-! ## Runs -/

/-- The log has the entries that were there and the first ones that were
appended, in this order; it has all of them when the flushes have returned. -/
structure InOrder (old : List (Entry × δ)) (log : Log δ) (wal : CassandraWal δ) : Prop where
  written : ∃ written, written <+: wal.appended ∧
    log.contents = (old ++ written.map BufferedEntry.content).map some
  settled : wal.buffer = [] →
    (∀ id entries stage, wal.tasks.find id = some (.flush entries stage) →
      ∃ rows result, stage = .notifying rows result ∨ stage = .notified rows result) →
    log.contents = (old ++ wal.appended.map BufferedEntry.content).map some ∧
      ∃ metadata, log.metadata = some metadata ∧ wal.state = .synced metadata

theorem inOrder_of_reachable {old : List (Entry × δ)} {owner : Nat}
    {pair : Log δ × CassandraWal δ}
    (reached : Reachable (oneStep owner) DrainsAlone (JustSynced old) pair) :
    InOrder old pair.1 pair.2 := by
  have ordered : Ordered old pair.1 pair.2 := by
    refine @Reachable.invariant _ _ _ _ _ (fun pair => Ordered old pair.1 pair.2) ?_ ?_ _ reached
    · exact fun _ => Ordered.start
    · exact fun _ _ _ ordered guard taken => ordered.step guard taken
  refine ⟨?_, ordered.settled⟩
  obtain ⟨written, flying, waiting, _, _, _, _, _, appended, contents⟩ := ordered.order
  refine ⟨written, ?_, contents⟩
  rw [appended, List.append_assoc, List.append_assoc]
  exact List.prefix_append ..

def emptySynced : Log Unit × CassandraWal Unit :=
  (⟨some ⟨none, 0⟩, ∅, []⟩, { CassandraWal.new with state := .synced ⟨none, 0⟩ })

theorem justSynced_emptySynced : JustSynced [] emptySynced :=
  ⟨⟨_, rfl, rfl, by decide⟩, rfl, rfl, rfl, rfl, rfl⟩

/-- The second flush takes the write lock before the first one. -/
theorem flushes_pass_each_other :
    ∃ pair : Log Unit × CassandraWal Unit,
      Reachable (oneStep 0) Appends (JustSynced []) pair ∧
      pair.2.appended.map BufferedEntry.content = [(.prepare, ()), (.commit, ())] ∧
      pair.1.contents = [some (.commit, ()), some (.prepare, ())] ∧
      ¬ InOrder [] pair.1 pair.2 := by
  obtain ⟨pair, reached, passed⟩ := @exists_reachable_of_run _ _ (oneStep 0) Appends _ _ _
    justSynced_emptySynced
    [.append .prepare (), .flush 0, .append .commit (), .flush 1, .lock 1 [11], .run 1, .run 1,
      .run 1, .run 1, .lock 0 [10], .run 0, .run 0, .run 0, .run 0]
    (fun pair => decide
      (pair.2.appended.map BufferedEntry.content = [(.prepare, ()), (.commit, ())] ∧
        pair.1.contents = [some (.commit, ()), some (.prepare, ())]))
    (by decide +kernel)
  obtain ⟨appended, contents⟩ := of_decide_eq_true passed
  refine ⟨pair, reached, appended, contents, ?_⟩
  intro inOrder
  obtain ⟨written, initial, same⟩ := inOrder.written
  have starts := initial.map BufferedEntry.content
  rw [List.nil_append, contents] at same
  rw [appended] at starts
  have listed : written.map BufferedEntry.content = [(.commit, ()), (.prepare, ())] :=
    (List.map_inj_right fun _ _ => Option.some.inj).mp same.symm
  rw [listed] at starts
  exact absurd starts (by decide)

/-- The second flush drains the buffer after the first one has the write lock. -/
theorem inOrder_of_reachable_example :
    ∃ pair : Log Unit × CassandraWal Unit,
      Reachable (oneStep 0) DrainsAlone (JustSynced []) pair ∧
      pair.1.contents = [some (.prepare, ()), some (.commit, ())] ∧
      InOrder [] pair.1 pair.2 := by
  obtain ⟨pair, reached, passed⟩ := @exists_reachable_of_run _ _ (oneStep 0) DrainsAlone _ _ _
    justSynced_emptySynced
    [.append .prepare (), .flush 0, .lock 0 [10], .append .commit (), .flush 1, .run 0, .run 0,
      .run 0, .lock 1 [11], .run 1, .run 1, .run 1, .run 0, .run 1]
    (fun pair => decide (pair.1.contents = [some (.prepare, ()), some (.commit, ())]))
    (by decide +kernel)
  exact ⟨pair, reached, of_decide_eq_true passed, inOrder_of_reachable reached⟩

end Sangria.RangeServer.Wal
