import Sangria.RangeServer.Wal.Numbering

/-!
# Acknowledgements

`flush_buffer_inner` sends `Ok(())` to every caller, whatever became of the
flush.  What a caller can conclude from its answer rests on the flushes: none of
them may fail.
-/

namespace Sangria.RangeServer.Wal

open FiniteMap

universe u

variable {δ : Type u}
variable {owner : Nat} {log log' : Log δ} {wal wal' : CassandraWal δ} {label : Label δ}

def Written (owner : Nat) (log : Log δ) (wal : CassandraWal δ) (entry : BufferedEntry δ) : Prop :=
  ∃ id entries rows row, wal.tasks.find id = some (.flush entries (.notified rows (.ok ()))) ∧
    entry ∈ entries ∧ row ∈ rows ∧ row.2.content = entry.content ∧
    (owner, id, .inserted rows) ∈ log.history

/-- A caller is told that its entry is in the log only if it was written, and is
told of the failure of a flush. -/
structure Acknowledged (owner : Nat) (log : Log δ) (wal : CassandraWal δ) : Prop where
  written : ∀ {sender}, wal.completions.find sender = some (.ok ()) →
    ∃ entry, wal.appended[sender]? = some entry ∧ Written owner log wal entry
  failed : ∀ {id entries rows error},
    wal.tasks.find id = some (.flush entries (.notified rows (.error error))) →
    ∀ entry ∈ entries, ∃ error', wal.completions.find entry.completionSender = some (.error error')

/-- The section or statement does not make a flush fail: a flush finds the
instance synced and the first of its rows in the log, and its statements succeed. -/
def CassandraWal.flushSucceeds (log : Log δ) (wal : CassandraWal δ) : Label δ → Bool
  | .lock _ _ => decide (wal.state ≠ .notSynced)
  | .run task =>
    match wal.tasks.find task with
    | some (.flush _ (.verifying (row :: _))) => log.retrieves row
    | _ => true
  | .fail task _ _ =>
    match wal.tasks.find task with
    | some (.flush ..) => false
    | _ => true
  | _ => true

def SharedLog.FlushesSucceed (shared : SharedLog δ) (label : Nat × Label δ) : Prop :=
  ((shared.wals.find label.1).all fun wal => wal.flushSucceeds shared.log label.2) = true

instance (shared : SharedLog δ) (label : Nat × Label δ) :
    Decidable (shared.FlushesSucceed label) :=
  inferInstanceAs (Decidable (_ = _))

/-! ## The invariant -/

/-- The rows of a flush are those of its entries; they are inserted before the
flush goes on, and it does not fail. -/
def Task.Sound (owner id : Nat) (history : List (Nat × Nat × Statement δ)) : Task δ → Prop
  | .flush entries (.inserting rows) =>
    rows.map (fun row => row.2.content) = entries.map BufferedEntry.content
  | .flush entries (.updating rows) | .flush entries (.verifying rows) =>
    rows.map (fun row => row.2.content) = entries.map BufferedEntry.content ∧
      (owner, id, .inserted rows) ∈ history
  | .flush entries (.notifying rows result) | .flush entries (.notified rows result) =>
    rows.map (fun row => row.2.content) = entries.map BufferedEntry.content ∧
      (owner, id, .inserted rows) ∈ history ∧ result = .ok ()
  | _ => True

def Task.entries : Task δ → List (BufferedEntry δ)
  | .flush entries _ => entries
  | _ => []

structure Answered (owner : Nat) (history : List (Nat × Nat × Statement δ))
    (wal : CassandraWal δ) : Prop where
  sound : ∀ {id task}, wal.tasks.find id = some task → task.Sound owner id history
  named : ∀ {id task}, wal.tasks.find id = some task → ∀ entry ∈ task.entries,
    wal.appended[entry.completionSender]? = some entry
  buffered : ∀ entry ∈ wal.buffer, wal.appended[entry.completionSender]? = some entry
  completed : ∀ {sender result}, wal.completions.find sender = some result →
    ∃ id entries rows entry, wal.tasks.find id = some (.flush entries (.notified rows (.ok ()))) ∧
      entry ∈ entries ∧ entry.completionSender = sender

theorem Task.Sound.mono {id : Nat} {history history' : List (Nat × Nat × Statement δ)}
    {task : Task δ} (sound : task.Sound owner id history)
    (kept : ∀ statement ∈ history, statement ∈ history') : task.Sound owner id history' := by
  unfold Task.Sound at sound ⊢
  split at sound
  next => exact sound
  iterate 2
    next => exact ⟨sound.1, kept _ sound.2⟩
  iterate 2
    next => exact ⟨sound.1, kept _ sound.2.1, sound.2.2⟩
  next => trivial

theorem Log.history_subset (moves : CassandraWal.Moves owner log wal label log' wal') :
    ∀ statement ∈ log.history, statement ∈ log'.history := by
  intro statement mem
  have observed : ∀ {log : Log δ} {id : Nat} {new : Statement δ},
      statement ∈ log.history → statement ∈ (log.observe owner id new).history :=
    fun before => List.mem_append_left _ before
  have updated : ∀ (logState : LogState) (offset : Int),
      statement ∈ (log.updateMetadata logState offset).history := by
    intro logState offset
    unfold Log.updateMetadata
    split <;> exact mem
  have trimmed : ∀ firstOffset offset : Int, statement ∈ (log.trim firstOffset offset).history := by
    intro firstOffset offset
    unfold Log.trim
    split
    next => exact mem
    next => split <;> exact mem
  cases moves with
  | insert | verify | lose => exact observed mem
  | update => exact observed (updated _ _)
  | failInsert =>
    split
    next => exact observed mem
    next => exact mem
  | failUpdate =>
    split
    next => exact observed (updated _ _)
    next => exact mem
  | failCreate => split <;> exact mem
  | trim => exact trimmed _ _
  | failTrim =>
    split
    next => exact trimmed _ _
    next => exact mem
  | _ => exact mem

theorem CassandraWal.find_notify (wal : CassandraWal δ) (entries : List (BufferedEntry δ))
    (sender : Nat) : (wal.notify entries).completions.find sender =
      if sender ∈ entries.map BufferedEntry.completionSender then some (.ok ())
      else wal.completions.find sender := by
  induction entries generalizing wal with
  | nil => rfl
  | cons entry rest ih =>
    have first := ih { wal with
      completions := wal.completions.insert entry.completionSender (.ok ()) }
    rw [notify, List.foldl_cons]
    rw [notify] at first
    rw [first, find_insert]
    by_cases behind : sender ∈ rest.map BufferedEntry.completionSender
    · simp [behind]
    · by_cases here : sender = entry.completionSender
      · simp [here]
      · simp [behind, here]

theorem CassandraWal.Moves.kept (moves : Moves owner log wal label log' wal') :
    wal.appended <+: wal'.appended ∧ ∀ sender, wal.completions.find sender = some (.ok ()) →
      wal'.completions.find sender = some (.ok ()) := by
  cases moves with
  | append => exact ⟨List.prefix_append .., fun _ sent => sent⟩
  | notify =>
    refine ⟨List.prefix_rfl, ?_⟩
    intro sender sent
    change find (wal.notify _).completions sender = _
    rw [find_notify, sent, ite_self]
  | _ => exact ⟨List.prefix_rfl, fun _ sent => sent⟩

namespace Answered

variable {owner : Nat} {history history' : List (Nat × Nat × Statement δ)}
  {wal wal' : CassandraWal δ}

theorem acknowledged {log : Log δ} (answered : Answered owner log.history wal) :
    Acknowledged owner log wal where
  written := by
    intro sender sent
    obtain ⟨id, entries, rows, entry, found, mem, same⟩ := answered.completed sent
    obtain ⟨contents, inserted, _⟩ := answered.sound found
    have stored : entry.content ∈ rows.map fun row => row.2.content :=
      contents ▸ List.mem_map_of_mem mem
    obtain ⟨row, inRows, content⟩ := List.mem_map.mp stored
    exact ⟨entry, same ▸ answered.named found entry mem, id, entries, rows, row, found,
      mem, inRows, content, inserted⟩
  failed := by
    intro id entries rows error found
    cases (answered.sound found).2.2

theorem new : Answered owner history (CassandraWal.new : CassandraWal δ) := by
  have noTask : ∀ {id task}, CassandraWal.new.tasks.find id ≠ some (task : Task δ) := by
    intro id task found
    rw [CassandraWal.new, find_empty] at found
    cases found
  refine ⟨fun found => absurd found noTask, fun found => absurd found noTask, ?_, ?_⟩
  · intro entry mem
    cases mem
  · intro sender res sent
    rw [CassandraWal.new, find_empty] at sent
    cases sent

theorem mono (answered : Answered owner history wal)
    (kept : ∀ statement ∈ history, statement ∈ history') : Answered owner history' wal :=
  ⟨fun found => (answered.sound found).mono kept, answered.named, answered.buffered,
    answered.completed⟩

theorem change {id : Nat} {next : Task δ} (answered : Answered owner history wal)
    (kept : ∀ statement ∈ history, statement ∈ history')
    (pending : ∀ entries rows res,
      wal.tasks.find id ≠ some (.flush entries (.notified rows res)))
    (tasks : wal'.tasks = wal.tasks.insert id next) (sound : next.Sound owner id history')
    (named : ∀ entry ∈ next.entries, wal.appended[entry.completionSender]? = some entry)
    (buffer : ∀ entry ∈ wal'.buffer, entry ∈ wal.buffer) (appended : wal'.appended = wal.appended)
    (completions : wal'.completions = wal.completions) : Answered owner history' wal' := by
  refine ⟨?_, ?_, ?_, ?_⟩
  · intro other task found
    rw [tasks, find_insert] at found
    split at found
    next same =>
      cases found
      exact same ▸ sound
    next => exact (answered.sound found).mono kept
  · intro other task found
    rw [appended]
    rw [tasks, find_insert] at found
    split at found
    next =>
      cases found
      exact named
    next => exact answered.named found
  · intro entry mem
    rw [appended]
    exact answered.buffered entry (buffer entry mem)
  · intro sender res sent
    rw [completions] at sent
    obtain ⟨other, entries, rows, entry, found, mem, same⟩ := answered.completed sent
    refine ⟨other, entries, rows, entry, ?_, mem, same⟩
    rw [tasks, find_insert, if_neg]
    · exact found
    · intro here
      exact pending entries rows _ (here ▸ found)

theorem append (answered : Answered owner history wal) (entryType : Entry) (data : δ) :
    Answered owner history (wal.appendEntry entryType data) := by
  have longer : ∀ {entry : BufferedEntry δ}, wal.appended[entry.completionSender]? = some entry →
      (wal.appendEntry entryType data).appended[entry.completionSender]? = some entry := by
    intro entry found
    rw [CassandraWal.appendEntry, List.getElem?_append_left]
    · exact found
    · exact (List.getElem?_eq_some_iff.mp found).1
  refine ⟨answered.sound, fun found entry mem => longer (answered.named found entry mem),
    ?_, answered.completed⟩
  intro entry mem
  rcases List.mem_append.mp mem with before | here
  · exact longer (answered.buffered entry before)
  · cases List.mem_singleton.mp here
    exact List.getElem?_concat_length

theorem drain {id : Nat} (answered : Answered owner history wal)
    (unused : wal.tasks.find id = none) :
    Answered owner history ({ wal with buffer := [] }.put id (.flush wal.buffer .locking)) := by
  refine answered.change (fun _ mem => mem) ?_ rfl trivial answered.buffered ?_ rfl rfl
  · intro entries rows res found
    rw [unused] at found
    cases found
  · intro entry mem
    cases mem

theorem proceed {id : Nat} {before next : Task δ} (answered : Answered owner history wal)
    (found : wal.tasks.find id = some before)
    (kept : ∀ statement ∈ history, statement ∈ history')
    (pending : ∀ entries rows res, before ≠ .flush entries (.notified rows res))
    (tasks : wal'.tasks = wal.tasks.insert id next) (sound : next.Sound owner id history')
    (entries : ∀ entry ∈ next.entries, entry ∈ before.entries) (buffer : wal'.buffer = wal.buffer)
    (appended : wal'.appended = wal.appended)
    (completions : wal'.completions = wal.completions) : Answered owner history' wal' := by
  refine answered.change kept ?_ tasks sound ?_ ?_ appended completions
  · intro entries rows res same
    exact pending entries rows res (Option.some.inj (found.symm.trans same))
  · exact fun entry mem => answered.named found entry (entries entry mem)
  · exact fun entry mem => buffer ▸ mem

theorem notify {id : Nat} {entries : List (BufferedEntry δ)} {rows : List (Int × Row δ)}
    {res : Except Error Unit} (answered : Answered owner history wal)
    (found : wal.tasks.find id = some (.flush entries (.notifying rows res))) :
    Answered owner history
      ((wal.notify entries).put id (.flush entries (.notified rows res))) := by
  obtain ⟨contents, inserted, rfl⟩ := answered.sound found
  have put : Answered owner history (wal.put id (.flush entries (.notified rows (.ok ())))) := by
    refine answered.proceed found (fun _ mem => mem) ?_ rfl
      ⟨contents, inserted, rfl⟩ (fun _ mem => mem) rfl rfl rfl
    intro _ _ _ same
    cases same
  refine ⟨put.sound, put.named, put.buffered, ?_⟩
  intro sender answer sent
  change find (wal.notify entries).completions sender = some answer at sent
  rw [CassandraWal.find_notify] at sent
  split at sent
  next mine =>
    obtain ⟨entry, mem, same⟩ := List.mem_map.mp mine
    exact ⟨id, entries, rows, entry, find_insert_self .., mem, same⟩
  next => exact put.completed sent

theorem spawn {id : Nat} {task : Task δ} (answered : Answered owner history wal)
    (unused : wal.tasks.find id = none) (sound : task.Sound owner id history)
    (empty : task.entries = []) : Answered owner history (wal.put id task) := by
  refine answered.change (fun _ mem => mem) ?_ rfl sound ?_
    (fun _ mem => mem) rfl rfl
  · intro entries rows res found
    rw [unused] at found
    cases found
  · intro entry mem
    rw [empty] at mem
    cases mem

theorem trimFrom_spec (wal : CassandraWal δ) (offset : Int) (id : Nat) :
    (wal.trimFrom offset).Sound owner id history ∧ (wal.trimFrom offset).entries = [] := by
  unfold CassandraWal.trimFrom
  split
  next => exact ⟨trivial, rfl⟩
  next =>
    split
    next => exact ⟨trivial, rfl⟩
    next =>
      split <;> exact ⟨trivial, rfl⟩

theorem moves {log log' : Log δ} {label : Label δ} (answered : Answered owner log.history wal)
    (succeeds : wal.flushSucceeds log label = true)
    (moves : CassandraWal.Moves owner log wal label log' wal') :
    Answered owner log'.history wal' := by
  have kept := Log.history_subset moves
  have none : ∀ {before : List (BufferedEntry δ)}, ∀ entry ∈ ([] : List (BufferedEntry δ)),
      entry ∈ before := by
    intro before entry mem
    cases mem
  cases moves with
  | append entryType data => exact answered.append entryType data
  | drain _ unused => exact answered.drain unused
  | spawn unbuffered unused =>
    cases unbuffered with
    | sync | trim => exact answered.spawn unused trivial rfl
  | refuse _ _ state => exact absurd state (of_decide_eq_true succeeds)
  | number found _ _ count =>
    exact answered.proceed found kept (by simp) rfl
      (CassandraWal.map_content_number _ _ _ count) (fun _ here => here) rfl rfl rfl
  | insert found =>
    have contents := answered.sound found
    exact answered.proceed found kept (by simp) rfl
      ⟨contents, List.mem_append_right _ List.mem_cons_self⟩ (fun _ here => here) rfl rfl rfl
  | update found =>
    have sound := (answered.sound found).mono kept
    exact answered.proceed found kept (by simp) rfl sound (fun _ here => here) rfl rfl rfl
  | verify found =>
    have sound := (answered.sound found).mono kept
    exact answered.proceed found kept (by simp) rfl ⟨sound.1, sound.2, rfl⟩ (fun _ here => here)
      rfl rfl rfl
  | lose found lost =>
    simp only [CassandraWal.flushSucceeds, found] at succeeds
    rw [lost] at succeeds
    cases succeeds
  | notify found => exact answered.notify found
  | failInsert found | failUpdate found | failVerify found =>
    simp only [CassandraWal.flushSucceeds, found] at succeeds
    cases succeeds
  | beginSync found | select found | miss found | create found | failSelect found
  | failCreate found | trim found | failTrim found =>
    exact answered.proceed found kept (by simp) rfl trivial none rfl rfl rfl
  | beginTrim found =>
    obtain ⟨sound, empty⟩ := trimFrom_spec wal _ _
    exact answered.proceed found kept (by simp) rfl sound (empty ▸ none) rfl rfl rfl

end Answered

namespace SharedLog

def AllAnswered (shared : SharedLog δ) : Prop :=
  ∀ owner wal, shared.wals.find owner = some wal → Answered owner shared.log.history wal

theorem allAnswered_of_initial {shared : SharedLog δ} (initial : shared.Initial) :
    shared.AllAnswered := by
  intro owner wal present
  rw [initial.2 owner wal present]
  exact .new

theorem AllAnswered.step {shared next : SharedLog δ} {label : Nat × Label δ}
    (answered : shared.AllAnswered) (succeeds : shared.FlushesSucceed label)
    (taken : shared.step label = some next) : next.AllAnswered := by
  obtain ⟨owner, label⟩ := label
  obtain ⟨wal, wal', present, moves, wals⟩ := moves_of_step taken
  rw [FlushesSucceed, present] at succeeds
  intro other current there
  rw [wals, find_insert] at there
  split at there
  next same =>
    cases there
    exact same ▸ (answered _ _ present).moves succeeds moves
  next => exact (answered _ _ there).mono (Log.history_subset moves)

end SharedLog

end Sangria.RangeServer.Wal
