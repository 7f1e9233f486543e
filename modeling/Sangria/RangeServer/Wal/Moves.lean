import Sangria.RangeServer.Wal.Cassandra

/-!
# What a step of the write-ahead log can do

`Moves` has one constructor for each section and for each outcome of a
statement; every step is one of them.
-/

namespace Sangria.RangeServer.Wal

universe u

variable {δ : Type u}

namespace CassandraWal

inductive Unbuffered : Label δ → Nat → Task δ → Prop where
  | sync (task : Nat) : Unbuffered (.sync task) task (.sync .locking)
  | trim (task : Nat) (offset : Int) : Unbuffered (.trim task offset) task (.trim offset)

inductive Moves (owner : Nat) (log : Log δ) (wal : CassandraWal δ) :
    Label δ → Log δ → CassandraWal δ → Prop where
  | append (entryType : Entry) (data : δ) :
      Moves owner log wal (.append entryType data) log (wal.appendEntry entryType data)
  | drain {task : Nat} (nonempty : wal.buffer ≠ []) (unused : wal.tasks.find task = none) :
      Moves owner log wal (.flush task) log
        ({ wal with buffer := [] }.put task (.flush wal.buffer .locking))
  | spawn {label : Label δ} {id : Nat} {task : Task δ} (unbuffered : Unbuffered label id task)
      (unused : wal.tasks.find id = none) : Moves owner log wal label log (wal.put id task)
  | refuse {task : Nat} {entries : List (BufferedEntry δ)} {writeIds : List Uuid}
      (found : wal.tasks.find task = some (.flush entries .locking)) (free : wal.writer = none)
      (state : wal.state = .notSynced) :
      Moves owner log wal (.lock task writeIds) log
        (wal.put task (.flush entries (.notifying [] (.error .notSynced))))
  | number {task : Nat} {entries : List (BufferedEntry δ)} {writeIds : List Uuid}
      {logState : LogState} (found : wal.tasks.find task = some (.flush entries .locking))
      (free : wal.writer = none) (state : wal.state = .synced logState)
      (count : writeIds.length = entries.length) :
      Moves owner log wal (.lock task writeIds) log
        ({ wal with
          state := .synced (advance logState entries.length)
          writer := some task }.put task
            (.flush entries (.inserting (number logState.nextOffset entries writeIds))))
  | insert {task : Nat} {entries : List (BufferedEntry δ)} {rows : List (Int × Row δ)}
      (found : wal.tasks.find task = some (.flush entries (.inserting rows))) :
      Moves owner log wal (.run task)
        ((log.insertRows rows).observe owner task (.inserted rows))
        (wal.put task (.flush entries (.updating rows)))
  | update {task : Nat} {entries : List (BufferedEntry δ)} {row : Int × Row δ}
      {rest : List (Int × Row δ)} {logState : LogState}
      (found : wal.tasks.find task = some (.flush entries (.updating (row :: rest))))
      (state : wal.state = .synced logState) :
      Moves owner log wal (.run task)
        ((log.updateMetadata logState row.1).observe owner task
          (.updated (row :: rest) (log.isNext row.1)))
        (wal.put task (.flush entries (.verifying (row :: rest))))
  | verify {task : Nat} {entries : List (BufferedEntry δ)} {row : Int × Row δ}
      {rest : List (Int × Row δ)}
      (found : wal.tasks.find task = some (.flush entries (.verifying (row :: rest))))
      (retrieved : log.retrieves row = true) :
      Moves owner log wal (.run task) (log.observe owner task (.verified (row :: rest) true))
        (wal.unlock task (.flush entries (.notifying (row :: rest) (.ok ()))))
  | lose {task : Nat} {entries : List (BufferedEntry δ)} {row : Int × Row δ}
      {rest : List (Int × Row δ)}
      (found : wal.tasks.find task = some (.flush entries (.verifying (row :: rest))))
      (lost : log.retrieves row = false) :
      Moves owner log wal (.run task) (log.observe owner task (.verified (row :: rest) false))
        ({ wal with state := .notSynced }.unlock task
          (.flush entries (.notifying (row :: rest) (.error .notSynced))))
  | notify {task : Nat} {entries : List (BufferedEntry δ)} {rows : List (Int × Row δ)}
      {result : Except Error Unit}
      (found : wal.tasks.find task = some (.flush entries (.notifying rows result))) :
      Moves owner log wal (.run task) log
        ((wal.notify entries).put task (.flush entries (.notified rows result)))
  | failInsert {task : Nat} {entries : List (BufferedEntry δ)} {rows : List (Int × Row δ)}
      {error : Error} {effective : Bool}
      (found : wal.tasks.find task = some (.flush entries (.inserting rows))) :
      Moves owner log wal (.fail task error effective)
        (if effective then (log.insertRows rows).observe owner task (.inserted rows) else log)
        (wal.unlock task (.flush entries (.notifying rows (.error error))))
  | failUpdate {task : Nat} {entries : List (BufferedEntry δ)} {row : Int × Row δ}
      {rest : List (Int × Row δ)} {logState : LogState} {error : Error} {effective : Bool}
      (found : wal.tasks.find task = some (.flush entries (.updating (row :: rest))))
      (state : wal.state = .synced logState) :
      Moves owner log wal (.fail task error effective)
        (if effective then (log.updateMetadata logState row.1).observe owner task
          (.updated (row :: rest) (log.isNext row.1)) else log)
        (wal.unlock task (.flush entries (.notifying (row :: rest) (.error error))))
  | failVerify {task : Nat} {entries : List (BufferedEntry δ)} {rows : List (Int × Row δ)}
      {error : Error} {effective : Bool}
      (found : wal.tasks.find task = some (.flush entries (.verifying rows))) :
      Moves owner log wal (.fail task error effective) log
        (wal.unlock task (.flush entries (.notifying rows (.error error))))
  | beginSync {task : Nat} (found : wal.tasks.find task = some (.sync .locking))
      (free : wal.writer = none) :
      Moves owner log wal (.run task) log
        ({ wal with state := .notSynced, writer := some task }.put task (.sync .selecting))
  | select {task : Nat} {metadata : LogState}
      (found : wal.tasks.find task = some (.sync .selecting))
      (present : log.metadata = some metadata) :
      Moves owner log wal (.run task) log
        ({ wal with state := .synced metadata }.unlock task (.sync (.returned (.ok ()))))
  | miss {task : Nat} (found : wal.tasks.find task = some (.sync .selecting))
      (missing : log.metadata = none) :
      Moves owner log wal (.run task) log (wal.put task (.sync .initializing))
  | create {task : Nat} (found : wal.tasks.find task = some (.sync .initializing)) :
      Moves owner log wal (.run task) { log with metadata := some ⟨none, 0⟩ }
        ({ wal with state := .synced ⟨none, 0⟩ }.unlock task (.sync (.returned (.ok ()))))
  | failSelect {task : Nat} {error : Error} {effective : Bool}
      (found : wal.tasks.find task = some (.sync .selecting)) :
      Moves owner log wal (.fail task error effective) log
        (wal.unlock task (.sync (.returned (.error error))))
  | failCreate {task : Nat} {error : Error} {effective : Bool}
      (found : wal.tasks.find task = some (.sync .initializing)) :
      Moves owner log wal (.fail task error effective)
        (if effective then { log with metadata := some ⟨none, 0⟩ } else log)
        (wal.unlock task (.sync (.returned (.error error))))
  | beginTrim {task : Nat} {offset : Int} (found : wal.tasks.find task = some (.trim offset))
      (free : wal.writer = none) :
      Moves owner log wal (.run task) log (wal.put task (wal.trimFrom offset))
  | trim {task : Nat} {firstOffset offset : Int}
      (found : wal.tasks.find task = some (.trimming firstOffset offset)) :
      Moves owner log wal (.run task) (log.trim firstOffset offset)
        (wal.put task (.sync .locking))
  | failTrim {task : Nat} {firstOffset offset : Int} {error : Error} {effective : Bool}
      (found : wal.tasks.find task = some (.trimming firstOffset offset)) :
      Moves owner log wal (.fail task error effective)
        (if effective then log.trim firstOffset offset else log)
        (wal.put task (.trimmed (.error error)))

variable {owner : Nat} {log log' : Log δ} {wal wal' : CassandraWal δ}
variable {id : Nat} {task : Task δ} {entries : List (BufferedEntry δ)}

theorem spawn_eq_some (spawned : wal.spawn id task = some wal') :
    wal.tasks.find id = none ∧ wal' = wal.put id task := by
  unfold spawn at spawned
  split at spawned
  next unused =>
    cases spawned
    exact ⟨unused, rfl⟩
  next => cases spawned

theorem moves_of_runFlush {task : Nat} {stage : FlushStage δ}
    (found : wal.tasks.find task = some (.flush entries stage))
    (taken : wal.runFlush owner log task entries stage = some (log', wal')) :
    Moves owner log wal (.run task) log' wal' := by
  cases stage with
  | locking | notified => cases taken
  | inserting =>
    cases taken
    exact .insert found
  | updating =>
    simp only [runFlush] at taken
    split at taken
    next state =>
      cases taken
      exact .update found state
    next => cases taken
  | verifying =>
    simp only [runFlush] at taken
    split at taken
    next => cases taken
    next =>
      split at taken
      next retrieved =>
        cases taken
        exact .verify found retrieved
      next lost =>
        cases taken
        exact .lose found (Bool.eq_false_iff.mpr lost)
  | notifying =>
    cases taken
    exact .notify found

theorem moves_of_runSync {task : Nat} {stage : SyncStage}
    (found : wal.tasks.find task = some (.sync stage))
    (taken : wal.runSync log task stage = some (log', wal')) :
    Moves owner log wal (.run task) log' wal' := by
  cases stage with
  | locking =>
    simp only [runSync] at taken
    split at taken
    next free =>
      cases taken
      exact .beginSync found free
    next => cases taken
  | selecting =>
    simp only [runSync] at taken
    split at taken
    next missing =>
      cases taken
      exact .miss found missing
    next present =>
      cases taken
      exact .select found present
  | initializing =>
    cases taken
    exact .create found
  | returned => cases taken

theorem moves_of_runTask (found : wal.tasks.find id = some task)
    (taken : wal.runTask owner log id task = some (log', wal')) :
    Moves owner log wal (.run id) log' wal' := by
  cases task with
  | flush => exact moves_of_runFlush found taken
  | sync => exact moves_of_runSync found taken
  | trim =>
    simp only [runTask] at taken
    split at taken
    next free =>
      cases taken
      exact .beginTrim found free
    next => cases taken
  | trimming =>
    cases taken
    exact .trim found
  | trimmed => cases taken

theorem moves_of_failTask {error : Error} {effective : Bool} (found : wal.tasks.find id = some task)
    (taken : wal.failTask owner log id error effective task = some (log', wal')) :
    Moves owner log wal (.fail id error effective) log' wal' := by
  unfold failTask at taken
  split at taken
  next =>
    cases taken
    exact .failInsert found
  next =>
    split at taken
    next state =>
      cases taken
      exact .failUpdate found state
    next => cases taken
  next =>
    cases taken
    exact .failVerify found
  next =>
    cases taken
    exact .failSelect found
  next =>
    cases taken
    exact .failCreate found
  next =>
    cases taken
    exact .failTrim found
  next => cases taken

theorem moves_of_lock {task : Nat} {writeIds : List Uuid}
    (found : wal.tasks.find task = some (.flush entries .locking)) (free : wal.writer = none)
    (taken : wal.lockFlush task entries writeIds = some wal') :
    Moves owner log wal (.lock task writeIds) log wal' := by
  unfold lockFlush at taken
  split at taken
  next state =>
    cases taken
    exact .refuse found free state
  next state =>
    split at taken
    next count =>
      cases taken
      exact .number found free state count
    next => cases taken

theorem moves_of_step {label : Label δ}
    (taken : wal.step owner log label = some (log', wal')) :
    Moves owner log wal label log' wal' := by
  cases label with
  | append entryType data =>
    cases taken
    exact .append entryType data
  | flush =>
    simp only [step, drain] at taken
    split at taken
    next => cases taken
    next nonempty =>
      obtain ⟨next, spawned, same⟩ := Option.map_eq_some_iff.mp taken
      obtain ⟨unused, rfl⟩ := spawn_eq_some spawned
      cases same
      exact .drain nonempty unused
  | sync task =>
    obtain ⟨next, spawned, same⟩ := Option.map_eq_some_iff.mp taken
    obtain ⟨unused, rfl⟩ := spawn_eq_some spawned
    cases same
    exact .spawn (.sync task) unused
  | trim task offset =>
    obtain ⟨next, spawned, same⟩ := Option.map_eq_some_iff.mp taken
    obtain ⟨unused, rfl⟩ := spawn_eq_some spawned
    cases same
    exact .spawn (.trim task offset) unused
  | lock =>
    simp only [step] at taken
    split at taken
    next found =>
      split at taken
      next free =>
        obtain ⟨next, locked, same⟩ := Option.map_eq_some_iff.mp taken
        cases same
        exact moves_of_lock found free locked
      next => cases taken
    next => cases taken
  | run =>
    obtain ⟨current, found, ran⟩ := Option.bind_eq_some_iff.mp taken
    exact moves_of_runTask found ran
  | fail =>
    obtain ⟨current, found, failed⟩ := Option.bind_eq_some_iff.mp taken
    exact moves_of_failTask found failed

end CassandraWal

theorem SharedLog.moves_of_step {shared next : SharedLog δ} {owner : Nat} {label : Label δ}
    (taken : shared.step (owner, label) = some next) :
    ∃ wal wal', shared.wals.find owner = some wal ∧
      CassandraWal.Moves owner shared.log wal label next.log wal' ∧
      next.wals = shared.wals.insert owner wal' := by
  obtain ⟨wal, found, ran⟩ := Option.bind_eq_some_iff.mp taken
  obtain ⟨res, stepped, rfl⟩ := Option.map_eq_some_iff.mp ran
  exact ⟨wal, res.2, found, CassandraWal.moves_of_step stepped, rfl⟩

end Sangria.RangeServer.Wal
