import Sangria.Common.Types

/-!
# The write-ahead log

Instances of `CassandraWal` over the rows of `atomix.wal` that have one wal id.
An entry is pushed to the buffer of an instance; `flush_buffer_inner` drains the
buffer under the lock of the buffer, numbers the entries under the write lock of
the state, and executes three statements: the insertion of the rows, the
conditional update of the metadata row and the read that verifies the first row.
A label runs one task through its next section or statement.  `δ` is the type of
the serialized requests.
-/

namespace Sangria.RangeServer.Wal

universe u

inductive Entry where
  | prepare
  | abort
  | commit
  deriving DecidableEq

inductive Error where
  | timeout
  | notSynced
  | internal
  deriving DecidableEq

variable {δ : Type u}

/-- `completionSender` names the channel of the caller. -/
structure BufferedEntry (δ : Type u) where
  entryType : Entry
  data : δ
  completionSender : Nat
  deriving DecidableEq

structure LogState where
  firstOffset : Option Int
  nextOffset : Int
  deriving DecidableEq

inductive State where
  | notSynced
  | synced (logState : LogState)
  deriving DecidableEq

/-! ## The table -/

structure Row (δ : Type u) where
  content : Entry × δ
  writeId : Uuid
  deriving DecidableEq

inductive Statement (δ : Type u) where
  | inserted (rows : List (Int × Row δ))
  | updated (rows : List (Int × Row δ)) (applied : Bool)
  | verified (rows : List (Int × Row δ)) (found : Bool)
  deriving DecidableEq

/-- The metadata row and the rows of the entries.  `history` observes the
statements of the flushes with the instance and the task that executed them. -/
structure Log (δ : Type u) where
  metadata : Option LogState
  rows : HashMap Int (Row δ)
  history : List (Nat × Nat × Statement δ)

namespace Log

def insertRows (log : Log δ) (rows : List (Int × Row δ)) : Log δ :=
  { log with rows := rows.foldl (fun all row => all.insert row.1 row.2) log.rows }

def isNext (log : Log δ) (offset : Int) : Bool :=
  match log.metadata with
  | none => false
  | some metadata => decide (metadata.nextOffset = offset)

def updateMetadata (log : Log δ) (logState : LogState) (expected : Int) : Log δ :=
  if log.isNext expected then { log with metadata := some logState } else log

def retrieves (log : Log δ) (row : Int × Row δ) : Bool :=
  match log.rows.find row.1 with
  | none => false
  | some stored => decide (stored.writeId = row.2.writeId)

/-- `UPDATE_FIRST_OFFSET_QUERY` and `TRIM_LOG_QUERY` in one conditional batch. -/
def trim (log : Log δ) (firstOffset offset : Int) : Log δ :=
  match log.metadata with
  | none => log
  | some metadata =>
    if metadata.firstOffset = some firstOffset then
      { log with
        metadata := some { metadata with firstOffset := some offset }
        rows := FiniteMap.filterMap
          (fun stored row => if stored < offset then none else some row) log.rows }
    else log

def observe (log : Log δ) (owner task : Nat) (statement : Statement δ) : Log δ :=
  { log with history := log.history ++ [(owner, task, statement)] }

end Log

/-! ## The tasks of an instance -/

/-- Where a flush stands, by what it does next.  The rows that were numbered
under the write lock stay with it. -/
inductive FlushStage (δ : Type u) where
  | locking
  | inserting (rows : List (Int × Row δ))
  | updating (rows : List (Int × Row δ))
  | verifying (rows : List (Int × Row δ))
  | notifying (rows : List (Int × Row δ)) (result : Except Error Unit)
  | notified (rows : List (Int × Row δ)) (result : Except Error Unit)

inductive SyncStage where
  | locking
  | selecting
  | initializing
  | returned (result : Except Error Unit)

/-- After its batch `trim_before_offset` is a call of `sync`. -/
inductive Task (δ : Type u) where
  | flush (entries : List (BufferedEntry δ)) (stage : FlushStage δ)
  | sync (stage : SyncStage)
  | trim (offset : Int)
  | trimming (firstOffset offset : Int)
  | trimmed (result : Except Error Unit)

/-- `writer` is the task that has the write lock of the state; `completions` are
the results that were sent; `appended` observes the entries in the order in which
they were pushed. -/
structure CassandraWal (δ : Type u) where
  state : State
  writer : Option Nat
  buffer : List (BufferedEntry δ)
  tasks : HashMap Nat (Task δ)
  completions : HashMap Nat (Except Error Unit)
  appended : List (BufferedEntry δ)

inductive Label (δ : Type u) where
  | append (entryType : Entry) (data : δ)
  | flush (task : Nat)
  | sync (task : Nat)
  | trim (task : Nat) (offset : Int)
  | lock (task : Nat) (writeIds : List Uuid)
  | run (task : Nat)
  | fail (task : Nat) (error : Error) (effective : Bool)

namespace CassandraWal

def new : CassandraWal δ := ⟨.notSynced, none, [], ∅, ∅, []⟩

def put (wal : CassandraWal δ) (task : Nat) (next : Task δ) : CassandraWal δ :=
  { wal with tasks := wal.tasks.insert task next }

def unlock (wal : CassandraWal δ) (task : Nat) (next : Task δ) : CassandraWal δ :=
  { wal with writer := none, tasks := wal.tasks.insert task next }

def spawn (wal : CassandraWal δ) (id : Nat) (task : Task δ) : Option (CassandraWal δ) :=
  if wal.tasks.find id = none then some (wal.put id task) else none

def appendEntry (wal : CassandraWal δ) (entryType : Entry) (data : δ) : CassandraWal δ :=
  let entry := ⟨entryType, data, wal.appended.length⟩
  { wal with buffer := wal.buffer ++ [entry], appended := wal.appended ++ [entry] }

def drain (wal : CassandraWal δ) (task : Nat) : Option (CassandraWal δ) :=
  if wal.buffer = [] then none
  else { wal with buffer := [] }.spawn task (.flush wal.buffer .locking)

def number : Int → List (BufferedEntry δ) → List Uuid → List (Int × Row δ)
  | offset, entry :: entries, writeId :: writeIds =>
    (offset, ⟨(entry.entryType, entry.data), writeId⟩) :: number (offset + 1) entries writeIds
  | _, _, _ => []

def advance (logState : LogState) (count : Nat) : LogState where
  firstOffset := some (logState.firstOffset.getD logState.nextOffset)
  nextOffset := logState.nextOffset + count

def lockFlush (wal : CassandraWal δ) (task : Nat) (entries : List (BufferedEntry δ))
    (writeIds : List Uuid) : Option (CassandraWal δ) :=
  match wal.state with
  | .notSynced => some (wal.put task (.flush entries (.notifying [] (.error .notSynced))))
  | .synced logState =>
    if writeIds.length = entries.length then
      some ({ wal with
        state := .synced (advance logState entries.length)
        writer := some task }.put task
          (.flush entries (.inserting (number logState.nextOffset entries writeIds))))
    else none

def notify (wal : CassandraWal δ) (entries : List (BufferedEntry δ)) : CassandraWal δ :=
  { wal with completions := entries.foldl (fun sent entry =>
      sent.insert entry.completionSender (.ok ())) wal.completions }

def runFlush (owner : Nat) (log : Log δ) (wal : CassandraWal δ) (task : Nat)
    (entries : List (BufferedEntry δ)) : FlushStage δ → Option (Log δ × CassandraWal δ)
  | .locking => none
  | .inserting rows =>
    some ((log.insertRows rows).observe owner task (.inserted rows),
      wal.put task (.flush entries (.updating rows)))
  | .updating rows =>
    match wal.state, rows with
    | .synced logState, row :: _ =>
      some ((log.updateMetadata logState row.1).observe owner task
          (.updated rows (log.isNext row.1)),
        wal.put task (.flush entries (.verifying rows)))
    | _, _ => none
  | .verifying rows =>
    match rows with
    | [] => none
    | row :: _ =>
      if log.retrieves row then
        some (log.observe owner task (.verified rows true),
          wal.unlock task (.flush entries (.notifying rows (.ok ()))))
      else
        some (log.observe owner task (.verified rows false),
          { wal with state := .notSynced }.unlock task
            (.flush entries (.notifying rows (.error .notSynced))))
  | .notifying rows result =>
    some (log, (wal.notify entries).put task (.flush entries (.notified rows result)))
  | .notified .. => none

def runSync (log : Log δ) (wal : CassandraWal δ) (task : Nat) :
    SyncStage → Option (Log δ × CassandraWal δ)
  | .locking =>
    if wal.writer = none then
      some (log, { wal with state := .notSynced, writer := some task }.put task
        (.sync .selecting))
    else none
  | .selecting =>
    match log.metadata with
    | none => some (log, wal.put task (.sync .initializing))
    | some metadata =>
      some (log, { wal with state := .synced metadata }.unlock task
        (.sync (.returned (.ok ()))))
  | .initializing =>
    some ({ log with metadata := some ⟨none, 0⟩ },
      { wal with state := .synced ⟨none, 0⟩ }.unlock task (.sync (.returned (.ok ()))))
  | .returned _ => none

/-- `first_offset` under the read lock, and what `trim_before_offset` does with it. -/
def trimFrom (wal : CassandraWal δ) (offset : Int) : Task δ :=
  match wal.state with
  | .notSynced => .trimmed (.error .notSynced)
  | .synced logState =>
    match logState.firstOffset with
    | none => .trimmed (.ok ())
    | some firstOffset =>
      if offset < firstOffset then .trimmed (.ok ()) else .trimming firstOffset offset

def runTask (owner : Nat) (log : Log δ) (wal : CassandraWal δ) (task : Nat) :
    Task δ → Option (Log δ × CassandraWal δ)
  | .flush entries stage => wal.runFlush owner log task entries stage
  | .sync stage => wal.runSync log task stage
  | .trim offset =>
    if wal.writer = none then some (log, wal.put task (wal.trimFrom offset)) else none
  | .trimming firstOffset offset =>
    some (log.trim firstOffset offset, wal.put task (.sync .locking))
  | .trimmed _ => none

/-- A statement returns an error; it may have been executed nevertheless. -/
def failTask (owner : Nat) (log : Log δ) (wal : CassandraWal δ) (task : Nat) (error : Error)
    (effective : Bool) : Task δ → Option (Log δ × CassandraWal δ)
  | .flush entries (.inserting rows) =>
    some (if effective then (log.insertRows rows).observe owner task (.inserted rows) else log,
      wal.unlock task (.flush entries (.notifying rows (.error error))))
  | .flush entries (.updating rows) =>
    match wal.state, rows with
    | .synced logState, row :: _ =>
      some (if effective then (log.updateMetadata logState row.1).observe owner task
          (.updated rows (log.isNext row.1)) else log,
        wal.unlock task (.flush entries (.notifying rows (.error error))))
    | _, _ => none
  | .flush entries (.verifying rows) =>
    some (log, wal.unlock task (.flush entries (.notifying rows (.error error))))
  | .sync .selecting => some (log, wal.unlock task (.sync (.returned (.error error))))
  | .sync .initializing =>
    some (if effective then { log with metadata := some ⟨none, 0⟩ } else log,
      wal.unlock task (.sync (.returned (.error error))))
  | .trimming firstOffset offset =>
    some (if effective then log.trim firstOffset offset else log,
      wal.put task (.trimmed (.error error)))
  | _ => none

def step (owner : Nat) (log : Log δ) (wal : CassandraWal δ) :
    Label δ → Option (Log δ × CassandraWal δ)
  | .append entryType data => some (log, wal.appendEntry entryType data)
  | .flush task => (wal.drain task).map fun next => (log, next)
  | .sync task => (wal.spawn task (.sync .locking)).map fun next => (log, next)
  | .trim task offset => (wal.spawn task (.trim offset)).map fun next => (log, next)
  | .lock task writeIds =>
    match wal.tasks.find task with
    | some (.flush entries .locking) =>
      if wal.writer = none then
        (wal.lockFlush task entries writeIds).map fun next => (log, next)
      else none
    | _ => none
  | .run task => (wal.tasks.find task).bind (wal.runTask owner log task)
  | .fail task error effective =>
    (wal.tasks.find task).bind (wal.failTask owner log task error effective)

end CassandraWal

/-! ## Several instances over one log -/

structure SharedLog (δ : Type u) where
  log : Log δ
  wals : HashMap Nat (CassandraWal δ)

namespace SharedLog

def step (shared : SharedLog δ) (label : Nat × Label δ) : Option (SharedLog δ) :=
  (shared.wals.find label.1).bind fun wal =>
    (wal.step label.1 shared.log label.2).map fun next =>
      ⟨next.1, shared.wals.insert label.1 next.2⟩

def Initial (shared : SharedLog δ) : Prop :=
  shared.log.history = [] ∧
    ∀ owner wal, shared.wals.find owner = some wal → wal = CassandraWal.new

end SharedLog

end Sangria.RangeServer.Wal
