import Mathlib.Data.List.Sort
import Sangria.Common.Types
import Sangria.Lib.TransitionSystem

/-!
# The cache of a range

`MemTableDB` keeps the versions of the keys in a ring of memtables.  Only one
memtable is mutable; a write that does not fit freezes it and goes on in the next
one, which has to be flushed.  A reused memtable keeps its old `latest_epoch`.
-/

namespace Sangria.RangeServer

inductive MemTableStatus where
  | flushed
  | mutable
  | immutable
  deriving DecidableEq

structure MemTableEntry where
  key : Bytes
  val : Bytes
  epoch : Nat
  deleted : Bool
  deriving DecidableEq

namespace MemTableEntry

/-- `Ord::cmp`: by key, and the later epochs of a key first. -/
def Le (entry other : MemTableEntry) : Prop :=
  entry.key < other.key ∨ entry.key = other.key ∧ other.epoch ≤ entry.epoch

instance (entry other : MemTableEntry) : Decidable (entry.Le other) :=
  inferInstanceAs (Decidable (_ ∨ _))

/-- The key, the value, the epoch and the flag. -/
def size (entry : MemTableEntry) : Nat := entry.key.length + entry.val.length + 8 + 1

end MemTableEntry

structure MemTable where
  sizeInBytes : Nat
  status : MemTableStatus
  latestEpoch : Nat
  oldestEpoch : Nat
  /-- `OrderedSkipList`, in its order. -/
  entries : List MemTableEntry

namespace MemTable

def new : MemTable := ⟨0, .flushed, 0, 0, []⟩

def insert (table : MemTable) (entry : MemTableEntry) : MemTable :=
  { table with
    entries := table.entries.orderedInsert MemTableEntry.Le entry
    sizeInBytes := table.sizeInBytes + entry.size
    latestEpoch := max table.latestEpoch entry.epoch }

/-- `lower_bound(Included(start))`: the least entry that is not below. -/
def lowerBound (table : MemTable) (start : MemTableEntry) : Option MemTableEntry :=
  table.entries.find? fun entry => start.Le entry

/-- One iteration of `clear`. -/
def flush (table : MemTable) (epoch : Nat) : MemTable :=
  if table.status = .immutable ∧ table.latestEpoch ≤ epoch then
    { table with status := .flushed, sizeInBytes := 0, entries := [] }
  else table

end MemTable

structure CacheOptions where
  numWriteBuffers : Nat
  writeBufferSize : Nat

structure MemTableDB where
  cacheOptions : CacheOptions
  memtables : Nat → MemTable
  mutMemtableIdx : Nat
  latestEpoch : Nat
  /-- Whether a callback is registered. -/
  gcCallback : Bool

inductive CacheResult where
  | ok
  | cacheIsFull
  deriving DecidableEq

namespace MemTableDB

def new (cacheOptions : CacheOptions) : MemTableDB :=
  { cacheOptions
    memtables := fun index => if index = 0 then { MemTable.new with status := .mutable } else .new
    mutMemtableIdx := 0
    latestEpoch := 0
    gcCallback := false }

def registerGcCallback (db : MemTableDB) : MemTableDB := { db with gcCallback := true }

/-- The memtable that was mutable `distance` switches ago. -/
def back (db : MemTableDB) (distance : Nat) : Nat :=
  (db.mutMemtableIdx + db.cacheOptions.numWriteBuffers - distance) %
    db.cacheOptions.numWriteBuffers

def nextIdx (db : MemTableDB) : Nat := (db.mutMemtableIdx + 1) % db.cacheOptions.numWriteBuffers

def current (db : MemTableDB) : MemTable := db.memtables db.mutMemtableIdx

def overflows (db : MemTableDB) (entry : MemTableEntry) : Bool :=
  decide (db.cacheOptions.writeBufferSize < db.current.sizeInBytes + entry.size)

/-- The assertions at the start of a write. -/
def Asserted (db : MemTableDB) : Prop :=
  db.mutMemtableIdx < db.cacheOptions.numWriteBuffers ∧ db.current.status = .mutable

instance (db : MemTableDB) : Decidable db.Asserted := inferInstanceAs (Decidable (_ ∧ _))

/-- The next memtable becomes the mutable one; the old one is frozen after it. -/
def switch (db : MemTableDB) (epoch : Nat) : MemTableDB :=
  let opened := Function.update db.memtables db.nextIdx
    { db.memtables db.nextIdx with status := .mutable }
  let frozen := Function.update opened db.mutMemtableIdx
    { opened db.mutMemtableIdx with status := .immutable }
  { db with
    mutMemtableIdx := db.nextIdx
    memtables := Function.update frozen db.nextIdx
      { frozen db.nextIdx with oldestEpoch := epoch } }

def insert (db : MemTableDB) (entry : MemTableEntry) : MemTableDB :=
  { db with
    memtables := Function.update db.memtables db.mutMemtableIdx (db.current.insert entry)
    latestEpoch := entry.epoch }

/-- A write, with the epoch that the callback is given; `none` is a failed assertion. -/
def write (db : MemTableDB) (entry : MemTableEntry) :
    Option (MemTableDB × CacheResult × Option Nat) :=
  if db.Asserted then
    if db.overflows entry = true then
      if (db.memtables db.nextIdx).status ≠ .flushed then some (db, .cacheIsFull, none)
      else
        let switched := db.switch entry.epoch
        let called := if db.gcCallback then some switched.current.latestEpoch else none
        some (switched.insert entry, .ok, called)
    else some (db.insert entry, .ok, none)
  else none

def upsertOrDelete (db : MemTableDB) (key : Bytes) (epoch : Nat) (deleted : Bool)
    (val : Option Bytes) : Option (MemTableDB × CacheResult × Option Nat) :=
  match val with
  | some val => db.write ⟨key, val, epoch, deleted⟩
  | none => if deleted then db.write ⟨key, [], epoch, deleted⟩ else none

def upsert (db : MemTableDB) (key val : Bytes) (epoch : Nat) :
    Option (MemTableDB × CacheResult × Option Nat) :=
  db.upsertOrDelete key epoch false (some val)

def delete (db : MemTableDB) (key : Bytes) (epoch : Nat) :
    Option (MemTableDB × CacheResult × Option Nat) :=
  db.upsertOrDelete key epoch true none

def flushAll (epoch : Nat) : (Nat → MemTable) → List Nat → Nat → MemTable
  | memtables, [] => memtables
  | memtables, index :: rest =>
    flushAll epoch (Function.update memtables index ((memtables index).flush epoch)) rest

/-- `clear`; the mutable memtable is not visited. -/
def clear (db : MemTableDB) (epoch : Nat) : Option MemTableDB :=
  if db.mutMemtableIdx < db.cacheOptions.numWriteBuffers then
    let visited := (List.range' 1 (db.cacheOptions.numWriteBuffers - 1)).map db.back
    some { db with memtables := flushAll epoch db.memtables visited }
  else none

/-- The loop of `get`, over the distances from the mutable memtable. -/
def scan (db : MemTableDB) (start : MemTableEntry) : List Nat → Option MemTableEntry
  | [] => none
  | distance :: rest =>
    let table := db.memtables (db.back distance)
    if table.status = .flushed then none
    else if table.oldestEpoch ≤ start.epoch then
      match table.lowerBound start with
      | some entry => if entry.key = start.key then some entry else db.scan start rest
      | none => db.scan start rest
    else db.scan start rest

def epochInternal (db : MemTableDB) (epoch : Option Nat) : Nat :=
  match epoch with
  | some epoch => min epoch db.latestEpoch
  | none => db.latestEpoch

def get (db : MemTableDB) (key : Bytes) (epoch : Option Nat) : Option (Option Bytes × Nat) :=
  if db.mutMemtableIdx < db.cacheOptions.numWriteBuffers then
    match db.scan ⟨key, [], db.epochInternal epoch, false⟩
        (List.range db.cacheOptions.numWriteBuffers) with
    | some entry =>
      if entry.deleted then some (none, epoch.getD 0) else some (some entry.val, entry.epoch)
    | none => some (none, epoch.getD 0)
  else none

/-! ## Runs -/

inductive Call where
  | upsert (key val : Bytes) (epoch : Nat)
  | delete (key : Bytes) (epoch : Nat)
  | clear (epoch : Nat)

/-- The entry that a call writes. -/
def Call.entry? : Call → Option MemTableEntry
  | .upsert key val epoch => some ⟨key, val, epoch, false⟩
  | .delete key epoch => some ⟨key, [], epoch, true⟩
  | .clear _ => none

/-- A call, with its result; `none` is a failed assertion. -/
def call (db : MemTableDB) : Call → Option (MemTableDB × CacheResult × Option Nat)
  | .upsert key val epoch => db.upsert key val epoch
  | .delete key epoch => db.delete key epoch
  | .clear epoch => (db.clear epoch).map fun cleared => (cleared, .ok, none)

def step (db : MemTableDB) (label : Call) : Option MemTableDB := (db.call label).map Prod.fst

def Initial (db : MemTableDB) : Prop :=
  ∃ cacheOptions, 0 < cacheOptions.numWriteBuffers ∧
    (db = new cacheOptions ∨ db = (new cacheOptions).registerGcCallback)

/-! ## What a call does -/

variable {db next : MemTableDB} {entry : MemTableEntry} {result : CacheResult}
  {called : Option Nat} {epoch index : Nat}

inductive Writes (db : MemTableDB) (entry : MemTableEntry) :
    MemTableDB → CacheResult → Option Nat → Prop where
  | full : db.overflows entry = true → (db.memtables db.nextIdx).status ≠ .flushed →
      Writes db entry db .cacheIsFull none
  | switches : db.overflows entry = true → (db.memtables db.nextIdx).status = .flushed →
      Writes db entry ((db.switch entry.epoch).insert entry) .ok
        (if db.gcCallback then some (db.switch entry.epoch).current.latestEpoch else none)
  | stays : db.overflows entry = false → Writes db entry (db.insert entry) .ok none

theorem writes_of_write (wrote : db.write entry = some (next, result, called)) :
    db.Asserted ∧ db.Writes entry next result called := by
  unfold write at wrote
  split at wrote
  next asserted =>
    refine ⟨asserted, ?_⟩
    split at wrote
    next overflows =>
      split at wrote
      next taken =>
        cases wrote
        exact .full overflows taken
      next free =>
        cases wrote
        exact .switches overflows (not_not.mp free)
    next fits =>
      cases wrote
      exact .stays (Bool.eq_false_iff.mpr fits)
  next => cases wrote

theorem writes_of_call {label : Call} (known : label.entry? = some entry)
    (called' : db.call label = some (next, result, called)) :
    db.Asserted ∧ db.Writes entry next result called := by
  cases label with
  | upsert | delete =>
    cases known
    exact writes_of_write called'
  | clear => cases known

theorem exists_call (asserted : db.Asserted) (label : Call) :
    ∃ next result called, db.call label = some (next, result, called) := by
  have wrote (entry : MemTableEntry) :
      ∃ next result called, db.write entry = some (next, result, called) := by
    rw [write, if_pos asserted]
    split
    next => split <;> exact ⟨_, _, _, rfl⟩
    next => exact ⟨_, _, _, rfl⟩
  cases label with
  | upsert | delete => exact wrote _
  | clear =>
    simp only [call, clear, if_pos asserted.1]
    exact ⟨_, _, _, rfl⟩

theorem flush_flush (table : MemTable) (epoch : Nat) :
    (table.flush epoch).flush epoch = table.flush epoch := by
  unfold MemTable.flush
  split <;> simp_all

theorem flushAll_apply (epoch : Nat) (memtables : Nat → MemTable) (visited : List Nat)
    (index : Nat) : flushAll epoch memtables visited index =
      if index ∈ visited then (memtables index).flush epoch else memtables index := by
  induction visited generalizing memtables with
  | nil => rfl
  | cons first rest ih =>
    rw [flushAll, ih, Function.update_apply]
    by_cases same : index = first
    · subst same
      simp [flush_flush]
    · simp [same]

/-! ## The ring -/

theorem back_eq (bound : db.mutMemtableIdx < db.cacheOptions.numWriteBuffers) {distance : Nat}
    (inside : distance < db.cacheOptions.numWriteBuffers) :
    db.back distance =
      if distance ≤ db.mutMemtableIdx then db.mutMemtableIdx - distance
      else db.mutMemtableIdx + db.cacheOptions.numWriteBuffers - distance := by
  unfold back
  split
  next before =>
    rw [Nat.sub_add_comm before, Nat.add_mod_right, Nat.mod_eq_of_lt (by omega)]
  next => rw [Nat.mod_eq_of_lt (by omega)]

theorem nextIdx_eq (bound : db.mutMemtableIdx < db.cacheOptions.numWriteBuffers) :
    db.nextIdx =
      if db.mutMemtableIdx + 1 = db.cacheOptions.numWriteBuffers then 0
      else db.mutMemtableIdx + 1 := by
  unfold nextIdx
  split
  next last => rw [last, Nat.mod_self]
  next => rw [Nat.mod_eq_of_lt (by omega)]

theorem back_zero (bound : db.mutMemtableIdx < db.cacheOptions.numWriteBuffers) :
    db.back 0 = db.mutMemtableIdx := by
  rw [back_eq bound (by omega), if_pos (by omega), Nat.sub_zero]

theorem back_lt (bound : db.mutMemtableIdx < db.cacheOptions.numWriteBuffers) (distance : Nat) :
    db.back distance < db.cacheOptions.numWriteBuffers := Nat.mod_lt _ (by omega)

theorem back_inj (bound : db.mutMemtableIdx < db.cacheOptions.numWriteBuffers)
    {first second : Nat} (inside : first < db.cacheOptions.numWriteBuffers)
    (inside' : second < db.cacheOptions.numWriteBuffers) :
    db.back first = db.back second ↔ first = second := by
  rw [back_eq bound inside, back_eq bound inside']
  split <;> split <;> omega

theorem exists_back (bound : db.mutMemtableIdx < db.cacheOptions.numWriteBuffers)
    (inside : index < db.cacheOptions.numWriteBuffers) :
    ∃ distance < db.cacheOptions.numWriteBuffers, db.back distance = index := by
  by_cases before : index ≤ db.mutMemtableIdx
  · refine ⟨db.mutMemtableIdx - index, by omega, ?_⟩
    rw [back_eq bound (by omega), if_pos (by omega)]
    omega
  · refine ⟨db.mutMemtableIdx + db.cacheOptions.numWriteBuffers - index, by omega, ?_⟩
    rw [back_eq bound (by omega), if_neg (by omega)]
    omega

/-- The next memtable is the one furthest back. -/
theorem back_last (bound : db.mutMemtableIdx < db.cacheOptions.numWriteBuffers) :
    db.back (db.cacheOptions.numWriteBuffers - 1) = db.nextIdx := by
  rw [back_eq bound (by omega), nextIdx_eq bound]
  split <;> split <;> omega

theorem back_succ_of_next (bound : db.mutMemtableIdx < db.cacheOptions.numWriteBuffers)
    (options : next.cacheOptions = db.cacheOptions) (moved : next.mutMemtableIdx = db.nextIdx)
    {distance : Nat} (inside : distance + 1 < db.cacheOptions.numWriteBuffers) :
    next.back (distance + 1) = db.back distance := by
  have bound' : next.mutMemtableIdx < next.cacheOptions.numWriteBuffers := by
    rw [moved, options]
    exact Nat.mod_lt _ (by omega)
  rw [back_eq bound (by omega), back_eq bound' (by rw [options]; exact inside), options, moved,
    nextIdx_eq bound]
  split <;> split <;> split <;> omega

theorem clear_eq (cleared : db.clear epoch = some next) :
    db.mutMemtableIdx < db.cacheOptions.numWriteBuffers ∧ ∃ memtables,
      next = { db with memtables } ∧ ∀ distance < db.cacheOptions.numWriteBuffers,
        memtables (db.back distance) =
          if distance = 0 then db.memtables (db.back distance)
          else (db.memtables (db.back distance)).flush epoch := by
  unfold clear at cleared
  split at cleared
  next bound =>
    cases cleared
    refine ⟨bound, _, rfl, ?_⟩
    intro distance inside
    rw [flushAll_apply]
    by_cases first : distance = 0
    · rw [if_pos first, if_neg]
      intro visited
      obtain ⟨other, listed, same⟩ := List.mem_map.mp visited
      rw [List.mem_range'_1] at listed
      have := (back_inj bound (by omega) inside).mp same
      omega
    · rw [if_neg first, if_pos]
      exact List.mem_map.mpr ⟨distance, List.mem_range'_1.mpr (by omega), rfl⟩
  next => cases cleared

end MemTableDB

end Sangria.RangeServer
