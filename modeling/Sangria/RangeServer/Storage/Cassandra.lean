import Mathlib.Data.Finset.Max
import Sangria.Lib.Enumeration
import Sangria.RangeServer.Storage.Records

/-!
# The storage of records over Cassandra

The table `atomix.records` with its two statements, and `batch_upsert` and `get`
on top of them.  The driver executes a query or a batch
as a whole or refuses it; it refuses a statement whose bound values do not match
the placeholders.
-/

namespace Sangria.RangeServer.Cassandra

open FiniteMap

inductive CqlValue where
  | uuid (value : Uuid)
  | blob (value : Bytes)
  | bigint (value : Int)
  | boolean (value : Bool)
  | unset
  deriving DecidableEq

structure CqlVal where
  value : Option Bytes
  isTombstone : Bool
  deriving DecidableEq

structure PrimaryKey where
  rangeId : Uuid
  key : Bytes
  epoch : Int
  deriving DecidableEq

abbrev Table := HashMap PrimaryKey CqlVal

structure KeyVersion where
  epoch : UInt64
  versionCounter : UInt64

def asI64 (number : UInt64) : Int := number.toInt64.toInt

/-- What `scylla_query_error_to_persistence_error` returns. -/
inductive Error where
  | timeout
  | internalError
  deriving DecidableEq

/-! ## The statements -/

/-- `INSERT … VALUES (?, ?, ?, ?, ?)`.  An unset value leaves the column as it
is. -/
def upsertQuery (table : Table) : List CqlValue → Option Table
  | [.uuid rangeId, .blob key, .blob value, .bigint epoch, .boolean isTombstone] =>
    some (table.insert ⟨rangeId, key, epoch⟩ ⟨some value, isTombstone⟩)
  | [.uuid rangeId, .blob key, .unset, .bigint epoch, .boolean isTombstone] =>
    some (table.insert ⟨rangeId, key, epoch⟩
      ⟨(table.find ⟨rangeId, key, epoch⟩).bind CqlVal.value, isTombstone⟩)
  | _ => none

def epochs (table : Table) (rangeId : Uuid) (key : Bytes) : Finset Int :=
  (table.keys.filter fun row => row.rangeId = rangeId ∧ row.key = key).image PrimaryKey.epoch

/-- `SELECT … LIMIT 1`, where the rows of a key are clustered by descending
epoch. -/
def getQuery (table : Table) (rangeId : Uuid) (key : Bytes) : Option CqlVal :=
  match (epochs table rangeId key).max with
  | none => none
  | some epoch => table.find ⟨rangeId, key, epoch⟩

/-- The driver binds the statements of a batch and executes them, unless the
database has a `fault`. -/
def batch (table : Table) (statements : List (List CqlValue)) (fault : Option Error) :
    Except Error Unit × Table :=
  match statements.foldlM upsertQuery table with
  | none => (.error .internalError, table)
  | some next =>
    match fault with
    | none => (.ok (), next)
    | some error => (.error error, table)

def query (table : Table) (values : List CqlValue) (fault : Option Error) :
    Except Error Unit × Table :=
  batch table [values] fault

/-! ## The operations -/

def upsertArgs (rangeId : Uuid) (key value : Bytes) (version : KeyVersion) : List CqlValue :=
  [.uuid rangeId, .blob key, .blob value, .bigint (asI64 version.epoch), .boolean false]

def deleteArgs (rangeId : Uuid) (key : Bytes) (version : KeyVersion) : List CqlValue :=
  [.uuid rangeId, .blob key, .unset, .bigint (asI64 version.epoch), .boolean true,
    .bigint (asI64 version.versionCounter)]

/-- `order` is the order in which the map of changes is iterated. -/
def insertBatchArgs (rangeId : Uuid) (changes : Changes) (version : KeyVersion)
    (order : List Bytes) : List (List CqlValue) :=
  order.filterMap fun key =>
    (changes.find key).join.map fun value => upsertArgs rangeId key value version

def deleteBatchArgs (rangeId : Uuid) (changes : Changes) (version : KeyVersion)
    (order : List Bytes) : List (List CqlValue) :=
  order.filterMap fun key =>
    if changes.find key = some none then some (deleteArgs rangeId key version) else none

def insertBatch (table : Table) (args : List (List CqlValue)) (fault : Option Error) :
    Except Error Unit × Table :=
  match args with
  | [] => (.ok (), table)
  | [values] => query table values fault
  | _ => batch table args fault

def deleteBatch (table : Table) (args : List (List CqlValue)) (fault : Option Error) :
    Except Error Unit × Table :=
  match args with
  | [] => (.ok (), table)
  | _ => batch table args fault

def batchUpsert (table : Table) (rangeId : Uuid) (changes : Changes) (version : KeyVersion)
    (order : List Bytes) (insertFault deleteFault : Option Error) : Except Error Unit × Table :=
  match insertBatch table (insertBatchArgs rangeId changes version order) insertFault with
  | (.error error, table) => (.error error, table)
  | (.ok _, table) =>
    deleteBatch table (deleteBatchArgs rangeId changes version order) deleteFault

def get (table : Table) (rangeId : Uuid) (key : Bytes) : Option Bytes :=
  (getQuery table rangeId key).bind fun row => if row.isTombstone then none else row.value

/-! ## The rows of a key -/

theorem mem_epochs {table : Table} {rangeId : Uuid} {key : Bytes} {epoch : Int} :
    epoch ∈ epochs table rangeId key ↔ ∃ row, table.find ⟨rangeId, key, epoch⟩ = some row := by
  simp only [epochs, Finset.mem_image, Finset.mem_filter, mem_keys]
  constructor
  · rintro ⟨⟨_, _, _⟩, ⟨found, rfl, rfl⟩, rfl⟩
    exact found
  · intro found
    exact ⟨⟨rangeId, key, epoch⟩, ⟨found, rfl, rfl⟩, rfl⟩

theorem getQuery_congr {table other : Table} {rangeId : Uuid} {key : Bytes}
    (same : ∀ epoch, table.find ⟨rangeId, key, epoch⟩ = other.find ⟨rangeId, key, epoch⟩) :
    getQuery table rangeId key = getQuery other rangeId key := by
  have sameEpochs : epochs table rangeId key = epochs other rangeId key := by
    ext epoch
    rw [mem_epochs, mem_epochs, same]
  unfold getQuery
  rw [sameEpochs]
  split
  next => rfl
  next epoch _ => exact same epoch

theorem getQuery_of_greatest {table : Table} {rangeId : Uuid} {key : Bytes} {epoch : Int}
    {row : CqlVal} (found : table.find ⟨rangeId, key, epoch⟩ = some row)
    (greatest : ∀ other, other ∈ epochs table rangeId key → other ≤ epoch) :
    getQuery table rangeId key = some row := by
  have top : (epochs table rangeId key).max = some epoch := by
    apply le_antisymm
    · exact Finset.max_le fun other member => WithBot.coe_le_coe.mpr (greatest other member)
    · exact Finset.le_max (mem_epochs.mpr ⟨row, found⟩)
  unfold getQuery
  rw [top]
  exact found

/-! ## Batches of puts -/

def putRows (rangeId : Uuid) (changes : Changes) (version : KeyVersion) (order : List Bytes) :
    List (PrimaryKey × CqlVal) :=
  order.filterMap fun key => (changes.find key).join.map fun value =>
    (⟨rangeId, key, asI64 version.epoch⟩, ⟨some value, false⟩)

def afterPuts (table : Table) (rangeId : Uuid) (changes : Changes) (version : KeyVersion)
    (order : List Bytes) : Table :=
  (putRows rangeId changes version order).foldl (fun all row => all.insert row.1 row.2) table

section Puts

variable {table : Table} {rangeId : Uuid} {changes : Changes} {version : KeyVersion}
  {order : List Bytes} {key : Bytes}

theorem foldlM_insertBatchArgs (table : Table) (rangeId : Uuid) (changes : Changes)
    (version : KeyVersion) (order : List Bytes) :
    (insertBatchArgs rangeId changes version order).foldlM upsertQuery table =
      some (afterPuts table rangeId changes version order) := by
  induction order generalizing table with
  | nil => rfl
  | cons key _ ih =>
    simp only [insertBatchArgs, afterPuts, putRows, List.filterMap_cons]
    cases put : (changes.find key).join with
    | none => exact ih table
    | some => exact ih _

theorem insertBatch_of_puts (table : Table) (rangeId : Uuid) (changes : Changes)
    (version : KeyVersion) (order : List Bytes) (fault : Option Error) :
    insertBatch table (insertBatchArgs rangeId changes version order) fault =
        (.ok (), afterPuts table rangeId changes version order) ∨
      ∃ error, fault = some error ∧
        insertBatch table (insertBatchArgs rangeId changes version order) fault =
          (.error error, table) := by
  have accepted := foldlM_insertBatchArgs table rangeId changes version order
  have sent : batch table (insertBatchArgs rangeId changes version order) fault =
      (.ok (), afterPuts table rangeId changes version order) ∨
      ∃ error, fault = some error ∧
        batch table (insertBatchArgs rangeId changes version order) fault =
          (.error error, table) := by
    rw [batch, accepted]
    cases fault with
    | none => exact .inl rfl
    | some error => exact .inr ⟨error, rfl, rfl⟩
  unfold insertBatch
  split
  next empty =>
    rw [empty] at accepted
    exact .inl (congrArg _ (Option.some.inj accepted))
  next single =>
    rw [single] at sent
    exact sent
  next => exact sent

theorem nodup_putRows (distinct : order.Nodup) :
    ((putRows rangeId changes version order).map Prod.fst).Nodup := by
  rw [putRows, List.map_filterMap]
  refine distinct.filterMap ?_
  intro key other row here there
  simp only [Option.map_map, Option.mem_def, Option.map_eq_some_iff, Function.comp_apply]
    at here there
  obtain ⟨_, _, rfl⟩ := here
  obtain ⟨_, _, same⟩ := there
  exact (PrimaryKey.mk.inj same).2.1.symm

theorem find_of_put (distinct : order.Nodup) (listed : key ∈ order) {value : Bytes}
    (put : changes.find key = some (some value)) :
    (afterPuts table rangeId changes version order).find ⟨rangeId, key, asI64 version.epoch⟩ =
      some ⟨some value, false⟩ := by
  have member : ((⟨rangeId, key, asI64 version.epoch⟩, ⟨some value, false⟩) :
      PrimaryKey × CqlVal) ∈ putRows rangeId changes version order :=
    List.mem_filterMap.mpr ⟨key, listed, by simp [put]⟩
  exact find_foldl_insert_of_mem table (nodup_putRows distinct) member

theorem find_of_not_put {row : PrimaryKey}
    (unput : row.rangeId = rangeId → row.epoch = asI64 version.epoch →
      (changes.find row.key).join = none) :
    (afterPuts table rangeId changes version order).find row = table.find row := by
  apply find_foldl_insert_of_notMem
  intro member
  obtain ⟨⟨_, _⟩, put, rfl⟩ := List.mem_map.mp member
  obtain ⟨key, _, changed⟩ := List.mem_filterMap.mp put
  obtain ⟨value, written, same⟩ := Option.map_eq_some_iff.mp changed
  cases same
  cases (unput rfl rfl).symm.trans written

theorem epochs_of_put (distinct : order.Nodup) (listed : key ∈ order) {value : Bytes}
    (put : changes.find key = some (some value)) :
    epochs (afterPuts table rangeId changes version order) rangeId key =
      insert (asI64 version.epoch) (epochs table rangeId key) := by
  ext epoch
  rw [Finset.mem_insert, mem_epochs, mem_epochs]
  by_cases same : epoch = asI64 version.epoch
  · subst same
    simp [find_of_put distinct listed put]
  · rw [find_of_not_put fun _ equal => absurd equal same]
    simp [same]

theorem get_of_put (distinct : order.Nodup) (listed : key ∈ order) {value : Bytes}
    (put : changes.find key = some (some value))
    (newest : ∀ epoch ∈ epochs table rangeId key, epoch ≤ asI64 version.epoch) :
    get (afterPuts table rangeId changes version order) rangeId key = some value := by
  have greatest : ∀ epoch ∈ epochs (afterPuts table rangeId changes version order) rangeId key,
      epoch ≤ asI64 version.epoch := by
    intro epoch member
    rw [epochs_of_put distinct listed put] at member
    rcases Finset.mem_insert.mp member with rfl | before
    · exact le_rfl
    · exact newest epoch before
  rw [get, getQuery_of_greatest (find_of_put distinct listed put) greatest]
  rfl

theorem get_of_not_put {range : Uuid}
    (unput : range = rangeId → (changes.find key).join = none) :
    get (afterPuts table rangeId changes version order) range key = get table range key := by
  have same := @getQuery_congr (afterPuts table rangeId changes version order) table range key
    fun epoch => find_of_not_put fun here _ => unput here
  rw [get, same, get]

end Puts

/-! ## All or nothing -/

/-- The changes are visible after a success, unless a row is newer, and nothing
has changed after an error. -/
def AllOrNothing (table : Table) (rangeId : Uuid) (changes : Changes) (version : KeyVersion)
    (outcome : Except Error Unit × Table) : Prop :=
  match outcome.1 with
  | .ok _ =>
    (∀ key change, changes.find key = some change →
      (∀ epoch ∈ epochs table rangeId key, epoch ≤ asI64 version.epoch) →
      get outcome.2 rangeId key = change) ∧
    ∀ range key, (range = rangeId → changes.find key = none) →
      get outcome.2 range key = get table range key
  | .error _ => ∀ range key, get outcome.2 range key = get table range key

/-- Besides, the batch is accepted whenever the database has no fault. -/
def AppliesAtomically (table : Table) (rangeId : Uuid) (changes : Changes) (version : KeyVersion)
    (order : List Bytes) (insertFault deleteFault : Option Error) : Prop :=
  AllOrNothing table rangeId changes version
      (batchUpsert table rangeId changes version order insertFault deleteFault) ∧
    (insertFault = none → deleteFault = none →
      (batchUpsert table rangeId changes version order insertFault deleteFault).1 = .ok ())

theorem batchUpsert_of_puts (table : Table) (rangeId : Uuid) {changes : Changes}
    (version : KeyVersion) (order : List Bytes) (insertFault deleteFault : Option Error)
    (puts : ∀ key, changes.find key ≠ some none) :
    batchUpsert table rangeId changes version order insertFault deleteFault =
        (.ok (), afterPuts table rangeId changes version order) ∨
      ∃ error, insertFault = some error ∧
        batchUpsert table rangeId changes version order insertFault deleteFault =
          (.error error, table) := by
  have nothing : deleteBatchArgs rangeId changes version order = [] := by
    rw [deleteBatchArgs, List.filterMap_eq_nil_iff]
    intro key _
    exact if_neg (puts key)
  rcases insertBatch_of_puts table rangeId changes version order insertFault with
    done | ⟨error, fault, failed⟩
  · left
    rw [batchUpsert, done, nothing]
    rfl
  · right
    refine ⟨error, fault, ?_⟩
    rw [batchUpsert, failed]

theorem appliesAtomically_of_puts (table : Table) (rangeId : Uuid) {changes : Changes}
    (version : KeyVersion) {order : List Bytes} (insertFault deleteFault : Option Error)
    (enumerates : Enumerates order changes.keys) (puts : ∀ key, changes.find key ≠ some none) :
    AppliesAtomically table rangeId changes version order insertFault deleteFault := by
  unfold AppliesAtomically
  rcases batchUpsert_of_puts table rangeId version order insertFault deleteFault puts with
    done | ⟨error, rfl, failed⟩
  · rw [done]
    refine ⟨⟨?_, ?_⟩, fun _ _ => rfl⟩
    · intro key change changed newest
      have listed := enumerates.mem_iff.mpr (mem_keys.mpr ⟨change, changed⟩)
      cases change with
      | none => exact absurd changed (puts key)
      | some => exact get_of_put enumerates.1 listed changed newest
    · intro range key unchanged
      apply get_of_not_put
      intro here
      rw [unchanged here]
      rfl
  · rw [failed]
    refine ⟨fun _ _ => rfl, ?_⟩
    intro accepted
    cases accepted

/-- The statement of a delete has a value too many. -/
theorem deleteBatch_of_delete (table : Table) (rangeId : Uuid) {changes : Changes}
    (version : KeyVersion) {order : List Bytes} (fault : Option Error) {key : Bytes}
    (listed : key ∈ order) (deleted : changes.find key = some none) :
    deleteBatch table (deleteBatchArgs rangeId changes version order) fault =
      (.error .internalError, table) := by
  have member : deleteArgs rangeId key version ∈ deleteBatchArgs rangeId changes version order :=
    List.mem_filterMap.mpr ⟨key, listed, if_pos deleted⟩
  cases args : deleteBatchArgs rangeId changes version order with
  | nil =>
    rw [args] at member
    cases member
  | cons first =>
    have first_eq : first ∈ deleteBatchArgs rangeId changes version order := by
      rw [args]
      exact List.mem_cons_self
    obtain ⟨other, _, made⟩ := List.mem_filterMap.mp first_eq
    split at made
    next =>
      cases made
      rfl
    next => cases made

theorem batchUpsert_refuses_delete (table : Table) (rangeId : Uuid) {changes : Changes}
    (version : KeyVersion) {order : List Bytes} (insertFault deleteFault : Option Error)
    {key : Bytes} (listed : key ∈ order) (deleted : changes.find key = some none) :
    (batchUpsert table rangeId changes version order insertFault deleteFault).1 ≠ .ok () := by
  rw [batchUpsert]
  split
  next =>
    intro same
    cases same
  next =>
    rw [deleteBatch_of_delete _ rangeId version deleteFault listed deleted]
    intro same
    cases same

/-- Whatever the database does, a batch is applied entirely or not at all, if and
only if it has no delete. -/
theorem batchUpsert_allOrNothing (table : Table) (rangeId : Uuid) (changes : Changes)
    (version : KeyVersion) (order : List Bytes) (enumerates : Enumerates order changes.keys) :
    (∀ insertFault deleteFault, AppliesAtomically table rangeId changes version order insertFault
      deleteFault) ↔ ∀ key, changes.find key ≠ some none := by
  constructor
  · intro applies key deleted
    have listed := enumerates.mem_iff.mpr (mem_keys.mpr ⟨none, deleted⟩)
    exact batchUpsert_refuses_delete table rangeId version none none listed deleted
      ((applies none none).2 rfl rfl)
  · intro puts insertFault deleteFault
    exact appliesAtomically_of_puts table rangeId version insertFault deleteFault enumerates puts

/-- Two puts over a row of each key; that of `[2]` is newer. -/
def storedRows : Table :=
  ((∅ : Table).insert ⟨7, [1], 0⟩ ⟨some [4], false⟩).insert ⟨7, [2], 9⟩ ⟨some [6], false⟩

def twoPuts : Changes := ((∅ : Changes).insert [1] (some [5])).insert [2] (some [8])

theorem batchUpsert_allOrNothing_put :
    AppliesAtomically storedRows 7 twoPuts ⟨3, 0⟩ [[2], [1]] none none ∧
      get (batchUpsert storedRows 7 twoPuts ⟨3, 0⟩ [[2], [1]] none none).2 7 [1] = some [5] ∧
      get (batchUpsert storedRows 7 twoPuts ⟨3, 0⟩ [[2], [1]] none none).2 7 [2] = some [6] := by
  refine ⟨(batchUpsert_allOrNothing _ _ _ _ _ (by decide)).mpr ?_ none none, by decide +kernel,
    by decide +kernel⟩
  exact not_deletes_iff.mp (by decide)

def mixedChanges : Changes := ((∅ : Changes).insert [1] (some [5])).insert [2] none

/-- The put is applied, the delete is refused and an error is returned. -/
theorem batchUpsert_half_applied :
    Enumerates [[1], [2]] mixedChanges.keys ∧
      get (batchUpsert ∅ 7 mixedChanges ⟨0, 0⟩ [[1], [2]] none none).2 7 [1] ≠ get ∅ 7 [1] ∧
      ¬ AppliesAtomically ∅ 7 mixedChanges ⟨0, 0⟩ [[1], [2]] none none := by
  refine ⟨by decide, by decide +kernel, ?_⟩
  rintro ⟨_, accepted⟩
  exact batchUpsert_refuses_delete ∅ 7 ⟨0, 0⟩ none none (List.mem_cons_of_mem _ List.mem_cons_self)
    (find_insert_self ..) (accepted rfl rfl)

/-! ## The newest rows

The range managers see of the table, for every key, the row that `get` finds. -/

def records (table : Table) (rangeId : Uuid) : Records := fun key =>
  match (epochs table rangeId key).max with
  | none => none
  | some epoch => (table.find ⟨rangeId, key, epoch⟩).map fun row =>
    ⟨epoch, if row.isTombstone then none else row.value⟩

theorem get_records (table : Table) (rangeId : Uuid) (key : Bytes) :
    (records table rangeId).get key = get table rangeId key := by
  unfold Records.get records get getQuery
  split
  next => rfl
  next epoch _ =>
    cases table.find ⟨rangeId, key, epoch⟩ with
    | none | some => rfl

section NewestRows

variable {table other : Table} {rangeId : Uuid} {changes : Changes} {version : KeyVersion}
  {order : List Bytes} {key : Bytes}

theorem records_congr
    (same : ∀ epoch, table.find ⟨rangeId, key, epoch⟩ = other.find ⟨rangeId, key, epoch⟩) :
    records table rangeId key = records other rangeId key := by
  have sameEpochs : epochs table rangeId key = epochs other rangeId key := by
    ext epoch
    rw [mem_epochs, mem_epochs, same]
  unfold records
  rw [sameEpochs]
  split
  next => rfl
  next => rw [same]

theorem records_of_max {epoch : Int} {row : CqlVal}
    (top : (epochs table rangeId key).max = some epoch)
    (found : table.find ⟨rangeId, key, epoch⟩ = some row) :
    records table rangeId key = some ⟨epoch, if row.isTombstone then none else row.value⟩ := by
  simp only [records, top, found, Option.map_some]

theorem asI64_eq (number : UInt64) : asI64 number = Sangria.asI64 number.toNat := by
  have below := number.toNat_lt
  have cast : asI64 number = number.toBitVec.toInt := rfl
  rw [cast, BitVec.toInt_eq_toNat_cond, Sangria.asI64, Nat.mod_eq_of_lt below]
  change (if 2 * number.toNat < 2 ^ 64 then (number.toNat : Int)
    else number.toNat - (2 ^ 64 : Nat)) = _
  split <;> split <;> omega

theorem records_of_put {value : Bytes} (distinct : order.Nodup) (listed : key ∈ order)
    (put : changes.find key = some (some value)) :
    records (afterPuts table rangeId changes version order) rangeId key =
      Records.upsert (records table rangeId key) (asI64 version.epoch) value := by
  have put_row := @find_of_put table rangeId changes version order key distinct listed value put
  have raised : (epochs (afterPuts table rangeId changes version order) rangeId key).max =
      max ↑(asI64 version.epoch) (epochs table rangeId key).max := by
    rw [@epochs_of_put table rangeId changes version order key distinct listed value put,
      Finset.max_insert]
  cases top : (epochs table rangeId key).max with
  | bot =>
    have before : records table rangeId key = none := by
      simp only [records, top]
    rw [top, max_bot_right] at raised
    rw [records_of_max raised put_row, before]
    rfl
  | coe newest =>
    obtain ⟨row, found⟩ := mem_epochs.mp (Finset.mem_of_max top)
    rw [records_of_max top found]
    by_cases older : newest ≤ asI64 version.epoch
    · rw [top, max_eq_left (WithBot.coe_le_coe.mpr older)] at raised
      rw [records_of_max raised put_row]
      simp [Records.upsert, older]
    · rw [top, max_eq_right (WithBot.coe_le_coe.mpr (by omega))] at raised
      have kept : (afterPuts table rangeId changes version order).find
          ⟨rangeId, key, newest⟩ = some row := by
        rw [find_of_not_put, found]
        intro _ same
        exact absurd same.le older
      rw [records_of_max raised kept]
      simp [Records.upsert, older]

theorem records_afterPuts (enumerates : Enumerates order changes.keys) :
    records (afterPuts table rangeId changes version order) rangeId =
      (records table rangeId).batchUpsert changes (asI64 version.epoch) := by
  funext key
  unfold Records.batchUpsert
  split
  next unchanged => exact records_congr fun epoch => find_of_not_put fun _ _ => unchanged
  next put =>
    have changed := Option.join_eq_some_iff.mp put
    exact records_of_put enumerates.1 (enumerates.mem_iff.mpr (mem_keys.mpr ⟨_, changed⟩)) changed

end NewestRows

/-- On a database without faults `batch_upsert` leaves the rows that the range managers assume,
and returns an error exactly when the batch deletes a key. -/
theorem records_batchUpsert (table : Table) (rangeId : Uuid) {changes : Changes}
    (version : KeyVersion) {order : List Bytes} (enumerates : Enumerates order changes.keys) :
    records (batchUpsert table rangeId changes version order none none).2 rangeId =
        (records table rangeId).batchUpsert changes (Sangria.asI64 version.epoch.toNat) ∧
      (batchUpsert table rangeId changes version order none none).1 =
        if Deletes changes then .error .internalError else .ok () := by
  have puts := (insertBatch_of_puts table rangeId changes version order none).resolve_right
    (by rintro ⟨_, fault, _⟩; cases fault)
  rw [← asI64_eq, ← records_afterPuts enumerates]
  split
  next deletes =>
    obtain ⟨key, present, deleted⟩ := deletes
    have refused := deleteBatch_of_delete (afterPuts table rangeId changes version order) rangeId
      version none (enumerates.mem_iff.mpr present) deleted
    have done : batchUpsert table rangeId changes version order none none =
        (.error .internalError, afterPuts table rangeId changes version order) := by
      rw [batchUpsert, puts, ← refused]
    rw [done]
    exact ⟨rfl, rfl⟩
  next kept =>
    have done := (batchUpsert_of_puts table rangeId version order none none
      (not_deletes_iff.mp kept)).resolve_right (by rintro ⟨_, fault, _⟩; cases fault)
    rw [done]
    exact ⟨rfl, rfl⟩

end Sangria.RangeServer.Cassandra
