import Sangria.Common.Types

/-!
# The records of a range

The rows of `atomix.records` that belong to one range, with `batch_upsert` and
`get`.  The rows of a key are clustered by descending epoch and `get` reads the
first of them, so that the row with the highest epoch stands for all of them.
The epoch is what the column holds, the number of the version cast to `i64`.
-/

namespace Sangria.RangeServer

structure Record where
  epoch : Int
  value : Option Bytes
  deriving DecidableEq

/-- The changes of a prepare record or of a batch: `none` deletes the key. -/
abbrev Changes := HashMap Bytes (Option Bytes)

/-- The batch has a delete, whose statement is refused when the puts are written. -/
def Deletes (changes : Changes) : Prop := ∃ key ∈ changes.keys, changes.find key = some none

instance (changes : Changes) : Decidable (Deletes changes) :=
  inferInstanceAs (Decidable (∃ key ∈ changes.keys, changes.find key = some none))

theorem not_deletes_iff {changes : Changes} :
    ¬ Deletes changes ↔ ∀ key, changes.find key ≠ some none := by
  constructor
  · intro puts key deleted
    exact puts ⟨key, FiniteMap.mem_keys.mpr ⟨none, deleted⟩, deleted⟩
  · rintro puts ⟨key, _, deleted⟩
    exact puts key deleted

/-- For every key the row that `GET_QUERY` finds. -/
abbrev Records := Bytes → Option Record

namespace Records

variable {records : Records} {epoch : Int} {key : Bytes}

def get (records : Records) (key : Bytes) : Option Bytes :=
  (records key).bind Record.value

/-- A row of a lower epoch is inserted behind the one that `get` finds. -/
def upsert (existing : Option Record) (epoch : Int) (value : Bytes) : Option Record :=
  match existing with
  | none => some ⟨epoch, value⟩
  | some record => if record.epoch ≤ epoch then some ⟨epoch, value⟩ else some record

/-- The rows that `batch_upsert` leaves: only puts are written. -/
def batchUpsert (records : Records) (changes : Changes) (epoch : Int) : Records :=
  fun key =>
    match (changes.find key).join with
    | none => records key
    | some value => upsert (records key) epoch value

theorem get_batchUpsert_of_put {changes : Changes} {value : Bytes}
    (put : changes.find key = some (some value))
    (current : ∀ record, records key = some record → record.epoch ≤ epoch) :
    (records.batchUpsert changes epoch).get key = some value := by
  cases stored : records key with
  | none => simp [get, batchUpsert, put, upsert, stored]
  | some record => simp [get, batchUpsert, put, upsert, stored, current record stored]

theorem batchUpsert_of_join {changes : Changes}
    (unchanged : (changes.find key).join = none) (epoch : Int) :
    records.batchUpsert changes epoch key = records key := by
  simp [batchUpsert, unchanged]

end Records

end Sangria.RangeServer
