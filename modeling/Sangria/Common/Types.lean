import Mathlib.Order.Defs.Unbundled
import Sangria.Lib.FiniteMap

/-!
# Shared vocabulary of the crates

Identifiers, byte strings, key ranges and the configuration switches used by
the coordinator, the resolver, the range servers and the stores.
-/

namespace Sangria

universe u v

def Uuid := BitVec 128
  deriving DecidableEq

instance (number : Nat) : OfNat Uuid number := ⟨BitVec.ofNat 128 number⟩

def Uuid.asU128 (id : Uuid) : Nat := BitVec.toNat id

instance : LE Uuid := inferInstanceAs (LE (BitVec 128))

instance : DecidableLE Uuid := inferInstanceAs (DecidableLE (BitVec 128))

instance : Std.Total (fun left right : Uuid => left ≤ right) := ⟨BitVec.le_total⟩

instance : IsTrans Uuid (fun left right => left ≤ right) :=
  ⟨fun left middle right => @BitVec.le_trans 128 left middle right⟩

/-- `bytes::Bytes`, ordered lexicographically. -/
abbrev Bytes := List UInt8

/-- `std::collections::HashMap`, without its unspecified iteration order. -/
abbrev HashMap (κ : Type u) (ν : Type v) := FiniteMap κ ν

/-- `number as i64`. -/
def asI64 (number : Nat) : Int :=
  if number % 2 ^ 64 < 2 ^ 63 then (number % 2 ^ 64 : Nat) else (number % 2 ^ 64 : Nat) - 2 ^ 64

structure KeyspaceId where
  id : Uuid
  deriving DecidableEq

structure FullRangeId where
  keyspaceId : KeyspaceId
  rangeId : Uuid
  deriving DecidableEq

structure KeyRange where
  lowerBoundInclusive : Option Bytes
  upperBoundExclusive : Option Bytes
  deriving DecidableEq

namespace KeyRange

def includes (range : KeyRange) (key : Bytes) : Bool :=
  let withinLower := match range.lowerBoundInclusive with
    | none => true
    | some bound => decide (bound ≤ key)
  let withinUpper := match range.upperBoundExclusive with
    | none => true
    | some bound => decide (key < bound)
  withinLower && withinUpper

def all : KeyRange := ⟨none, none⟩

end KeyRange

inductive Cloud where
  | aws
  | azure
  | gcp
  | other (name : String)
  deriving DecidableEq

structure Region where
  cloud : Option Cloud
  name : String
  deriving DecidableEq

structure Zone where
  region : Region
  name : String
  deriving DecidableEq

structure Keyspace where
  nameSpace : String
  name : String
  deriving DecidableEq

inductive CommitStrategy where
  | traditional
  | pipelined
  | adaptive
  deriving DecidableEq

inductive Heuristic where
  | openClients
  | lockContention
  deriving DecidableEq

end Sangria
