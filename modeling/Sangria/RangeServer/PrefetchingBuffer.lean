import Sangria.Common.Types

/-!
# The prefetching buffer

The values that a range keeps in memory.  Every method runs under the mutex of
the buffer.  A key has a state only when it was requested by a prefetch.
-/

namespace Sangria.RangeServer

inductive KeyState where
  | fetched
  | loading (fetchSequenceNumber : Nat)
  | requested (fetchSequenceNumber : Nat)
  deriving DecidableEq

structure PrefetchingBuffer where
  prefetchStore : HashMap Bytes Bytes
  keyState : HashMap Bytes KeyState

namespace PrefetchingBuffer

def new : PrefetchingBuffer := ⟨∅, ∅⟩

def getFromBuffer (buffer : PrefetchingBuffer) (key : Bytes) : Option Bytes :=
  buffer.prefetchStore.find key

/-- The check for a key state is commented out: the value is kept in any case. -/
def upsert (buffer : PrefetchingBuffer) (key value : Bytes) : PrefetchingBuffer :=
  { buffer with prefetchStore := buffer.prefetchStore.insert key value }

def delete (buffer : PrefetchingBuffer) (key : Bytes) : PrefetchingBuffer :=
  match buffer.keyState.find key with
  | none => buffer
  | some state =>
    { prefetchStore := buffer.prefetchStore.erase key
      keyState := match state with
        | .loading _ => buffer.keyState.insert key .fetched
        | _ => buffer.keyState }

theorem getFromBuffer_upsert (buffer : PrefetchingBuffer) (key value other : Bytes) :
    (buffer.upsert key value).getFromBuffer other =
      if other = key then some value else buffer.getFromBuffer other :=
  FiniteMap.find_insert ..

end PrefetchingBuffer

end Sangria.RangeServer
