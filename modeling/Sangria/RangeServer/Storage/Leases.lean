import Sangria.Common.Types

/-!
# Range leases and the loading of a range

The row of `atomix.range_leases`, the statements of
`take_ownership_and_load_range` and `renew_epoch_lease`, and
`RangeManager::load_inner` cut at these statements.  Any number of range
servers load the same range at the same time.
-/

namespace Sangria.RangeLeases

structure EpochLease where
  lowerBoundInclusive : Nat
  upperBoundInclusive : Nat
  deriving DecidableEq

structure CqlRangeLease where
  epochLease : EpochLease
  keyRange : KeyRange
  leaderSequenceNumber : Int
  deriving DecidableEq

structure RangeInfo where
  keyRange : KeyRange
  leaderSequenceNumber : Int
  epochLease : EpochLease
  deriving DecidableEq

/-- `UPDATE … SET leader_sequence_number = ? … IF leader_sequence_number = ?`. -/
def acquireRangeLeaseQuery (lease : CqlRangeLease) (new previous : Int) : CqlRangeLease :=
  if lease.leaderSequenceNumber = previous then
    { lease with leaderSequenceNumber := new }
  else
    lease

/-- `UPDATE … SET epoch_lease = ? … IF leader_sequence_number = ?`. -/
def renewEpochLeaseQuery (lease : CqlRangeLease) (renewed : EpochLease)
    (leader : Int) : CqlRangeLease :=
  if lease.leaderSequenceNumber = leader then
    { lease with epochLease := renewed }
  else
    lease

/-- Epochs covered by a lease of two seconds; at least one.  A zero epoch
duration makes `checked_div` fail. -/
def numEpochsPerLease (epochDurationNanos : Nat) : Option Nat :=
  if epochDurationNanos = 0 then none
  else some (max 1 (2000000000 / epochDurationNanos))

/-- The lease that `load_inner` asks for.  The epoch supplier is not read:
the highest known epoch is the constant 1. -/
def nextEpochLease (current : EpochLease) (epochs : Nat) : EpochLease :=
  let lower := max 1 (current.upperBoundInclusive + 1)
  ⟨lower, lower + epochs⟩

/-- Where one run of `load_inner` stands between two statements. -/
inductive Load where
  | started (epochs : Nat)
  /-- The lease was read with this leader. -/
  | acquiring (epochs : Nat) (previous : Int)
  /-- The conditional update was sent.  Whether it was applied is not looked
  at; the lease is read again instead. -/
  | verifying (epochs : Nat) (previous : Int)
  | renewing (epochs : Nat) (info : RangeInfo)
  | confirming (info : RangeInfo) (renewed : EpochLease)
  | syncing (info : RangeInfo)
  | loaded (info : RangeInfo)
  | failed
  deriving DecidableEq

/-- The row of the range and the load runs of all servers.  `owners` and
`granted` collect the results of successful calls.  `elected` and `renewed`
observe which conditional updates were applied, which the code never learns. -/
structure Leases where
  row : CqlRangeLease
  loads : HashMap Nat Load
  owners : HashMap Nat Int
  granted : HashMap Nat EpochLease
  elected : HashMap Nat Int
  renewed : HashMap Nat EpochLease

inductive Label where
  | begin (loader : Nat) (epochDurationNanos : Nat)
  | execute (loader : Nat)
  /-- The next statement of a load returns an error.  A timed out update may
  have been applied all the same. -/
  | fail (loader : Nat) (applied : Bool)

namespace Leases

def become (leases : Leases) (loader : Nat) (load : Load) : Leases :=
  { leases with loads := leases.loads.insert loader load }

def acquire (leases : Leases) (loader : Nat) (previous : Int) : Leases :=
  { leases with
    row := acquireRangeLeaseQuery leases.row (previous + 1) previous
    elected :=
      if leases.row.leaderSequenceNumber = previous then
        leases.elected.insert loader (previous + 1)
      else
        leases.elected }

/-- The conditional update of the epoch lease, with its observer. -/
def renew (leases : Leases) (loader : Nat) (leader : Int) (lease : EpochLease) : Leases :=
  { leases with
    row := renewEpochLeaseQuery leases.row lease leader
    renewed :=
      if leases.row.leaderSequenceNumber = leader then
        leases.renewed.insert loader lease
      else
        leases.renewed }

def own (leases : Leases) (loader : Nat) (leader : Int) : Leases :=
  { leases with owners := leases.owners.insert loader leader }

def grant (leases : Leases) (loader : Nat) (lease : EpochLease) : Leases :=
  { leases with granted := leases.granted.insert loader lease }

def execute (leases : Leases) (loader : Nat) : Load → Option Leases
  | .started epochs =>
    some (leases.become loader (.acquiring epochs leases.row.leaderSequenceNumber))
  | .acquiring epochs previous =>
    some ((leases.acquire loader previous).become loader (.verifying epochs previous))
  | .verifying epochs previous =>
    if leases.row.leaderSequenceNumber ≠ previous + 1 then
      -- `RangeOwnershipLost`
      some (leases.become loader .failed)
    else
      some ((leases.own loader (previous + 1)).become loader (.renewing epochs
        ⟨leases.row.keyRange, previous + 1, leases.row.epochLease⟩))
  | .renewing epochs info =>
    let lease := nextEpochLease info.epochLease epochs
    some ((leases.renew loader info.leaderSequenceNumber lease).become loader
      (.confirming info lease))
  | .confirming info lease =>
    if leases.row.leaderSequenceNumber ≠ info.leaderSequenceNumber then
      some (leases.become loader .failed)
    else
      some (leases.become loader (.syncing { info with epochLease := lease }))
  | .syncing info =>
    some ((leases.grant loader info.epochLease).become loader (.loaded info))
  | .loaded _ => none
  | .failed => none

def fail (leases : Leases) (loader : Nat) (applied : Bool) : Load → Option Leases
  | .acquiring _ previous =>
    some ((if applied then leases.acquire loader previous else leases).become loader .failed)
  | .renewing epochs info =>
    some ((if applied then
        leases.renew loader info.leaderSequenceNumber (nextEpochLease info.epochLease epochs)
      else
        leases).become loader .failed)
  | .loaded _ => none
  | .failed => none
  | _ => some (leases.become loader .failed)

end Leases

def step (leases : Leases) : Label → Option Leases
  | .begin loader epochDurationNanos =>
    if loader ∈ leases.loads then none
    else
      match numEpochsPerLease epochDurationNanos with
      | none => some (leases.become loader .failed)
      | some epochs => some (leases.become loader (.started epochs))
  | .execute loader =>
    match leases.loads.find loader with
    | none => none
    | some load => leases.execute loader load
  | .fail loader applied =>
    match leases.loads.find loader with
    | none => none
    | some load => leases.fail loader applied load

end Sangria.RangeLeases
