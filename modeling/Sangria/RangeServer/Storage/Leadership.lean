import Sangria.Lib.TransitionSystem
import Sangria.RangeServer.Storage.Leases

/-!
# When range leadership is unique

`take_ownership_and_load_range` decides ownership by reading the lease back.
A server whose conditional update was refused therefore also succeeds when it
reads the row while it still carries the number that the winner wrote.
`Undisturbed` rules that reading out; under it every leader sequence number has
one owner, and the owner of a number is the only one that can move the epoch
lease while the number is current.
-/

namespace Sangria.RangeLeases

open FiniteMap
open TransitionSystem

variable {leases next : Leases} {loader epochs : Nat} {load : Load} {previous : Int}
  {info : RangeInfo}

/-- Distinct successful calls get distinct leader numbers, and distinct
successful loads get epoch leases that do not overlap. -/
def UniqueLeadership (leases : Leases) : Prop :=
  (∀ first second leader, leases.owners.find first = some leader →
    leases.owners.find second = some leader → first = second) ∧
  ∀ first second left right, leases.granted.find first = some left →
    leases.granted.find second = some right → first ≠ second →
    left.upperBoundInclusive < right.lowerBoundInclusive ∨
      right.upperBoundInclusive < left.lowerBoundInclusive

/-- No server reads the lease back at `previous + 1` after its own conditional
update from `previous` was refused. -/
def Undisturbed (leases : Leases) : Label → Prop
  | .execute loader =>
    match leases.loads.find loader with
    | some (.verifying _ previous) =>
      leases.elected.find loader = none →
        leases.row.leaderSequenceNumber ≠ previous + 1
    | _ => True
  | _ => True

instance (leases : Leases) (label : Label) : Decidable (Undisturbed leases label) := by
  unfold Undisturbed
  split
  · split <;> infer_instance
  · infer_instance

def Initial (leases : Leases) : Prop :=
  leases.loads = ∅ ∧ leases.owners = ∅ ∧ leases.granted = ∅ ∧
    leases.elected = ∅ ∧ leases.renewed = ∅

def StageHolds (leases : Leases) (loader : Nat) : Load → Prop
  | .started _ => leases.elected.find loader = none ∧ leases.renewed.find loader = none
  | .acquiring _ previous => leases.elected.find loader = none ∧
      leases.renewed.find loader = none ∧ previous ≤ leases.row.leaderSequenceNumber
  | .verifying _ previous =>
    (∀ leader, leases.elected.find loader = some leader → leader = previous + 1) ∧
    leases.renewed.find loader = none
  | .renewing _ info =>
    leases.owners.find loader = some info.leaderSequenceNumber ∧
    leases.renewed.find loader = none ∧
    (leases.row.leaderSequenceNumber = info.leaderSequenceNumber →
      leases.row.epochLease = info.epochLease)
  | .confirming info lease =>
    leases.owners.find loader = some info.leaderSequenceNumber ∧
    (leases.row.leaderSequenceNumber = info.leaderSequenceNumber →
      leases.renewed.find loader = some lease)
  | .syncing info => leases.renewed.find loader = some info.epochLease
  | .loaded info => leases.renewed.find loader = some info.epochLease
  | .failed => True

structure Fenced (leases : Leases) : Prop where
  /-- Numbers never go back. -/
  bounded : ∀ loader leader, leases.elected.find loader = some leader →
    leader ≤ leases.row.leaderSequenceNumber
  /-- A conditional update from one number is applied once. -/
  distinct : ∀ first second leader, leases.elected.find first = some leader →
    leases.elected.find second = some leader → first = second
  /-- Only elected servers own the range. -/
  backed : ∀ loader leader, leases.owners.find loader = some leader →
    leases.elected.find loader = some leader
  /-- Granted leases were written to the row. -/
  written : ∀ loader lease, leases.granted.find loader = some lease →
    leases.renewed.find loader = some lease
  /-- The row ends where the last written lease ends, or later. -/
  covered : ∀ loader lease, leases.renewed.find loader = some lease →
    lease.upperBoundInclusive ≤ leases.row.epochLease.upperBoundInclusive
  disjoint : ∀ first second left right, leases.renewed.find first = some left →
    leases.renewed.find second = some right → first ≠ second →
    left.upperBoundInclusive < right.lowerBoundInclusive ∨
      right.upperBoundInclusive < left.lowerBoundInclusive
  stages : ∀ loader load, leases.loads.find loader = some load →
    StageHolds leases loader load
  /-- A server without a load run has left no trace. -/
  absent : ∀ loader, leases.loads.find loader = none →
    leases.elected.find loader = none ∧ leases.renewed.find loader = none

theorem Fenced.unique (fenced : Fenced leases) : UniqueLeadership leases := by
  constructor
  · intro first second leader owned owned'
    exact fenced.distinct _ _ _ (fenced.backed _ _ owned) (fenced.backed _ _ owned')
  · intro first second left right granted granted' ne
    exact fenced.disjoint _ _ _ _ (fenced.written _ _ granted)
      (fenced.written _ _ granted') ne

theorem Fenced.of_initial (initial : Initial leases) : Fenced leases := by
  obtain ⟨noLoads, noOwners, noGrants, noneElected, noneRenewed⟩ := initial
  constructor <;> simp [noLoads, noOwners, noGrants, noneElected, noneRenewed]

/-! ## Stages of the other servers -/

theorem StageHolds.become {other : Nat} {load' : Load} (holds : StageHolds leases other load) :
    StageHolds (leases.become loader load') other load := by
  cases load <;> exact holds

theorem find_loads_become (leases : Leases) (loader other : Nat) (load : Load) :
    (leases.become loader load).loads.find other =
      if other = loader then some load else leases.loads.find other := by
  simp only [Leases.become, find_insert]

/-- Move one load run to a stage whose facts hold in the new state, when the
stages of all the others survive. -/
theorem stages_become (leases next : Leases) (same : next.loads = leases.loads)
    (here : StageHolds next loader load)
    (others : ∀ other load', other ≠ loader → leases.loads.find other = some load' →
      StageHolds next other load')
    (other : Nat) (load' : Load)
    (found : (next.become loader load).loads.find other = some load') :
    StageHolds (next.become loader load) other load' := by
  rw [find_loads_become] at found
  split at found
  next equal =>
    cases found
    subst equal
    exact here.become
  next ne =>
    rw [same] at found
    exact (others _ _ ne found).become

theorem absent_become (leases next : Leases) (same : next.loads = leases.loads)
    (traces : ∀ other, other ≠ loader → leases.loads.find other = none →
      next.elected.find other = none ∧ next.renewed.find other = none)
    (other : Nat) (missing : (next.become loader load).loads.find other = none) :
    (next.become loader load).elected.find other = none ∧
      (next.become loader load).renewed.find other = none := by
  rw [find_loads_become] at missing
  split at missing
  next => simp at missing
  next ne =>
    rw [same] at missing
    exact traces other ne missing

theorem Fenced.become (fenced : Fenced leases)
    (here : StageHolds leases loader load) : Fenced (leases.become loader load) where
  bounded := fenced.bounded
  distinct := fenced.distinct
  backed := fenced.backed
  written := fenced.written
  covered := fenced.covered
  disjoint := fenced.disjoint
  stages := stages_become leases leases rfl here fun _ _ _ found => fenced.stages _ _ found
  absent := absent_become leases leases rfl fun _ _ missing => fenced.absent _ missing

/-! ## The two conditional updates -/

theorem Fenced.acquire (fenced : Fenced leases)
    (running : leases.loads.find loader = some (.acquiring epochs previous))
    (here : StageHolds (leases.acquire loader previous) loader load) :
    Fenced ((leases.acquire loader previous).become loader load) := by
  obtain ⟨notElected, notRenewed, seen⟩ := fenced.stages _ _ running
  by_cases applies : leases.row.leaderSequenceNumber = previous
  · have row : (leases.acquire loader previous).row =
        { leases.row with leaderSequenceNumber := previous + 1 } := by
      simp [Leases.acquire, acquireRangeLeaseQuery, applies]
    have elected (other : Nat) : (leases.acquire loader previous).elected.find other =
        if other = loader then some (previous + 1) else leases.elected.find other := by
      simp [Leases.acquire, applies, find_insert]
    have older (other : Nat) (leader : Int)
        (found : leases.elected.find other = some leader) : leader ≤ previous := by
      simpa [applies] using fenced.bounded _ _ found
    refine ⟨?_, ?_, ?_, fenced.written, ?_, fenced.disjoint, ?_, ?_⟩
    · intro other leader found
      change (leases.acquire loader previous).elected.find other = some leader at found
      change leader ≤ (leases.acquire loader previous).row.leaderSequenceNumber
      rw [elected] at found
      rw [row]
      split at found
      next =>
        cases found
        exact le_rfl
      next =>
        have := older _ _ found
        simp only
        omega
    · intro first second leader found found'
      change (leases.acquire loader previous).elected.find _ = _ at found found'
      rw [elected] at found found'
      split at found <;> split at found'
      next equal equal' => rw [equal, equal']
      next =>
        cases found
        have := older _ _ found'
        omega
      next =>
        cases found'
        have := older _ _ found
        omega
      next => exact fenced.distinct _ _ _ found found'
    · intro other leader owned
      have before := fenced.backed _ _ owned
      change (leases.acquire loader previous).elected.find other = some leader
      rw [elected]
      split
      next equal =>
        subst equal
        rw [notElected] at before
        simp at before
      next => exact before
    · intro other lease found
      change lease.upperBoundInclusive ≤
        (leases.acquire loader previous).row.epochLease.upperBoundInclusive
      rw [row]
      exact fenced.covered _ _ found
    · apply stages_become leases (leases.acquire loader previous) rfl here
      intro other load' ne found
      have holds := fenced.stages _ _ found
      -- an owner's number is below the one just written
      have behind (leader : Int) (owned : leases.owners.find other = some leader) :
          previous + 1 ≠ leader := by
        have := older _ _ (fenced.backed _ _ owned)
        omega
      cases load' with
      | started => exact ⟨by rw [elected, if_neg ne]; exact holds.1, holds.2⟩
      | acquiring =>
        refine ⟨by rw [elected, if_neg ne]; exact holds.1, holds.2.1, ?_⟩
        rw [row]
        have := holds.2.2
        simp only
        omega
      | verifying =>
        exact ⟨by rw [elected, if_neg ne]; exact holds.1, holds.2⟩
      | renewing =>
        refine ⟨holds.1, holds.2.1, ?_⟩
        rw [row]
        intro current
        exact absurd current (behind _ holds.1)
      | confirming =>
        refine ⟨holds.1, ?_⟩
        rw [row]
        intro current
        exact absurd current (behind _ holds.1)
      | syncing | loaded => exact holds
      | failed => trivial
    · apply absent_become leases (leases.acquire loader previous) rfl
      intro other ne missing
      rw [elected, if_neg ne]
      exact fenced.absent _ missing
  · have unchanged : leases.acquire loader previous = leases := by
      simp [Leases.acquire, acquireRangeLeaseQuery, applies]
    rw [unchanged] at here ⊢
    exact fenced.become here

theorem nextEpochLease_bounds (current : EpochLease) (epochs : Nat) :
    current.upperBoundInclusive < (nextEpochLease current epochs).lowerBoundInclusive ∧
      (nextEpochLease current epochs).lowerBoundInclusive ≤
        (nextEpochLease current epochs).upperBoundInclusive := by
  simp only [nextEpochLease]
  omega

theorem Fenced.renew (fenced : Fenced leases)
    (running : leases.loads.find loader = some (.renewing epochs info))
    (here : StageHolds (leases.renew loader info.leaderSequenceNumber
      (nextEpochLease info.epochLease epochs)) loader load) :
    Fenced ((leases.renew loader info.leaderSequenceNumber
      (nextEpochLease info.epochLease epochs)).become loader load) := by
  obtain ⟨owned, notRenewed, stable⟩ := fenced.stages _ _ running
  generalize asked : nextEpochLease info.epochLease epochs = lease at here ⊢
  have bounds := nextEpochLease_bounds info.epochLease epochs
  rw [asked] at bounds
  by_cases applies : leases.row.leaderSequenceNumber = info.leaderSequenceNumber
  · have row : (leases.renew loader info.leaderSequenceNumber lease).row =
        { leases.row with epochLease := lease } := by
      simp [Leases.renew, renewEpochLeaseQuery, applies]
    have renewed (other : Nat) :
        (leases.renew loader info.leaderSequenceNumber lease).renewed.find other =
          if other = loader then some lease else leases.renewed.find other := by
      simp [Leases.renew, applies, find_insert]
    have older (other : Nat) (written : EpochLease)
        (found : leases.renewed.find other = some written) :
        written.upperBoundInclusive < lease.lowerBoundInclusive := by
      have := fenced.covered _ _ found
      rw [stable applies] at this
      omega
    refine ⟨?_, fenced.distinct, fenced.backed, ?_, ?_, ?_, ?_, ?_⟩
    · intro other leader found
      change leader ≤
        (leases.renew loader info.leaderSequenceNumber lease).row.leaderSequenceNumber
      rw [row]
      exact fenced.bounded _ _ found
    · intro other granted found
      change (leases.renew loader info.leaderSequenceNumber lease).renewed.find other =
        some granted
      rw [renewed]
      have before := fenced.written _ _ found
      split
      next equal =>
        subst equal
        rw [notRenewed] at before
        simp at before
      next => exact before
    · intro other written found
      change (leases.renew loader info.leaderSequenceNumber lease).renewed.find other =
        some written at found
      change written.upperBoundInclusive ≤ (leases.renew loader info.leaderSequenceNumber
        lease).row.epochLease.upperBoundInclusive
      rw [renewed] at found
      rw [row]
      split at found
      next =>
        cases found
        exact le_rfl
      next =>
        have := older _ _ found
        simp only
        omega
    · intro first second left right found found' ne
      change (leases.renew loader info.leaderSequenceNumber lease).renewed.find _ = _
        at found found'
      rw [renewed] at found found'
      split at found <;> split at found'
      next equal equal' => exact absurd (equal.trans equal'.symm) ne
      next =>
        cases found
        exact .inr (older _ _ found')
      next =>
        cases found'
        exact .inl (older _ _ found)
      next => exact fenced.disjoint _ _ _ _ found found' ne
    · apply stages_become leases
        (leases.renew loader info.leaderSequenceNumber lease) rfl here
      intro other load' ne found
      have holds := fenced.stages _ _ found
      have unmoved : (leases.renew loader info.leaderSequenceNumber lease).renewed.find other =
          leases.renewed.find other := by
        rw [renewed, if_neg ne]
      -- no other server owns the current number
      have alone (leader : Int) (owned' : leases.owners.find other = some leader) :
          leases.row.leaderSequenceNumber ≠ leader := by
        intro current
        have same : leader = info.leaderSequenceNumber := current.symm.trans applies
        subst same
        exact ne (fenced.distinct _ _ _ (fenced.backed _ _ owned')
          (fenced.backed _ _ owned))
      cases load' with
      | started | verifying => exact ⟨holds.1, unmoved.trans holds.2⟩
      | acquiring =>
        refine ⟨holds.1, unmoved.trans holds.2.1, ?_⟩
        rw [row]
        exact holds.2.2
      | renewing =>
        refine ⟨holds.1, unmoved.trans holds.2.1, ?_⟩
        rw [row]
        intro current
        exact absurd current (alone _ holds.1)
      | confirming =>
        refine ⟨holds.1, ?_⟩
        rw [row]
        intro current
        exact absurd current (alone _ holds.1)
      | syncing | loaded => exact unmoved.trans holds
      | failed => trivial
    · apply absent_become leases
        (leases.renew loader info.leaderSequenceNumber lease) rfl
      intro other ne missing
      rw [renewed, if_neg ne]
      exact fenced.absent _ missing
  · have unchanged : leases.renew loader info.leaderSequenceNumber lease = leases := by
      simp [Leases.renew, renewEpochLeaseQuery, applies]
    rw [unchanged] at here ⊢
    exact fenced.become here

/-! ## Every step keeps the invariant -/

theorem acquire_verifies (holds : StageHolds leases loader (.acquiring epochs previous)) :
    StageHolds (leases.acquire loader previous) loader (.verifying epochs previous) := by
  refine ⟨?_, holds.2.1⟩
  intro leader found
  simp only [Leases.acquire] at found
  split at found
  next =>
    rw [find_insert_self] at found
    exact (Option.some.inj found).symm
  next =>
    rw [holds.1] at found
    simp at found

theorem renew_confirms
    (holds : StageHolds leases loader (.renewing epochs info)) (lease : EpochLease) :
    StageHolds (leases.renew loader info.leaderSequenceNumber lease) loader
      (.confirming info lease) := by
  refine ⟨holds.1, ?_⟩
  by_cases applies : leases.row.leaderSequenceNumber = info.leaderSequenceNumber
  · intro _
    simp [Leases.renew, applies]
  · intro current
    simp [Leases.renew, renewEpochLeaseQuery, applies] at current

/-- A server that reads its own number back becomes the owner of it. -/
theorem Fenced.own (fenced : Fenced leases)
    (running : leases.loads.find loader = some (.verifying epochs previous))
    (elected : leases.elected.find loader = some (previous + 1)) :
    Fenced ((leases.own loader (previous + 1)).become loader (.renewing epochs
      ⟨leases.row.keyRange, previous + 1, leases.row.epochLease⟩)) := by
  have notRenewed := (fenced.stages _ _ running).2
  have owners (other : Nat) : (leases.own loader (previous + 1)).owners.find other =
      if other = loader then some (previous + 1) else leases.owners.find other :=
    find_insert _ _ _ _
  refine ⟨fenced.bounded, fenced.distinct, ?_, fenced.written, fenced.covered,
    fenced.disjoint, ?_, ?_⟩
  · intro other leader owned
    change (leases.own loader (previous + 1)).owners.find other = some leader at owned
    rw [owners] at owned
    split at owned
    next equal =>
      cases owned
      subst equal
      exact elected
    next => exact fenced.backed _ _ owned
  · apply stages_become leases (leases.own loader (previous + 1)) rfl
    · exact ⟨by rw [owners, if_pos rfl], notRenewed, fun _ => rfl⟩
    · intro other load ne found
      have holds := fenced.stages _ _ found
      have unmoved := owners other
      rw [if_neg ne] at unmoved
      cases load with
      | renewing | confirming => exact ⟨unmoved.trans holds.1, holds.2⟩
      | started | acquiring | verifying | syncing | loaded => exact holds
      | failed => trivial
  · exact absent_become leases (leases.own loader (previous + 1)) rfl
      fun other _ missing => fenced.absent other missing

theorem Fenced.grant (fenced : Fenced leases)
    (running : leases.loads.find loader = some (.syncing info)) :
    Fenced ((leases.grant loader info.epochLease).become loader (.loaded info)) := by
  have renewed : leases.renewed.find loader = some info.epochLease :=
    fenced.stages _ _ running
  refine ⟨fenced.bounded, fenced.distinct, fenced.backed, ?_, fenced.covered,
    fenced.disjoint, ?_, ?_⟩
  · intro other lease found
    simp only [Leases.become, Leases.grant, find_insert] at found
    split at found
    next equal =>
      cases found
      subst equal
      exact renewed
    next => exact fenced.written _ _ found
  · apply stages_become leases (leases.grant loader info.epochLease) rfl
    · exact renewed
    · intro other load _ found
      have holds := fenced.stages _ _ found
      cases load <;> exact holds
  · exact absent_become leases (leases.grant loader info.epochLease) rfl
      fun other _ missing => fenced.absent other missing

theorem Fenced.execute (fenced : Fenced leases) (running : leases.loads.find loader = some load)
    (undisturbed : Undisturbed leases (.execute loader))
    (taken : leases.execute loader load = some next) : Fenced next := by
  have holds := fenced.stages _ _ running
  simp only [Undisturbed, running] at undisturbed
  cases load with
  | started =>
    cases taken
    exact fenced.become ⟨holds.1, holds.2, le_rfl⟩
  | acquiring =>
    cases taken
    exact fenced.acquire running (acquire_verifies holds)
  | verifying =>
    simp only [Leases.execute] at taken
    split at taken
    next =>
      cases taken
      exact fenced.become trivial
    next current =>
      cases taken
      apply fenced.own running
      cases elected : leases.elected.find loader with
      | none => exact absurd (not_not.mp current) (undisturbed elected)
      | some leader => rw [holds.1 leader elected]
  | renewing =>
    cases taken
    exact fenced.renew running (renew_confirms holds _)
  | confirming =>
    simp only [Leases.execute] at taken
    split at taken
    next =>
      cases taken
      exact fenced.become trivial
    next current =>
      cases taken
      exact fenced.become (holds.2 (not_not.mp current))
  | syncing =>
    cases taken
    exact fenced.grant running
  | loaded | failed => simp [Leases.execute] at taken

theorem Fenced.fail (fenced : Fenced leases) {applied : Bool}
    (running : leases.loads.find loader = some load)
    (taken : leases.fail loader applied load = some next) : Fenced next := by
  cases load with
  | acquiring =>
    cases taken
    cases applied with
    | false => exact fenced.become trivial
    | true => exact fenced.acquire running trivial
  | renewing =>
    cases taken
    cases applied with
    | false => exact fenced.become trivial
    | true => exact fenced.renew running trivial
  | loaded => simp [Leases.fail] at taken
  | failed => simp [Leases.fail] at taken
  | _ =>
    cases taken
    exact fenced.become trivial

theorem Fenced.step {label : Label} (fenced : Fenced leases)
    (undisturbed : Undisturbed leases label) (taken : step leases label = some next) :
    Fenced next := by
  cases label with
  | begin loader =>
    simp only [RangeLeases.step] at taken
    split at taken
    next => simp at taken
    next fresh =>
      have traces := fenced.absent loader (find_eq_none.mpr fresh)
      split at taken
      next =>
        cases taken
        exact fenced.become trivial
      next =>
        cases taken
        exact fenced.become traces
  | execute loader =>
    simp only [RangeLeases.step] at taken
    cases running : leases.loads.find loader with
    | none => simp [running] at taken
    | some =>
      rw [running] at taken
      exact fenced.execute running undisturbed taken
  | fail loader =>
    simp only [RangeLeases.step] at taken
    cases running : leases.loads.find loader with
    | none => simp [running] at taken
    | some =>
      rw [running] at taken
      exact fenced.fail running taken

/-- In every run in which no refused server reads the winner's number back,
leader numbers and epoch leases are unique. -/
theorem leadership_unique (leases : Leases)
    (reached : Reachable step Undisturbed Initial leases) : UniqueLeadership leases :=
  (reached.invariant (fun _ initial => Fenced.of_initial initial)
    (fun _ _ _ fenced undisturbed taken => fenced.step undisturbed taken)).unique

def fresh : Leases := ⟨⟨⟨0, 0⟩, .all, 0⟩, ∅, ∅, ∅, ∅, ∅⟩

theorem fresh_initial : Initial fresh := ⟨rfl, rfl, rfl, rfl, rfl⟩

/-- Two servers load the range one after the other, the second one starting
while the first is about to renew its lease. -/
def takeover : List Label :=
  [.begin 0 1000000000, .execute 0, .execute 0, .execute 0, .execute 0, .execute 0,
   .begin 1 1000000000, .execute 1, .execute 0, .execute 1, .execute 1, .execute 1,
   .execute 1, .execute 1]

theorem leadership_unique_takeover :
    ∃ leases, runWhere step Undisturbed fresh takeover = some leases ∧
      (leases.granted.find 0 = some ⟨1, 3⟩ ∧ leases.granted.find 1 = some ⟨4, 6⟩) ∧
      UniqueLeadership leases := by
  have ran : ∃ leases, runWhere step Undisturbed fresh takeover = some leases ∧
      leases.granted.find 0 = some ⟨1, 3⟩ ∧ leases.granted.find 1 = some ⟨4, 6⟩ := by
    refine ⟨_, rfl, ?_⟩
    decide +kernel
  obtain ⟨leases, ran, granted⟩ := ran
  exact ⟨leases, ran, granted,
    leadership_unique leases (.append_run takeover (.start fresh_initial) ran)⟩

/-- Two servers read the lease, both send the conditional update and both read
the number 1 back. -/
def race : List Label :=
  [.begin 0 1000000000, .begin 1 1000000000, .execute 0, .execute 1, .execute 0,
   .execute 1, .execute 0, .execute 1]

theorem leadership_shared_by_race :
    ¬ ∀ leases, Reachable step (fun _ _ => True) Initial leases →
      UniqueLeadership leases := by
  intro always
  have violated : ∃ leases, Reachable step (fun _ _ => True) Initial leases ∧
      decide (leases.owners.find 0 = some 1 ∧ leases.owners.find 1 = some 1) = true :=
    exists_reachable_of_run fresh_initial race _ (by decide +kernel)
  obtain ⟨leases, reached, tested⟩ := violated
  obtain ⟨first, second⟩ := of_decide_eq_true tested
  have same := (always leases reached).1 0 1 1 first second
  simp at same

end Sangria.RangeLeases
