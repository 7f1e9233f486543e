import Sangria.Coordinator.Phases
import Sangria.Lib.TransitionSystem
import Sangria.RangeServer.Server.TransactionTable

/-!
# One leader of a range

A read reports the sequence number of the leader that served it.  A request of
several keys reports the number that all of them saw, or the invalid one, and a
transaction goes on only while a range reports the same number.
-/

namespace Sangria.RangeServer.Server

open Coordinator (unsetLeaderSequenceNumber invalidLeaderSequenceNumber)

/-- The numbers that the keys of a request saw. -/
def leadersSeen (answers : List (Bytes × Except RangeServer.Error GetResult)) : List Int :=
  answers.filterMap fun answer => answer.2.toOption.map GetResult.leaderSequenceNumber

/-- The number that all keys saw, or the invalid one. -/
def commonLeader : List Int → Int
  | [] => unsetLeaderSequenceNumber
  | first :: rest => if ∀ number ∈ rest, number = first then first else invalidLeaderSequenceNumber

/-- What a request reports about a leader: its number is that of a leader, or invalid. -/
def Reported (number : Int) : Prop :=
  number = invalidLeaderSequenceNumber ∨ 1 ≤ number ∧ number < 2 ^ 63

instance (number : Int) : Decidable (Reported number) :=
  inferInstanceAs (Decidable (_ ∨ _ ∧ _))

theorem leader_executeReads {answers : List (Bytes × Except RangeServer.Error GetResult)}
    {reads found : Reads} (executed : executeReads reads answers = .ok found)
    (positive : ∀ number ∈ leadersSeen answers, 1 ≤ number)
    (first : reads.leaderSequenceNumber ≠ unsetLeaderSequenceNumber) :
    found.leaderSequenceNumber =
      commonLeader (reads.leaderSequenceNumber :: leadersSeen answers) := by
  induction answers generalizing reads with
  | nil =>
    cases executed
    simp [commonLeader, leadersSeen]
  | cons answer rest ih =>
    obtain ⟨key, answer⟩ := answer
    cases answer with
    | error => cases executed
    | ok res =>
      have seen : leadersSeen ((key, .ok res) :: rest) =
          res.leaderSequenceNumber :: leadersSeen rest := rfl
      rw [seen, List.forall_mem_cons] at positive
      have added : (reads.add key res).leaderSequenceNumber =
          if reads.leaderSequenceNumber ≠ res.leaderSequenceNumber then
            invalidLeaderSequenceNumber else reads.leaderSequenceNumber := by
        rw [Reads.add, if_neg first]
      -- Once invalid, the number is not that of any key, and stays invalid.
      have later := ih executed positive.2 (by
        rw [added]
        split
        next => decide
        next => exact first)
      rw [later, added, seen]
      by_cases same : reads.leaderSequenceNumber = res.leaderSequenceNumber
      · simp [commonLeader, same]
      · have ne : ¬ ∀ number ∈ res.leaderSequenceNumber :: leadersSeen rest,
            number = reads.leaderSequenceNumber := fun all =>
          same (all _ List.mem_cons_self).symm
        rw [if_pos same, commonLeader, commonLeader, if_neg ne]
        split <;> rfl

theorem leader_getInner {table : TransactionTable} {now : Int} {message : GetMessage} {load : Load}
    {answers : List (Except RangeServer.Error GetResult)} {found : Reads}
    (served : (getInner table now message load answers).2 = .ok found)
    (positive : ∀ number ∈ leadersSeen (message.keys.zip answers), 1 ≤ number) :
    found.leaderSequenceNumber = commonLeader (leadersSeen (message.keys.zip answers)) := by
  have executed : executeReads ⟨unsetLeaderSequenceNumber, [], []⟩ (message.keys.zip answers) =
      .ok found := by
    unfold getInner at served
    split at served
    next =>
      cases load with
      | loaded =>
        simp only [Load.result, bind, Except.bind] at served
        split at served
        next => cases served
        next => exact served
      | _ => cases served
    next => cases served
  revert executed positive
  cases message.keys.zip answers with
  | nil =>
    intro _ executed
    cases executed
    rfl
  | cons answer rest =>
    obtain ⟨key, answer⟩ := answer
    cases answer with
    | error =>
      intro _ executed
      cases executed
    | ok res =>
      intro positive executed
      have seen : leadersSeen ((key, .ok res) :: rest) =
          res.leaderSequenceNumber :: leadersSeen rest := rfl
      rw [seen, List.forall_mem_cons] at positive
      have first : res.leaderSequenceNumber ≠ unsetLeaderSequenceNumber := by
        rw [unsetLeaderSequenceNumber]
        omega
      exact @leader_executeReads rest (Reads.add ⟨unsetLeaderSequenceNumber, [], []⟩ key res)
        found executed positive.2 first

theorem reported_commonLeader {numbers : List Int} (some : numbers ≠ [])
    (leaders : ∀ number ∈ numbers, 1 ≤ number ∧ number < 2 ^ 63) :
    Reported (commonLeader numbers) := by
  cases numbers with
  | nil => exact absurd rfl some
  | cons first rest =>
    rw [commonLeader]
    split
    next => exact .inr (leaders first List.mem_cons_self)
    next => exact .inl rfl

end Sangria.RangeServer.Server

namespace Sangria.Coordinator

open RangeServer (GetResult)
open RangeServer.Server (GetMessage Load Reads Reported TransactionTable commonLeader getInner
  leader_getInner leadersSeen reported_commonLeader)
open TransitionSystem (Reachable)

namespace Transaction

variable {transaction next : Transaction} {label : Label} {range : FullRangeId}

theorem leader_set {participant : ParticipantRange} (same : participant.leaderSequenceNumber =
      (transaction.getParticipantRange range).leaderSequenceNumber) (other : FullRangeId) :
    ((transaction.setParticipantRange range participant).getParticipantRange
      other).leaderSequenceNumber =
        (transaction.getParticipantRange other).leaderSequenceNumber := by
  rw [getParticipantRange_set]
  split
  next here => rw [here, same]
  next => rfl

theorem leader_of_step (taken : transaction.step label = some next)
    (silent : ∀ res, label ≠ .gotten (.ok res)) (other : FullRangeId) :
    (next.getParticipantRange other).leaderSequenceNumber =
      (transaction.getParticipantRange other).leaderSequenceNumber := by
  cases label with
  | get | put | del | commit | abort =>
    simp only [step] at taken
    split at taken
    next =>
      cases taken
      simp only [get, put, del, commit, abort]
      repeat' split
      all_goals first
        | rfl
        | refine @leader_set transaction _ _ ?_ other
          rfl
    next => cases taken
  | gotten reply =>
    cases reply with
    | ok res => exact absurd rfl (silent res)
    | error | panicked =>
      simp only [step] at taken
      split at taken <;> cases taken
      rfl
  | _ =>
    cases Moves.of_step taken with
    | access _ call => cases call
    | _ => rfl

theorem Coherent.aborted_of_step (coherent : Coherent transaction)
    (aborted : transaction.state = .aborted) (taken : transaction.step label = some next) :
    next.state = .aborted := by
  have elsewhere : ∀ {stage : Stage} {state : State}, transaction.stage = stage →
      stateAt stage = some state → state ≠ .aborted → next.state = .aborted :=
    fun here implied ne =>
      absurd ((coherent.state_of_stage here implied).symm.trans aborted) ne
  cases Moves.of_step taken with
  | refuse | aborting => exact aborted
  | access _ _ running | ask _ running | abort _ running | prepare _ running =>
    rw [aborted] at running
    cases running
  | receive here | lose here | leaderChanged here | prepared here | prepareFailed here
  | prepareError here | record here | notRecorded here | delegate here | committed here
  | join here | resolve here | unresolved here =>
    exact elsewhere here rfl (by decide)

/-- A transaction that is aborted refuses. -/
theorem refused_of_aborted (aborted : transaction.state = .aborted)
    (call : label.isCall = true) (kept : label ≠ .abort)
    (taken : transaction.step label = some next) :
    next.stage = .returned (.failed (.error (.transactionAborted .other))) := by
  cases label with
  | get | put | del | commit =>
    simp only [step] at taken
    split at taken
    next =>
      cases taken
      simp [get, put, del, commit, resolveFullRecordKey, checkStillRunning, aborted, respond]
    next => cases taken
  | abort => exact absurd rfl kept
  | _ => cases call

end Transaction

/-- A transaction, and an observer: the numbers that the ranges reported. -/
structure Served where
  transaction : Transaction
  reported : Finset (FullRangeId × Int)

namespace Served

variable {served next : Served} {label : Label} {range : FullRangeId} {key : Bytes}

def observe (served : Served) (label : Label) : Finset (FullRangeId × Int) :=
  match served.transaction.stage, label with
  | .getting range _, .gotten (.ok result) =>
    insert (range, result.leaderSequenceNumber) served.reported
  | _, _ => served.reported

def step (served : Served) (label : Label) : Option Served :=
  (served.transaction.step label).map fun next => ⟨next, served.observe label⟩

def Initial (served : Served) : Prop :=
  ∃ id strategy, served = ⟨.new id strategy, ∅⟩

/-- A range answers with a number that its server reports. -/
def Reports (_ : Served) : Label → Prop
  | .gotten (.ok result) => Reported result.leaderSequenceNumber
  | _ => True

instance (served : Served) : (label : Label) → Decidable (served.Reports label)
  | .gotten (.ok result) => inferInstanceAs (Decidable (Reported result.leaderSequenceNumber))
  | .gotten .error | .gotten .panicked => instDecidableTrue
  | .get .. | .put .. | .del .. | .commit .. | .abort | .prepared .. | .recorded .. =>
    instDecidableTrue
  | .committed .. | .joined | .delegated | .resolved .. | .abortRecorded .. => instDecidableTrue
  | .aborted .. | .abortJoined => instDecidableTrue

/-- The numbers of the range are equal, and none is invalid. -/
def Agree (served : Served) (range : FullRangeId) : Prop :=
  ∀ number, (range, number) ∈ served.reported → number ≠ invalidLeaderSequenceNumber ∧
    ∀ other, (range, other) ∈ served.reported → other = number

structure Follows (served : Served) (range : FullRangeId) : Prop where
  bound : (served.transaction.getParticipantRange range).leaderSequenceNumber < 2 ^ 63
  heard : ∀ number, (range, number) ∈ served.reported →
    0 < (served.transaction.getParticipantRange range).leaderSequenceNumber ∧
      number = (served.transaction.getParticipantRange range).leaderSequenceNumber
  set : 0 < (served.transaction.getParticipantRange range).leaderSequenceNumber →
    (range, ((served.transaction.getParticipantRange range).leaderSequenceNumber : Int)) ∈
      served.reported

theorem Follows.agree (follows : Follows served range) : served.Agree range := by
  intro number heard
  have known := follows.heard number heard
  refine ⟨by rw [invalidLeaderSequenceNumber]; omega, ?_⟩
  intro other also
  rw [(follows.heard other also).2, known.2]

structure Invariant (served : Served) : Prop where
  coherent : Transaction.Coherent served.transaction
  follows : served.transaction.state ≠ .aborted → ∀ range, Follows served range

theorem asI64_of_small {number : Nat} (small : number < 2 ^ 63) : asI64 number = number := by
  unfold asI64
  rw [Nat.mod_eq_of_lt (by omega), if_pos small]

theorem asU64_of_leader {number : Int} (leader : 1 ≤ number ∧ number < 2 ^ 63) :
    0 < asU64 number ∧ (asU64 number : Int) = number ∧ asU64 number < 2 ^ 63 := by
  unfold asU64
  omega

/-- What an answer of the range does, by what the range reported before. -/
theorem receive_spec {res : GetResult} (invariant : Invariant served)
    (getting : served.transaction.stage = .getting range key)
    (reports : Reported res.leaderSequenceNumber)
    (taken : served.step (.gotten (.ok res)) = some next) :
    next.reported = insert (range, res.leaderSequenceNumber) served.reported ∧
      (next.Agree range →
        next.transaction.stage = .returned (.value res.val) ∧ ∀ other, Follows next other) ∧
      (¬ next.Agree range → next.transaction.state = .aborted ∧ next.transaction.stage =
        .recordingAbort next.transaction.participantRanges.keys
          (.failed (.error (.transactionAborted .rangeLeadershipChanged)))) := by
  have running := invariant.coherent.state_of_stage getting rfl
  have follows := invariant.follows (by rw [running]; decide)
  have here := follows range
  simp only [step, Transaction.step, getting, Option.map_some, Option.some.injEq] at taken
  have observed : served.observe (.gotten (.ok res)) =
      insert (range, res.leaderSequenceNumber) served.reported := by
    simp only [observe, getting]
  rw [observed] at taken
  have grown : next.reported = insert (range, res.leaderSequenceNumber) served.reported := by
    rw [← taken]
  refine ⟨grown, ?_⟩
  have told : (range, res.leaderSequenceNumber) ∈ next.reported := by
    rw [grown]
    exact Finset.mem_insert_self ..
  simp only [Transaction.receiveGet] at taken
  -- The number that the participant has after the answer.
  generalize after : (served.transaction.getParticipantRange range).leaderAfter
    res.leaderSequenceNumber = leader at taken
  unfold ParticipantRange.leaderAfter at after
  have numbers : leader < 2 ^ 63 ∧
      (res.leaderSequenceNumber = leader → 0 < leader ∧
        ∀ number, (range, number) ∈ served.reported → number = leader) ∧
      (res.leaderSequenceNumber ≠ leader →
        res.leaderSequenceNumber = invalidLeaderSequenceNumber ∨
          (range, (leader : Int)) ∈ served.reported) := by
    split at after
    next unset =>
      have leads := asU64_of_leader (reports.resolve_left unset.1)
      rw [after] at leads
      refine ⟨leads.2.2, fun _ => ⟨leads.1, ?_⟩, fun differs => absurd leads.2.1.symm differs⟩
      intro number heard
      have known := (here.heard number heard).1
      rw [unset.2] at known
      exact absurd known (by decide)
    next kept =>
      subst after
      refine ⟨here.bound, ?_, ?_⟩
      · intro same
        refine ⟨?_, fun number heard => (here.heard number heard).2⟩
        rcases reports with invalid | leads
        · rw [invalidLeaderSequenceNumber] at invalid
          omega
        · omega
      · intro differs
        rw [or_iff_not_imp_left]
        intro valid
        refine here.set (Nat.pos_of_ne_zero fun zero => kept ⟨valid, ?_⟩)
        rw [zero]
        rfl
  obtain ⟨bound, equal, ne⟩ := numbers
  rw [asI64_of_small bound] at taken
  split at taken
  next differs =>
    refine ⟨fun agree => absurd agree ?_, fun _ => by rw [← taken]; exact ⟨rfl, rfl⟩⟩
    intro agree
    rcases ne differs with invalid | other
    · exact (agree _ told).1 invalid
    · refine differs ((agree _ ?_).2 _ told)
      rw [grown]
      exact Finset.mem_insert_of_mem other
  next same =>
    obtain ⟨positive, before⟩ := equal (not_not.mp same)
    have leads : ∀ other, (next.transaction.getParticipantRange other).leaderSequenceNumber =
        if other = range then leader
        else (served.transaction.getParticipantRange other).leaderSequenceNumber := by
      intro other
      rw [← taken]
      change ((Transaction.setParticipantRange _ _ _).getParticipantRange
        other).leaderSequenceNumber = _
      rw [Transaction.getParticipantRange_set]
      split <;> rfl
    have followed : ∀ other, Follows next other := by
      intro other
      have old := follows other
      constructor <;> simp only [leads, grown, Finset.mem_insert, Prod.mk.injEq] <;>
        split <;> grind [old.bound, old.heard, old.set]
    refine ⟨fun _ => ⟨by rw [← taken]; rfl, followed⟩, ?_⟩
    intro disagree
    exact absurd (followed range).agree disagree

theorem Invariant.step (invariant : Invariant served) (reports : Reports served label)
    (taken : served.step label = some next) : Invariant next := by
  obtain ⟨transaction, moved, rfl⟩ := Option.map_eq_some_iff.mp taken
  have coherent := invariant.coherent.step (.of_step moved)
  by_cases answered : ∃ range key res,
      served.transaction.stage = .getting range key ∧ label = .gotten (.ok res)
  · obtain ⟨range, key, res, getting, rfl⟩ := answered
    obtain ⟨-, agree, disagree⟩ := receive_spec invariant getting reports taken
    refine ⟨coherent, fun running => ?_⟩
    by_contra broken
    by_cases same : Agree ⟨transaction, served.observe (.gotten (.ok res))⟩ range
    · exact broken (agree same).2
    · exact running (disagree same).1
  · have silent : ∀ res, label ≠ .gotten (.ok res) := by
      rintro res rfl
      simp only [Transaction.step] at moved
      split at moved
      next range key getting => exact answered ⟨range, key, res, getting, rfl⟩
      next => cases moved
    have unobserved : served.observe label = served.reported := by
      unfold observe
      split
      next getting => exact absurd rfl (silent _)
      next => rfl
    refine ⟨coherent, fun running range => ?_⟩
    have follows := invariant.follows
      (fun aborted => running (invariant.coherent.aborted_of_step aborted moved)) range
    have leader := Transaction.leader_of_step moved silent range
    constructor <;> simp only [leader, unobserved]
    · exact follows.bound
    · exact follows.heard
    · exact follows.set

/-- A request reports the number that all its keys saw.  A get is answered as long as the
range reports one number; at the first other one the transaction is aborted for good. -/
theorem one_leader_per_range (reached : Reachable step Reports Initial served) :
    (∀ table now message load answers found,
      (getInner table now message load answers).2 = .ok found →
      (∀ number ∈ leadersSeen (message.keys.zip answers), 1 ≤ number ∧ number < 2 ^ 63) →
      found.leaderSequenceNumber = commonLeader (leadersSeen (message.keys.zip answers)) ∧
        (leadersSeen (message.keys.zip answers) ≠ [] → Reported found.leaderSequenceNumber)) ∧
    (∀ range key result next, served.transaction.stage = .getting range key →
      Reported result.leaderSequenceNumber → served.step (.gotten (.ok result)) = some next →
      (range, result.leaderSequenceNumber) ∈ next.reported ∧
      (next.Agree range → next.transaction.stage = .returned (.value result.val)) ∧
      (¬ next.Agree range → next.transaction.state = .aborted ∧ next.transaction.stage =
        .recordingAbort next.transaction.participantRanges.keys
          (.failed (.error (.transactionAborted .rangeLeadershipChanged))))) ∧
    ∀ range, ¬ served.Agree range → served.transaction.state = .aborted ∧
      ∀ label next, label.isCall = true → label ≠ .abort → served.step label = some next →
        next.transaction.stage = .returned (.failed (.error (.transactionAborted .other))) := by
  have invariant : Invariant served := by
    refine @Reachable.invariant _ _ step Reports Initial Invariant ?_ ?_ _ reached
    · rintro _ ⟨id, strategy, rfl⟩
      refine ⟨.new id strategy, fun _ range => ⟨Nat.two_pow_pos 63,
        fun _ heard => absurd heard (Finset.notMem_empty _), ?_⟩⟩
      exact fun positive => absurd positive (Nat.lt_irrefl 0)
    · intro state next label invariant reports taken
      exact invariant.step reports taken
  refine ⟨?_, ?_, ?_⟩
  · intro table now message load answers found answered leaders
    have leader := leader_getInner answered fun number seen => (leaders number seen).1
    refine ⟨leader, fun some => ?_⟩
    rw [leader]
    exact reported_commonLeader some leaders
  · intro range key result next getting reports taken
    obtain ⟨grown, agree, disagree⟩ := receive_spec invariant getting reports taken
    refine ⟨?_, fun same => (agree same).1, disagree⟩
    rw [grown]
    exact Finset.mem_insert_self ..
  · intro range disagree
    have aborted : served.transaction.state = .aborted := by
      by_contra running
      exact disagree (invariant.follows running range).agree
    refine ⟨aborted, ?_⟩
    intro label next call kept taken
    obtain ⟨transaction, moved, rfl⟩ := Option.map_eq_some_iff.mp taken
    exact Transaction.refused_of_aborted aborted call kept moved

/-- A request for two keys, between which the leader of the range changes. -/
def twoKeys : GetMessage := ⟨some 1, some 1, some ⟨⟨0⟩, 1⟩, some ⟨0⟩, [[1], [2]]⟩

/-- The range is led by another server when the second key is read, in one request or in two. -/
theorem one_leader_per_range_moved :
    (∃ found, (getInner ∅ 0 twoKeys .loaded
        [.ok ⟨none, 5, []⟩, .ok ⟨none, 7, []⟩]).2 = .ok found ∧
      found.leaderSequenceNumber = invalidLeaderSequenceNumber) ∧
    ∃ served, Reachable step Reports Initial served ∧
      ((⟨⟨0⟩, 1⟩, 5) ∈ served.reported ∧ (⟨⟨0⟩, 1⟩, 7) ∈ served.reported) ∧
      served.transaction.state = .aborted := by
  obtain ⟨served, reached, passed⟩ :=
    @TransitionSystem.exists_reachable_of_run _ _ step Reports Initial _
      ⟨.new 1 .traditional, ∅⟩ ⟨1, .traditional, rfl⟩
      [.get (some ⟨⟨0⟩, 1⟩) [1], .gotten (.ok ⟨none, 5, []⟩), .get (some ⟨⟨0⟩, 1⟩) [2],
        .gotten (.ok ⟨none, 7, []⟩)]
      (fun served => decide ((⟨⟨0⟩, 1⟩, 5) ∈ served.reported ∧ (⟨⟨0⟩, 1⟩, 7) ∈ served.reported))
      (by decide +kernel)
  have reported := of_decide_eq_true passed
  have leader := (one_leader_per_range reached).1 ∅ 0 twoKeys .loaded
    [.ok ⟨none, 5, []⟩, .ok ⟨none, 7, []⟩] _ rfl (by decide)
  refine ⟨⟨_, rfl, leader.1⟩, served, reached, reported,
    ((one_leader_per_range reached).2.2 ⟨⟨0⟩, 1⟩ ?_).1⟩
  intro agree
  exact absurd ((agree 5 reported.1).2 7 reported.2) (by decide)

end Served

end Sangria.Coordinator
