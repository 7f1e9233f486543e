import Sangria.RangeServer.RangeManager.Exclusion
import Sangria.RangeServer.RangeManager.PendingState

/-!
# What an aborted transaction leaves behind

An abort releases the lock and undoes nothing of a prepare.  Next to the range
runs a copy of its data on which every section is executed except those of the
prepare of one transaction; the copy says what a read would return if that
prepare had never happened.
-/

namespace Sangria.RangeServer

open FiniteMap
open TransitionSystem

structure Data where
  pendingState : PendingState
  prefetchingBuffer : PrefetchingBuffer
  storage : Records

def Handler.preparing (transaction : Uuid) : Handler → Bool
  | .prepare owner _ _ => decide (owner = transaction)
  | _ => false

def Handler.reading (transaction : Uuid) : Handler → Bool
  | .get owner _ _ => decide (owner = transaction)
  | _ => false

def Handler.withdrew (transaction : Uuid) : Handler → Bool
  | .abort owner (.returned (.ok _)) => decide (owner = transaction)
  | _ => false

namespace RangeManager

def data (range : RangeManager) : Data :=
  ⟨range.pendingState, range.prefetchingBuffer, range.storage⟩

def withData (range : RangeManager) (data : Data) : RangeManager :=
  { range with
    pendingState := data.pendingState
    prefetchingBuffer := data.prefetchingBuffer
    storage := data.storage }

def serves (range : RangeManager) (test : Handler → Bool) : Bool :=
  decide (∃ id ∈ range.handlers.keys, ((range.handlers.find id).any test) = true)

theorem not_of_serves {range : RangeManager} {test : Handler → Bool} {id : Nat}
    {handler : Handler} (nobody : range.serves test = false)
    (found : range.handlers.find id = some handler) : test handler = false := by
  rw [Bool.eq_false_iff]
  intro passes
  refine of_decide_eq_false nobody ⟨id, mem_keys.mpr ⟨handler, found⟩, ?_⟩
  rw [found, Option.any_some, passes]

/-- The label runs a section of a handler that passes the test. -/
def runs (range : RangeManager) (test : Handler → Bool) : Label → Bool
  | .run id | .runOn id _ | .fail id _ _ => (range.handlers.find id).any test
  | _ => false

end RangeManager

/-- A range and what is observed of one transaction: the data without its
prepare, whether a prepare or an abort of it has arrived, and whether an abort
of it has been answered with success. -/
structure Observed where
  range : RangeManager
  shadow : Data
  ended : Bool
  aborted : Bool

namespace Observed

variable (transaction : Uuid)

def ends : Label → Bool
  | .prepare _ owner _ | .abort _ owner => decide (owner = transaction)
  | _ => false

def answers (range : RangeManager) : Label → Bool
  | .deliver id => (range.handlers.find id).any (Handler.withdrew transaction)
  | _ => false

def step (config : Configuration) (observed : Observed) (label : Label) : Option Observed :=
  (observed.range.step config label).map fun next =>
    { range := next
      shadow :=
        if observed.range.runs (Handler.preparing transaction) label then observed.shadow
        else (((observed.range.withData observed.shadow).step config label).map
          RangeManager.data).getD observed.shadow
      ended := observed.ended || ends transaction label
      aborted := observed.aborted || answers transaction observed.range label }

def Initial (observed : Observed) : Prop :=
  ∃ storage, observed.range = .loaded storage ∧ observed.shadow = observed.range.data ∧
    observed.ended = false ∧ observed.aborted = false

/-- The transaction reads before its prepare and its abort, which overlap in any
way, and is in no batch.  The requests of every other transaction that can
release the lock come one at a time. -/
def Uncommitted (observed : Observed) : Label → Prop
  | .get _ owner _ => owner = transaction → observed.ended = false
  | .prepare _ owner _ | .abort _ owner =>
    (owner = transaction → observed.range.serves (Handler.reading transaction) = false) ∧
      (owner ≠ transaction → observed.range.releasing owner = false)
  | .commit _ transactions _ =>
    transaction ∉ transactions ∧
      ∀ owner ∈ transactions, observed.range.releasing owner = false
  | _ => True

def ReadOnly (observed : Observed) (label : Label) : Prop :=
  observed.Uncommitted transaction label ∧
    match label with
    | .prepare _ owner request => owner = transaction → request.hasWrites = false
    | _ => True

instance (observed : Observed) (label : Label) :
    Decidable (observed.Uncommitted transaction label) :=
  match label with
  | .get .. => inferInstanceAs (Decidable (_ → _))
  | .prepare .. | .abort .. => inferInstanceAs (Decidable ((_ → _) ∧ (_ → _)))
  | .commit .. => inferInstanceAs (Decidable (_ ∧ _))
  | .run _ | .runOn .. | .fail .. | .deliver _ => inferInstanceAs (Decidable True)

instance (observed : Observed) (label : Label) :
    Decidable (observed.ReadOnly transaction label) :=
  match label with
  | .prepare .. => inferInstanceAs (Decidable (_ ∧ (_ → _)))
  | .get .. | .abort .. | .commit .. | .run _ | .runOn .. | .fail .. | .deliver _ =>
    inferInstanceAs (Decidable (_ ∧ True))

/-- With the handlers of an aborted transaction gone nothing in the range names
it, and a section of a `get` comes to the same as on the data without its
prepare. -/
structure RolledBack (config : Configuration) (observed : Observed) : Prop where
  lock : observed.aborted = true → observed.range.serves (Handler.concerns transaction) = false →
    observed.range.lockTable.currentHolder ≠ some transaction
  record : observed.aborted = true →
    observed.range.serves (Handler.concerns transaction) = false →
    observed.range.pendingState.pendingPrepareRecords.find transaction = none
  table : observed.aborted = true → observed.range.serves (Handler.concerns transaction) = false →
    ∀ key, observed.range.pendingState.pendingCommitTable.find key ≠ some transaction
  softReleased : observed.aborted = true →
    observed.range.serves (Handler.concerns transaction) = false →
    transaction ∉ observed.range.lockTable.softReleased
  reads : ∀ id owner key stage,
    (observed.range.runGet config id owner key stage).map RangeManager.handlers =
      ((observed.range.withData observed.shadow).runGet config id owner key stage).map
        RangeManager.handlers

end Observed

/-! ## The handlers of the transaction -/

def PrepareStage.retreats : PrepareStage → Bool
  | .verifying | .releasing | .returned _ => true
  | _ => false

def Handler.Retreats (transaction : Uuid) (ended : Bool) : Handler → Prop
  | .get owner _ _ => owner = transaction → ended = false
  | .prepare owner request stage =>
    owner = transaction → ended = true ∧ request.hasWrites = false ∧ stage.retreats = true
  | .abort owner _ => owner = transaction → ended = true
  | .commit transactions _ _ => transaction ∉ transactions

structure Retreating (transaction : Uuid) (ended : Bool) (range : RangeManager) : Prop where
  lined : Lined range.lockTable range.handlers
  handlers : ∀ {id handler}, range.handlers.find id = some handler →
    handler.Retreats transaction ended

namespace Retreating

variable {config : Configuration} {transaction : Uuid} {ended : Bool} {range next : RangeManager}
  {id : Nat} {handler handler' : Handler}
variable {label : Label}

theorem put (retreating : Retreating transaction ended range)
    (lined : Lined next.lockTable next.handlers)
    (handlers : next.handlers = range.handlers.insert id handler')
    (here : handler'.Retreats transaction ended) : Retreating transaction ended next := by
  refine ⟨lined, ?_⟩
  intro other candidate found
  rw [handlers, find_insert] at found
  split at found
  next =>
    cases found
    exact here
  next => exact retreating.handlers found

theorem quiet (quiet : RangeManager.Quiet config range id label handler handler')
    (retreats : handler.Retreats transaction ended) : handler'.Retreats transaction ended := by
  cases quiet with
  | verified =>
    intro same
    obtain ⟨past, readOnly, _⟩ := retreats same
    refine ⟨past, readOnly, ?_⟩
    rw [readOnly]
    rfl
  | lockLost =>
    intro same
    obtain ⟨past, readOnly, _⟩ := retreats same
    exact ⟨past, readOnly, rfl⟩
  | decided | chosen | flushed =>
    intro same
    obtain ⟨_, _, early⟩ := retreats same
    cases early
  | _ => exact retreats

theorem stay (retreating : Retreating transaction ended range)
    (lined : Lined next.lockTable next.handlers)
    (found : range.handlers.find id = some handler)
    (handlers : next.handlers = range.handlers.insert id handler')
    (here : handler.Retreats transaction ended → handler'.Retreats transaction ended) :
    Retreating transaction ended next :=
  retreating.put lined handlers (here (retreating.handlers found))

theorem finish (retreating : Retreating transaction ended range)
    (nobody : range.serves (Handler.reading transaction) = false) :
    Retreating transaction true range := by
  refine ⟨retreating.lined, ?_⟩
  intro id handler found
  have retreats := retreating.handlers found
  cases handler with
  | get =>
    intro same
    have other := RangeManager.not_of_serves nobody found
    exact absurd same (of_decide_eq_false other)
  | prepare => exact fun same => ⟨rfl, (retreats same).2⟩
  | abort => exact fun _ => rfl
  | commit => exact retreats

theorem arrivedPrepare_retreats (config : Configuration) {req : PrepareRequest}
    (readOnly : req.hasWrites = false) :
    (RangeManager.arrivePrepare config req).retreats = true := by
  unfold RangeManager.arrivePrepare
  rw [readOnly]
  split
  next impossible => cases impossible
  next => split <;> rfl

/-- A handler of the transaction never asks for the lock after the end. -/
theorem unsought (retreating : Retreating transaction true range) :
    range.Unsought transaction := by
  intro id handler found
  have retreats := retreating.handlers found
  rw [Bool.eq_false_iff]
  intro seeks
  unfold Handler.seeks at seeks
  split at seeks
  iterate 2
    next => cases retreats (of_decide_eq_true seeks)
  iterate 2
    next =>
      obtain ⟨_, _, impossible⟩ := retreats (of_decide_eq_true seeks)
      cases impossible
  next => cases seeks

theorem holder_release (retreating : Retreating transaction true range) (mark : Option Bool) :
    (range.lockTable.release mark).currentHolder ≠ some transaction :=
  retreating.unsought.holder_release retreating.lined mark

theorem holder (retreating : Retreating transaction true range)
    (taken : range.step config label = some next)
    (held : next.lockTable.currentHolder = some transaction) :
    range.lockTable.currentHolder = some transaction :=
  retreating.unsought.holder retreating.lined (RangeManager.moves_of_step taken) held

theorem step {observed : Observed}
    (retreating : Retreating transaction observed.ended observed.range)
    (readOnly : observed.ReadOnly transaction label)
    (taken : observed.range.step config label = some next) :
    Retreating transaction (observed.ended || Observed.ends transaction label) next := by
  obtain ⟨uncommitted, writes⟩ := readOnly
  have moves := RangeManager.moves_of_step taken
  have lined := retreating.lined.moves moves
  cases moves with
  | arrivedGet =>
    simp only [Observed.ends, Bool.or_false]
    exact retreating.put lined rfl uncommitted
  | @arrivedPrepare id owner req =>
    by_cases same : owner = transaction
    · rw [Observed.ends, decide_eq_true same, Bool.or_true]
      refine (retreating.finish (uncommitted.1 same)).put lined rfl fun _ => ⟨rfl, writes same, ?_⟩
      exact arrivedPrepare_retreats config (writes same)
    · rw [Observed.ends, decide_eq_false same, Bool.or_false]
      exact retreating.put lined rfl fun equal => absurd equal same
  | @arrivedAbort id owner =>
    by_cases same : owner = transaction
    · rw [Observed.ends, decide_eq_true same, Bool.or_true]
      exact (retreating.finish (uncommitted.1 same)).put lined rfl fun _ => rfl
    · rw [Observed.ends, decide_eq_false same, Bool.or_false]
      exact retreating.put lined rfl fun equal => absurd equal same
  | arrivedCommit =>
    simp only [Observed.ends, Bool.or_false]
    exact retreating.put lined rfl uncommitted.1
  | quiet found moved =>
    have unended : Observed.ends transaction label = false := by cases moved <;> rfl
    rw [unended, Bool.or_false]
    exact retreating.stay lined found rfl (quiet moved)
  | failed found fails =>
    simp only [Observed.ends, Bool.or_false]
    refine retreating.stay lined found rfl fun retreats => ?_
    cases fails with
    | append | flush =>
      intro same
      obtain ⟨_, _, impossible⟩ := retreats same
      cases impossible
    | _ => exact retreats
  | lockedGet found | wokenGet found =>
    simp only [Observed.ends, Bool.or_false]
    exact retreating.stay lined found rfl fun retreats => retreats
  | read found =>
    simp only [Observed.ends, Bool.or_false]
    exact retreating.stay lined found rfl fun retreats => retreats
  | lockedPrepare found | wokenPrepare found | softReleased found =>
    simp only [Observed.ends, Bool.or_false]
    refine retreating.stay lined found rfl fun retreats same => ?_
    obtain ⟨_, _, impossible⟩ := retreats same
    cases impossible
  | releasedPrepare found =>
    simp only [Observed.ends, Bool.or_false]
    refine retreating.stay lined found rfl fun retreats same => ?_
    obtain ⟨past, nothing, _⟩ := retreats same
    exact ⟨past, nothing, rfl⟩
  | @saved id owner req decisions found =>
    simp only [Observed.ends, Bool.or_false]
    unfold RangeManager.save at lined ⊢
    simp only at lined ⊢
    have excluded : ∀ stage, Handler.Retreats transaction observed.ended
        (.prepare owner req stage) := by
      intro stage same
      obtain ⟨_, _, impossible⟩ := retreating.handlers found same
      cases impossible
    split at lined
    next traditional =>
      rw [if_pos traditional]
      exact retreating.put lined rfl (excluded _)
    next eager =>
      rw [if_neg eager]
      exact retreating.put lined rfl (excluded _)
  | releasedAbort found | stored found | deleteRefused found | storeTimedOut found
  | updatedBuffer found
  | cleared found | releasedCommit found | cleaned found =>
    simp only [Observed.ends, Bool.or_false]
    exact retreating.stay lined found rfl fun retreats => retreats
  | @delivered id _ found returned =>
    simp only [Observed.ends, Bool.or_false]
    refine ⟨lined, ?_⟩
    intro other candidate present
    change find (observed.range.handlers.erase id) other = _ at present
    rw [find_erase] at present
    split at present
    next => cases present
    next => exact retreating.handlers present

theorem lockTable_of_releases (found : range.handlers.find id = some handler)
    (releases : handler.releases = true) (taken : range.step config (.run id) = some next) :
    ∃ mark, next.lockTable = range.lockTable.release mark := by
  simp only [RangeManager.step, found, Option.bind_some] at taken
  unfold Handler.releases at releases
  split at releases
  next =>
    cases taken
    exact ⟨none, rfl⟩
  next =>
    cases taken
    exact ⟨some true, rfl⟩
  next =>
    cases taken
    exact ⟨none, rfl⟩
  next =>
    cases taken
    exact ⟨none, rfl⟩
  next => cases releases

theorem withdrew_of_insert (handlers : next.handlers = range.handlers.insert id handler')
    (running : handler'.withdrew transaction = false)
    (done : ∃ id handler, next.handlers.find id = some handler ∧
      handler.withdrew transaction = true) :
    ∃ id handler, range.handlers.find id = some handler ∧
      handler.withdrew transaction = true := by
  obtain ⟨other, candidate, found, withdrew⟩ := done
  rw [handlers, find_insert] at found
  split at found
  next =>
    cases found
    cases running.symm.trans withdrew
  next => exact ⟨other, candidate, found, withdrew⟩

theorem not_withdrew {owner : Uuid} (ne : owner ≠ transaction) :
    (Handler.abort owner (.returned (.ok ()))).withdrew transaction = false :=
  decide_eq_false ne

/-- An abort that succeeds leaves the transaction without the lock. -/
theorem withdrew (retreating : Retreating transaction ended range)
    (taken : range.step config label = some next)
    (done : ∃ id handler, next.handlers.find id = some handler ∧
      handler.withdrew transaction = true) :
    (∃ id handler, range.handlers.find id = some handler ∧
        handler.withdrew transaction = true) ∨
      ended = true ∧ next.lockTable.currentHolder ≠ some transaction := by
  cases RangeManager.moves_of_step taken with
  | quiet found quiet =>
    cases quiet with
    | @abortIdle owner idle =>
      by_cases same : owner = transaction
      · have past := retreating.handlers found same
        refine .inr ⟨past, ?_⟩
        intro held
        change range.lockTable.currentHolder = _ at held
        rw [LockTable.isCurrentlyHolding, held, same] at idle
        exact of_decide_eq_false idle (List.mem_singleton_self transaction)
      · exact .inl (withdrew_of_insert rfl (not_withdrew same) done)
    | _ => exact .inl (withdrew_of_insert rfl rfl done)
  | failed _ fails =>
    cases fails <;> exact .inl (withdrew_of_insert rfl rfl done)
  | @releasedAbort id owner found =>
    by_cases same : owner = transaction
    · have past := retreating.handlers found same
      subst past
      exact .inr ⟨rfl, retreating.holder_release none⟩
    · exact .inl (withdrew_of_insert rfl (not_withdrew same) done)
  | saved =>
    unfold RangeManager.save at done
    simp only at done
    split at done <;> exact .inl (withdrew_of_insert rfl rfl done)
  | @delivered id _ _ _ =>
    obtain ⟨other, candidate, found, withdrew⟩ := done
    change find (range.handlers.erase id) other = _ at found
    rw [find_erase] at found
    split at found
    next => cases found
    next => exact .inl ⟨other, candidate, found, withdrew⟩
  | _ => exact .inl (withdrew_of_insert rfl rfl done)

theorem data_of_preparing (retreating : Retreating transaction ended range)
    (taken : range.step config label = some next)
    (prepares : range.runs (Handler.preparing transaction) label = true) :
    next.data = range.data := by
  have prepared : ∀ {id handler}, range.handlers.find id = some handler →
      ((range.handlers.find id).any (Handler.preparing transaction)) = true →
      ∃ req stage, handler = .prepare transaction req stage ∧ stage.retreats = true := by
    intro id handler found passes
    rw [found, Option.any_some] at passes
    cases handler with
    | prepare owner req stage =>
      have same : owner = transaction := of_decide_eq_true passes
      obtain ⟨_, _, retreats⟩ := retreating.handlers found same
      exact ⟨req, stage, by rw [same], retreats⟩
    | _ => cases passes
  cases label with
  | run =>
    obtain ⟨handler, found, ran⟩ := Option.bind_eq_some_iff.mp taken
    obtain ⟨req, stage, rfl, retreats⟩ := prepared found prepares
    cases stage with
    | verifying | releasing =>
      cases ran
      rfl
    | returned => cases ran
    | _ => cases retreats
  | runOn =>
    obtain ⟨handler, found, ran⟩ := Option.bind_eq_some_iff.mp taken
    obtain ⟨req, stage, rfl, retreats⟩ := prepared found prepares
    cases stage with
    | verifying | releasing | returned => cases ran
    | _ => cases retreats
  | fail =>
    obtain ⟨handler, found, ran⟩ := Option.bind_eq_some_iff.mp taken
    obtain ⟨req, stage, rfl, retreats⟩ := prepared found prepares
    cases stage with
    | verifying | releasing | returned => cases ran
    | _ => cases retreats
  | _ => cases prepares

theorem pending (retreating : Retreating transaction ended range)
    (taken : range.step config label = some next)
    (record : range.pendingState.pendingPrepareRecords.find transaction = none)
    (table : ∀ key, range.pendingState.pendingCommitTable.find key ≠ some transaction) :
    next.pendingState.pendingPrepareRecords.find transaction = none ∧
      ∀ key, next.pendingState.pendingCommitTable.find key ≠ some transaction := by
  cases RangeManager.moves_of_step taken with
  | @saved id owner req decisions found =>
    have ne : transaction ≠ owner := by
      intro same
      obtain ⟨_, _, impossible⟩ := retreating.handlers found same.symm
      cases impossible
    have unsaved : find (range.pendingState.pendingPrepareRecords.insert owner
        req.changes) transaction = none := by
      rw [find_insert, if_neg ne, record]
    unfold RangeManager.save
    simp only
    split
    next => exact ⟨unsaved, table⟩
    next =>
      refine ⟨unsaved, ?_⟩
      intro key entered
      change find (RangeManager.publish ..) key = _ at entered
      rw [find_publish] at entered
      split at entered
      next => exact ne (Option.some.inj entered).symm
      next => cases entered
      next => exact table key entered
  | @cleared _ txs _ records _ _ _ =>
    refine ⟨?_, ?_⟩
    · change find (RangeManager.clear ..).pendingPrepareRecords transaction = none
      rw [find_cleared, record, ite_self]
    · intro key entered
      change find (RangeManager.clear ..).pendingCommitTable key = _ at entered
      unfold RangeManager.clear at entered
      simp only at entered
      split at entered
      next => exact table key entered
      next =>
        rw [find_unpublish] at entered
        obtain ⟨dependee, before, kept⟩ := Option.bind_eq_some_iff.mp entered
        split at kept
        next => cases kept
        next =>
          cases kept
          exact table key before
  | _ => exact ⟨record, table⟩

end Retreating

/-! ## The invariant -/

/-- As long as the transaction can have the lock, the others rely on it only
when they have it. -/
structure Undone (transaction : Uuid) (observed : Observed) : Prop where
  retreating : Retreating transaction observed.ended observed.range
  excluded : observed.ended = false ∨
    observed.range.lockTable.currentHolder = some transaction →
    Excluded (some transaction) observed.range
  record : observed.range.pendingState.pendingPrepareRecords.find transaction = none
  table : ∀ key, observed.range.pendingState.pendingCommitTable.find key ≠ some transaction
  softReleased : transaction ∉ observed.range.lockTable.softReleased
  withdrawn : (observed.aborted = true ∨ ∃ id handler,
      observed.range.handlers.find id = some handler ∧ handler.withdrew transaction = true) →
    observed.ended = true ∧ observed.range.lockTable.currentHolder ≠ some transaction
  shadow : observed.shadow = observed.range.data

namespace Undone

variable {config : Configuration} {transaction : Uuid} {observed next : Observed} {label : Label}

theorem initial (starts : observed.Initial) : Undone transaction observed := by
  obtain ⟨storage, loaded, shadow, unended, unaborted⟩ := starts
  have nobody : ∀ {id handler}, observed.range.handlers.find id ≠ some handler := by
    intro id handler found
    rw [loaded, RangeManager.loaded, find_empty] at found
    cases found
  constructor
  · rw [loaded]
    refine ⟨lined_loaded storage, ?_⟩
    intro id handler found
    exact absurd (loaded ▸ found) nobody
  · rw [loaded]
    exact fun _ => .loaded storage
  · rw [loaded]
    exact find_empty transaction
  · rw [loaded]
    intro key entered
    cases (find_empty key).symm.trans entered
  · rw [loaded]
    exact Finset.notMem_empty transaction
  · intro past
    rcases past with aborted | ⟨id, handler, found, _⟩
    · cases unaborted.symm.trans aborted
    · exact absurd found nobody
  · exact shadow

theorem alone (uncommitted : observed.Uncommitted transaction label) :
    ∀ owner ∈ RangeManager.requested label, some transaction ≠ some owner →
      observed.range.releasing owner = false := by
  intro owner mem ne
  have other : owner ≠ transaction := fun same => ne (congrArg some same.symm)
  cases label with
  | prepare =>
    cases List.mem_singleton.mp mem
    exact uncommitted.2 other
  | abort =>
    cases List.mem_singleton.mp mem
    exact uncommitted.2 other
  | commit => exact uncommitted.2 owner mem
  | _ => cases mem

theorem ended_of_releases {id : Nat} {handler : Handler} (undone : Undone transaction observed)
    (found : observed.range.handlers.find id = some handler)
    (own : ¬ handler.Counts (some transaction)) : observed.ended = true := by
  have retreats := undone.retreating.handlers found
  simp only [Handler.Counts, ne_eq, not_forall, not_not] at own
  obtain ⟨owner, mem, same⟩ := own
  cases same
  unfold Handler.releasers at mem
  split at mem
  iterate 4
    next => cases mem
  next => exact (retreats (List.mem_singleton.mp mem).symm).1
  next => exact retreats (List.mem_singleton.mp mem).symm
  next => exact absurd mem retreats

theorem exists_of_answers {range : RangeManager}
    (answers : Observed.answers transaction range label = true) :
    ∃ id handler, range.handlers.find id = some handler ∧
      handler.withdrew transaction = true := by
  cases label with
  | deliver id =>
    obtain ⟨handler, found, withdrew⟩ := (Option.any_eq_true _ _).mp answers
    exact ⟨id, handler, found, withdrew⟩
  | _ => cases answers

theorem notMem_softReleased {range : RangeManager} (undone : Undone transaction observed)
    (moved : observed.range.step config label = some range) :
    transaction ∉ range.lockTable.softReleased := by
  have before := undone.softReleased
  cases RangeManager.moves_of_step moved with
  | lockedGet | lockedPrepare =>
    intro inside
    change transaction ∈ (LockTable.acquire ..).softReleased at inside
    rw [LockTable.softReleased_acquire] at inside
    exact before inside
  | releasedPrepare | releasedAbort | releasedCommit =>
    intro inside
    change transaction ∈ (LockTable.release _ none).softReleased at inside
    rw [LockTable.softReleased_release] at inside
    exact before inside
  | @softReleased id owner req deps found =>
    intro inside
    rcases LockTable.mem_softReleased_softRelease inside with marked | held
    · exact before marked
    · have ne : owner ≠ transaction := by
        intro same
        obtain ⟨_, _, impossible⟩ := undone.retreating.handlers found same
        cases impossible
      have counts : (Handler.prepare owner req (.softReleasing deps)).Counts
          (some transaction) := by
        intro other mem same
        cases same
        exact ne (List.mem_singleton.mp mem).symm
      obtain ⟨other, mem, holds⟩ :=
        (undone.excluded (.inr held)).critical found counts rfl
      cases held.symm.trans holds
      exact ne (List.mem_singleton.mp mem).symm
  | cleaned =>
    intro inside
    exact before (Finset.mem_filter.mp inside).1
  | saved =>
    unfold RangeManager.save
    simp only
    split <;> exact before
  | _ => exact before

theorem step (undone : Undone transaction observed)
    (readOnly : observed.ReadOnly transaction label)
    (taken : observed.step transaction config label = some next) :
    Undone transaction next := by
  obtain ⟨range, moved, rfl⟩ := Option.map_eq_some_iff.mp taken
  have retreating := undone.retreating.step readOnly moved
  have regained : observed.ended = true → range.lockTable.currentHolder = some transaction →
      observed.range.lockTable.currentHolder = some transaction := by
    intro past held
    exact (past ▸ undone.retreating : Retreating transaction true _).holder moved held
  obtain ⟨record, table⟩ := undone.retreating.pending moved undone.record undone.table
  refine ⟨retreating, ?_, record, table, ?_, ?_, ?_⟩
  · intro fair
    have before : observed.ended = false ∨
        observed.range.lockTable.currentHolder = some transaction := by
      cases past : observed.ended with
      | false => exact .inl rfl
      | true =>
        rw [past, Bool.true_or] at fair
        exact .inr (regained past (fair.resolve_left nofun))
    refine (undone.excluded before).step (alone readOnly.1) ?_ moved
    intro id handler runs found releases
    -- Its own release ends the time in which the others count.
    by_contra own
    have past := undone.ended_of_releases found own
    obtain ⟨mark, released⟩ :=
      Retreating.lockTable_of_releases found releases (runs ▸ moved)
    have kept : Retreating transaction true observed.range := past ▸ undone.retreating
    rw [past, Bool.true_or, released] at fair
    exact kept.holder_release mark (fair.resolve_left nofun)
  · exact undone.notMem_softReleased moved
  · intro past
    have earlier : (observed.aborted = true ∨ ∃ id handler,
        observed.range.handlers.find id = some handler ∧
          handler.withdrew transaction = true) ∨
        observed.ended = true ∧ range.lockTable.currentHolder ≠ some transaction := by
      rcases past with aborted | done
      · left
        exact ((Bool.or_eq_true _ _).mp aborted).imp_right exists_of_answers
      · exact (undone.retreating.withdrew moved done).imp_left .inr
    rcases earlier with before | now
    · obtain ⟨finished, unheld⟩ := undone.withdrawn before
      exact ⟨by rw [finished, Bool.true_or], fun held => unheld (regained finished held)⟩
    · exact ⟨by rw [now.1, Bool.true_or], now.2⟩
  · have same : observed.range.withData observed.shadow = observed.range := by
      rw [undone.shadow]
      rfl
    simp only
    split
    next prepares =>
      exact undone.shadow.trans (undone.retreating.data_of_preparing moved prepares).symm
    next =>
      rw [same, moved]
      rfl

end Undone

namespace Observed

/-- An aborted transaction leaves nothing behind, in every run where its prepare
carries no writes. -/
theorem rolledBack_of_reachable (config : Configuration) (transaction : Uuid)
    {observed : Observed}
    (reached : Reachable (step transaction config) (ReadOnly transaction) Initial observed) :
    RolledBack transaction config observed := by
  have undone : Undone transaction observed := by
    apply reached.invariant
    · exact fun _ starts => .initial starts
    · exact fun _ _ _ undone readOnly taken => undone.step readOnly taken
  constructor
  · exact fun aborted _ => (undone.withdrawn (.inl aborted)).2
  · exact fun _ _ => undone.record
  · exact fun _ _ => undone.table
  · exact fun _ _ => undone.softReleased
  · intro id owner key stage
    rw [undone.shadow]
    rfl

def eagerRange : Configuration := ⟨.pipelined, .openClients, .all, 0⟩

def overwrites (id : Nat) (transaction : Uuid) (value : Bytes) : List Label :=
  [.prepare id transaction ⟨false, [([7], value)], [], none, 0⟩, .run id, .run id,
    .runOn id [7], .run id, .runOn id [7], .run id, .run id, .deliver id]

/-- The abort is over, and the table maps the key to `now` where it would map it
to `otherwise`. -/
def leaves (transaction now otherwise : Uuid) (observed : Observed) : Bool :=
  decide (observed.aborted = true ∧
    observed.range.serves (Handler.concerns transaction) = false ∧
    observed.range.pendingState.pendingCommitTable.find [7] = some now ∧
    observed.shadow.pendingState.pendingCommitTable.find [7] = some otherwise)

/-- Transaction 2 overwrites what transaction 1 has not committed and is aborted
after its lock was released early: the next reader of the key depends on
transaction 2, and not on transaction 1. -/
theorem aborted_write_stays_pending :
    ∃ observed, Reachable (step 2 eagerRange) (Uncommitted 2) Initial observed ∧
      observed.range.pendingState.pendingCommitTable.find [7] = some 2 ∧
      observed.shadow.pendingState.pendingCommitTable.find [7] = some 1 ∧
      ¬ RolledBack 2 eagerRange observed := by
  obtain ⟨observed, reached, passed⟩ := @exists_reachable_of_run _ _ (step 2 eagerRange)
    (Uncommitted 2) Initial _ ⟨.loaded fun _ => none, (RangeManager.loaded fun _ => none).data,
      false, false⟩ ⟨fun _ => none, rfl, rfl, rfl, rfl⟩
    (overwrites 0 1 [1] ++ overwrites 1 2 [2] ++ [.abort 2 2, .run 2, .deliver 2])
    (leaves 2 2 1) (by decide +kernel)
  obtain ⟨aborted, gone, now, otherwise⟩ := of_decide_eq_true passed
  refine ⟨observed, reached, now, otherwise, ?_⟩
  exact fun rolledBack => rolledBack.table aborted gone [7] now

/-- The abort of a transaction that has only read overlaps with its prepare. -/
theorem rolledBack_of_reachable_reader :
    ∃ observed, Reachable (step 2 eagerRange) (ReadOnly 2) Initial observed ∧
      leaves 2 1 1 observed = true ∧ RolledBack 2 eagerRange observed := by
  obtain ⟨observed, reached, passed⟩ := @exists_reachable_of_run _ _ (step 2 eagerRange)
    (ReadOnly 2) Initial _ ⟨.loaded fun _ => none, (RangeManager.loaded fun _ => none).data,
      false, false⟩ ⟨fun _ => none, rfl, rfl, rfl, rfl⟩
    (overwrites 0 1 [1] ++ [.get 1 2 [7], .run 1, .run 1, .run 1, .deliver 1,
      .prepare 2 2 ⟨true, [], [], none, 0⟩, .run 2, .abort 3 2, .run 3, .run 2, .deliver 2,
      .run 3, .run 3, .run 3, .deliver 3])
    (leaves 2 1 1) (by decide +kernel)
  exact ⟨observed, reached, passed, rolledBack_of_reachable eagerRange 2 reached⟩

end Observed

end Sangria.RangeServer
