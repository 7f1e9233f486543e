import Sangria.RangeServer.RangeManager.Exclusion
import Sangria.RangeServer.RangeManager.PendingState

/-!
# Early release and the pending commit table

A prepare decides for every key of its record whether the lock is released
early, and releases it by the decision for one of the keys.  The decisions agree
as long as the counters they are made from stand still between the first and
the last of them.
-/

namespace Sangria.RangeServer

open FiniteMap
open TransitionSystem

/-- The decision compares the counters of the lock table with a bound. -/
def PrepareRequest.weighed (config : Configuration) (request : PrepareRequest) : Bool :=
  decide (config.commitStrategy = .adaptive) && decide (config.heuristic = .lockContention) &&
    F64.le (some 50) request.resolverAverageLoad && F64.lt request.resolverAverageLoad (some 5000)

def Handler.undecided (config : Configuration) : Handler → Bool
  | .prepare _ request (.deciding decisions) =>
    request.weighed config && decide (decisions.keys ≠ ∅) &&
      decide (decisions.keys ≠ request.changes.keys)
  | _ => false

/-- The next section changes who waits for the lock or whose lock is soft
released. -/
def Handler.recounts : Handler → Bool
  | .get _ _ .locking | .prepare _ _ .locking | .prepare _ _ .releasing
  | .prepare _ _ (.softReleasing _) | .abort _ .releasing | .commit _ _ .releasing
  | .commit _ _ .cleaning => true
  | _ => false

namespace RangeManager

/-- No counter changes between the first and the last decision of a prepare. -/
def Undisturbed (config : Configuration) (range : RangeManager) : Label → Prop
  | .run id => ((range.handlers.find id).any Handler.recounts) = true →
      ∀ other ∈ range.handlers.keys,
        ((range.handlers.find other).any (Handler.undecided config)) = false
  | _ => True

instance (config : Configuration) (range : RangeManager) (label : Label) :
    Decidable (range.Undisturbed config label) :=
  match label with
  | .run _ => inferInstanceAs (Decidable (_ = true → ∀ other ∈ _, _ = false))
  | .get .. | .prepare .. | .abort .. | .commit .. | .runOn .. | .fail .. | .deliver _ =>
    isTrue trivial

def Steady (config : Configuration) (range : RangeManager) (label : Label) : Prop :=
  range.OneAtATime label ∧ range.Undisturbed config label

instance (config : Configuration) (range : RangeManager) (label : Label) :
    Decidable (range.Steady config label) :=
  inferInstanceAs (Decidable (_ ∧ _))

/-- All keys of a record are decided alike; before a soft release the table maps
every one of them to the transaction, and none of them when the lock is kept. -/
structure PublishesAll (range : RangeManager) : Prop where
  uniform : ∀ {id transaction request decisions dependencies},
    range.handlers.find id = some (.prepare transaction request
      (.appending decisions dependencies)) →
    decisions.keys = request.changes.keys ∧
      ∃ early, ∀ key ∈ decisions.keys, decisions.find key = some early
  released : ∀ {id transaction request dependencies},
    range.handlers.find id = some (.prepare transaction request (.softReleasing dependencies)) →
    ∀ key ∈ request.changes.keys,
      range.pendingState.pendingCommitTable.find key = some transaction
  kept : ∀ {id transaction request dependencies},
    range.handlers.find id = some (.prepare transaction request (.flushing dependencies false)) →
    ∀ key ∈ request.changes.keys,
      range.pendingState.pendingCommitTable.find key ≠ some transaction

/-! ## The decision -/

theorem exceeds_of_not_weighed {load : F64} (outside : F64.le (some 50) load = false ∨
    F64.lt load (some 5000) = false) (contention contention' high low : Nat) :
    exceeds load contention high low = exceeds load contention' high low := by
  cases load with
  | none => rfl
  | some load =>
    simp only [F64.le, F64.lt, decide_eq_false_iff_not, Rat.not_lt] at outside
    unfold exceeds
    simp only [F64.le, F64.lt, Bool.and_eq_true, decide_eq_true_eq]
    rcases outside with below | above
    · have under : ∀ bound : Rat, 50 ≤ bound → ¬ bound ≤ load :=
        fun bound high least => below (Rat.le_trans high least)
      have first : ¬ (5000 : Rat) ≤ load := under 5000 (by decide)
      have second : ¬ ((200 : Rat) ≤ load ∧ load < 5000) :=
        fun least => under 200 (by decide) least.1
      have third : ¬ ((50 : Rat) ≤ load ∧ load < 200) := fun least => below least.1
      simp only [if_neg first, if_neg second, if_neg third]
    · simp only [if_pos above]

theorem doEarlyLockRelease_congr {config : Configuration} {table table' : LockTable}
    {req : PrepareRequest}
    (counters : req.weighed config = true →
      table'.getNumWaitersAndPending = table.getNumWaitersAndPending) :
    doEarlyLockRelease config table' req.resolverAverageLoad req.numOpenClients =
      doEarlyLockRelease config table req.resolverAverageLoad req.numOpenClients := by
  unfold doEarlyLockRelease
  split
  next => rfl
  next => rfl
  next adaptive =>
    split
    next => rfl
    next contended =>
      cases weighed : req.weighed config with
      | true => rw [counters weighed]
      | false =>
        apply exceeds_of_not_weighed
        rw [PrepareRequest.weighed, adaptive, contended] at weighed
        exact Bool.and_eq_false_iff.mp weighed

theorem doEarlyLockRelease_traditional {config : Configuration}
    (traditional : config.commitStrategy = .traditional) (table : LockTable) (load : F64)
    (clients : Nat) : doEarlyLockRelease config table load clients = false := by
  unfold doEarlyLockRelease
  rw [traditional]

end RangeManager

/-! ## The invariant -/

/-- What the table holds for the keys of a transaction that was decided. -/
def Announced (table : HashMap Bytes Uuid) (transaction : Uuid) (changes : Changes)
    (early : Bool) : Prop :=
  ∀ key ∈ changes.keys, if early then table.find key = some transaction
    else table.find key ≠ some transaction

def Handler.Settled (config : Configuration) (range : RangeManager) : Handler → Prop
  | .prepare _ request (.deciding decisions) =>
    ∃ early, (∀ key ∈ decisions.keys, decisions.find key = some early) ∧
      (config.commitStrategy = .traditional → early = false) ∧
      (decisions.keys ≠ request.changes.keys →
        early = RangeManager.doEarlyLockRelease config range.lockTable
          request.resolverAverageLoad request.numOpenClients)
  | .prepare transaction request (.appending decisions _) =>
    decisions.keys = request.changes.keys ∧
      ∃ early, (∀ key ∈ decisions.keys, decisions.find key = some early) ∧
        Announced range.pendingState.pendingCommitTable transaction request.changes early
  | .prepare transaction request (.softReleasing _) =>
    Announced range.pendingState.pendingCommitTable transaction request.changes true
  | .prepare transaction request (.flushing _ false) =>
    Announced range.pendingState.pendingCommitTable transaction request.changes false
  | .commit transactions _ (.storing records) | .commit transactions _ (.buffering records _) =>
    ∀ entry ∈ records, entry.1 ∈ transactions
  | _ => True

/-- The entries of a transaction in the table of one state are those in the
table of the other. -/
theorem Announced.congr {table table' : HashMap Bytes Uuid} {tx : Uuid}
    {changes : Changes} {early : Bool} (announced : Announced table tx changes early)
    (kept : early = true → ∀ key, table.find key = some tx →
      table'.find key = some tx)
    (fresh : ∀ key, table'.find key = some tx → table.find key = some tx) :
    Announced table' tx changes early := by
  intro key mem
  have before := announced key mem
  cases early with
  | true => exact kept rfl key before
  | false => exact fun present => before (fresh key present)

theorem Handler.Settled.frame {config : Configuration} {range next : RangeManager}
    {handler : Handler} (settled : handler.Settled config range)
    (counters : handler.undecided config = true →
      next.lockTable.getNumWaitersAndPending = range.lockTable.getNumWaitersAndPending)
    (kept : handler.critical false = true → ∀ tx ∈ handler.releasers, ∀ key,
      range.pendingState.pendingCommitTable.find key = some tx →
      next.pendingState.pendingCommitTable.find key = some tx)
    (fresh : ∀ tx ∈ handler.releasers, ∀ key,
      next.pendingState.pendingCommitTable.find key = some tx →
      range.pendingState.pendingCommitTable.find key = some tx) :
    handler.Settled config next := by
  cases handler with
  | get | abort => trivial
  | commit _ _ stage => cases stage <;> exact settled
  | prepare tx req stage =>
    have mine := List.mem_singleton_self tx
    cases stage with
    | deciding decisions =>
      by_cases first : decisions.keys = ∅
      · refine ⟨RangeManager.doEarlyLockRelease config next.lockTable
          req.resolverAverageLoad req.numOpenClients, ?_, ?_, fun _ => rfl⟩
        · rw [first]
          intro key mem
          cases mem
        · exact fun traditional =>
            RangeManager.doEarlyLockRelease_traditional traditional ..
      · obtain ⟨early, uniform, never, now⟩ := settled
        refine ⟨early, uniform, never, fun rest => (now rest).trans ?_⟩
        refine (RangeManager.doEarlyLockRelease_congr fun weighed => counters ?_).symm
        simp [Handler.undecided, weighed, first, rest]
    | appending =>
      obtain ⟨complete, early, uniform, announced⟩ := settled
      exact ⟨complete, early, uniform,
        announced.congr (fun _ => kept rfl tx mine) (fresh tx mine)⟩
    | softReleasing =>
      exact Announced.congr settled (fun _ => kept rfl tx mine)
        (fresh tx mine)
    | flushing _ early =>
      cases early with
      | true => trivial
      | false => exact Announced.congr settled nofun (fresh tx mine)
    | _ => trivial

structure Publishing (config : Configuration) (range : RangeManager) : Prop where
  excluded : Excluded none range
  unused : config.commitStrategy = .traditional →
    ∀ key, range.pendingState.pendingCommitTable.find key = none
  settled : ∀ {id handler}, range.handlers.find id = some handler → handler.Settled config range

namespace Publishing

variable {config : Configuration} {range next : RangeManager} {id : Nat}
  {handler handler' : Handler}

theorem loaded (config : Configuration) (storage : Records) :
    Publishing config (.loaded storage) := by
  refine ⟨.loaded storage, fun _ key => find_empty key, ?_⟩
  intro id handler found
  rw [RangeManager.loaded, find_empty] at found
  cases found

theorem put (publishing : Publishing config range) (excluded : Excluded none next)
    (handlers : next.handlers = range.handlers.insert id handler')
    (table : next.pendingState.pendingCommitTable = range.pendingState.pendingCommitTable)
    (counters : ∀ other candidate, range.handlers.find other = some candidate →
      candidate.undecided config = true →
      next.lockTable.getNumWaitersAndPending = range.lockTable.getNumWaitersAndPending)
    (here : handler'.Settled config next) : Publishing config next := by
  refine ⟨excluded, table ▸ publishing.unused, ?_⟩
  intro other candidate found
  rw [handlers, find_insert] at found
  split at found
  next =>
    cases found
    exact here
  next =>
    refine (publishing.settled found).frame (counters other candidate found) ?_ ?_
    · exact fun _ _ _ _ => table ▸ fun present => present
    · exact fun _ _ _ => table ▸ fun present => present

theorem counters_of_recounts {P : Prop}
    (undisturbed : range.Undisturbed config (.run id))
    (found : range.handlers.find id = some handler) (recounts : handler.recounts = true) :
    ∀ other candidate, range.handlers.find other = some candidate →
      candidate.undecided config = true → P := by
  intro other candidate present undecided
  have nobody := undisturbed (by rw [found]; exact recounts) other
    (mem_keys.mpr ⟨candidate, present⟩)
  rw [present, Option.any_some, undecided] at nobody
  cases nobody

theorem undecided_of_notMem {changes : Changes} {decisions : HashMap Bytes Bool} {key : Bytes}
    (written : key ∈ changes) (fresh : key ∉ decisions) : decisions.keys ≠ changes.keys := by
  intro same
  have mem : key ∈ decisions.keys := same ▸ Finmap.mem_keys.mpr written
  exact fresh (Finmap.mem_keys.mp mem)

theorem quiet {label : Label} (publishing : Publishing config range)
    (excluded : Excluded none (range.put id handler'))
    (found : range.handlers.find id = some handler)
    (quiet : RangeManager.Quiet config range id label handler handler') :
    Publishing config (range.put id handler') := by
  refine publishing.put excluded rfl rfl (fun _ _ _ _ => rfl) ?_
  have settled := publishing.settled found
  cases quiet with
  | verified => split <;> trivial
  | @decided tx req key decisions written fresh =>
    obtain ⟨early, uniform, never, now⟩ := settled
    refine ⟨_, ?_, ?_, fun _ => rfl⟩
    · intro other mem
      rw [find_insert]
      split
      next => rfl
      next ne =>
        have before : other ∈ decisions.keys := by
          obtain ⟨value, decided⟩ := mem_keys.mp mem
          rw [find_insert, if_neg ne] at decided
          exact mem_keys.mpr ⟨value, decided⟩
        rw [uniform other before, now (undecided_of_notMem written fresh)]
        rfl
    · exact fun traditional => RangeManager.doEarlyLockRelease_traditional traditional ..
  | @chosen tx req key decisions deps early first =>
    obtain ⟨complete, same, uniform, announced⟩ := settled
    have agrees := uniform key (mem_keys.mpr ⟨early, first⟩)
    cases first.symm.trans agrees
    cases early with
    | true | false => exact announced
  | @collected txs epoch records collected =>
    split <;> exact mem_of_collectRecords collected
  | @flushed tx req deps early => trivial
  | _ => trivial

theorem critical_unique (publishing : Publishing config range) {other : Nat}
    {candidate : Handler} (found : range.handlers.find id = some handler)
    (present : range.handlers.find other = some candidate)
    (mine : handler.critical false = true) (theirs : candidate.critical false = true) :
    other = id := by
  obtain ⟨owner, inside, held⟩ := publishing.excluded.critical found (Handler.counts_none _)
    (Handler.critical_mono mine _)
  obtain ⟨owner', inside', held'⟩ := publishing.excluded.critical present (Handler.counts_none _)
    (Handler.critical_mono theirs _)
  cases held.symm.trans held'
  exact publishing.excluded.unique present found nofun inside' inside

theorem saved (publishing : Publishing config range) {tx : Uuid}
    {req : PrepareRequest} {decisions : HashMap Bytes Bool}
    (excluded : Excluded none (range.save config id tx req decisions))
    (found : range.handlers.find id = some (.prepare tx req (.deciding decisions)))
    (complete : decisions.keys = req.changes.keys) :
    Publishing config (range.save config id tx req decisions) := by
  obtain ⟨early, uniform, never, _⟩ := publishing.settled found
  unfold RangeManager.save at excluded ⊢
  simp only at excluded ⊢
  split at excluded
  next traditional =>
    rw [if_pos traditional]
    refine publishing.put excluded rfl rfl (fun _ _ _ _ => rfl) ⟨complete, early, uniform, ?_⟩
    intro key _
    rw [never traditional]
    intro entered
    cases (publishing.unused traditional key).symm.trans entered
  next eager =>
    rw [if_neg eager]
    refine ⟨excluded, fun traditional => absurd traditional eager, ?_⟩
    intro other candidate present
    change find (range.handlers.insert id _) other = _ at present
    rw [find_insert] at present
    split at present
    next =>
      cases present
      refine ⟨complete, early, uniform, ?_⟩
      intro key mem
      change if early then find (RangeManager.publish ..) key = _
        else find (RangeManager.publish ..) key ≠ _
      rw [find_publish, uniform key (complete ▸ mem)]
      cases early with
      | true => rfl
      | false => nofun
    next ne =>
      refine (publishing.settled present).frame (fun _ => rfl) ?_ ?_
      · intro critical
        exact absurd (publishing.critical_unique found present rfl critical) ne
      · intro owner mine key entered
        change find (RangeManager.publish ..) key = _ at entered
        rw [find_publish] at entered
        split at entered
        next =>
          cases entered
          exact absurd (publishing.excluded.unique present found nofun mine
            (List.mem_singleton_self tx)) ne
        next => cases entered
        next => exact entered

theorem cleared (publishing : Publishing config range) {txs : List Uuid} {epoch : Nat}
    {records : List (Uuid × Changes)} {remaining : Changes}
    (excluded : Excluded none ({ range with
      pendingState := RangeManager.clear config range.pendingState txs records }.put id
        (.commit txs epoch .inspecting)))
    (found : range.handlers.find id =
      some (.commit txs epoch (.buffering records remaining))) :
    Publishing config ({ range with
      pendingState := RangeManager.clear config range.pendingState txs records }.put id
        (.commit txs epoch .inspecting)) := by
  have batch := publishing.settled found
  have cleared : ∀ key, (RangeManager.clear config range.pendingState txs
      records).pendingCommitTable.find key = range.pendingState.pendingCommitTable.find key ∨
      ∃ owner ∈ txs, range.pendingState.pendingCommitTable.find key = some owner ∧
        (RangeManager.clear config range.pendingState txs
          records).pendingCommitTable.find key = none := by
    intro key
    unfold RangeManager.clear
    simp only
    split
    next => exact .inl rfl
    next =>
      rw [find_unpublish]
      cases entered : range.pendingState.pendingCommitTable.find key with
      | none => exact .inl rfl
      | some =>
        rw [Option.bind_some]
        split
        next last =>
          obtain ⟨entry, mem, rfl⟩ := mem_of_find_lastTxPerKey last
          exact .inr ⟨entry.1, batch entry mem, rfl, rfl⟩
        next => exact .inl rfl
  refine ⟨excluded, ?_, ?_⟩
  · intro traditional key
    rcases cleared key with same | ⟨_, _, _, missing⟩
    · exact same.trans (publishing.unused traditional key)
    · exact missing
  · intro other candidate present
    change find (range.handlers.insert id _) other = _ at present
    rw [find_insert] at present
    split at present
    next =>
      cases present
      trivial
    next ne =>
      refine (publishing.settled present).frame (fun _ => rfl) ?_ ?_
      · intro _ owner mine key entered
        rcases cleared key with same | ⟨_, member, entered', _⟩
        · exact same.trans entered
        · cases entered.symm.trans entered'
          exact absurd (publishing.excluded.unique present found nofun mine member) ne
      · intro owner mine key entered
        rcases cleared key with same | ⟨_, _, _, missing⟩
        · exact same.symm.trans entered
        · cases entered.symm.trans missing

theorem step {label : Label} (publishing : Publishing config range)
    (steady : range.Steady config label) (taken : range.step config label = some next) :
    Publishing config next := by
  obtain ⟨alone, undisturbed⟩ := steady
  have excluded := publishing.excluded.stepAlone alone taken
  cases RangeManager.moves_of_step taken with
  | arrivedGet | arrivedAbort | arrivedCommit =>
    exact publishing.put excluded rfl rfl (fun _ _ _ _ => rfl) trivial
  | arrivedPrepare =>
    refine publishing.put excluded rfl rfl (fun _ _ _ _ => rfl) ?_
    unfold RangeManager.arrivePrepare
    split
    next =>
      split
      next => split <;> trivial
      next => trivial
    next => split <;> trivial
  | quiet found quiet => exact publishing.quiet excluded found quiet
  | failed _ fails =>
    refine publishing.put excluded rfl rfl (fun _ _ _ _ => rfl) ?_
    cases fails <;> trivial
  | lockedGet found | lockedPrepare found | releasedPrepare found | releasedAbort found
  | softReleased found | releasedCommit found | cleaned found =>
    exact publishing.put excluded rfl rfl (counters_of_recounts undisturbed found rfl) trivial
  | wokenGet =>
    exact publishing.put excluded rfl rfl (fun _ _ _ _ => rfl) trivial
  | wokenPrepare =>
    refine publishing.put excluded rfl rfl (fun _ _ _ _ => rfl) ⟨_, ?_, ?_, fun _ => rfl⟩
    · intro key mem
      cases mem
    · exact fun traditional => RangeManager.doEarlyLockRelease_traditional traditional ..
  | read => exact publishing.put excluded rfl rfl (fun _ _ _ _ => rfl) trivial
  | saved found complete => exact publishing.saved excluded found complete
  | stored found | updatedBuffer found =>
    exact publishing.put excluded rfl rfl (fun _ _ _ _ => rfl) (publishing.settled found)
  | deleteRefused | storeTimedOut =>
    exact publishing.put excluded rfl rfl (fun _ _ _ _ => rfl) trivial
  | cleared found => exact publishing.cleared excluded found
  | @delivered id _ found returned =>
    refine ⟨excluded, publishing.unused, ?_⟩
    intro other candidate present
    change find (range.handlers.erase id) other = _ at present
    rw [find_erase] at present
    split at present
    next => cases present
    next =>
      refine (publishing.settled present).frame (fun _ => rfl) ?_ ?_
      · exact fun _ _ _ _ entered => entered
      · exact fun _ _ _ entered => entered

end Publishing

namespace RangeManager

/-- An early release publishes every write, in every run where requests that can
release the lock come one at a time and no counter changes between two
decisions that depend on it. -/
theorem publishesAll_of_reachable (config : Configuration) {range : RangeManager}
    (reached : Reachable (step config) (Steady config)
      (fun start => ∃ storage, start = .loaded storage) range) : PublishesAll range := by
  have publishing : Publishing config range := by
    apply reached.invariant
    · intro start loaded
      obtain ⟨storage, rfl⟩ := loaded
      exact .loaded config storage
    · exact fun _ _ _ publishing steady taken => publishing.step steady taken
  constructor
  · intro id transaction request decisions dependencies found
    obtain ⟨complete, early, uniform, _⟩ := publishing.settled found
    exact ⟨complete, early, uniform⟩
  · exact fun found => publishing.settled found
  · exact fun found => publishing.settled found

def contendedRange : Configuration := ⟨.adaptive, .lockContention, .all, 0⟩

/-- With a load of 100 the lock is released early if more than 20 transactions
wait. -/
def twoWrites : PrepareRequest := ⟨false, [([1], [0]), ([2], [0])], [], some 100, 0⟩

def queueUp (transactions : List Nat) : List Label :=
  transactions.flatMap fun id => [.get id (BitVec.ofNat 128 id) [7], .run id]

/-- The prepare under id 0 is about to release the lock, with `key` among its
writes. -/
def softReleases (key : Bytes) (published : Bool) (range : RangeManager) : Bool :=
  match range.handlers.find 0 with
  | some (.prepare transaction request (.softReleasing _)) =>
    decide (key ∈ request.changes.keys ∧
      decide (range.pendingState.pendingCommitTable.find key = some transaction) = published)
  | _ => false

theorem exists_of_softReleases {key : Bytes} {published : Bool} {range : RangeManager}
    (passed : softReleases key published range = true) :
    ∃ tx req deps, range.handlers.find 0 =
        some (.prepare tx req (.softReleasing deps)) ∧
      key ∈ req.changes.keys ∧
      decide (range.pendingState.pendingCommitTable.find key = some tx) =
        published := by
  unfold softReleases at passed
  split at passed
  next tx req deps found =>
    exact ⟨tx, req, deps, found, of_decide_eq_true passed⟩
  next => cases passed

/-- With 20 waiters the first key is not released early, with 21 the second one
is; the lock is released by the decision for the second key. -/
theorem softReleases_unpublished_write :
    ∃ range, Reachable (step contendedRange) (fun _ _ => True)
        (fun start => ∃ storage, start = .loaded storage) range ∧
      ¬ PublishesAll range := by
  obtain ⟨range, reached, passed⟩ := @exists_reachable_of_run _ _ (step contendedRange)
    (fun _ _ => True) (fun start => ∃ storage, start = .loaded storage) _
    (.loaded fun _ => none) ⟨_, rfl⟩
    ([.prepare 0 0 twoWrites, .run 0, .run 0] ++ queueUp ((List.range 20).map (· + 1)) ++
      [.runOn 0 [1]] ++ queueUp [21] ++ [.runOn 0 [2], .run 0, .runOn 0 [2]])
    (softReleases [1] false) (by decide +kernel)
  obtain ⟨transaction, request, dependencies, found, written, missing⟩ :=
    exists_of_softReleases passed
  refine ⟨range, reached, ?_⟩
  intro publishes
  exact of_decide_eq_false missing (publishes.released found [1] written)

/-- All waiters come before the first decision. -/
theorem publishesAll_of_reachable_contended :
    ∃ range, Reachable (step contendedRange) (Steady contendedRange)
        (fun start => ∃ storage, start = .loaded storage) range ∧
      softReleases [1] true range = true ∧ PublishesAll range := by
  obtain ⟨range, reached, passed⟩ := @exists_reachable_of_run _ _ (step contendedRange)
    (Steady contendedRange) (fun start => ∃ storage, start = .loaded storage) _
    (.loaded fun _ => none) ⟨_, rfl⟩
    ([.prepare 0 0 twoWrites, .run 0, .run 0] ++ queueUp ((List.range 21).map (· + 1)) ++
      [.runOn 0 [1], .runOn 0 [2], .run 0, .runOn 0 [2]])
    (softReleases [1] true) (by decide +kernel)
  exact ⟨range, reached, passed, publishesAll_of_reachable contendedRange reached⟩

end RangeManager

end Sangria.RangeServer
