import Sangria.RangeServer.RangeManager.Erasure
import Sangria.RangeServer.RangeManager.Exclusion
import Sangria.RangeServer.RangeManager.PendingState

/-!
# Repeated prepare requests

A prepare request that is sent again is one more handler of the same
transaction.  As long as the transaction holds the lock, the repetition finds
the pending state as the first request left it, and can be taken out of the run.
-/

namespace Sangria.RangeServer

open FiniteMap
open TransitionSystem

deriving instance DecidableEq for PrepareRequest

/-- The handler takes the decisions on an early release for the transaction. -/
def Handler.decides (transaction : Uuid) : Handler → Bool
  | .prepare preparing _ (.deciding _) => decide (preparing = transaction)
  | _ => false

namespace RangeManager

/-- The prepare requests of the transaction are the same, none of them decides on
an early release, and it is not aborted. -/
def Unreleased (config : Configuration) (transaction : Uuid) (request : PrepareRequest)
    (range : RangeManager) : Label → Prop
  | .prepare _ preparing candidate => preparing = transaction → candidate = request
  | .abort _ aborting => aborting ≠ transaction
  | .runOn id _ => ((range.handlers.find id).any (Handler.decides transaction)) = true →
      doEarlyLockRelease config range.lockTable request.resolverAverageLoad
        request.numOpenClients = false
  | _ => True

end RangeManager

/-! ## The lock is kept with the record -/

def PrepareStage.Plain (config : Configuration) (request : PrepareRequest) : PrepareStage → Prop
  | .verifying | .locking | .waiting =>
    request.hasWrites = true ∧ request.within config.keyRange = true
  | .deciding decisions | .appending decisions _ =>
    request.hasWrites = true ∧ request.within config.keyRange = true ∧
      ∀ key early, decisions.find key = some early → early = false
  | .releasing | .softReleasing _ => False
  | .flushing .. | .returned _ => True

/-- What a handler keeps to, by the record of the transaction: a commit has
cleared it before it releases the lock. -/
def Handler.Keeps (config : Configuration) (transaction : Uuid) (request : PrepareRequest)
    (record : Option Changes) : Handler → Prop
  | .get .. => True
  | .prepare preparing candidate stage => preparing = transaction →
      candidate = request ∧ stage.Plain config request
  | .abort aborting _ => aborting ≠ transaction
  | .commit transactions _ .inspecting | .commit transactions _ .releasing =>
    transaction ∈ transactions → record = none
  | .commit .. => True

/-- A transaction with a pending record holds the lock, and the table of pending
commits has nothing under its keys. -/
structure Retaining (config : Configuration) (transaction : Uuid) (request : PrepareRequest)
    (range : RangeManager) : Prop where
  excluded : Excluded none range
  unused : config.commitStrategy = .traditional →
    ∀ key, range.pendingState.pendingCommitTable.find key = none
  record : ∀ changes, range.pendingState.pendingPrepareRecords.find transaction = some changes →
    changes = request.changes ∧ request.within config.keyRange = true ∧
      range.lockTable.currentHolder = some transaction ∧
      ∀ key ∈ request.changes.keys, range.pendingState.pendingCommitTable.find key = none
  keeps : ∀ id handler, range.handlers.find id = some handler → handler.Keeps config transaction
    request (range.pendingState.pendingPrepareRecords.find transaction)

namespace Retaining

variable {config : Configuration} {tx : Uuid} {request : PrepareRequest}
  {range next : RangeManager} {id : Nat} {handler : Handler} {label : Label}

theorem loaded (storage : Records) : Retaining config tx request (.loaded storage) := by
  refine ⟨.loaded storage, fun _ key => find_empty key, ?_, ?_⟩
  · intro changes found
    rw [RangeManager.loaded, find_empty] at found
    cases found
  · intro id handler found
    rw [RangeManager.loaded, find_empty] at found
    cases found

/-- The transaction does not lose the lock as long as its record is pending. -/
theorem holder (retaining : Retaining config tx request range)
    (taken : range.step config label = some next) {changes : Changes}
    (recorded : range.pendingState.pendingPrepareRecords.find tx = some changes) :
    next.lockTable.currentHolder = some tx := by
  obtain ⟨_, _, held, _⟩ := retaining.record changes recorded
  rcases retaining.excluded.holder_kept taken held with kept | ⟨id, handler, _, found, releases,
    mine⟩
  · exact kept
  · have keeps := retaining.keeps id handler found
    unfold Handler.releases at releases
    split at releases
    next => exact (keeps (List.mem_singleton.mp mine).symm).2.elim
    next => exact (keeps (List.mem_singleton.mp mine).symm).2.elim
    next => exact absurd (List.mem_singleton.mp mine).symm keeps
    next => cases recorded.symm.trans (keeps mine)
    next => cases releases

theorem put (retaining : Retaining config tx request range)
    (taken : range.step config label = some next) (excluded : Excluded none next)
    (handlers : next.handlers = range.handlers.insert id handler)
    (pendingState : next.pendingState = range.pendingState)
    (here : handler.Keeps config tx request
      (range.pendingState.pendingPrepareRecords.find tx)) :
    Retaining config tx request next := by
  refine ⟨excluded, pendingState ▸ retaining.unused, ?_, ?_⟩
  · intro changes recorded
    rw [pendingState] at recorded ⊢
    obtain ⟨same, within, _, unpublished⟩ := retaining.record changes recorded
    exact ⟨same, within, retaining.holder taken recorded, unpublished⟩
  · intro other candidate found
    rw [pendingState]
    rw [handlers] at found
    rcases eq_or_find_of_insert found with ⟨_, rfl⟩ | ⟨_, before⟩
    · exact here
    · exact retaining.keeps other candidate before

theorem quiet (retaining : Retaining config tx request range)
    (found : range.handlers.find id = some handler)
    (unreleased : range.Unreleased config tx request label) {handler' : Handler}
    (quiet : RangeManager.Quiet config range id label handler handler') :
    handler'.Keeps config tx request
      (range.pendingState.pendingPrepareRecords.find tx) := by
  have keeps := retaining.keeps id handler found
  cases quiet with
  | missTable | missRecord | missBuffer | appended | logged | recordMissing | notHolding => trivial
  | verified =>
    intro same
    obtain ⟨rfl, writes, within⟩ := keeps same
    rw [if_pos writes]
    exact ⟨rfl, writes, within⟩
  | lockLost | flushed => exact fun same => ⟨(keeps same).1, trivial⟩
  | @decided preparing candidate key decisions written fresh =>
    intro same
    obtain ⟨rfl, writes, within, refused⟩ := keeps same
    have decision := unreleased (by simp [found, Handler.decides, same])
    refine ⟨rfl, writes, within, ?_⟩
    intro other early decided
    rcases eq_or_find_of_insert decided with ⟨_, rfl⟩ | ⟨_, before⟩
    · exact decision
    · exact refused other early before
  | @chosen preparing candidate key decisions deps early decided =>
    intro same
    obtain ⟨rfl, _, _, refused⟩ := keeps same
    obtain rfl := refused key early decided
    exact ⟨rfl, trivial⟩
  | abortVerified | abortIdle | abortAppended | abortFlushed | holding => exact keeps
  | collected => split <;> trivial

theorem fails {handler' : Handler} {record : Option Changes}
    (keeps : handler.Keeps config tx request record)
    (fails : RangeManager.Fails handler handler') :
    handler'.Keeps config tx request record := by
  cases fails with
  | get | commit => trivial
  | append | flush => exact fun same => ⟨(keeps same).1, trivial⟩
  | abort => exact keeps

theorem plain_arrivePrepare (needed : request.hasWrites = true ∨ request.hasReads = false) :
    (RangeManager.arrivePrepare config request).Plain config request := by
  unfold RangeManager.arrivePrepare
  split
  next writes =>
    split
    next within => split <;> exact ⟨writes, within⟩
    next => trivial
  next idle =>
    split
    next reads =>
      rcases needed with writes | silent
      · exact absurd writes idle
      · cases silent.symm.trans reads
    next => trivial

theorem keeps_frame {record record' : Option Changes}
    (keeps : handler.Keeps config tx request record)
    (cleared : tx ∈ handler.releasers → record' = record ∨ record' = none) :
    handler.Keeps config tx request record' := by
  cases handler with
  | get | prepare | abort => exact keeps
  | commit _ _ stage =>
    cases stage with
    | inspecting | releasing =>
      intro mine
      rcases cleared mine with same | gone
      · exact same.trans (keeps mine)
      · exact gone
    | _ => trivial

/-- A prepare saves its record: when it is that of the transaction, nobody else is
at work for it; otherwise the transaction has no record. -/
theorem saved (retaining : Retaining config tx request range) {preparing : Uuid}
    {candidate : PrepareRequest} {decisions : HashMap Bytes Bool} {deps : Finset Uuid}
    (found : range.handlers.find id = some (.prepare preparing candidate (.deciding decisions)))
    (complete : decisions.keys = candidate.changes.keys) (excluded : Excluded none next)
    (lockTable : next.lockTable = range.lockTable)
    (handlers : next.handlers = range.handlers.insert id
      (.prepare preparing candidate (.appending decisions deps)))
    (records : next.pendingState.pendingPrepareRecords =
      range.pendingState.pendingPrepareRecords.insert preparing candidate.changes)
    (table : next.pendingState.pendingCommitTable =
      if config.commitStrategy = .traditional then range.pendingState.pendingCommitTable
      else RangeManager.publish range.pendingState.pendingCommitTable decisions preparing) :
    Retaining config tx request next := by
  have keeps := retaining.keeps id _ found
  obtain ⟨owner, mine, held⟩ := retaining.excluded.critical found (Handler.counts_none _) rfl
  obtain rfl := List.mem_singleton.mp mine
  refine ⟨excluded, ?_, ?_, ?_⟩
  · intro traditional key
    rw [table, if_pos traditional]
    exact retaining.unused traditional key
  · intro changes recorded
    rw [records] at recorded
    rw [lockTable, table]
    rcases eq_or_find_of_insert recorded with ⟨rfl, rfl⟩ | ⟨ne, before⟩
    · obtain ⟨rfl, _, within, refused⟩ := keeps rfl
      refine ⟨rfl, within, held, ?_⟩
      intro key written
      split
      next traditional => exact retaining.unused traditional key
      next =>
        obtain ⟨early, decided⟩ := mem_keys.mp (complete ▸ written)
        rw [find_publish, decided, refused key early decided]
    · obtain ⟨_, _, theirs, _⟩ := retaining.record changes before
      cases held.symm.trans theirs
      exact absurd rfl ne
  · intro other handler here
    rw [handlers] at here
    rw [records]
    rcases eq_or_find_of_insert here with ⟨_, rfl⟩ | ⟨ne, before⟩
    · exact keeps
    · apply keeps_frame (retaining.keeps other handler before)
      intro concerned
      by_cases same : tx = owner
      · subst same
        exact absurd
          (retaining.excluded.unique before found (Option.some_ne_none _).symm concerned mine) ne
      · exact .inl (find_insert_of_ne _ same)

theorem cleared (retaining : Retaining config tx request range)
    (taken : range.step config label = some next) {txs : List Uuid} {epoch : Nat}
    {records : List (Uuid × Changes)} (excluded : Excluded none next)
    (handlers : next.handlers = range.handlers.insert id (.commit txs epoch .inspecting))
    (pendingState : next.pendingState =
      RangeManager.clear config range.pendingState txs records) :
    Retaining config tx request next := by
  have forgets : next.pendingState.pendingPrepareRecords.find tx =
      if tx ∈ txs then none
      else range.pendingState.pendingPrepareRecords.find tx := by
    rw [pendingState, find_cleared]
  have shrinks : ∀ key, range.pendingState.pendingCommitTable.find key = none →
      next.pendingState.pendingCommitTable.find key = none := by
    intro key absent
    rw [pendingState, RangeManager.clear]
    simp only
    split
    next => exact absent
    next => rw [find_unpublish, absent]; rfl
  refine ⟨excluded, fun traditional key => shrinks key (retaining.unused traditional key), ?_, ?_⟩
  · intro changes recorded
    rw [forgets] at recorded
    split at recorded
    next => cases recorded
    next =>
      obtain ⟨same, within, _, unpublished⟩ := retaining.record changes recorded
      exact ⟨same, within, retaining.holder taken recorded,
        fun key written => shrinks key (unpublished key written)⟩
  · intro other handler here
    rw [handlers] at here
    rw [forgets]
    rcases eq_or_find_of_insert here with ⟨_, rfl⟩ | ⟨_, before⟩
    · exact fun mine => if_pos mine
    · apply keeps_frame (retaining.keeps other handler before)
      intro _
      split
      next => exact .inr rfl
      next => exact .inl rfl

theorem step (needed : request.hasWrites = true ∨ request.hasReads = false)
    (retaining : Retaining config tx request range) (alone : range.OneAtATime label)
    (unreleased : range.Unreleased config tx request label)
    (taken : range.step config label = some next) :
    Retaining config tx request next := by
  have excluded := retaining.excluded.stepAlone alone taken
  cases RangeManager.moves_of_step taken with
  | arrivedGet | read | arrivedCommit | lockedGet | wokenGet =>
    exact retaining.put taken excluded rfl rfl trivial
  | arrivedPrepare =>
    refine retaining.put taken excluded rfl rfl ?_
    intro same
    obtain rfl := unreleased same
    exact ⟨rfl, plain_arrivePrepare needed⟩
  | arrivedAbort => exact retaining.put taken excluded rfl rfl unreleased
  | quiet found quiet =>
    exact retaining.put taken excluded rfl rfl (retaining.quiet found unreleased quiet)
  | failed found fails =>
    exact retaining.put taken excluded rfl rfl
      (Retaining.fails (retaining.keeps _ _ found) fails)
  | lockedPrepare found | releasedAbort found =>
    have keeps := retaining.keeps _ _ found
    exact retaining.put taken excluded rfl rfl keeps
  | wokenPrepare found =>
    refine retaining.put taken excluded rfl rfl ?_
    intro same
    obtain ⟨rfl, writes, within⟩ := retaining.keeps _ _ found same
    refine ⟨rfl, writes, within, ?_⟩
    intro key early decided
    rw [find_empty] at decided
    cases decided
  | releasedPrepare found | softReleased found =>
    exact retaining.put taken excluded rfl rfl fun same =>
      ⟨(retaining.keeps _ _ found same).1, trivial⟩
  | saved found complete =>
    unfold RangeManager.save at excluded ⊢
    simp only at excluded ⊢
    split at excluded
    next traditional =>
      rw [if_pos traditional]
      exact retaining.saved found complete excluded rfl rfl rfl (if_pos traditional).symm
    next eager =>
      rw [if_neg eager]
      exact retaining.saved found complete excluded rfl rfl rfl (if_neg eager).symm
  | stored | deleteRefused | storeTimedOut | updatedBuffer | releasedCommit | cleaned =>
    exact retaining.put taken excluded rfl rfl trivial
  | cleared => exact retaining.cleared taken excluded rfl rfl
  | delivered =>
    refine ⟨excluded, retaining.unused, ?_, ?_⟩
    · exact retaining.record
    · intro other handler here
      exact retaining.keeps other handler (find_of_erase here).2

end Retaining

/-! ## Repetitions -/

theorem find_foldl_insert_ne_none {Entry : Type} (name : Entry → Bytes)
    (change : Entry → Option Bytes) (entries : List Entry) (changes : Changes) {key : Bytes}
    (present : changes.find key ≠ none ∨ key ∈ entries.map name) :
    (entries.foldl (fun all entry => all.insert (name entry) (change entry)) changes).find key ≠
      none := by
  induction entries generalizing changes with
  | nil =>
    rcases present with before | listed
    · exact before
    · cases listed
  | cons _ _ ih =>
    apply ih
    rw [find_insert]
    split
    next => exact .inl (Option.some_ne_none _)
    next ne =>
      rcases present with before | listed
      · exact .inl before
      · rcases List.mem_cons.mp listed with here | behind
        · exact absurd here ne
        · exact .inr behind

theorem PrepareRequest.keys_changes_ne_empty {request : PrepareRequest}
    (writes : request.hasWrites = true) : request.changes.keys ≠ ∅ := by
  have written : ∃ key, request.changes.find key ≠ none := by
    cases deleted : request.deletes with
    | cons key =>
      refine ⟨key, find_foldl_insert_ne_none id (fun _ => none) _ _ (.inr ?_)⟩
      simp [deleted]
    | nil =>
      cases puts : request.puts with
      | nil => simp [PrepareRequest.hasWrites, deleted, puts] at writes
      | cons put =>
        refine ⟨put.1, find_foldl_insert_ne_none id (fun _ => none) _ _ (.inl ?_)⟩
        apply find_foldl_insert_ne_none Prod.fst (fun put => some put.2) _ _ (.inr ?_)
        simp [puts]
  obtain ⟨key, written⟩ := written
  obtain ⟨change, found⟩ := Option.ne_none_iff_exists'.mp written
  exact Finset.ne_empty_of_mem (mem_keys.mpr ⟨change, found⟩)

/-- Where a repetition stands: the record is pending while it has not saved it
again, and it has found no dependencies. -/
def PrepareStage.Repeating (transaction : Uuid) (request : PrepareRequest) (range : RangeManager)
    (id : Nat) : PrepareStage → Prop
  | .verifying | .locking => range.pendingState.pendingPrepareRecords.find transaction ≠ none
  | .waiting => range.pendingState.pendingPrepareRecords.find transaction ≠ none ∧
      id ∈ range.lockTable.signalled
  | .deciding decisions => range.pendingState.pendingPrepareRecords.find transaction ≠ none ∧
      decisions.keys ⊆ request.changes.keys
  | .appending decisions dependencies =>
    decisions.keys = request.changes.keys ∧ dependencies = ∅
  | .flushing dependencies early => dependencies = ∅ ∧ early = false
  | .returned result => result = .ok ⟨∅, false⟩
  | .releasing | .softReleasing _ => False

def Handler.Repeats (transaction : Uuid) (request : PrepareRequest) (range : RangeManager)
    (id : Nat) : Handler → Prop
  | .prepare preparing candidate stage =>
    preparing = transaction ∧ candidate = request ∧ stage.Repeating transaction request range id
  | _ => False

namespace Retaining

variable {config : Configuration} {tx : Uuid} {request : PrepareRequest}
  {range next : RangeManager} {id : Nat} {stage : PrepareStage}

/-- The record is saved again: it and the table stay as they are. -/
theorem save (retaining : Retaining config tx request range)
    {decisions : HashMap Bytes Bool}
    (found : range.handlers.find id = some (.prepare tx request (.deciding decisions)))
    (recorded : range.pendingState.pendingPrepareRecords.find tx ≠ none)
    (complete : decisions.keys = request.changes.keys) :
    RangeManager.Absorbs id range (range.save config id tx request decisions) ∧
      ∀ handler, (range.save config id tx request decisions).handlers.find id =
        some handler → handler.Repeats tx request
          (range.save config id tx request decisions) id := by
  obtain ⟨_, _, _, refused⟩ := retaining.keeps id _ found rfl
  obtain ⟨changes, recorded⟩ := Option.ne_none_iff_exists'.mp recorded
  obtain ⟨rfl, _, _, unpublished⟩ := retaining.record changes recorded
  have records : range.pendingState.pendingPrepareRecords.insert tx request.changes =
      range.pendingState.pendingPrepareRecords := by
    apply ext
    intro other
    rw [find_insert]
    split
    next here => rw [here, recorded]
    next => rfl
  have table : RangeManager.publish range.pendingState.pendingCommitTable decisions tx =
      range.pendingState.pendingCommitTable := by
    apply ext
    intro key
    rw [find_publish]
    cases decided : decisions.find key with
    | none => rfl
    | some early =>
      have written : key ∈ request.changes.keys :=
        complete ▸ mem_keys.mpr ⟨early, decided⟩
      rw [refused key early decided, unpublished key written]
  have independent : RangeManager.collect range.pendingState.pendingCommitTable decisions = ∅ := by
    rw [Finset.eq_empty_iff_forall_notMem]
    intro dep collected
    obtain ⟨key, written, published⟩ := mem_collect.mp collected
    cases published.symm.trans (unpublished key (complete ▸ written))
  rw [RangeManager.save]
  simp only [records, table, independent]
  split <;>
    exact RangeManager.absorbs_of_put rfl (.refl _ _) rfl rfl rfl ⟨rfl, rfl, complete, rfl⟩

theorem runPrepare (retaining : Retaining config tx request range)
    (found : range.handlers.find id = some (.prepare tx request stage))
    (repeating : stage.Repeating tx request range id)
    (ran : range.runPrepare config id tx request stage = some next) :
    RangeManager.Absorbs id range next ∧ ∀ handler, next.handlers.find id = some handler →
      handler.Repeats tx request next id := by
  obtain ⟨_, plain⟩ := retaining.keeps id _ found rfl
  cases stage with
  | verifying =>
    obtain ⟨changes, recorded⟩ := Option.ne_none_iff_exists'.mp repeating
    obtain ⟨_, _, held, _⟩ := retaining.record changes recorded
    have holds : range.lockTable.isCurrentlyHolding [tx] = true := by
      simp [LockTable.isCurrentlyHolding, held]
    simp only [RangeManager.runPrepare, holds, plain.1, if_true, Option.some.injEq] at ran
    subst ran
    exact RangeManager.absorbs_of_put rfl (.refl _ _) rfl rfl rfl ⟨rfl, rfl, repeating⟩
  | locking =>
    obtain ⟨changes, recorded⟩ := Option.ne_none_iff_exists'.mp repeating
    obtain ⟨_, _, held, _⟩ := retaining.record changes recorded
    have granted : range.lockTable.acquire tx id =
        { range.lockTable with signalled := insert id range.lockTable.signalled } := by
      simp only [LockTable.acquire, held, if_true]
    simp only [RangeManager.runPrepare, granted, Option.some.injEq] at ran
    subst ran
    refine RangeManager.absorbs_of_put rfl ⟨rfl, rfl, rfl, rfl, ?_⟩ rfl rfl rfl
      ⟨rfl, rfl, repeating, Finset.mem_insert_self id _⟩
    intro sender outside
    exact Finset.mem_insert.trans
      (or_iff_right fun here => outside (Finset.mem_singleton.mpr here))
  | waiting =>
    simp only [RangeManager.runPrepare, if_pos repeating.2, Option.some.injEq] at ran
    subst ran
    refine RangeManager.absorbs_of_put rfl ⟨rfl, rfl, rfl, rfl, ?_⟩ rfl rfl rfl
      ⟨rfl, rfl, repeating.1, Finset.empty_subset _⟩
    intro sender outside
    exact Finset.mem_erase.trans
      (and_iff_right fun here => outside (Finset.mem_singleton.mpr here))
  | deciding =>
    simp only [RangeManager.runPrepare] at ran
    split at ran
    next complete =>
      cases ran
      exact retaining.save found repeating.1 complete
    next => cases ran
  | appending | returned => cases ran
  | flushing =>
    cases ran
    obtain ⟨rfl, rfl⟩ := repeating
    exact RangeManager.absorbs_of_put rfl (.refl _ _) rfl rfl rfl ⟨rfl, rfl, rfl⟩
  | releasing | softReleasing => cases repeating

theorem runPrepareOn (retaining : Retaining config tx request range) {key : Bytes}
    (found : range.handlers.find id = some (.prepare tx request stage))
    (repeating : stage.Repeating tx request range id)
    (ran : range.runPrepareOn config id tx request key stage = some next) :
    RangeManager.Absorbs id range next ∧ ∀ handler, next.handlers.find id = some handler →
      handler.Repeats tx request next id := by
  obtain ⟨_, plain⟩ := retaining.keeps id _ found rfl
  cases stage with
  | deciding =>
    simp only [RangeManager.runPrepareOn] at ran
    split at ran
    next undecided =>
      cases ran
      refine RangeManager.absorbs_of_put rfl (.refl _ _) rfl rfl rfl
        ⟨rfl, rfl, repeating.1, ?_⟩
      intro other member
      obtain ⟨early, decided⟩ := mem_keys.mp member
      rcases eq_or_find_of_insert decided with ⟨rfl, _⟩ | ⟨_, before⟩
      · exact Finmap.mem_keys.mpr undecided.1
      · exact repeating.2 (mem_keys.mpr ⟨early, before⟩)
    next => cases ran
  | appending =>
    simp only [RangeManager.runPrepareOn] at ran
    split at ran
    next early decided =>
      obtain rfl := plain.2.2 key early decided
      cases ran
      exact RangeManager.absorbs_of_put rfl (.refl _ _) rfl rfl rfl
        ⟨rfl, rfl, repeating.2, rfl⟩
    next => cases ran
  | _ => cases ran

theorem exists_step (retaining : Retaining config tx request range)
    (found : range.handlers.find id = some (.prepare tx request stage))
    (repeating : stage.Repeating tx request range id) :
    stage = .returned (.ok ⟨∅, false⟩) ∨
      ∃ label next, label.handler = id ∧ range.step config label = some next := by
  have runs (ran : (range.runPrepare config id tx request stage).isSome = true) :
      ∃ label next, label.handler = id ∧ range.step config label = some next := by
    obtain ⟨next, ran⟩ := Option.isSome_iff_exists.mp ran
    refine ⟨.run id, next, rfl, ?_⟩
    rw [RangeManager.step, found]
    exact ran
  have runsOn (key : Bytes)
      (ran : (range.runPrepareOn config id tx request key stage).isSome = true) :
      ∃ label next, label.handler = id ∧ range.step config label = some next := by
    obtain ⟨next, ran⟩ := Option.isSome_iff_exists.mp ran
    refine ⟨.runOn id key, next, rfl, ?_⟩
    rw [RangeManager.step, found]
    exact ran
  obtain ⟨_, plain⟩ := retaining.keeps id _ found rfl
  cases stage with
  | returned => exact .inl (congrArg _ repeating)
  | waiting => exact .inr (runs (by simp [RangeManager.runPrepare, repeating.2]))
  | deciding decisions =>
    right
    by_cases complete : decisions.keys = request.changes.keys
    · exact runs (by simp [RangeManager.runPrepare, complete])
    · obtain ⟨key, written, left⟩ := Finset.not_subset.mp fun all =>
        complete (Finset.Subset.antisymm repeating.2 all)
      have undecided : key ∈ request.changes ∧ key ∉ decisions :=
        ⟨Finmap.mem_keys.mp written, fun member => left (Finmap.mem_keys.mpr member)⟩
      exact runsOn key (by simp [RangeManager.runPrepareOn, undecided])
  | appending =>
    right
    obtain ⟨key, written⟩ := Finset.nonempty_iff_ne_empty.mpr
      (PrepareRequest.keys_changes_ne_empty plain.1)
    obtain ⟨early, decided⟩ := mem_keys.mp (repeating.1.symm ▸ written)
    exact runsOn key (by simp [RangeManager.runPrepareOn, decided])
  | verifying | locking | flushing => exact .inr (runs rfl)
  | releasing | softReleasing => cases repeating

theorem record_kept {label : Label} (retaining : Retaining config tx request range)
    (found : range.handlers.find id = some (.prepare tx request stage))
    (running : tx ∈ (Handler.prepare tx request stage).releasers)
    (recorded : range.pendingState.pendingPrepareRecords.find tx ≠ none)
    (moves : RangeManager.Moves config range label next) (ne : id ≠ label.handler) :
    next.pendingState.pendingPrepareRecords.find tx ≠ none := by
  cases moves with
  | @saved other preparing candidate decisions present complete =>
    have saved : (range.save config other preparing candidate
        decisions).pendingState.pendingPrepareRecords =
          range.pendingState.pendingPrepareRecords.insert preparing candidate.changes := by
      rw [RangeManager.save]
      split <;> rfl
    rw [saved, find_insert]
    split
    next => exact Option.some_ne_none _
    next => exact recorded
  | @cleared other txs epoch records remaining present done =>
    change (RangeManager.clear ..).pendingPrepareRecords.find tx ≠ none
    rw [find_cleared]
    split
    next mine =>
      exact absurd
        (retaining.excluded.unique found present (Option.some_ne_none _).symm running mine) ne
    next => exact recorded
  | _ => exact recorded

end Retaining

namespace RangeManager

theorem Moves.signalled_of_ne {config : Configuration} {range next : RangeManager} {label : Label}
    (moves : Moves config range label next) {id : Nat} (ne : id ≠ label.handler)
    (signalled : id ∈ range.lockTable.signalled) : id ∈ next.lockTable.signalled := by
  have released (mark : Option Bool) : id ∈ (range.lockTable.release mark).signalled := by
    have woken := Finset.mem_union_left
      (range.lockTable.waitingForRelease.map LockRequest.sender).toFinset signalled
    unfold LockTable.release
    simp only
    split
    next => exact woken
    next => exact Finset.mem_insert_of_mem woken
  have acquired (tx : Uuid) (sender : Nat) :
      id ∈ (range.lockTable.acquire tx sender).signalled := by
    unfold LockTable.acquire
    split
    next => exact Finset.mem_insert_of_mem signalled
    next =>
      split
      next => exact Finset.mem_insert_of_mem signalled
      next => exact signalled
  cases moves with
  | lockedGet | lockedPrepare => exact acquired _ _
  | wokenGet | wokenPrepare => exact Finset.mem_erase.mpr ⟨ne, signalled⟩
  | releasedPrepare | releasedAbort | releasedCommit => exact released none
  | softReleased => exact released (some true)
  | saved =>
    rw [save]
    split <;> exact signalled
  | _ => exact signalled

/-- The repetitions repeat prepare requests of the transaction, while its record is
pending, and no call fails for them. -/
def Retransmits (transaction : Uuid) (repetitions : Finset Nat) (range : RangeManager) :
    Label → Prop
  | .prepare id preparing request => id ∈ repetitions → preparing = transaction ∧
      (request.hasWrites = true →
        range.pendingState.pendingPrepareRecords.find transaction ≠ none)
  | .get id .. | .abort id .. | .commit id .. | .fail id .. => id ∉ repetitions
  | .run _ | .runOn .. | .deliver _ => True

def Resending (config : Configuration) (transaction : Uuid) (request : PrepareRequest)
    (repetitions : Finset Nat) (range : RangeManager) (label : Label) : Prop :=
  range.OneAtATime label ∧ range.Unreleased config transaction request label ∧
    range.Retransmits transaction repetitions label

instance (config : Configuration) (transaction : Uuid) (request : PrepareRequest)
    (range : RangeManager) (label : Label) :
    Decidable (range.Unreleased config transaction request label) :=
  match label with
  | .prepare .. => inferInstanceAs (Decidable (_ = _ → _ = _))
  | .abort .. => inferInstanceAs (Decidable (_ ≠ _))
  | .runOn .. => inferInstanceAs (Decidable (_ = true → _ = false))
  | .get .. | .commit .. | .run _ | .fail .. | .deliver _ => isTrue trivial

instance (transaction : Uuid) (repetitions : Finset Nat) (range : RangeManager) (label : Label) :
    Decidable (range.Retransmits transaction repetitions label) :=
  match label with
  | .prepare .. => inferInstanceAs (Decidable (_ → _ ∧ (_ → _ ≠ none)))
  | .get .. | .abort .. | .commit .. | .fail .. => inferInstanceAs (Decidable (_ ∉ _))
  | .run _ | .runOn .. | .deliver _ => isTrue trivial

instance (config : Configuration) (transaction : Uuid) (request : PrepareRequest)
    (repetitions : Finset Nat) (range : RangeManager) (label : Label) :
    Decidable (Resending config transaction request repetitions range label) :=
  inferInstanceAs (Decidable (_ ∧ _ ∧ _))

end RangeManager

/-- The repetitions are on their way, and the range is what it is without them. -/
structure Resent (config : Configuration) (transaction : Uuid) (request : PrepareRequest)
    (repetitions : Finset Nat) (range without : RangeManager) : Prop where
  retaining : Retaining config transaction request range
  same : RangeManager.Same repetitions range without
  repeats : ∀ id ∈ repetitions, ∀ handler, range.handlers.find id = some handler →
    handler.Repeats transaction request range id

namespace Resent

variable {config : Configuration} {tx : Uuid} {request : PrepareRequest}
  {repetitions : Finset Nat} {range next without : RangeManager} {label : Label}

theorem loaded (storage : Records) :
    Resent config tx request repetitions (.loaded storage) (.loaded storage) := by
  refine ⟨.loaded storage, ⟨.refl _ _, rfl, rfl, rfl, fun _ _ => rfl⟩, ?_⟩
  intro id _ handler found
  rw [RangeManager.loaded, find_empty] at found
  cases found

theorem repeating_arrivePrepare (needed : request.hasWrites = true ∨ request.hasReads = false)
    (retaining : Retaining config tx request range)
    (pending : request.hasWrites = true →
      range.pendingState.pendingPrepareRecords.find tx ≠ none)
    (same : next.pendingState = range.pendingState) (id : Nat) :
    (RangeManager.arrivePrepare config request).Repeating tx request next id := by
  unfold RangeManager.arrivePrepare
  split
  next writes =>
    have recorded := pending writes
    obtain ⟨changes, found⟩ := Option.ne_none_iff_exists'.mp recorded
    rw [if_pos (retaining.record changes found).2.1]
    rw [← same] at recorded
    split <;> exact recorded
  next idle =>
    split
    next reads =>
      rcases needed with writes | silent
      · exact absurd writes idle
      · cases silent.symm.trans reads
    next => rfl

theorem absorbs (needed : request.hasWrites = true ∨ request.hasReads = false)
    (resent : Resent config tx request repetitions range without)
    (member : label.handler ∈ repetitions)
    (resending : RangeManager.Resending config tx request repetitions range label)
    (taken : range.step config label = some next) :
    RangeManager.Absorbs label.handler range next ∧
      ∀ handler, next.handlers.find label.handler = some handler →
        handler.Repeats tx request next label.handler := by
  obtain ⟨_, unreleased, retransmits⟩ := resending
  cases label with
  | get | abort | commit | fail => exact absurd member retransmits
  | prepare id =>
    obtain ⟨rfl, pending⟩ := retransmits member
    obtain rfl := unreleased rfl
    simp only [RangeManager.step, RangeManager.arrive] at taken
    split at taken
    next =>
      cases taken
      exact RangeManager.absorbs_of_put rfl (.refl _ _) rfl rfl rfl
        ⟨rfl, rfl, repeating_arrivePrepare needed resent.retaining pending rfl id⟩
    next => cases taken
  | run id =>
    obtain ⟨handler, found, ran⟩ := Option.bind_eq_some_iff.mp taken
    have repeats := resent.repeats id member handler found
    cases handler with
    | prepare =>
      obtain ⟨rfl, rfl, repeating⟩ := repeats
      exact resent.retaining.runPrepare found repeating ran
    | _ => cases repeats
  | runOn id =>
    obtain ⟨handler, found, ran⟩ := Option.bind_eq_some_iff.mp taken
    have repeats := resent.repeats id member handler found
    cases handler with
    | prepare =>
      obtain ⟨rfl, rfl, repeating⟩ := repeats
      exact resent.retaining.runPrepareOn found repeating ran
    | _ => cases repeats
  | deliver =>
    simp only [RangeManager.step] at taken
    split at taken
    next => cases taken
    next =>
      split at taken
      next =>
        cases taken
        refine ⟨⟨.refl _ _, rfl, rfl, rfl, ?_⟩, ?_⟩
        · exact fun other ne => find_erase_of_ne ne
        · intro left here
          exact absurd rfl (find_of_erase here).1
      next => cases taken

theorem elsewhere (resent : Resent config tx request repetitions range without)
    (taken : range.step config label = some next) {id : Nat} (member : id ∈ repetitions)
    (ne : id ≠ label.handler) {handler : Handler}
    (found : next.handlers.find id = some handler) :
    handler.Repeats tx request next id := by
  have moves := RangeManager.moves_of_step taken
  rw [moves.handlers_of_ne ne] at found
  have repeats := resent.repeats id member handler found
  cases handler with
  | prepare _ _ stage =>
    obtain ⟨rfl, rfl, repeating⟩ := repeats
    have kept := fun running recorded =>
      resent.retaining.record_kept found running recorded moves ne
    refine ⟨rfl, rfl, ?_⟩
    cases stage with
    | verifying | locking => exact kept List.mem_cons_self repeating
    | waiting =>
      exact ⟨kept List.mem_cons_self repeating.1, moves.signalled_of_ne ne repeating.2⟩
    | deciding => exact ⟨kept List.mem_cons_self repeating.1, repeating.2⟩
    | _ => exact repeating
  | _ => cases repeats

theorem repeated (needed : request.hasWrites = true ∨ request.hasReads = false)
    (resent : Resent config tx request repetitions range without)
    (member : label.handler ∈ repetitions)
    (resending : RangeManager.Resending config tx request repetitions range label)
    (taken : range.step config label = some next) :
    Resent config tx request repetitions next without := by
  obtain ⟨absorbs, repeats⟩ := resent.absorbs needed member resending taken
  refine ⟨resent.retaining.step needed resending.1 resending.2.1 taken,
    resent.same.absorbed member absorbs, ?_⟩
  intro id inside handler found
  by_cases here : id = label.handler
  · subst here
    exact repeats handler found
  · exact resent.elsewhere taken inside here found

theorem matched (needed : request.hasWrites = true ∨ request.hasReads = false)
    (resent : Resent config tx request repetitions range without)
    (outside : label.handler ∉ repetitions)
    (resending : RangeManager.Resending config tx request repetitions range label)
    (taken : range.step config label = some next) :
    ∃ without', without.step config label = some without' ∧
      Resent config tx request repetitions next without' := by
  obtain ⟨without', matched, same⟩ := resent.same.step outside taken
  refine ⟨without', matched, resent.retaining.step needed resending.1 resending.2.1 taken, same, ?_⟩
  intro id inside handler found
  exact resent.elsewhere taken inside (fun here => outside (here ▸ inside)) found

end Resent

namespace RangeManager

/-- Repetitions of a prepare whose transaction keeps the lock succeed without
dependencies, are never blocked, and leave the range as it is after the same run
without them. -/
theorem prepare_retransmission_absorbed {config : Configuration} {transaction : Uuid}
    {request : PrepareRequest} (needed : request.hasWrites = true ∨ request.hasReads = false)
    {repetitions : Finset Nat} {storage : Records} {schedule : List Label} {range : RangeManager}
    (ran : runWhere (step config) (Resending config transaction request repetitions)
      (.loaded storage) schedule = some range) :
    (∀ id ∈ repetitions, ∀ handler, range.handlers.find id = some handler →
      ∃ stage, handler = .prepare transaction request stage ∧
        (stage = .returned (.ok ⟨∅, false⟩) ∨ (∀ result, stage ≠ .returned result) ∧
          ∃ label next, label.handler = id ∧ step config range label = some next)) ∧
    ∃ without, runWhere (step config) (fun _ _ => True) (.loaded storage)
        (schedule.filter fun label => label.handler ∉ repetitions) = some without ∧
      Same repetitions range without := by
  obtain ⟨without, ran', resent⟩ : ∃ without,
      runWhere (step config) (fun _ _ => True) (.loaded storage)
        (schedule.filter fun label => label.handler ∉ repetitions) = some without ∧
      Resent config transaction request repetitions range without := by
    refine exists_run_filter ?_ ?_ schedule (.loaded storage) ran
    · intro range next label without resent resending taken dropped
      exact resent.repeated needed (by simpa using dropped) resending taken
    · intro range next label without resent resending taken kept
      obtain ⟨without', matched, still⟩ :=
        resent.matched needed (of_decide_eq_true kept) resending taken
      exact ⟨without', trivial, matched, still⟩
  refine ⟨?_, without, ran', resent.same⟩
  intro id member handler found
  have repeats := resent.repeats id member handler found
  cases handler with
  | prepare _ _ stage =>
    obtain ⟨rfl, rfl, repeating⟩ := repeats
    refine ⟨stage, rfl, ?_⟩
    rcases resent.retaining.exists_step found repeating with returned | moves
    · exact .inl returned
    · cases stage with
      | returned => exact .inl (congrArg _ repeating)
      | _ => exact .inr ⟨nofun, moves⟩
  | _ => cases repeats

def putSchedule (id : Nat) (transaction : Uuid) (value : Bytes) : List Label :=
  [.prepare id transaction ⟨false, [([1], value)], [], none, 0⟩, .run id, .run id, .runOn id [1],
    .run id, .runOn id [1], .run id]

def collectSchedule (id : Nat) (transaction : Uuid) : List Label :=
  [.commit id [transaction] 0, .run id, .run id, .run id]

def applySchedule (id : Nat) : List Label :=
  [.run id, .runOn id [1], .run id, .run id, .run id, .run id]

def committedUnder (range : RangeManager) (id : Nat) : Bool :=
  match range.handlers.find id with
  | some (.commit _ _ (.returned (.ok _))) => true
  | _ => false

def preparedUnder (range : RangeManager) (id : Nat) : Option (Finset Uuid) :=
  match range.handlers.find id with
  | some (.prepare _ _ (.returned (.ok result))) => some result.dependencies
  | _ => none

/-- Handler `id` prepares a put of the key `[1]`, with an early release. -/
def earlyPutSchedule (id : Nat) (transaction : Uuid) (value : Bytes) : List Label :=
  putSchedule id transaction value ++ [.run id]

/-- Transaction 1 is prepared and prepared again at once; then transaction 2 is
prepared on the same key, and the first request comes for the third time. -/
def resentSchedule : List Label :=
  earlyPutSchedule 0 1 [7] ++ earlyPutSchedule 1 1 [7] ++ earlyPutSchedule 2 2 [8] ++
    earlyPutSchedule 3 1 [7]

theorem prepare_retransmission_depends_on_itself : ∃ (config : Configuration) (storage : Records)
    (schedule : List Label) (range without : RangeManager),
    runWhere (step config) (fun _ _ => True) (.loaded storage) schedule = some range ∧
      runWhere (step config) (fun _ _ => True) (.loaded storage)
        (schedule.filter fun label => label.handler ∉ ({1, 3} : Finset Nat)) = some without ∧
      range.preparedUnder 0 = some ∅ ∧ range.preparedUnder 1 = some {1} ∧
      range.preparedUnder 2 = some {1} ∧ range.preparedUnder 3 = some {2} ∧
      range.pendingState.pendingCommitTable.find [1] = some 1 ∧
      without.pendingState.pendingCommitTable.find [1] = some 2 := by
  obtain ⟨range, ran, passed⟩ := Option.map_eq_some_iff.mp (show
    (runWhere (step ⟨.pipelined, .openClients, .all, 0⟩) (fun _ _ => True)
      (.loaded fun _ => none) resentSchedule).map (fun range =>
        decide (range.preparedUnder 0 = some ∅ ∧ range.preparedUnder 1 = some {1} ∧
          range.preparedUnder 2 = some {1} ∧ range.preparedUnder 3 = some {2} ∧
          range.pendingState.pendingCommitTable.find [1] = some 1)) = some true
      by decide +kernel)
  obtain ⟨without, ran', passed'⟩ := Option.map_eq_some_iff.mp (show
    (runWhere (step ⟨.pipelined, .openClients, .all, 0⟩) (fun _ _ => True)
      (.loaded fun _ => none)
      (resentSchedule.filter fun label => label.handler ∉ ({1, 3} : Finset Nat))).map
        (fun range => decide (range.pendingState.pendingCommitTable.find [1] = some 2)) = some true
      by decide +kernel)
  obtain ⟨first, second, later, third, replaced⟩ := of_decide_eq_true passed
  exact ⟨_, _, _, range, without, ran, ran', first, second, later, third, replaced,
    of_decide_eq_true passed'⟩

/-- Transaction 1 is prepared twice under a strategy that keeps the lock, and then
committed. -/
def keptSchedule : List Label :=
  putSchedule 0 1 [7] ++ putSchedule 1 1 [7] ++ collectSchedule 2 1 ++ applySchedule 2

theorem prepare_retransmission_absorbed_kept : ∃ range without : RangeManager,
    range.preparedUnder 1 = some ∅ ∧ range.committedUnder 2 = true ∧
      range.lockTable.currentHolder = none ∧
      runWhere (step ⟨.traditional, .openClients, .all, 0⟩) (fun _ _ => True)
        (.loaded fun _ => none)
        (keptSchedule.filter fun label => label.handler ∉ ({1} : Finset Nat)) = some without ∧
      Same {1} range without := by
  obtain ⟨range, ran, passed⟩ := Option.map_eq_some_iff.mp (show
    (runWhere (step ⟨.traditional, .openClients, .all, 0⟩)
      (Resending ⟨.traditional, .openClients, .all, 0⟩ 1 ⟨false, [([1], [7])], [], none, 0⟩ {1})
      (.loaded fun _ => none) keptSchedule).map (fun range =>
        decide (range.preparedUnder 1 = some ∅ ∧ range.committedUnder 2 = true ∧
          range.lockTable.currentHolder = none)) = some true by decide +kernel)
  obtain ⟨prepared, committed, released⟩ := of_decide_eq_true passed
  obtain ⟨without, ran', same⟩ := (prepare_retransmission_absorbed (.inl rfl) ran).2
  exact ⟨range, without, prepared, committed, released, ran', same⟩

end RangeManager

end Sangria.RangeServer
