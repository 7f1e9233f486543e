import Sangria.RangeServer.RangeManager.Ownership
import Sangria.RangeServer.RangeManager.PendingState

/-!
# Who takes, uses and gives up the lock

In an orderly run the data of a range is touched by the holder of the lock
only.  A transaction becomes the holder on account of a handler that asks for
the lock, and stops being the holder on account of one that releases it.
`Goes` is what a section does to its handler, without the state of the range.
-/

namespace Sangria.RangeServer

open FiniteMap

variable {handler handler' : Handler} {config : Configuration} {id : Nat} {service : Service}
  {transaction : Uuid}

def Label.isLocal : Label → Bool
  | .run _ | .runOn .. | .fail .. => true
  | .get .. | .prepare .. | .abort .. | .commit .. | .deliver _ => false

def Handler.relinquishes (transaction : Uuid) : Handler → Bool
  | .prepare owner _ .releasing | .prepare owner _ (.softReleasing _) =>
    decide (owner = transaction)
  | .commit transactions _ .releasing => decide (transaction ∈ transactions)
  | _ => false

inductive Handler.Goes (config : Configuration) : Handler → Handler → Prop where
  | get {transaction key stage stage'} :
      Goes config (.get transaction key stage) (.get transaction key stage')
  | verify {transaction request} :
      Goes config (.prepare transaction request .verifying)
        (.prepare transaction request (if request.hasWrites then .locking else .releasing))
  | give {transaction request stage failure} :
      Goes config (.prepare transaction request stage)
        (.prepare transaction request (.returned (.error failure)))
  | release {transaction request} :
      Goes config (.prepare transaction request .releasing)
        (.prepare transaction request (.returned (.ok ⟨∅, false⟩)))
  | lock {transaction request} :
      Goes config (.prepare transaction request .locking) (.prepare transaction request .waiting)
  | wake {transaction request} :
      Goes config (.prepare transaction request .waiting)
        (.prepare transaction request (.deciding ∅))
  | decide {transaction request decisions key early} :
      (config.commitStrategy = .traditional → early = false) →
      Goes config (.prepare transaction request (.deciding decisions))
        (.prepare transaction request (.deciding (decisions.insert key early)))
  | save {transaction request decisions dependencies} :
      Goes config (.prepare transaction request (.deciding decisions))
        (.prepare transaction request (.appending decisions dependencies))
  | choose {transaction request decisions dependencies key early} :
      decisions.find key = some early →
      Goes config (.prepare transaction request (.appending decisions dependencies))
        (.prepare transaction request
          (if early then .softReleasing dependencies else .flushing dependencies false))
  | soften {transaction request dependencies} :
      Goes config (.prepare transaction request (.softReleasing dependencies))
        (.prepare transaction request (.flushing dependencies true))
  | flush {transaction request dependencies early} :
      Goes config (.prepare transaction request (.flushing dependencies early))
        (.prepare transaction request (.returned (.ok ⟨dependencies, early⟩)))
  | abort {transaction stage stage'} :
      Goes config (.abort transaction stage) (.abort transaction stage')
  | commit {transactions epoch stage stage'} :
      (∀ records, stage' = .storing records → ∀ entry ∈ records, entry.1 ∈ transactions) →
      Goes config (.commit transactions epoch stage) (.commit transactions epoch stage')

section Turns

variable {config : Configuration} {range next : RangeManager} {label : Label}

theorem RangeManager.Quiet.goes {id : Nat} {handler handler' : Handler}
    (quiet : RangeManager.Quiet config range id label handler handler') :
    handler.Goes config handler' := by
  cases quiet with
  | missTable | missRecord | missBuffer => exact .get
  | verified => exact .verify
  | lockLost => exact .give
  | decided =>
    apply Handler.Goes.decide
    intro traditional
    rw [RangeManager.doEarlyLockRelease, traditional]
  | chosen found => exact .choose found
  | flushed => exact .flush
  | abortVerified | abortIdle | abortAppended | abortFlushed => exact .abort
  | collected collected =>
    apply Handler.Goes.commit
    intro records storing
    split at storing
    next => cases storing
    next =>
      cases storing
      exact mem_of_collectRecords collected
  | appended | logged | recordMissing | holding | notHolding =>
    apply Handler.Goes.commit
    intro records storing
    cases storing

theorem RangeManager.Fails.goes {handler handler' : Handler}
    (fails : RangeManager.Fails handler handler') : handler.Goes config handler' := by
  cases fails with
  | get => exact .get
  | append | flush => exact .give
  | abort => exact .abort
  | commit =>
    apply Handler.Goes.commit
    intro records storing
    cases storing

theorem RangeManager.Moves.goes (moves : RangeManager.Moves config range label next)
    (isLocal : label.isLocal = true) :
    ∃ id handler handler', range.handlers.find id = some handler ∧
      handler.Goes config handler' ∧ next.handlers = range.handlers.insert id handler' := by
  cases moves with
  | arrivedGet | arrivedPrepare | arrivedAbort | arrivedCommit | delivered => cases isLocal
  | quiet found quiet => exact ⟨_, _, _, found, quiet.goes, rfl⟩
  | failed found fails => exact ⟨_, _, _, found, fails.goes, rfl⟩
  | lockedGet found | wokenGet found | read found => exact ⟨_, _, _, found, .get, rfl⟩
  | lockedPrepare found => exact ⟨_, _, _, found, .lock, rfl⟩
  | wokenPrepare found => exact ⟨_, _, _, found, .wake, rfl⟩
  | releasedPrepare found => exact ⟨_, _, _, found, .release, rfl⟩
  | saved found =>
    unfold RangeManager.save
    simp only
    split <;> exact ⟨_, _, _, found, .save, rfl⟩
  | softReleased found => exact ⟨_, _, _, found, .soften, rfl⟩
  | releasedAbort found => exact ⟨_, _, _, found, .abort, rfl⟩
  | stored found | deleteRefused found | storeTimedOut found | updatedBuffer found | cleared found
  | releasedCommit found | cleaned found =>
    refine ⟨_, _, _, found, .commit ?_, rfl⟩
    intro records storing
    cases storing

end Turns

theorem Handler.Goes.concerns (goes : handler.Goes config handler') (owner : Uuid) :
    handler'.concerns owner = handler.concerns owner := by
  cases goes <;> rfl

def GetStage.dependencies : GetStage → Finset Uuid
  | .returned (.ok result) => result.dependencies.toFinset
  | _ => ∅

def PrepareStage.dependencies : PrepareStage → Finset Uuid
  | .appending _ dependencies | .softReleasing dependencies | .flushing dependencies _ =>
    dependencies
  | .returned (.ok result) => result.dependencies
  | _ => ∅

def Handler.dependencies : Handler → Finset Uuid
  | .get _ _ stage => stage.dependencies
  | .prepare _ _ stage => stage.dependencies
  | .abort .. | .commit .. => ∅

theorem Handler.Placed.handler_of_concerns {sessions : Uuid → Session}
    (placed : handler.Placed sessions id) {owner : Uuid}
    (concerned : handler.concerns owner = true) :
    (sessions owner).stage.handler = some id := by
  cases handler with
  | get transaction =>
    obtain rfl : transaction = owner := of_decide_eq_true concerned
    rw [show (sessions transaction).stage = .getting id from placed]
    rfl
  | prepare transaction =>
    obtain rfl : transaction = owner := of_decide_eq_true concerned
    rw [placed.1]
    rfl
  | abort => cases placed
  | commit =>
    obtain ⟨early, here⟩ := placed.2 owner (of_decide_eq_true concerned)
    rw [here]
    rfl

/-! ## What a handler knows of its request -/

/-- A prepare that verifies the lock or only releases it has read before. -/
def Handler.Sound : Handler → Prop
  | .prepare _ request .verifying | .prepare _ request .releasing => request.hasReads = true
  | .commit transactions _ (.storing records) => ∀ entry ∈ records, entry.1 ∈ transactions
  | _ => True

theorem Handler.Sound.goes
    (sound : handler.Sound) (goes : handler.Goes config handler') : handler'.Sound := by
  cases goes with
  | verify =>
    split
    next => trivial
    next => exact sound
  | choose => split <;> trivial
  | @commit txs epoch stage stage' records =>
    cases stage' with
    | storing => exact records _ rfl
    | _ => trivial
  | _ => trivial

theorem Handler.Sound.arrivePrepare (config : Configuration) (transaction : Uuid)
    (req : PrepareRequest) :
    (Handler.prepare transaction req (RangeManager.arrivePrepare config req)).Sound := by
  unfold RangeManager.arrivePrepare
  split
  next =>
    split
    next =>
      split
      next reads => exact reads
      next => trivial
    next => trivial
  next =>
    split
    next reads => exact reads
    next => trivial

/-! ## The holder -/

section Holder

variable {config : Configuration} {service : Service} {next : RangeManager} {label : Label}
  {transaction : Uuid}

theorem Owned.gained (owned : Owned service)
    (moves : RangeManager.Moves config service.manager label next)
    (unheld : service.manager.lockTable.currentHolder ≠ some transaction)
    (held : next.lockTable.currentHolder = some transaction) :
    ∃ id handler, service.manager.handlers.find id = some handler ∧
      handler.seeks transaction = true := by
  by_contra nobody
  push Not at nobody
  have unsought : service.manager.Unsought transaction := by
    intro id handler found
    exact Bool.eq_false_iff.mpr (nobody id handler found)
  exact unheld (unsought.holder owned.lined moves held)

theorem Owned.lost (owned : Owned service)
    (moves : RangeManager.Moves config service.manager label next)
    (held : service.manager.lockTable.currentHolder = some transaction)
    (unheld : next.lockTable.currentHolder ≠ some transaction) :
    ∃ id handler, service.manager.handlers.find id = some handler ∧
      handler.relinquishes transaction = true := by
  have acquired {other : Uuid} {id : Nat}
      (gone : (service.manager.lockTable.acquire other id).currentHolder ≠ some transaction) :
      False := by
    rw [LockTable.currentHolder_acquire, held] at gone
    exact gone rfl
  cases moves with
  | lockedGet | lockedPrepare => exact (acquired unheld).elim
  | @releasedPrepare id owner req found =>
    have owning := owned.owns_of_handler owner found (by
      simp [Handler.owns, PrepareStage.owns])
    refine ⟨id, _, found, decide_eq_true ?_⟩
    exact Option.some.inj ((owned.holder owner owning).symm.trans held)
  | @softReleased id owner req deps found =>
    have owning := owned.owns_of_handler owner found (by
      simp [Handler.owns, PrepareStage.owns])
    refine ⟨id, _, found, decide_eq_true ?_⟩
    exact Option.some.inj ((owned.holder owner owning).symm.trans held)
  | releasedAbort found => exact (owned.placed _ _ found).elim
  | @releasedCommit id txs epoch found =>
    obtain ⟨holder, mem, holds⟩ := owned.releasing id txs epoch found
    refine ⟨id, _, found, decide_eq_true ?_⟩
    rw [← Option.some.inj (holds.symm.trans held)]
    exact mem
  | saved =>
    unfold RangeManager.save at unheld
    simp only at unheld
    split at unheld <;> exact absurd held unheld
  | _ => exact absurd held unheld

end Holder

/-! ## A prepare after reads does not wait -/

/-- The handler waits for a lock that its transaction has since its reads. -/
def Handler.waitsAgain : Handler → Bool
  | .prepare _ request .waiting => request.hasReads
  | _ => false

def RangeManager.Attentive (range : RangeManager) : Prop :=
  ∀ id handler, range.handlers.find id = some handler → handler.waitsAgain = true →
    id ∈ range.lockTable.signalled

namespace RangeManager.Attentive

variable {config : Configuration} {service : Service} {range next : RangeManager} {label : Label}

theorem change {id : Nat} (attentive : range.Attentive)
    (handlers : ∀ other handler, next.handlers.find other = some handler →
      handler.waitsAgain = true → other ≠ id ∧ range.handlers.find other = some handler)
    (signalled : ∀ other ∈ range.lockTable.signalled, other ≠ id →
      other ∈ next.lockTable.signalled) : next.Attentive := by
  intro other handler found waits
  obtain ⟨ne, before⟩ := handlers other handler found waits
  exact signalled other (attentive other handler before waits) ne

theorem put {id : Nat} {handler' : Handler} (attentive : range.Attentive)
    (handlers : next.handlers = range.handlers.insert id handler')
    (active : handler'.waitsAgain = false)
    (signalled : ∀ other ∈ range.lockTable.signalled, other ≠ id →
      other ∈ next.lockTable.signalled) : next.Attentive := by
  refine attentive.change ?_ signalled
  intro other handler found waits
  rw [handlers, find_insert] at found
  split at found
  next =>
    cases found
    cases active.symm.trans waits
  next ne => exact ⟨ne, found⟩

theorem mem_signalled_of_acquire {table : LockTable} {transaction : Uuid} {sender other : Nat}
    (before : other ∈ table.signalled) :
    other ∈ (table.acquire transaction sender).signalled := by
  unfold LockTable.acquire
  split
  next => exact Finset.mem_insert_of_mem before
  next =>
    split
    next => exact Finset.mem_insert_of_mem before
    next => exact before

theorem mem_signalled_of_release {table : LockTable} {mark : Option Bool} {other : Nat}
    (before : other ∈ table.signalled) : other ∈ (table.release mark).signalled := by
  unfold LockTable.release
  simp only
  split
  next => exact Finset.mem_union_left _ before
  next => exact Finset.mem_insert_of_mem (Finset.mem_union_left _ before)

theorem waitsAgain_of_quiet {id : Nat} {handler handler' : Handler}
    (quiet : Quiet config range id label handler handler') : handler'.waitsAgain = false := by
  cases quiet with
  | verified | chosen => split <;> rfl
  | _ => rfl

theorem waitsAgain_arrivePrepare (transaction : Uuid) (req : PrepareRequest) :
    (Handler.prepare transaction req (arrivePrepare config req)).waitsAgain = false := by
  unfold arrivePrepare
  split
  next =>
    split
    next => split <;> rfl
    next => rfl
  next => split <;> rfl

theorem step (owned : Owned service) (attentive : service.manager.Attentive)
    (moves : Moves config service.manager label next) : next.Attentive := by
  have kept : ∀ (id other : Nat), other ∈ service.manager.lockTable.signalled → other ≠ id →
      other ∈ service.manager.lockTable.signalled := fun _ _ before _ => before
  cases moves with
  | @arrivedPrepare id transaction req =>
    exact attentive.put rfl (waitsAgain_arrivePrepare transaction req) (kept id)
  | quiet _ quiet => exact attentive.put rfl (waitsAgain_of_quiet quiet) (kept _)
  | failed _ fails => exact attentive.put rfl (by cases fails <;> rfl) (kept _)
  | lockedGet =>
    exact attentive.put rfl rfl fun _ before _ => mem_signalled_of_acquire before
  | @lockedPrepare id transaction req found =>
    intro other handler found' waits
    change find (service.manager.handlers.insert id _) other = _ at found'
    rw [find_insert] at found'
    split at found'
    next same =>
      cases found'
      rw [same]
      have placed := owned.placed id _ found
      have holds : service.manager.lockTable.currentHolder = some transaction := by
        apply owned.holder
        apply owned.owns_of_handler transaction found
        have reads : req.hasReads = true := waits
        simp [Handler.owns, PrepareStage.owns, ← placed.2.1, reads]
      change id ∈ (service.manager.lockTable.acquire transaction id).signalled
      rw [LockTable.acquire, holds]
      simp
    next => exact mem_signalled_of_acquire (attentive other handler found' waits)
  | wokenGet | wokenPrepare =>
    refine attentive.put rfl rfl ?_
    intro other before ne
    exact Finset.mem_erase_of_ne_of_mem ne before
  | releasedPrepare | softReleased | releasedAbort | releasedCommit =>
    exact attentive.put rfl rfl fun _ before _ => mem_signalled_of_release before
  | saved =>
    unfold save
    simp only
    split <;> exact attentive.put rfl rfl (kept _)
  | @delivered id handler =>
    refine attentive.change ?_ (kept id)
    intro other candidate found' _
    change find (service.manager.handlers.erase id) other = _ at found'
    rw [find_erase] at found'
    split at found'
    next => cases found'
    next ne => exact ⟨ne, found'⟩
  | _ => exact attentive.put rfl rfl (kept _)

end RangeManager.Attentive

/-! ## Orderly services -/

structure Kept (service : Service) : Prop where
  owned : Owned service
  attentive : service.manager.Attentive
  sound : ∀ id handler, service.manager.handlers.find id = some handler → handler.Sound

theorem Owned.loaded (storage : Records) : Owned (.loaded storage) where
  placed := by
    intro id handler found
    cases (find_empty id).symm.trans found
  lined := lined_loaded storage
  holder := by
    intro transaction owns
    cases owns
  releasing := by
    intro id txs epoch found
    cases (find_empty id).symm.trans found

namespace Kept

variable {config : Configuration} {service next : Service} {label : Label}

theorem loaded (storage : Records) : Kept (.loaded storage) where
  owned := .loaded storage
  attentive := by
    intro id handler found
    cases (find_empty id).symm.trans found
  sound := by
    intro id handler found
    cases (find_empty id).symm.trans found

theorem sound_insert (kept : Kept service) {id : Nat} {handler' : Handler}
    (handlers : next.manager.handlers = service.manager.handlers.insert id handler')
    (sound : handler'.Sound) (other : Nat) (handler : Handler)
    (found : next.manager.handlers.find other = some handler) : handler.Sound := by
  rw [handlers, find_insert] at found
  split at found
  next =>
    cases found
    exact sound
  next => exact kept.sound other handler found

theorem step (kept : Kept service) (orderly : service.Orderly label)
    (taken : service.step config label = some next) : Kept next := by
  have owned := kept.owned.step orderly taken
  obtain ⟨manager, moved, rfl⟩ := Option.map_eq_some_iff.mp taken
  have moves := RangeManager.moves_of_step moved
  refine ⟨owned, kept.attentive.step kept.owned moves, ?_⟩
  cases isLocal : label.isLocal with
  | true =>
    obtain ⟨id, handler, handler', found, goes, handlers⟩ := moves.goes isLocal
    exact kept.sound_insert handlers ((kept.sound id handler found).goes goes)
  | false =>
    cases moves with
    | arrivedGet => exact kept.sound_insert rfl trivial
    | arrivedPrepare => exact kept.sound_insert rfl (.arrivePrepare config _ _)
    | arrivedAbort => cases orderly
    | arrivedCommit => exact kept.sound_insert rfl trivial
    | @delivered id handler =>
      intro other candidate found
      change find (service.manager.handlers.erase id) other = _ at found
      rw [find_erase] at found
      split at found
      next => cases found
      next => exact kept.sound other candidate found
    | quiet _ quiet => cases quiet <;> cases isLocal
    | _ => cases isLocal

end Kept

/-! ## Access to the data -/

def Event.Permitted (service : Service) : Event → Prop
  | .read transaction key _ => service.manager.lockTable.currentHolder = some transaction ∧
      ∃ id stage, service.manager.handlers.find id = some (.get transaction key stage)
  | .saved transaction record => service.manager.lockTable.currentHolder = some transaction ∧
      ∃ id request decisions, service.manager.handlers.find id =
        some (.prepare transaction request (.deciding decisions)) ∧ record = request.changes
  | .stored records => ∃ id transactions epoch, service.manager.handlers.find id =
      some (.commit transactions epoch (.storing records))

/-- The data is touched by the holder of the lock, and the lock stays where it
is. -/
theorem Owned.traced {next : RangeManager} {label : Label} (owned : Owned service)
    (moves : RangeManager.Moves config service.manager label next) :
    next.trace = service.manager.trace ∨
      ∃ event, next.trace = service.manager.trace ++ [event] ∧ event.Permitted service ∧
        next.lockTable = service.manager.lockTable := by
  cases moves with
  | @read id transaction key stage val deps found reads =>
    refine .inr ⟨.read transaction key val, rfl, ⟨?_, id, stage, found⟩, rfl⟩
    apply owned.holder
    apply owned.owns_of_handler transaction found
    cases reads <;> simp [Handler.owns, GetStage.owns]
  | @saved id transaction req decisions found =>
    have holds : service.manager.lockTable.currentHolder = some transaction := by
      apply owned.holder
      apply owned.owns_of_handler transaction found
      simp [Handler.owns, PrepareStage.owns]
    right
    unfold RangeManager.save
    simp only
    split
    all_goals
      exact ⟨.saved transaction req.changes, rfl,
        ⟨holds, id, req, decisions, found, rfl⟩, rfl⟩
  | @stored id txs epoch records found
  | @deleteRefused id txs epoch records found
  | @storeTimedOut id error txs epoch records found =>
    exact .inr ⟨.stored records, rfl, ⟨id, txs, epoch, found⟩, rfl⟩
  | _ => exact .inl rfl

end Sangria.RangeServer
