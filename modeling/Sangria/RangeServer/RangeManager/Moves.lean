import Sangria.RangeServer.RangeManager.Handlers

/-!
# What the sections of the handlers do

`Quiet` are the sections that only decide where their handler goes next; `Moves`
are all steps, with the state they lead to.
-/

namespace Sangria.RangeServer

namespace RangeManager

/-- The handler takes the second form; everything else stays as it is. -/
inductive Quiet (config : Configuration) (range : RangeManager) (id : Nat) :
    Label → Handler → Handler → Prop where
  | missTable {transaction : Uuid} {key : Bytes} :
      range.pendingState.pendingCommitTable.find key = none →
      Quiet config range id (.run id) (.get transaction key .checking)
        (.get transaction key .buffered)
  | missRecord {transaction dependency : Uuid} {key : Bytes} :
      range.pendingState.pendingCommitTable.find key = some dependency →
      (range.pendingState.pendingPrepareRecords.find dependency).bind
        (fun record => record.find key) = none →
      Quiet config range id (.run id) (.get transaction key .checking)
        (.get transaction key (.returned (.error .panicked)))
  | missBuffer {transaction : Uuid} {key : Bytes} :
      range.prefetchingBuffer.getFromBuffer key = none →
      Quiet config range id (.run id) (.get transaction key .buffered)
        (.get transaction key .stored)
  | verified {transaction : Uuid} {request : PrepareRequest} :
      range.lockTable.isCurrentlyHolding [transaction] = true →
      Quiet config range id (.run id) (.prepare transaction request .verifying)
        (.prepare transaction request (if request.hasWrites then .locking else .releasing))
  | lockLost {transaction : Uuid} {request : PrepareRequest} :
      range.lockTable.isCurrentlyHolding [transaction] = false →
      Quiet config range id (.run id) (.prepare transaction request .verifying)
        (.prepare transaction request
          (.returned (.error (.error (.transactionAborted .transactionLockLost)))))
  | decided {transaction : Uuid} {request : PrepareRequest} {key : Bytes}
      {decisions : HashMap Bytes Bool} :
      key ∈ request.changes → key ∉ decisions →
      Quiet config range id (.runOn id key) (.prepare transaction request (.deciding decisions))
        (.prepare transaction request (.deciding (decisions.insert key
          (doEarlyLockRelease config range.lockTable request.resolverAverageLoad
            request.numOpenClients))))
  | chosen {transaction : Uuid} {request : PrepareRequest} {key : Bytes}
      {decisions : HashMap Bytes Bool} {dependencies : Finset Uuid} {early : Bool} :
      decisions.find key = some early →
      Quiet config range id (.runOn id key)
        (.prepare transaction request (.appending decisions dependencies))
        (.prepare transaction request
          (if early then .softReleasing dependencies else .flushing dependencies false))
  | flushed {transaction : Uuid} {request : PrepareRequest} {dependencies : Finset Uuid}
      {early : Bool} :
      Quiet config range id (.run id)
        (.prepare transaction request (.flushing dependencies early))
        (.prepare transaction request (.returned (.ok ⟨dependencies, early⟩)))
  | abortVerified {transaction : Uuid} :
      range.lockTable.isCurrentlyHolding [transaction] = true →
      Quiet config range id (.run id) (.abort transaction .verifying)
        (.abort transaction .appending)
  | abortIdle {transaction : Uuid} :
      range.lockTable.isCurrentlyHolding [transaction] = false →
      Quiet config range id (.run id) (.abort transaction .verifying)
        (.abort transaction (.returned (.ok ())))
  | abortAppended {transaction : Uuid} :
      Quiet config range id (.run id) (.abort transaction .appending)
        (.abort transaction .flushing)
  | abortFlushed {transaction : Uuid} :
      Quiet config range id (.run id) (.abort transaction .flushing)
        (.abort transaction .releasing)
  | appended {transactions : List Uuid} {epoch : Nat} :
      Quiet config range id (.run id) (.commit transactions epoch .appending)
        (.commit transactions epoch .flushing)
  | logged {transactions : List Uuid} {epoch : Nat} :
      Quiet config range id (.run id) (.commit transactions epoch .flushing)
        (.commit transactions epoch .collecting)
  | collected {transactions : List Uuid} {epoch : Nat} {records : List (Uuid × Changes)} :
      collectRecords range.pendingState.pendingPrepareRecords transactions = some records →
      Quiet config range id (.run id) (.commit transactions epoch .collecting)
        (.commit transactions epoch
          (if (allChanges records).keys = ∅ then .buffering records ∅ else .storing records))
  | recordMissing {transactions : List Uuid} {epoch : Nat} :
      collectRecords range.pendingState.pendingPrepareRecords transactions = none →
      Quiet config range id (.run id) (.commit transactions epoch .collecting)
        (.commit transactions epoch (.returned (.error .panicked)))
  | holding {transactions : List Uuid} {epoch : Nat} {holder : Uuid} :
      range.lockTable.currentHolder = some holder → holder ∈ transactions →
      Quiet config range id (.run id) (.commit transactions epoch .inspecting)
        (.commit transactions epoch .releasing)
  | notHolding {transactions : List Uuid} {epoch : Nat} :
      (∀ holder ∈ transactions, range.lockTable.currentHolder ≠ some holder) →
      Quiet config range id (.run id) (.commit transactions epoch .inspecting)
        (.commit transactions epoch .cleaning)

inductive Fails : Handler → Handler → Prop where
  | get {transaction : Uuid} {key : Bytes} {error : Error} :
      Fails (.get transaction key .stored)
        (.get transaction key (.returned (.error (.error error))))
  | append {transaction : Uuid} {request : PrepareRequest} {decisions : HashMap Bytes Bool}
      {dependencies : Finset Uuid} {failure : Failure} :
      Fails (.prepare transaction request (.appending decisions dependencies))
        (.prepare transaction request (.returned (.error failure)))
  | flush {transaction : Uuid} {request : PrepareRequest} {dependencies : Finset Uuid}
      {early : Bool} {failure : Failure} :
      Fails (.prepare transaction request (.flushing dependencies early))
        (.prepare transaction request (.returned (.error failure)))
  | abort {transaction : Uuid} {stage : AbortStage} {failure : Failure} :
      Fails (.abort transaction stage) (.abort transaction (.returned (.error failure)))
  | commit {transactions : List Uuid} {epoch : Nat} {stage : CommitStage} {failure : Failure} :
      Fails (.commit transactions epoch stage)
        (.commit transactions epoch (.returned (.error failure)))

inductive ReadsFrom (config : Configuration) (range : RangeManager) (key : Bytes) :
    GetStage → Option Bytes → List Uuid → Prop where
  | record {dependency : Uuid} {record : Changes} {val : Option Bytes} :
      range.pendingState.pendingCommitTable.find key = some dependency →
      range.pendingState.pendingPrepareRecords.find dependency = some record →
      record.find key = some val →
      ReadsFrom config range key .checking val [dependency]
  | buffer {val : Bytes} : range.prefetchingBuffer.getFromBuffer key = some val →
      ReadsFrom config range key .buffered (some val) []
  | storage : ReadsFrom config range key .stored (range.storage.get key) []

inductive Moves (config : Configuration) (range : RangeManager) :
    Label → RangeManager → Prop where
  | arrivedGet {id : Nat} {transaction : Uuid} {key : Bytes} :
      range.handlers.find id = none →
      Moves config range (.get id transaction key) (range.put id (.get transaction key
        (if config.keyRange.includes key then .locking
        else .returned (.error (.error .keyIsOutOfRange)))))
  | arrivedPrepare {id : Nat} {transaction : Uuid} {request : PrepareRequest} :
      range.handlers.find id = none →
      Moves config range (.prepare id transaction request)
        (range.put id (.prepare transaction request (arrivePrepare config request)))
  | arrivedAbort {id : Nat} {transaction : Uuid} :
      range.handlers.find id = none →
      Moves config range (.abort id transaction) (range.put id (.abort transaction .verifying))
  | arrivedCommit {id : Nat} {transactions : List Uuid} {epoch : Nat} :
      range.handlers.find id = none →
      Moves config range (.commit id transactions epoch)
        (range.put id (.commit transactions epoch .appending))
  | quiet {id : Nat} {label : Label} {handler handler' : Handler} :
      range.handlers.find id = some handler →
      Quiet config range id label handler handler' →
      Moves config range label (range.put id handler')
  | failed {id : Nat} {error : Error} {effective : Bool} {handler handler' : Handler} :
      range.handlers.find id = some handler → Fails handler handler' →
      Moves config range (.fail id error effective) (range.put id handler')
  | lockedGet {id : Nat} {transaction : Uuid} {key : Bytes} :
      range.handlers.find id = some (.get transaction key .locking) →
      Moves config range (.run id)
        ({ range with lockTable := range.lockTable.acquire transaction id }.put id
          (.get transaction key .waiting))
  | lockedPrepare {id : Nat} {transaction : Uuid} {request : PrepareRequest} :
      range.handlers.find id = some (.prepare transaction request .locking) →
      Moves config range (.run id)
        ({ range with lockTable := range.lockTable.acquire transaction id }.put id
          (.prepare transaction request .waiting))
  | wokenGet {id : Nat} {transaction : Uuid} {key : Bytes} :
      range.handlers.find id = some (.get transaction key .waiting) →
      id ∈ range.lockTable.signalled →
      Moves config range (.run id)
        ({ range with lockTable := range.lockTable.receive id }.put id (.get transaction key
          (if config.commitStrategy = CommitStrategy.traditional then .buffered
          else .checking)))
  | wokenPrepare {id : Nat} {transaction : Uuid} {request : PrepareRequest} :
      range.handlers.find id = some (.prepare transaction request .waiting) →
      id ∈ range.lockTable.signalled →
      Moves config range (.run id)
        ({ range with lockTable := range.lockTable.receive id }.put id
          (.prepare transaction request (.deciding ∅)))
  | read {id : Nat} {transaction : Uuid} {key : Bytes} {stage : GetStage}
      {val : Option Bytes} {dependencies : List Uuid} :
      range.handlers.find id = some (.get transaction key stage) →
      ReadsFrom config range key stage val dependencies →
      Moves config range (.run id)
        (range.returnRead config id transaction key val dependencies)
  | releasedPrepare {id : Nat} {transaction : Uuid} {request : PrepareRequest} :
      range.handlers.find id = some (.prepare transaction request .releasing) →
      Moves config range (.run id)
        ({ range with lockTable := range.lockTable.release none }.put id
          (.prepare transaction request (.returned (.ok ⟨∅, false⟩))))
  | saved {id : Nat} {transaction : Uuid} {request : PrepareRequest}
      {decisions : HashMap Bytes Bool} :
      range.handlers.find id = some (.prepare transaction request (.deciding decisions)) →
      decisions.keys = request.changes.keys →
      Moves config range (.run id) (range.save config id transaction request decisions)
  | softReleased {id : Nat} {transaction : Uuid} {request : PrepareRequest}
      {dependencies : Finset Uuid} :
      range.handlers.find id = some (.prepare transaction request (.softReleasing dependencies)) →
      Moves config range (.run id)
        ({ range with lockTable := range.lockTable.softRelease }.put id
          (.prepare transaction request (.flushing dependencies true)))
  | releasedAbort {id : Nat} {transaction : Uuid} :
      range.handlers.find id = some (.abort transaction .releasing) →
      Moves config range (.run id)
        ({ range with lockTable := range.lockTable.release none }.put id
          (.abort transaction (.returned (.ok ()))))
  | stored {id : Nat} {transactions : List Uuid} {epoch : Nat}
      {records : List (Uuid × Changes)} :
      range.handlers.find id = some (.commit transactions epoch (.storing records)) →
      (∀ key, (allChanges records).find key ≠ some none) →
      Moves config range (.run id) ((range.store records epoch).put id
        (.commit transactions epoch (.buffering records (allChanges records))))
  | deleteRefused {id : Nat} {transactions : List Uuid} {epoch : Nat}
      {records : List (Uuid × Changes)} :
      range.handlers.find id = some (.commit transactions epoch (.storing records)) →
      Deletes (allChanges records) →
      Moves config range (.run id) ((range.store records epoch).put id
        (.commit transactions epoch (.returned (.error (.error .internalError)))))
  | storeTimedOut {id : Nat} {error : Error} {transactions : List Uuid} {epoch : Nat}
      {records : List (Uuid × Changes)} :
      range.handlers.find id = some (.commit transactions epoch (.storing records)) →
      Moves config range (.fail id error true) ((range.store records epoch).put id
        (.commit transactions epoch (.returned (.error (.error error)))))
  | updatedBuffer {id : Nat} {key : Bytes} {transactions : List Uuid} {epoch : Nat}
      {records : List (Uuid × Changes)} {remaining : Changes} {change : Option Bytes} :
      range.handlers.find id = some (.commit transactions epoch (.buffering records remaining)) →
      remaining.find key = some change →
      Moves config range (.runOn id key)
        ({ range with
          prefetchingBuffer := match change with
            | some val => range.prefetchingBuffer.upsert key val
            | none => range.prefetchingBuffer.delete key }.put id
              (.commit transactions epoch (.buffering records (remaining.erase key))))
  | cleared {id : Nat} {transactions : List Uuid} {epoch : Nat}
      {records : List (Uuid × Changes)} {remaining : Changes} :
      range.handlers.find id = some (.commit transactions epoch (.buffering records remaining)) →
      remaining.keys = ∅ →
      Moves config range (.run id)
        ({ range with
          pendingState := clear config range.pendingState transactions records }.put id
            (.commit transactions epoch .inspecting))
  | releasedCommit {id : Nat} {transactions : List Uuid} {epoch : Nat} :
      range.handlers.find id = some (.commit transactions epoch .releasing) →
      Moves config range (.run id)
        ({ range with lockTable := range.lockTable.release none }.put id
          (.commit transactions epoch .cleaning))
  | cleaned {id : Nat} {transactions : List Uuid} {epoch : Nat} :
      range.handlers.find id = some (.commit transactions epoch .cleaning) →
      Moves config range (.run id)
        ({ range with lockTable := range.lockTable.cleanSoftReleased transactions }.put id
          (.commit transactions epoch (.returned (.ok ()))))
  | delivered {id : Nat} {handler : Handler} :
      range.handlers.find id = some handler → handler.isReturned = true →
      Moves config range (.deliver id) { range with handlers := range.handlers.erase id }

/-! ## Every step is one of them -/

section

variable {config : Configuration} {range next : RangeManager} {id : Nat} {tx : Uuid}
  {key : Bytes}
variable {request : PrepareRequest} {stage : PrepareStage} {txs : List Uuid} {epoch : Nat}
  {handler : Handler}

theorem moves_of_runGet {stage : GetStage}
    (found : range.handlers.find id = some (.get tx key stage))
    (ran : range.runGet config id tx key stage = some next) :
    Moves config range (.run id) next := by
  cases stage with
  | locking =>
    cases ran
    exact .lockedGet found
  | waiting =>
    simp only [runGet] at ran
    split at ran
    next signalled =>
      cases ran
      exact .wokenGet found signalled
    next => cases ran
  | checking =>
    simp only [runGet] at ran
    split at ran
    next missing =>
      cases ran
      exact .quiet found (.missTable missing)
    next published =>
      split at ran
      next recorded =>
        cases ran
        obtain ⟨record, pending, written⟩ := Option.bind_eq_some_iff.mp recorded
        exact .read found (.record published pending written)
      next unrecorded =>
        cases ran
        exact .quiet found (.missRecord published unrecorded)
  | buffered =>
    simp only [runGet] at ran
    split at ran
    next hit =>
      cases ran
      exact .read found (.buffer hit)
    next miss =>
      cases ran
      exact .quiet found (.missBuffer miss)
  | stored =>
    cases ran
    exact .read found .storage
  | returned => cases ran

theorem moves_of_runPrepare
    (found : range.handlers.find id = some (.prepare tx request stage))
    (ran : range.runPrepare config id tx request stage = some next) :
    Moves config range (.run id) next := by
  cases stage with
  | verifying =>
    simp only [runPrepare, Option.some.injEq] at ran
    subst ran
    split
    next holds => exact .quiet found (.verified holds)
    next lost => exact .quiet found (.lockLost (Bool.eq_false_iff.mpr lost))
  | releasing =>
    cases ran
    exact .releasedPrepare found
  | locking =>
    cases ran
    exact .lockedPrepare found
  | waiting =>
    simp only [runPrepare] at ran
    split at ran
    next signalled =>
      cases ran
      exact .wokenPrepare found signalled
    next => cases ran
  | deciding =>
    simp only [runPrepare] at ran
    split at ran
    next complete =>
      cases ran
      exact .saved found complete
    next => cases ran
  | appending | returned => cases ran
  | softReleasing =>
    cases ran
    exact .softReleased found
  | flushing =>
    cases ran
    exact .quiet found .flushed

theorem moves_of_runPrepareOn
    (found : range.handlers.find id = some (.prepare tx request stage))
    (ran : range.runPrepareOn config id tx request key stage = some next) :
    Moves config range (.runOn id key) next := by
  cases stage with
  | deciding =>
    simp only [runPrepareOn] at ran
    split at ran
    next undecided =>
      cases ran
      exact .quiet found (.decided undecided.1 undecided.2)
    next => cases ran
  | appending =>
    simp only [runPrepareOn] at ran
    split at ran
    next first =>
      cases ran
      exact .quiet found (.chosen first)
    next => cases ran
  | _ => cases ran

theorem moves_of_runAbort {stage : AbortStage}
    (found : range.handlers.find id = some (.abort tx stage))
    (ran : range.runAbort id tx stage = some next) :
    Moves config range (.run id) next := by
  cases stage with
  | verifying =>
    simp only [runAbort] at ran
    split at ran
    next holding =>
      cases ran
      exact .quiet found (.abortVerified holding)
    next notHolding =>
      cases ran
      exact .quiet found (.abortIdle (Bool.eq_false_iff.mpr notHolding))
  | appending =>
    cases ran
    exact .quiet found .abortAppended
  | flushing =>
    cases ran
    exact .quiet found .abortFlushed
  | releasing =>
    cases ran
    exact .releasedAbort found
  | returned => cases ran

theorem moves_of_runCommit {stage : CommitStage}
    (found : range.handlers.find id = some (.commit txs epoch stage))
    (ran : range.runCommit config id txs epoch stage = some next) :
    Moves config range (.run id) next := by
  cases stage with
  | appending =>
    cases ran
    exact .quiet found .appended
  | flushing =>
    cases ran
    exact .quiet found .logged
  | collecting =>
    simp only [runCommit, Option.some.injEq] at ran
    subst ran
    split
    next missing => exact .quiet found (.recordMissing missing)
    next collected => exact .quiet found (.collected collected)
  | storing =>
    simp only [runCommit, Option.some.injEq] at ran
    subst ran
    split
    next deletes => exact .deleteRefused found deletes
    next puts => exact .stored found (not_deletes_iff.mp puts)
  | buffering =>
    simp only [runCommit] at ran
    split at ran
    next finished =>
      cases ran
      exact .cleared found finished
    next => cases ran
  | inspecting =>
    simp only [runCommit, LockTable.getCurrentHolderId, Option.some.injEq] at ran
    subst ran
    split
    next free => exact .quiet found (.notHolding fun holder _ => by simp [free])
    next held =>
      split
      next member => exact .quiet found (.holding held member)
      next other =>
        refine .quiet found (.notHolding ?_)
        intro candidate member same
        rw [held, Option.some.injEq] at same
        exact other (same ▸ member)
  | releasing =>
    cases ran
    exact .releasedCommit found
  | cleaning =>
    cases ran
    exact .cleaned found
  | returned => cases ran

theorem moves_of_runCommitOn {stage : CommitStage}
    (found : range.handlers.find id = some (.commit txs epoch stage))
    (ran : range.runCommitOn id txs epoch key stage = some next) :
    Moves config range (.runOn id key) next := by
  cases stage with
  | buffering =>
    simp only [runCommitOn] at ran
    split at ran
    next => cases ran
    next pending =>
      cases ran
      exact .updatedBuffer found pending
  | _ => cases ran

theorem moves_of_failHandler {error : Error} {effective : Bool}
    (found : range.handlers.find id = some handler)
    (ran : range.failHandler id error effective handler = some next) :
    Moves config range (.fail id error effective) next := by
  unfold failHandler at ran
  split at ran
  case h_8 txs epoch records =>
    cases effective with
    | false =>
      cases ran
      exact .failed found .commit
    | true =>
      cases ran
      exact .storeTimedOut found
  case h_9 => cases ran
  all_goals
    cases ran
    exact .failed found (by constructor)

theorem moves_of_arrive (arrived : range.arrive id handler = some next) :
    range.handlers.find id = none ∧ next = range.put id handler := by
  simp only [arrive] at arrived
  split at arrived
  next unused =>
    cases arrived
    exact ⟨unused, rfl⟩
  next => cases arrived

theorem moves_of_step {label : Label} (taken : range.step config label = some next) :
    Moves config range label next := by
  cases label with
  | get =>
    obtain ⟨unused, rfl⟩ := moves_of_arrive taken
    exact .arrivedGet unused
  | prepare =>
    obtain ⟨unused, rfl⟩ := moves_of_arrive taken
    exact .arrivedPrepare unused
  | abort =>
    obtain ⟨unused, rfl⟩ := moves_of_arrive taken
    exact .arrivedAbort unused
  | commit =>
    obtain ⟨unused, rfl⟩ := moves_of_arrive taken
    exact .arrivedCommit unused
  | run =>
    obtain ⟨handler, found, ran⟩ := Option.bind_eq_some_iff.mp taken
    cases handler with
    | get => exact moves_of_runGet found ran
    | prepare => exact moves_of_runPrepare found ran
    | abort => exact moves_of_runAbort found ran
    | commit => exact moves_of_runCommit found ran
  | runOn =>
    obtain ⟨handler, found, ran⟩ := Option.bind_eq_some_iff.mp taken
    cases handler with
    | prepare => exact moves_of_runPrepareOn found ran
    | commit => exact moves_of_runCommitOn found ran
    | _ => cases ran
  | fail =>
    obtain ⟨handler, found, ran⟩ := Option.bind_eq_some_iff.mp taken
    exact moves_of_failHandler found ran
  | deliver =>
    simp only [step] at taken
    split at taken
    next => cases taken
    next found =>
      split at taken
      next returned =>
        cases taken
        exact .delivered found returned
      next => cases taken

end

end RangeManager

end Sangria.RangeServer
