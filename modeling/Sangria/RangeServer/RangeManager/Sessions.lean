import Sangria.RangeServer.RangeManager.WaitingLine

/-!
# Transactions at a range

A transaction reads through `get` requests, then sends one `prepare`, and is
committed in one batch; at most one of its requests is in flight.  `Orderly`
says that a label keeps to this.  The sessions observe what every transaction
has asked of the range and was answered; they decide nothing.

A session and its handler determine whether the transaction has to be the
holder of the lock.  `Owned` says that the lock table agrees.
-/

namespace Sangria.RangeServer

inductive SessionStage where
  | idle
  | getting (id : Nat)
  | preparing (id : Nat)
  /-- The prepare of a transaction without writes was answered. -/
  | finished
  | prepared (releasedLockEarly : Bool)
  | committing (id : Nat) (releasedLockEarly : Bool)
  | committed
  | failed
  deriving DecidableEq

structure Session where
  stage : SessionStage
  hasReads : Bool
  dependencies : Finset Uuid

structure Service where
  manager : RangeManager
  sessions : Uuid → Session

/-- The sessions after the response of a handler was received. -/
def Handler.answer (sessions : Uuid → Session) : Handler → Uuid → Session
  | .get transaction _ (.returned (.ok result)) =>
    Function.update sessions transaction
      ⟨.idle, true, (sessions transaction).dependencies ∪ result.dependencies.toFinset⟩
  | .get transaction _ (.returned (.error _)) =>
    Function.update sessions transaction { sessions transaction with stage := .failed }
  | .prepare transaction request (.returned (.ok result)) =>
    Function.update sessions transaction
      { sessions transaction with
        stage := if request.hasWrites then .prepared result.releasedLockEarly else .finished
        dependencies := (sessions transaction).dependencies ∪ result.dependencies }
  | .prepare transaction _ (.returned (.error _)) =>
    Function.update sessions transaction { sessions transaction with stage := .failed }
  | .commit transactions _ (.returned (.ok _)) => fun transaction =>
    if transaction ∈ transactions then { sessions transaction with stage := .committed }
    else sessions transaction
  | .commit transactions _ (.returned (.error _)) => fun transaction =>
    if transaction ∈ transactions then { sessions transaction with stage := .failed }
    else sessions transaction
  | _ => sessions

namespace Service

def loaded (storage : Records) : Service :=
  ⟨.loaded storage, fun _ => ⟨.idle, false, ∅⟩⟩

def committing (id : Nat) (session : Session) : Session :=
  { session with
    stage := match session.stage with
      | .prepared early => .committing id early
      | _ => .committing id false }

def sessionsAfter (service : Service) : Label → Uuid → Session
  | .get id transaction _ =>
    Function.update service.sessions transaction
      { service.sessions transaction with stage := .getting id }
  | .prepare id transaction _ =>
    Function.update service.sessions transaction
      { service.sessions transaction with stage := .preparing id }
  | .commit id transactions _ => fun transaction =>
    if transaction ∈ transactions then committing id (service.sessions transaction)
    else service.sessions transaction
  | .deliver id =>
    match service.manager.handlers.find id with
    | some handler => handler.answer service.sessions
    | none => service.sessions
  | _ => service.sessions

def step (config : Configuration) (service : Service) (label : Label) : Option Service :=
  (service.manager.step config label).map fun manager =>
    ⟨manager, service.sessionsAfter label⟩

/-- What clients of the range keep to, as long as nothing is aborted. -/
def Orderly (service : Service) : Label → Prop
  | .get _ transaction _ => (service.sessions transaction).stage = .idle
  | .prepare _ transaction request =>
    (service.sessions transaction).stage = .idle ∧
      request.hasReads = (service.sessions transaction).hasReads
  | .abort .. => False
  | .commit _ transactions _ =>
    transactions.Nodup ∧ ∀ transaction ∈ transactions,
      (service.sessions transaction).stage = .prepared true ∨
        (service.sessions transaction).stage = .prepared false
  | _ => True

end Service

/-! ## Ownership of the lock -/

def GetStage.owns (hasReads signalled : Bool) : GetStage → Bool
  | .locking => hasReads
  | .waiting => signalled
  | .checking | .buffered | .stored | .returned (.ok _) => true
  | .returned (.error _) => false

def PrepareStage.owns (hasReads hasWrites signalled : Bool) : PrepareStage → Bool
  | .verifying | .locking => hasReads
  | .waiting => signalled
  | .releasing | .deciding _ | .appending .. | .softReleasing _ => true
  | .flushing _ early => !early
  | .returned (.ok result) => hasWrites && !result.releasedLockEarly
  | .returned (.error _) => false

def CommitStage.owns : CommitStage → Bool
  | .cleaning | .returned _ => false
  | _ => true

/-- The handler that a request of the transaction is served by. -/
def SessionStage.handler : SessionStage → Option Nat
  | .getting id | .preparing id | .committing id _ => some id
  | _ => none

def SessionStage.early : SessionStage → Bool
  | .prepared early | .committing _ early => early
  | _ => false

def Handler.owns (session : Session) (signalled : Bool) (transaction : Uuid) : Handler → Bool
  | .get owner _ stage => decide (owner = transaction) && stage.owns session.hasReads signalled
  | .prepare owner request stage => decide (owner = transaction) &&
      stage.owns session.hasReads request.hasWrites signalled
  | .abort .. => false
  | .commit transactions _ stage =>
    (decide (transaction ∈ transactions) && !session.stage.early) && stage.owns

/-- Between its requests a transaction keeps the lock from its first read on,
and after its prepare unless the range released it early. -/
def Session.owns (session : Session) : Bool :=
  match session.stage with
  | .idle => session.hasReads
  | .prepared early => !early
  | _ => false

def Service.owns (service : Service) (transaction : Uuid) : Bool :=
  let session := service.sessions transaction
  match session.stage.handler with
  | none => session.owns
  | some id =>
    match service.manager.handlers.find id with
    | some handler =>
      handler.owns session (id ∈ service.manager.lockTable.signalled) transaction
    | none => false

end Sangria.RangeServer
