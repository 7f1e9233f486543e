import Sangria.Lib.Enumeration
import Sangria.RangeServer.RangeManager.Lifecycle

/-!
# The ranges that a range server has loaded

`maybe_load_and_get_range` and `maybe_unload_range` of the server, cut where they
take the lock of the table `loaded_ranges`, the update loop that calls them for
the updates of the warden handler, and the handler itself.  A call on the fast
path holds the lock for reading while it loads, and a call that finds a range
manager on the slow path holds it for writing; a call that inserts a fresh range
manager gives the lock back first.
-/

namespace Sangria.RangeServer

open TransitionSystem

/-! ## The warden handler -/

inductive WardenUpdate where
  | loadRange (id : FullRangeId)
  | unloadRange (id : FullRangeId)
  deriving DecidableEq

/-- An update of the warden.  `removed` and `added` are the orders in which the sets
of ranges are iterated. -/
inductive AssignmentUpdate where
  | fullAssignment (range removed added : List FullRangeId)
  | incrementalAssignment (load unload : List FullRangeId)

structure WardenHandler where
  assignedRanges : Finset FullRangeId
  /-- The updates that were not received yet, the first one first. -/
  updates : List WardenUpdate

namespace WardenHandler

def load (handler : WardenHandler) (id : FullRangeId) : WardenHandler where
  assignedRanges := insert id handler.assignedRanges
  updates :=
    if id ∈ handler.assignedRanges then handler.updates else handler.updates ++ [.loadRange id]

def unload (handler : WardenHandler) (id : FullRangeId) : WardenHandler where
  assignedRanges := handler.assignedRanges.erase id
  updates :=
    if id ∈ handler.assignedRanges then handler.updates ++ [.unloadRange id] else handler.updates

def processWardenUpdate (handler : WardenHandler) : AssignmentUpdate → Option WardenHandler
  | .fullAssignment range removed added =>
    if Enumerates removed (handler.assignedRanges \ range.toFinset) ∧
        Enumerates added (range.toFinset \ handler.assignedRanges) then
      some
        { assignedRanges := range.toFinset
          updates := handler.updates ++ removed.map .unloadRange ++ added.map .loadRange }
    else none
  | .incrementalAssignment loads unloads => some (unloads.foldl unload (loads.foldl load handler))

end WardenHandler

/-! ## The server -/

structure ManagedRange where
  rangeId : FullRangeId
  lifecycle : Lifecycle

inductive CallPhase where
  | looking
  /-- With the lock of the table for reading. -/
  | fast (manager : Nat)
  | checking
  | locking
  /-- With the lock of the table for writing. -/
  | slow (manager : Nat)
  | fresh (manager : Nat)
  | cleaning (error : LoadError)
  | returned (result : Except LoadError Nat)
  | panicked

namespace CallPhase

def manager : CallPhase → Option Nat
  | .fast manager | .slow manager | .fresh manager => some manager
  | _ => none

def reads : CallPhase → Bool
  | .fast _ => true
  | _ => false

def writes : CallPhase → Bool
  | .slow _ => true
  | _ => false

def locks : CallPhase → Bool
  | .locking => true
  | _ => false

def finished : CallPhase → Bool
  | .returned _ | .panicked => true
  | _ => false

end CallPhase

structure RangeCall where
  id : FullRangeId
  phase : CallPhase

/-- Where the update loop is in `maybe_unload_range`. -/
inductive UpdateLoop where
  | receiving
  | removing (id : FullRangeId)
  | unloading (manager : Nat)
  deriving DecidableEq

structure LoadedRanges where
  wardenHandler : WardenHandler
  updateLoop : UpdateLoop
  loadedRanges : HashMap Uuid Nat
  managers : HashMap Nat ManagedRange
  calls : HashMap Nat RangeCall

namespace LoadedRanges

inductive Label where
  | call (call : Nat) (id : FullRangeId)
  | lookUp (call : Nat)
  | isAssigned (call : Nat)
  /-- `manager` is the fresh range manager, if there is none. -/
  | lockTable (call manager : Nat)
  | load (call : Nat) (action : Lifecycle.Action)
  | takeResult (call : Nat)
  | cleanUp (call : Nat)
  | processWardenUpdate (update : AssignmentUpdate)
  /-- `call` is the load that is spawned, if there is one. -/
  | receiveUpdate (call : Nat)
  | removeRange
  | unloadRange

def Readable (server : LoadedRanges) : Prop :=
  ∀ call ∈ server.calls.keys, ∀ found ∈ server.calls.find call, found.phase.writes = false

def Writable (server : LoadedRanges) : Prop :=
  ∀ call ∈ server.calls.keys, ∀ found ∈ server.calls.find call,
    found.phase.reads = false ∧ found.phase.writes = false

instance (server : LoadedRanges) : Decidable server.Readable :=
  inferInstanceAs (Decidable (∀ call ∈ server.calls.keys, _))

instance (server : LoadedRanges) : Decidable server.Writable :=
  inferInstanceAs (Decidable (∀ call ∈ server.calls.keys, _))

def setPhase (server : LoadedRanges) (call : Nat) (id : FullRangeId) (phase : CallPhase) :
    LoadedRanges :=
  { server with calls := server.calls.insert call ⟨id, phase⟩ }

def setLifecycle (server : LoadedRanges) (manager : Nat) (managed : ManagedRange)
    (lifecycle : Lifecycle) : LoadedRanges :=
  { server with managers := server.managers.insert manager { managed with lifecycle := lifecycle } }

def lockTable (server : LoadedRanges) (call : Nat) (id : FullRangeId) (manager : Nat) :
    Option LoadedRanges :=
  match server.loadedRanges.find id.rangeId with
  | some found => some (server.setPhase call id (.slow found))
  | none =>
    match server.managers.find manager with
    | some _ => none
    | none =>
      some { server.setPhase call id (.fresh manager) with
        loadedRanges := server.loadedRanges.insert id.rangeId manager
        managers := server.managers.insert manager ⟨id, .new⟩ }

def takeResult (server : LoadedRanges) (call : Nat) (id : FullRangeId) (manager : Nat) :
    LoadPhase → Option LoadedRanges
  | .returned (.ok ()) => some (server.setPhase call id (.returned (.ok manager)))
  | .returned (.error error) => some (server.setPhase call id (.cleaning error))
  | .panicked => some (server.setPhase call id .panicked)
  | _ => none

def removes (server : LoadedRanges) (id : FullRangeId) : Bool :=
  match server.loadedRanges.find id.rangeId with
  | none => false
  | some manager =>
    match server.managers.find manager with
    | some managed => !managed.lifecycle.isUnloaded
    | none => false

def cleanUp (server : LoadedRanges) (call : Nat) (id : FullRangeId) (error : LoadError) :
    LoadedRanges :=
  { server.setPhase call id (.returned (.error error)) with
    loadedRanges :=
      if server.removes id then server.loadedRanges.erase id.rangeId else server.loadedRanges }

def step (server : LoadedRanges) : Label → Option LoadedRanges
  | .call call id =>
    match server.calls.find call with
    | some _ => none
    | none => some (server.setPhase call id .looking)
  | .lookUp call =>
    match server.calls.find call with
    | some ⟨id, .looking⟩ =>
      if server.Readable then
        match server.loadedRanges.find id.rangeId with
        | some manager => some (server.setPhase call id (.fast manager))
        | none => some (server.setPhase call id .checking)
      else none
    | _ => none
  | .isAssigned call =>
    match server.calls.find call with
    | some ⟨id, .checking⟩ =>
      if id ∈ server.wardenHandler.assignedRanges then
        some (server.setPhase call id .locking)
      else some (server.setPhase call id (.cleaning .rangeIsNotLoaded))
    | _ => none
  | .lockTable call manager =>
    match server.calls.find call with
    | some ⟨id, .locking⟩ =>
      if server.Writable then server.lockTable call id manager else none
    | _ => none
  | .load call action =>
    match server.calls.find call with
    | some ⟨_, phase⟩ =>
      match phase.manager with
      | some manager =>
        match server.managers.find manager with
        | some managed =>
          match managed.lifecycle.loadStep call action with
          | some lifecycle => some (server.setLifecycle manager managed lifecycle)
          | none => none
        | none => none
      | none => none
    | none => none
  | .takeResult call =>
    match server.calls.find call with
    | some ⟨id, phase⟩ =>
      match phase.manager with
      | some manager =>
        match server.managers.find manager with
        | some managed =>
          match managed.lifecycle.loads.find call with
          | some load => server.takeResult call id manager load.phase
          | none => none
        | none => none
      | none => none
    | none => none
  | .cleanUp call =>
    match server.calls.find call with
    | some ⟨id, .cleaning error⟩ =>
      if server.Writable then some (server.cleanUp call id error) else none
    | _ => none
  | .processWardenUpdate update =>
    match server.wardenHandler.processWardenUpdate update with
    | some handler => some { server with wardenHandler := handler }
    | none => none
  | .receiveUpdate call =>
    match server.updateLoop, server.wardenHandler.updates with
    | .receiving, .loadRange id :: rest =>
      match server.calls.find call with
      | some _ => none
      | none =>
        some { server.setPhase call id .looking with
          wardenHandler := { server.wardenHandler with updates := rest } }
    | .receiving, .unloadRange id :: rest =>
      some { server with
        wardenHandler := { server.wardenHandler with updates := rest }
        updateLoop := .removing id }
    | _, _ => none
  | .removeRange =>
    match server.updateLoop with
    | .removing id =>
      if server.Writable then
        match server.loadedRanges.find id.rangeId with
        | none => some { server with updateLoop := .receiving }
        | some manager =>
          some { server with
            loadedRanges := server.loadedRanges.erase id.rangeId
            updateLoop := .unloading manager }
      else none
    | _ => none
  | .unloadRange =>
    match server.updateLoop with
    | .unloading manager =>
      match server.managers.find manager with
      | some managed =>
        match managed.lifecycle.step .unload with
        | some lifecycle =>
          some { server.setLifecycle manager managed lifecycle with
            updateLoop := .receiving }
        | none => none
      | none => none
    | _ => none

def new : LoadedRanges := ⟨⟨∅, []⟩, .receiving, ∅, ∅, ∅⟩

def exampleRange (range : Uuid) : FullRangeId := ⟨⟨0⟩, range⟩

def loadsFresh (call manager : Nat) : List Label :=
  [.lockTable call manager, .load call .readState, .load call .lockState,
    .load call (.loadInner (.ok ())), .load call .writeState, .takeResult call]

inductive Moves (server : LoadedRanges) : Label → LoadedRanges → Prop where
  | calls {call id} :
      server.calls.find call = none →
      Moves server (.call call id) (server.setPhase call id .looking)
  | finds {call id manager} :
      server.calls.find call = some ⟨id, .looking⟩ →
      server.loadedRanges.find id.rangeId = some manager →
      Moves server (.lookUp call) (server.setPhase call id (.fast manager))
  | misses {call id} :
      server.calls.find call = some ⟨id, .looking⟩ →
      server.loadedRanges.find id.rangeId = none →
      Moves server (.lookUp call) (server.setPhase call id .checking)
  | assigned {call id} :
      server.calls.find call = some ⟨id, .checking⟩ →
      id ∈ server.wardenHandler.assignedRanges →
      Moves server (.isAssigned call) (server.setPhase call id .locking)
  | unassigned {call id} :
      server.calls.find call = some ⟨id, .checking⟩ →
      id ∉ server.wardenHandler.assignedRanges →
      Moves server (.isAssigned call) (server.setPhase call id (.cleaning .rangeIsNotLoaded))
  | reuses {call id manager other} :
      server.calls.find call = some ⟨id, .locking⟩ →
      server.loadedRanges.find id.rangeId = some manager →
      Moves server (.lockTable call other) (server.setPhase call id (.slow manager))
  | inserts {call id manager} :
      server.calls.find call = some ⟨id, .locking⟩ →
      server.loadedRanges.find id.rangeId = none →
      server.managers.find manager = none →
      Moves server (.lockTable call manager)
        { server.setPhase call id (.fresh manager) with
          loadedRanges := server.loadedRanges.insert id.rangeId manager
          managers := server.managers.insert manager ⟨id, .new⟩ }
  | loads {call found manager managed action lifecycle} :
      server.calls.find call = some found →
      found.phase.manager = some manager →
      server.managers.find manager = some managed →
      managed.lifecycle.loadStep call action = some lifecycle →
      Moves server (.load call action) (server.setLifecycle manager managed lifecycle)
  | takes {call id phase manager managed load next} :
      server.calls.find call = some ⟨id, phase⟩ →
      phase.manager = some manager →
      server.managers.find manager = some managed →
      managed.lifecycle.loads.find call = some load →
      server.takeResult call id manager load.phase = some next →
      Moves server (.takeResult call) next
  | cleans {call id error} :
      server.calls.find call = some ⟨id, .cleaning error⟩ →
      server.Writable →
      Moves server (.cleanUp call) (server.cleanUp call id error)
  | processes {update handler} :
      server.wardenHandler.processWardenUpdate update = some handler →
      Moves server (.processWardenUpdate update) { server with wardenHandler := handler }
  | spawns {call id rest} :
      server.wardenHandler.updates = .loadRange id :: rest →
      server.calls.find call = none →
      Moves server (.receiveUpdate call)
        { server.setPhase call id .looking with
          wardenHandler := { server.wardenHandler with updates := rest } }
  | unloads {call id rest} :
      server.updateLoop = .receiving →
      server.wardenHandler.updates = .unloadRange id :: rest →
      Moves server (.receiveUpdate call)
        { server with
          wardenHandler := { server.wardenHandler with updates := rest }
          updateLoop := .removing id }
  | removesNone {id} :
      server.updateLoop = .removing id →
      server.loadedRanges.find id.rangeId = none →
      Moves server .removeRange { server with updateLoop := .receiving }
  | removes {id manager} :
      server.updateLoop = .removing id →
      server.loadedRanges.find id.rangeId = some manager →
      Moves server .removeRange
        { server with
          loadedRanges := server.loadedRanges.erase id.rangeId
          updateLoop := .unloading manager }
  | unloaded {manager managed lifecycle} :
      server.updateLoop = .unloading manager →
      server.managers.find manager = some managed →
      managed.lifecycle.step .unload = some lifecycle →
      Moves server .unloadRange
        { server.setLifecycle manager managed lifecycle with updateLoop := .receiving }

variable {server next : LoadedRanges} {label : Label}

theorem moves_of_step (taken : server.step label = some next) : Moves server label next := by
  cases label with
  | call =>
    simp only [step] at taken
    split at taken
    next => cases taken
    next missing =>
      cases taken
      exact .calls missing
  | lookUp =>
    simp only [step] at taken
    split at taken
    next looking =>
      split at taken
      next =>
        split at taken
        next found =>
          cases taken
          exact .finds looking found
        next missing =>
          cases taken
          exact .misses looking missing
      next => cases taken
    next => cases taken
  | isAssigned =>
    simp only [step] at taken
    split at taken
    next checking =>
      split at taken
      next assigned =>
        cases taken
        exact .assigned checking assigned
      next unassigned =>
        cases taken
        exact .unassigned checking unassigned
    next => cases taken
  | lockTable =>
    simp only [step, lockTable] at taken
    split at taken
    next locking =>
      split at taken
      next =>
        split at taken
        next present =>
          cases taken
          exact .reuses locking present
        next missing =>
          split at taken
          next => cases taken
          next unused =>
            cases taken
            exact .inserts locking missing unused
      next => cases taken
    next => cases taken
  | load =>
    simp only [step] at taken
    split at taken
    next found =>
      split at taken
      next loads =>
        split at taken
        next known =>
          split at taken
          next moved =>
            cases taken
            exact .loads found loads known moved
          next => cases taken
        next => cases taken
      next => cases taken
    next => cases taken
  | takeResult =>
    simp only [step] at taken
    split at taken
    next found =>
      split at taken
      next loads =>
        split at taken
        next known =>
          split at taken
          next called => exact .takes found loads known called taken
          next => cases taken
        next => cases taken
      next => cases taken
    next => cases taken
  | cleanUp =>
    simp only [step] at taken
    split at taken
    next cleaning =>
      split at taken
      next writable =>
        cases taken
        exact .cleans cleaning writable
      next => cases taken
    next => cases taken
  | processWardenUpdate =>
    simp only [step] at taken
    split at taken
    next processed =>
      cases taken
      exact .processes processed
    next => cases taken
  | receiveUpdate =>
    simp only [step] at taken
    split at taken
    next updates =>
      split at taken
      next => cases taken
      next missing =>
        cases taken
        exact .spawns updates missing
    next receiving updates =>
      cases taken
      exact .unloads receiving updates
    next => cases taken
  | removeRange =>
    simp only [step] at taken
    split at taken
    next removing =>
      split at taken
      next =>
        split at taken
        next missing =>
          cases taken
          exact .removesNone removing missing
        next found =>
          cases taken
          exact .removes removing found
      next => cases taken
    next => cases taken
  | unloadRange =>
    simp only [step] at taken
    split at taken
    next unloading =>
      split at taken
      next known =>
        split at taken
        next unloaded =>
          cases taken
          exact .unloaded unloading known unloaded
        next => cases taken
      next => cases taken
    next => cases taken

end LoadedRanges

end Sangria.RangeServer
