import Sangria.Lib.Broadcast
import Sangria.Warden.Loop

/-!
# Updates of the registered servers

A registration is answered with a receiver of the versions that are broadcast
after it, and the stream of the connection looks up the assignment of every
version it receives.  A server is known by its identity, so an iteration cannot
tell a new connection of a ready server from the old one, and broadcasts nothing
for it.
-/

namespace Sangria.Warden

open FiniteMap
open TransitionSystem
open Broadcast (Channel Receiver)

inductive Code where
  | alreadyExists
  | internal
  | resourceExhausted
  deriving DecidableEq

structure Status where
  code : Code
  message : String
  deriving DecidableEq

def Status.lagged (missed : Nat) : Status :=
  ⟨.resourceExhausted,
    "Channel Buffer exhausted. Please reopen channel. Lagged by " ++ toString missed⟩

/-- `FullAssignment`, the only update the warden sends. -/
structure FullAssignment where
  version : Int
  range : List FullRangeId
  deriving DecidableEq

def RangeInfo.fullRangeId (range : RangeInfo) : FullRangeId := ⟨range.keyspaceId, range.id⟩

namespace AssignmentComputation

/-- The connection that is known has the same or a newer epoch. -/
def Rejects (computation : AssignmentComputation) (server : HostIdentity) (epoch : Nat) : Prop :=
  ∃ existing ∈ computation.readyRangeServers.find server, epoch ≤ existing

instance (computation : AssignmentComputation) (server : HostIdentity) (epoch : Nat) :
    Decidable (computation.Rejects server epoch) :=
  inferInstanceAs (Decidable (∃ existing ∈ computation.readyRangeServers.find server, _))

def registration (computation : AssignmentComputation) (channel : Channel Int)
    (server : HostIdentity) (epoch : Nat) : Except Status Receiver :=
  if computation.Rejects server epoch then
    .error ⟨.alreadyExists, "Connection with a newer epoch already exists"⟩
  else .ok channel.subscribe

def assignedRanges (server : HostIdentity) (assignments : List RangeAssignment) :
    List FullRangeId :=
  (assignments.filter fun assignment => assignment.assignee = server.name).map
    fun assignment => assignment.range.fullRangeId

def getAssignmentUpdate (computation : AssignmentComputation) (server : HostIdentity)
    (version : Int) (_fullUpdate : Bool) : Option FullAssignment :=
  match computation.rangeAssignments.find version with
  | some rangeAssignments =>
    some ⟨computation.currentVersion, assignedRanges server rangeAssignments⟩
  | none => none

end AssignmentComputation

structure AssignmentUpdateStream where
  sentFullUpdate : Bool
  updateStream : Receiver

namespace AssignmentUpdateStream

def new (receiver : Receiver) : AssignmentUpdateStream := ⟨false, receiver⟩

/-- `poll_next`; no item while the receiver waits for a version. -/
def pollNext (stream : AssignmentUpdateStream) (computation : AssignmentComputation)
    (channel : Channel Int) (server : HostIdentity) :
    Option (Except Status FullAssignment) × AssignmentUpdateStream :=
  match channel.recv stream.updateStream with
  | (.pending, _) => (none, stream)
  | (.lagged missed, receiver) =>
    (some (.error (.lagged missed)), { stream with updateStream := receiver })
  | (.value version, receiver) =>
    match computation.getAssignmentUpdate server version !stream.sentFullUpdate with
    | some update => (some (.ok update), ⟨true, receiver⟩)
    | none =>
      (some (.error ⟨.internal,
        "Unexpected failure to retrieve assignment version " ++ toString version⟩),
        ⟨true, receiver⟩)

end AssignmentUpdateStream

structure Connection where
  epoch : Nat
  /-- As it was returned by the registration. -/
  receiver : Receiver
  stream : AssignmentUpdateStream
  /-- The number of iterations that had started when it was registered. -/
  before : Nat

structure WardenServer where
  loop : AssignmentLoop
  assignmentUpdates : Channel Int
  connections : HashMap HostIdentity Connection

namespace AssignmentLoop

def started (loop : AssignmentLoop) : Nat :=
  match loop.phase with
  | .persisting .. => loop.iterations.length + 1
  | _ => loop.iterations.length

def broadcasts (next : AssignmentLoop) : Label → Option Int
  | .updateRangeAssignments true =>
    match next.phase with
    | .panicked => none
    | _ => some next.computation.currentVersion
  | _ => none

end AssignmentLoop

namespace WardenServer

inductive Label where
  | loop (label : AssignmentLoop.Label)
  | pollNext (server : HostIdentity)

def connect (warden : WardenServer) : AssignmentLoop.Label → HashMap HostIdentity Connection
  | .registerRangeServer server epoch =>
    match warden.loop.computation.registration warden.assignmentUpdates server epoch with
    | .ok receiver =>
      warden.connections.insert server ⟨epoch, receiver, .new receiver, warden.loop.started⟩
    | .error _ => warden.connections
  | .notifyRangeServerUnavailable server epoch =>
    match warden.loop.computation.readyRangeServers.find server with
    | some existing =>
      if existing ≤ epoch then warden.connections.erase server else warden.connections
    | none => warden.connections
  | _ => warden.connections

def step (warden : WardenServer) : Label → Option WardenServer
  | .loop label =>
    match warden.loop.step label with
    | some next =>
      some
        { loop := next
          assignmentUpdates :=
            match next.broadcasts label with
            | some version => warden.assignmentUpdates.send version
            | none => warden.assignmentUpdates
          connections := warden.connect label }
    | none => none
  | .pollNext server =>
    match warden.connections.find server with
    | some connection =>
      let polled := connection.stream.pollNext warden.loop.computation
        warden.assignmentUpdates server
      some { warden with
        connections := warden.connections.insert server
          { connection with stream := polled.2 } }
    | none => none

def Initial (warden : WardenServer) : Prop :=
  AssignmentLoop.Initial warden.loop ∧ warden.assignmentUpdates = ⟨1, []⟩ ∧
    warden.connections = ∅

/-- No iteration that started after the registration has ended without an error. -/
def Awaits (connection : Connection) (iterations : List Iterated) : Prop :=
  ∀ iterated ∈ iterations.take (iterations.length - connection.before), iterated.persisted = false

instance (connection : Connection) (iterations : List Iterated) :
    Decidable (Awaits connection iterations) :=
  inferInstanceAs (Decidable (∀ iterated ∈ _, _))

/-- The last iteration broadcast a version to the receiver of the registration, for
which the server gets the ranges that are assigned to it. -/
structure Receives (warden : WardenServer) (server : HostIdentity) (connection : Connection)
    (last : Iterated) (plan : Plan) : Prop where
  published : last.published = some plan
  broadcast : (warden.assignmentUpdates.unseen connection.receiver).getLast? =
    some plan.newVersion
  update : ∀ fullUpdate,
    warden.loop.computation.getAssignmentUpdate server plan.newVersion fullUpdate =
      some ⟨plan.newVersion, AssignmentComputation.assignedRanges server
        warden.loop.computation.assignments⟩

/-- The last iteration is the first one after the registration of a current
connection that ended without an error. -/
structure IsNext (warden : WardenServer) (server : HostIdentity) (connection : Connection)
    (last : Iterated) (earlier : List Iterated) : Prop where
  current : warden.connections.find server = some connection
  iterations : warden.loop.iterations = last :: earlier
  started : connection.before ≤ earlier.length
  persisted : last.persisted = true
  awaited : Awaits connection earlier

def Delivers (warden : WardenServer) : Prop :=
  ∀ server connection last earlier, warden.IsNext server connection last earlier →
    ∃ plan, warden.Receives server connection last plan

/-- An iteration that a connection waits for finds other identities than the previous
iteration, or unassigned ranges. -/
def FindsChange (warden : WardenServer) : Label → Prop
  | .loop (.runAssignmentComputation _) =>
    (∃ server ∈ warden.connections.keys, ∃ connection ∈ warden.connections.find server,
      Awaits connection warden.loop.iterations) →
    warden.loop.computation.readyRangeServers.keys ≠ warden.loop.readyServers.keys ∨
      warden.loop.computation.unassignedBaseRanges ≠ []
  | _ => True

instance (warden : WardenServer) (label : Label) : Decidable (warden.FindsChange label) :=
  match label with
  | .loop (.runAssignmentComputation _) => inferInstanceAs (Decidable (_ → _))
  | .loop (.registerRangeServer ..) | .loop (.notifyRangeServerUnavailable ..)
  | .loop (.readBaseRanges ..) | .loop (.updateRangeAssignments ..) | .pollNext .. =>
    isTrue trivial

end WardenServer

/-! ## The change detection -/

namespace AssignmentComputation

variable {comp : AssignmentComputation} {server : HostIdentity} {epoch : Nat}

theorem registerRangeServer_of_rejects (rejects : comp.Rejects server epoch) :
    comp.registerRangeServer server epoch = comp := by
  obtain ⟨existing, known, older⟩ := rejects
  rw [Option.mem_def] at known
  simp only [registerRangeServer, known, if_pos older]

theorem registerRangeServer_of_accepts (accepts : ¬ comp.Rejects server epoch) :
    comp.registerRangeServer server epoch = { comp with
      readyRangeServers := comp.readyRangeServers.insert server epoch } := by
  unfold registerRangeServer
  split
  next existing known => rw [if_neg fun older => accepts ⟨existing, known, older⟩]
  next => rfl

def SameVersions (computation next : AssignmentComputation) : Prop :=
  next.rangeAssignments = computation.rangeAssignments ∧
    next.currentVersion = computation.currentVersion

theorem sameVersions_registerRangeServer (comp : AssignmentComputation)
    (server : HostIdentity) (epoch : Nat) :
    comp.SameVersions (comp.registerRangeServer server epoch) := by
  by_cases rejects : comp.Rejects server epoch
  · rw [registerRangeServer_of_rejects rejects]
    exact ⟨rfl, rfl⟩
  · rw [registerRangeServer_of_accepts rejects]
    exact ⟨rfl, rfl⟩

theorem sameVersions_notifyRangeServerUnavailable (comp : AssignmentComputation)
    (server : HostIdentity) (epoch : Nat) :
    comp.SameVersions (comp.notifyRangeServerUnavailable server epoch) := by
  unfold notifyRangeServerUnavailable
  split
  next =>
    split <;> exact ⟨rfl, rfl⟩
  next => exact ⟨rfl, rfl⟩

theorem unchanged_of_waits {prevReadyServers : HashMap HostIdentity Nat} {iteration : Iteration}
    (iterates : comp.Iterates prevReadyServers iteration)
    (waits : comp.plan iteration = .waits)
    (ready : server ∈ comp.readyRangeServers.keys) :
    comp.readyRangeServers.keys = prevReadyServers.keys ∧
      comp.unassignedBaseRanges = [] := by
  unfold AssignmentComputation.plan at waits
  split at waits
  next few =>
    rw [minNumRangeServers, Nat.lt_one_iff, Finset.card_eq_zero] at few
    rw [few] at ready
    exact absurd ready (Finset.notMem_empty _)
  next =>
    split at waits
    next unchanged =>
      have noneAdded := iterates.1.2
      have noneRemoved := iterates.2.1.2
      rw [unchanged.1, List.toFinset_nil, eq_comm, Finset.sdiff_eq_empty_iff_subset] at noneAdded
      rw [unchanged.2.1, List.toFinset_nil, eq_comm, Finset.sdiff_eq_empty_iff_subset]
        at noneRemoved
      exact ⟨noneAdded.antisymm noneRemoved, unchanged.2.2⟩
    next =>
      split at waits
      next => cases waits
      next =>
        simp only at waits
        split at waits <;> cases waits

theorem getAssignmentUpdate_current {assignments : List RangeAssignment}
    (cached : comp.rangeAssignments.find comp.currentVersion = some assignments)
    (server : HostIdentity) (fullUpdate : Bool) :
    comp.getAssignmentUpdate server comp.currentVersion fullUpdate =
      some ⟨comp.currentVersion, assignedRanges server comp.assignments⟩ := by
  rw [getAssignmentUpdate, cached, AssignmentComputation.assignments,
    currentAssignments_of_find cached]
  rfl

end AssignmentComputation

/-! ## The invariant -/

namespace AssignmentLoop

variable {loop next : AssignmentLoop}

theorem running_of_read {response : Option (List RangeInfo)} {inserted : Bool}
    (taken : AssignmentLoop.step loop (.readBaseRanges response inserted) = some next) :
    loop.phase = .reading ∧ ∃ comp,
      loop.computation.SameVersions comp ∧
      comp.readyRangeServers = loop.computation.readyRangeServers ∧
      next = { loop with computation := comp, phase := .running } := by
  simp only [AssignmentLoop.step] at taken
  split at taken
  next reading =>
    refine ⟨reading, ?_⟩
    split at taken
    next comp ok =>
      cases taken
      refine ⟨comp, ?_, ?_, rfl⟩
      · obtain ⟨reported, _, rfl⟩ := AssignmentComputation.readBaseRanges_eq ok
        exact ⟨rfl, rfl⟩
      · obtain ⟨reported, _, rfl⟩ := AssignmentComputation.readBaseRanges_eq ok
        rfl
    next =>
      cases taken
      exact ⟨loop.computation, ⟨rfl, rfl⟩, rfl, rfl⟩
  next => cases taken

/-- How an iteration goes on after it has looked at the ready servers. -/
inductive Begins (loop : AssignmentLoop) (iteration : Iteration) : AssignmentLoop → Prop where
  | waited :
      loop.computation.plan iteration = .waits →
      Begins loop iteration (loop.finish loop.computation true none)
  | planned (plan : Plan) :
      Begins loop iteration { loop with phase := .persisting loop.computation iteration plan }

theorem Sound.begins (sound : Sound loop) {iteration : Iteration}
    (taken : AssignmentLoop.step loop (.runAssignmentComputation iteration) = some next) :
    loop.phase = .running ∧ loop.computation.Iterates loop.readyServers iteration ∧
      loop.Begins iteration next := by
  simp only [AssignmentLoop.step] at taken
  split at taken
  next running =>
    split at taken
    next iterates =>
      refine ⟨running, iterates, ?_⟩
      split at taken
      next waits =>
        cases taken
        exact .waited waits
      next panics =>
        exact absurd panics (AssignmentComputation.plan_ne_panics iterates sound.versioned.current)
      next plan _ =>
        split at taken
        next =>
          cases taken
          exact .planned plan
        next => cases taken
    next => cases taken
  next => cases taken

/-- How an iteration ends after its call of the persistence layer. -/
inductive Ends (loop : AssignmentLoop) (start : AssignmentComputation) (plan : Plan) :
    Bool → AssignmentLoop → Prop where
  | published {names computation} :
      loop.computation.publish plan names = some computation →
      Ends loop start plan true
        (finish { loop with computation := computation } start true (some plan))
  | failed : Ends loop start plan false (loop.finish start false none)

theorem Sound.ends (sound : Sound loop) {persisted : Bool}
    (taken : AssignmentLoop.step loop (.updateRangeAssignments persisted) = some next) :
    ∃ start iteration plan, loop.phase = .persisting start iteration plan ∧
      loop.Ends start plan persisted next := by
  simp only [AssignmentLoop.step] at taken
  split at taken
  next start iteration plan persisting =>
    refine ⟨start, iteration, plan, persisting, ?_⟩
    split at taken
    next done =>
      subst done
      obtain ⟨comp, ran⟩ := sound.versioned.publish
        (sound.awaited _ _ _ persisting).newVersion iteration.published
      rw [ran] at taken
      cases taken
      exact .published ran
    next undone =>
      cases taken
      rw [Bool.not_eq_true] at undone
      subst undone
      exact .failed
  next => cases taken

end AssignmentLoop

namespace WardenServer

variable {warden next : WardenServer} {label : Label}
variable {server other : HostIdentity} {connection : Connection} {loop : AssignmentLoop}
  {epoch : Nat} {last : Iterated} {stream : AssignmentUpdateStream}

/-- The connection was there before the step, or was registered by it. -/
def Stems (warden : WardenServer) (server : HostIdentity) (connection : Connection) : Prop :=
  (∃ known, warden.connections.find server = some known ∧
    known.receiver = connection.receiver ∧ known.before = connection.before) ∨
  (connection.receiver = warden.assignmentUpdates.subscribe ∧
    connection.before = warden.loop.started)

theorem Stems.of_find (known : warden.connections.find server = some connection) :
    warden.Stems server connection :=
  .inl ⟨connection, known, rfl, rfl⟩

theorem stems_of_connect {label : AssignmentLoop.Label}
    (known : (warden.connect label).find server = some connection) :
    warden.Stems server connection := by
  unfold connect at known
  split at known
  next =>
    unfold AssignmentComputation.registration at known
    split at known
    next accepted =>
      split at accepted
      next => cases accepted
      next =>
        cases accepted
        rcases eq_or_find_of_insert known with ⟨_, rfl⟩ | old
        · exact .inr ⟨rfl, rfl⟩
        · exact .of_find old.2
    next => exact .of_find known
  next =>
    split at known
    next =>
      split at known
      next => exact .of_find (find_of_erase known).2
      next => exact .of_find known
    next => exact .of_find known
  next => exact .of_find known

structure Accounted (warden : WardenServer) : Prop where
  sound : warden.loop.Sound
  ready : ∀ server connection, warden.connections.find server = some connection →
    warden.loop.computation.readyRangeServers.find server = some connection.epoch
  before : ∀ server connection, warden.connections.find server = some connection →
    connection.before ≤ warden.loop.started
  subscribed : ∀ server connection, warden.connections.find server = some connection →
    connection.receiver.next ≤ warden.assignmentUpdates.sent.length
  delivers : warden.Delivers

theorem iterations_length_le_started (loop : AssignmentLoop) :
    loop.iterations.length ≤ loop.started := by
  unfold AssignmentLoop.started
  split <;> omega

theorem Accounted.within (accounted : warden.Accounted) (sound : next.loop.Sound)
    (ready : ∀ server connection, next.connections.find server = some connection →
      next.loop.computation.readyRangeServers.find server = some connection.epoch)
    (stems : ∀ server connection, next.connections.find server = some connection →
      warden.Stems server connection)
    (started : warden.loop.started ≤ next.loop.started)
    (iterations : next.loop.iterations = warden.loop.iterations)
    (updates : next.assignmentUpdates = warden.assignmentUpdates)
    (versions : warden.loop.computation.SameVersions next.loop.computation) :
    next.Accounted := by
  refine ⟨sound, ready, ?_, ?_, ?_⟩
  · intro server connection known
    rcases stems server connection known with ⟨before, found, _, same⟩ | fresh
    · rw [← same]
      exact (accounted.before server before found).trans started
    · rw [fresh.2]
      exact started
  · intro server connection known
    rw [updates]
    rcases stems server connection known with ⟨before, found, same, _⟩ | fresh
    · rw [← same]
      exact accounted.subscribed server before found
    · rw [fresh.1]
      exact le_rfl
  · intro server connection last earlier isNext
    have finished := isNext.iterations
    rw [iterations] at finished
    rcases stems server connection isNext.current with ⟨before, found, receiver, same⟩ | fresh
    · have awaited := isNext.awaited
      rw [Awaits, ← same] at awaited
      obtain ⟨plan, receives⟩ := accounted.delivers server before last earlier
        ⟨found, finished, same ▸ isNext.started, isNext.persisted, awaited⟩
      refine ⟨plan, receives.published, ?_, ?_⟩
      · rw [updates, ← receiver]
        exact receives.broadcast
      · intro fullUpdate
        rw [AssignmentComputation.getAssignmentUpdate, AssignmentComputation.assignments,
          AssignmentComputation.currentAssignments, versions.1, versions.2]
        exact receives.update fullUpdate
    · have early := isNext.started
      have late := iterations_length_le_started warden.loop
      rw [finished, List.length_cons, ← fresh.2] at late
      omega

theorem Accounted.registered (accounted : warden.Accounted)
    (known : (warden.connect (.registerRangeServer server epoch)).find other = some connection) :
    (warden.loop.computation.registerRangeServer server epoch).readyRangeServers.find other =
      some connection.epoch := by
  simp only [connect, AssignmentComputation.registration] at known
  by_cases rejects : warden.loop.computation.Rejects server epoch
  · rw [AssignmentComputation.registerRangeServer_of_rejects rejects]
    rw [if_pos rejects] at known
    exact accounted.ready other connection known
  · rw [AssignmentComputation.registerRangeServer_of_accepts rejects]
    rw [if_neg rejects] at known
    by_cases same : other = server
    · subst same
      rw [find_insert_self] at known ⊢
      cases known
      rfl
    · rw [find_insert_of_ne _ same] at known ⊢
      exact accounted.ready other connection known

theorem Accounted.lost (accounted : warden.Accounted)
    (known : (warden.connect (.notifyRangeServerUnavailable server epoch)).find other =
      some connection) :
    (warden.loop.computation.notifyRangeServerUnavailable server epoch).readyRangeServers.find
      other = some connection.epoch := by
  simp only [connect] at known
  unfold AssignmentComputation.notifyRangeServerUnavailable
  split
  next found =>
    simp only [found] at known
    split
    next older =>
      rw [if_pos older] at known
      by_cases same : other = server
      · subst same
        rw [find_erase_self] at known
        cases known
      · rw [find_erase_of_ne same] at known ⊢
        exact accounted.ready other connection known
    next newer =>
      rw [if_neg newer] at known
      exact accounted.ready other connection known
  next missing =>
    simp only [missing] at known
    exact accounted.ready other connection known

theorem Accounted.finish (accounted : warden.Accounted) {updates : Channel Int} (sound : loop.Sound)
    (ready : loop.computation.readyRangeServers = warden.loop.computation.readyRangeServers)
    (iterations : loop.iterations = last :: warden.loop.iterations)
    (started : warden.loop.started ≤ loop.started)
    (sent : warden.assignmentUpdates.sent.length ≤ updates.sent.length)
    (receives : ∀ server connection, warden.connections.find server = some connection →
      connection.before ≤ warden.loop.iterations.length → last.persisted = true →
      Awaits connection warden.loop.iterations →
        ∃ plan, Receives ⟨loop, updates, warden.connections⟩ server connection last plan) :
    Accounted ⟨loop, updates, warden.connections⟩ := by
  refine ⟨sound, ?_, ?_, ?_, ?_⟩
  · intro server connection known
    rw [ready]
    exact accounted.ready server connection known
  · intro server connection known
    exact (accounted.before server connection known).trans started
  · intro server connection known
    exact (accounted.subscribed server connection known).trans sent
  · intro server connection newest earlier isNext
    have finished := isNext.iterations
    simp only [iterations, List.cons.injEq] at finished
    obtain ⟨rfl, rfl⟩ := finished
    exact receives server connection isNext.current isNext.started isNext.persisted isNext.awaited

theorem Accounted.initial (warden : WardenServer) (started : warden.Initial) :
    warden.Accounted := by
  obtain ⟨loop, updates, connections⟩ := warden
  obtain ⟨first, rfl, rfl⟩ := started
  have none : ∀ server connection,
      ¬ find (∅ : HashMap HostIdentity Connection) server = some connection := by
    intro server connection known
    rw [find_empty] at known
    cases known
  refine ⟨.initial first, ?_, ?_, ?_, ?_⟩
  · intro server connection known
    exact absurd known (none server connection)
  · intro server connection known
    exact absurd known (none server connection)
  · intro server connection known
    exact absurd known (none server connection)
  · intro server connection last earlier isNext
    exact absurd isNext.current (none server connection)

theorem Accounted.polled (accounted : warden.Accounted)
    (found : warden.connections.find server = some connection) :
    Accounted { warden with
      connections := warden.connections.insert server { connection with stream := stream } } := by
  refine accounted.within accounted.sound ?_ ?_ le_rfl rfl rfl ⟨rfl, rfl⟩
  · intro other current known
    rcases eq_or_find_of_insert known with ⟨rfl, rfl⟩ | old
    · exact accounted.ready _ connection found
    · exact accounted.ready other current old.2
  · intro other current known
    rcases eq_or_find_of_insert known with ⟨rfl, rfl⟩ | old
    · exact .inl ⟨connection, found, rfl, rfl⟩
    · exact .of_find old.2

theorem Accounted.began (accounted : warden.Accounted) {iteration : Iteration}
    (changed : warden.FindsChange (.loop (.runAssignmentComputation iteration)))
    (taken : warden.loop.step (.runAssignmentComputation iteration) = some loop) :
    Accounted ⟨loop, warden.assignmentUpdates, warden.connections⟩ := by
  have sound := accounted.sound.step taken
  obtain ⟨running, iterates, begins⟩ := accounted.sound.begins taken
  have started : warden.loop.started = warden.loop.iterations.length := by
    rw [AssignmentLoop.started, running]
  cases begins with
  | planned =>
    refine accounted.within sound accounted.ready (fun _ _ known => .of_find known)
      ?_ rfl rfl ⟨rfl, rfl⟩
    rw [started]
    exact Nat.le_succ _
  | waited waits =>
    refine accounted.finish sound rfl rfl ?_ le_rfl ?_
    · rw [started]
      exact Nat.le_succ _
    · intro server connection known _ _ awaits
      have ready : server ∈ warden.loop.computation.readyRangeServers.keys :=
        mem_keys.mpr ⟨_, accounted.ready server connection known⟩
      obtain ⟨same, none⟩ := AssignmentComputation.unchanged_of_waits iterates waits ready
      have waiting : server ∈ warden.connections.keys := mem_keys.mpr ⟨_, known⟩
      rcases changed ⟨server, waiting, connection, known, awaits⟩ with ne | some
      · exact absurd same ne
      · exact absurd none some

theorem Accounted.ended (accounted : warden.Accounted) {persisted : Bool}
    (taken : warden.loop.step (.updateRangeAssignments persisted) = some loop) :
    Accounted
      { loop := loop
        assignmentUpdates :=
          match loop.broadcasts (.updateRangeAssignments persisted) with
          | some version => warden.assignmentUpdates.send version
          | none => warden.assignmentUpdates
        connections := warden.connections } := by
  have sound := accounted.sound.step taken
  obtain ⟨start, iteration, plan, persisting, ends⟩ := accounted.sound.ends taken
  have started : warden.loop.started = warden.loop.iterations.length + 1 := by
    rw [AssignmentLoop.started, persisting]
  cases ends with
  | failed =>
    refine accounted.finish sound rfl rfl started.le le_rfl ?_
    intro server connection _ _ done
    cases done
  | @published names comp ran =>
    have ready : comp.readyRangeServers =
        warden.loop.computation.readyRangeServers := by
      rw [AssignmentComputation.publish_eq ran]
    have version : comp.currentVersion = plan.newVersion := by
      rw [AssignmentComputation.publish_eq ran]
    refine accounted.finish sound ready rfl started.le ?_ ?_
    · change _ ≤ (warden.assignmentUpdates.sent ++ [_]).length
      rw [List.length_append]
      exact Nat.le_add_right _ _
    · intro server connection known _ _ _
      refine ⟨plan, rfl, ?_, ?_⟩
      · change ((warden.assignmentUpdates.send comp.currentVersion).unseen _).getLast? = _
        rw [Channel.unseen_send _ (accounted.subscribed server connection known), version,
          List.getLast?_concat]
      · intro fullUpdate
        rw [← version]
        exact AssignmentComputation.getAssignmentUpdate_current
          (AssignmentComputation.find_currentVersion_of_publish ran) server fullUpdate

theorem Accounted.step (warden next : WardenServer) (label : Label) (accounted : warden.Accounted)
    (changed : warden.FindsChange label) (taken : warden.step label = some next) :
    next.Accounted := by
  cases label with
  | pollNext =>
    simp only [WardenServer.step] at taken
    split at taken
    next found =>
      cases taken
      exact accounted.polled found
    next => cases taken
  | loop label =>
    simp only [WardenServer.step] at taken
    split at taken
    next moved =>
      cases taken
      have sound := accounted.sound.step moved
      cases label with
      | registerRangeServer server epoch =>
        cases moved
        exact accounted.within sound (fun _ _ known => accounted.registered known)
          (fun _ _ known => stems_of_connect known) le_rfl rfl rfl
          (warden.loop.computation.sameVersions_registerRangeServer server epoch)
      | notifyRangeServerUnavailable server epoch =>
        cases moved
        exact accounted.within sound (fun _ _ known => accounted.lost known)
          (fun _ _ known => stems_of_connect known) le_rfl rfl rfl
          (warden.loop.computation.sameVersions_notifyRangeServerUnavailable server epoch)
      | readBaseRanges =>
        obtain ⟨reading, comp, versions, ready, rfl⟩ :=
          AssignmentLoop.running_of_read moved
        refine accounted.within sound ?_ (fun _ _ known => .of_find known) ?_ rfl rfl versions
        · intro server connection known
          change comp.readyRangeServers.find server = _
          rw [ready]
          exact accounted.ready server connection known
        · rw [AssignmentLoop.started, reading]
          exact le_rfl
      | runAssignmentComputation => exact accounted.began changed moved
      | updateRangeAssignments => exact accounted.ended moved
    next => cases taken

/-- Every registration is served by the next iteration, if it finds a change. -/
theorem registrations_served {warden : WardenServer}
    (reached : Reachable WardenServer.step FindsChange Initial warden) : warden.Delivers :=
  (reached.invariant Accounted.initial Accounted.step).delivers

/-- The last iteration, if the current connection of the server waited for it. -/
def nextFor (warden : WardenServer) (server : HostIdentity) : Option Iterated :=
  match warden.connections.find server, warden.loop.iterations with
  | some connection, last :: earlier =>
    if connection.before ≤ earlier.length ∧ last.persisted = true ∧ Awaits connection earlier
    then some last
    else none
  | _, _ => none

theorem exists_isNext (found : warden.nextFor server = some last) :
    ∃ connection earlier, warden.IsNext server connection last earlier := by
  unfold nextFor at found
  split at found
  next connection _ earlier current iterations =>
    split at found
    next awaited =>
      cases found
      exact ⟨connection, earlier, current, iterations, awaited.1, awaited.2.1, awaited.2.2⟩
    next => cases found
  next => cases found

theorem not_delivers
    (missed : (warden.nextFor server).map (fun last => last.published.isSome) = some false) :
    ¬ warden.Delivers := by
  intro delivers
  obtain ⟨last, found, silent⟩ := Option.map_eq_some_iff.mp missed
  obtain ⟨connection, earlier, isNext⟩ := exists_isNext found
  obtain ⟨plan, receives⟩ := delivers server connection last earlier isNext
  rw [receives.published] at silent
  cases silent

def start : WardenServer := ⟨⟨.new 0, ∅, .reading, []⟩, ⟨1, []⟩, ∅⟩

def servedSchedule : List Label :=
  [.loop (.registerRangeServer (AssignmentComputation.exampleServer "A") 0),
    .loop (.readBaseRanges (some [AssignmentComputation.exampleRange 1]) true),
    .loop (.runAssignmentComputation ⟨[AssignmentComputation.exampleServer "A"], [],
      [AssignmentComputation.exampleServer "A"], [], ["A"]⟩),
    .loop (.updateRangeAssignments true),
    .pollNext (AssignmentComputation.exampleServer "A")]

/-- It connects again before its old connection is reported lost. -/
def reconnectedSchedule : List Label :=
  servedSchedule ++
    [.loop (.registerRangeServer (AssignmentComputation.exampleServer "A") 1),
      .loop (.readBaseRanges none true),
      .loop (.runAssignmentComputation ⟨[], [], [AssignmentComputation.exampleServer "A"],
        ["A"], []⟩)]

/-- Another server comes, and the update of the persistence layer fails once. -/
def unpersistedSchedule : List Label :=
  servedSchedule ++
    [.loop (.registerRangeServer (AssignmentComputation.exampleServer "B") 0),
      .loop (.readBaseRanges none true),
      .loop (.runAssignmentComputation ⟨[AssignmentComputation.exampleServer "B"], [],
        [AssignmentComputation.exampleServer "A", AssignmentComputation.exampleServer "B"],
        ["A"], ["A"]⟩),
      .loop (.updateRangeAssignments false),
      .loop (.readBaseRanges none true),
      .loop (.runAssignmentComputation ⟨[], [],
        [AssignmentComputation.exampleServer "A", AssignmentComputation.exampleServer "B"],
        ["A"], []⟩)]

theorem reconnection_unserved :
    (∃ warden : WardenServer, Reachable WardenServer.step (fun _ _ => True) Initial warden ∧
      warden.connections.keys = {AssignmentComputation.exampleServer "A"} ∧ ¬ warden.Delivers) ∧
    (∃ warden : WardenServer, Reachable WardenServer.step (fun _ _ => True) Initial warden ∧
      warden.connections.keys =
        {AssignmentComputation.exampleServer "A", AssignmentComputation.exampleServer "B"} ∧
      ¬ warden.Delivers) := by
  constructor
  · obtain ⟨warden, reached, passed⟩ := @exists_reachable_of_run _ _ WardenServer.step
      (fun _ _ => True) Initial _ start ⟨⟨0, rfl⟩, rfl, rfl⟩ reconnectedSchedule
      (fun warden => decide
        (warden.connections.keys = {AssignmentComputation.exampleServer "A"} ∧
          (warden.nextFor (AssignmentComputation.exampleServer "A")).map
            (fun last => last.published.isSome) = some false)) (by decide +kernel)
    obtain ⟨connected, missed⟩ := of_decide_eq_true passed
    exact ⟨warden, reached, connected, not_delivers missed⟩
  · obtain ⟨warden, reached, passed⟩ := @exists_reachable_of_run _ _ WardenServer.step
      (fun _ _ => True) Initial _ start ⟨⟨0, rfl⟩, rfl, rfl⟩ unpersistedSchedule
      (fun warden => decide
        (warden.connections.keys =
          {AssignmentComputation.exampleServer "A", AssignmentComputation.exampleServer "B"} ∧
          (warden.nextFor (AssignmentComputation.exampleServer "B")).map
            (fun last => last.published.isSome) = some false)) (by decide +kernel)
    obtain ⟨connected, missed⟩ := of_decide_eq_true passed
    exact ⟨warden, reached, connected, not_delivers missed⟩

/-- The server connects again, and there is a new range. -/
theorem registrations_served_reconnected : ∃ warden : WardenServer,
    Reachable WardenServer.step FindsChange Initial warden ∧
    (∃ connection last earlier, connection.epoch = 1 ∧
      warden.IsNext (AssignmentComputation.exampleServer "A") connection last earlier) ∧
    warden.Delivers := by
  obtain ⟨warden, reached, passed⟩ := @exists_reachable_of_run _ _ WardenServer.step
    FindsChange Initial _ start ⟨⟨0, rfl⟩, rfl, rfl⟩
    (servedSchedule ++
      [.loop (.registerRangeServer (AssignmentComputation.exampleServer "A") 1),
        .loop (.readBaseRanges (some [AssignmentComputation.exampleRange 1,
          AssignmentComputation.exampleRange 2]) true),
        .loop (.runAssignmentComputation ⟨[], [], [AssignmentComputation.exampleServer "A"],
          ["A"], ["A"]⟩),
        .loop (.updateRangeAssignments true)])
    (fun warden => decide
      (((warden.connections.find (AssignmentComputation.exampleServer "A")).map
          Connection.epoch = some 1) ∧
        (warden.nextFor (AssignmentComputation.exampleServer "A")).isSome = true))
    (by decide +kernel)
  obtain ⟨epoch, waited⟩ := of_decide_eq_true passed
  obtain ⟨last, found⟩ := Option.isSome_iff_exists.mp waited
  obtain ⟨connection, earlier, isNext⟩ := exists_isNext found
  rw [isNext.current] at epoch
  exact ⟨warden, reached, ⟨connection, last, earlier, Option.some.inj epoch, isNext⟩,
    registrations_served reached⟩

end WardenServer

end Sangria.Warden
