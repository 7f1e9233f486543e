import Mathlib.Data.Finset.Max
import Mathlib.Data.String.Basic
import Mathlib.Data.Prod.Lex
import Sangria.Common.Types
import Sangria.Lib.Enumeration

/-!
# The computation of range assignments

`AssignmentComputationImpl` of the warden.  `run_assignment_computation` waits
for the persistence layer once: `plan` is what it does before, `publish` what it
does afterwards.  The lists of an `Iteration` are the orders in which the hash
maps and hash sets are iterated.
-/

namespace Sangria.Warden

structure HostIdentity where
  name : String
  zone : Zone
  deriving DecidableEq

structure RangeInfo where
  keyspaceId : KeyspaceId
  id : Uuid
  keyRange : KeyRange
  deriving DecidableEq

structure RangeAssignment where
  range : RangeInfo
  assignee : String
  deriving DecidableEq

/-- Ready servers are compared by their identity; they are kept with the epoch
of their connection. -/
structure AssignmentComputation where
  baseRanges : List RangeInfo
  rangeAssignments : HashMap Int (List RangeAssignment)
  currentVersion : Int
  readyRangeServers : HashMap HostIdentity Nat
  unassignedBaseRanges : List RangeInfo

def minNumRangeServers : Nat := 1

def maxVersionsToKeep : Nat := 5

structure Iteration where
  added : List HostIdentity
  removed : List HostIdentity
  ready : List HostIdentity
  assignees : List String
  published : List String

/-- `assignee_to_range_info`. -/
abbrev Loads := HashMap String (List RangeInfo)

namespace Loads

def push (loads : Loads) (assignee : String) (range : RangeInfo) : Loads :=
  loads.insert assignee ((loads.find assignee).getD [] ++ [range])

def ofAssignments (assignments : List RangeAssignment) : Loads :=
  assignments.foldl (fun loads assignment => loads.push assignment.assignee assignment.range) ∅

def rangesOf (loads : Loads) (assignee : String) : List RangeInfo :=
  (loads.find assignee).getD []

end Loads

/-- `BinaryHeap<Reverse<(usize, String)>>`. -/
abbrev ServerHeap := List (Nat ×ₗ String)

structure Assigning where
  serverHeap : ServerHeap
  loads : Loads
  updatedAssignments : List RangeAssignment

/-- One iteration of the loop over the ranges to assign; the heap is unwrapped. -/
def Assigning.assign (assigning : Assigning) (range : RangeInfo) : Option Assigning :=
  match PriorityQueue.pop assigning.serverHeap with
  | none => none
  | some (nextServer, others) =>
    let count := (ofLex nextServer).1
    let server := (ofLex nextServer).2
    some
      { serverHeap := toLex (count + 1, server) :: others
        loads := assigning.loads.push server range
        updatedAssignments := assigning.updatedAssignments ++ [⟨range, server⟩] }

def Assigning.assignAll : Assigning → List RangeInfo → Option Assigning
  | assigning, [] => some assigning
  | assigning, range :: rest =>
    match assigning.assign range with
    | none => none
    | some next => next.assignAll rest

/-- What is known when the persistence layer is called. -/
structure Plan where
  newReadyServers : HashMap HostIdentity Nat
  newVersion : Int
  loads : Loads
  updatedAssignments : List RangeAssignment
  assignedRanges : Finset Uuid

inductive Outcome where
  | waits
  | panics
  | plans (plan : Plan)

inductive ReadBaseRangesError where
  | universe
  | notFound (range : RangeInfo)
  | persistence

namespace AssignmentComputation

/-- The reported ranges that are not known; every known range has to be reported. -/
def newBaseRanges (computation : AssignmentComputation) (reported : List RangeInfo) :
    Except ReadBaseRangesError (List RangeInfo) :=
  match computation.baseRanges.find? fun range => range.id ∉ reported.map RangeInfo.id with
  | some range => .error (.notFound range)
  | none =>
    .ok (reported.filter fun range => range.id ∉ computation.baseRanges.map RangeInfo.id)

/-- `read_base_ranges`, given the answer of the universe and whether the new
ranges could be inserted in the persistence layer. -/
def readBaseRanges (computation : AssignmentComputation) (response : Option (List RangeInfo))
    (inserted : Bool) : Except ReadBaseRangesError AssignmentComputation :=
  match response with
  | none => .error .universe
  | some reported =>
    match computation.newBaseRanges reported with
    | .error error => .error error
    | .ok ranges =>
      if inserted then
        .ok
          { computation with
            baseRanges := computation.baseRanges ++ ranges
            unassignedBaseRanges := computation.unassignedBaseRanges ++ ranges }
      else .error .persistence

/-- The assignments of the current version; the lookup is unwrapped unless no
version was published yet. -/
def currentAssignments (computation : AssignmentComputation) : Option (List RangeAssignment) :=
  if computation.rangeAssignments.keys = ∅ then some []
  else computation.rangeAssignments.find computation.currentVersion

def knownServers (loads : Loads) (iteration : Iteration) : ServerHeap :=
  iteration.assignees.map (fun server => toLex ((loads.rangesOf server).length, server)) ++
    iteration.added.map (fun server : HostIdentity => toLex (0, server.name))

/-- The heap is filled before the removed servers are taken out of the loads. -/
def seedHeap (loads : Loads) (iteration : Iteration) : ServerHeap :=
  if knownServers loads iteration = [] then
    iteration.ready.map (fun server : HostIdentity => toLex (0, server.name))
  else knownServers loads iteration

/-- The loads of the removed servers are taken out and their ranges are queued. -/
def removeServers (loads : Loads) (queued : List RangeInfo) :
    List HostIdentity → Loads × List RangeInfo
  | [] => (loads, queued)
  | server :: rest =>
    removeServers (loads.erase server.name) (queued ++ loads.rangesOf server.name) rest

/-- `run_assignment_computation` up to the update of the persistence layer. -/
def plan (computation : AssignmentComputation) (iteration : Iteration) : Outcome :=
  if computation.readyRangeServers.keys.card < minNumRangeServers then .waits
  else if iteration.added = [] ∧ iteration.removed = [] ∧
      computation.unassignedBaseRanges = [] then .waits
  else
    match computation.currentAssignments with
    | none => .panics
    | some assignments =>
      let loads := Loads.ofAssignments assignments
      let removed := removeServers loads computation.unassignedBaseRanges iteration.removed
      match Assigning.assignAll ⟨seedHeap loads iteration, removed.1, []⟩ removed.2 with
      | none => .panics
      | some assigned =>
        .plans
          { newReadyServers := computation.readyRangeServers
            newVersion := computation.currentVersion + 1
            loads := assigned.loads
            updatedAssignments := assigned.updatedAssignments
            assignedRanges := (removed.2.map RangeInfo.id).toFinset }

/-- The oldest version goes when there are more than `maxVersionsToKeep`. -/
def evict (rangeAssignments : HashMap Int (List RangeAssignment)) :
    HashMap Int (List RangeAssignment) :=
  if maxVersionsToKeep < rangeAssignments.keys.card then
    match rangeAssignments.keys.min with
    | some oldest => rangeAssignments.erase oldest
    | none => rangeAssignments
  else rangeAssignments

def newRangeAssignments (plan : Plan) (published : List String) : List RangeAssignment :=
  published.flatMap fun assignee =>
    (plan.loads.rangesOf assignee).map fun range => ⟨range, assignee⟩

/-- `run_assignment_computation` after a successful update; `none` is the failed
assertion on the new version. -/
def publish (computation : AssignmentComputation) (plan : Plan) (published : List String) :
    Option AssignmentComputation :=
  let kept := evict computation.rangeAssignments
  if plan.newVersion ∈ kept then none
  else some
    { computation with
      rangeAssignments := kept.insert plan.newVersion (newRangeAssignments plan published)
      currentVersion := plan.newVersion
      unassignedBaseRanges :=
        computation.unassignedBaseRanges.filter fun range => range.id ∉ plan.assignedRanges }

def Iterates (computation : AssignmentComputation)
    (prevReadyServers : HashMap HostIdentity Nat) (iteration : Iteration) : Prop :=
  Enumerates iteration.added (computation.readyRangeServers.keys \ prevReadyServers.keys) ∧
    Enumerates iteration.removed (prevReadyServers.keys \ computation.readyRangeServers.keys) ∧
    Enumerates iteration.ready computation.readyRangeServers.keys ∧
    Enumerates iteration.assignees
      (Loads.ofAssignments (computation.currentAssignments.getD [])).keys

instance (computation : AssignmentComputation) (prevReadyServers : HashMap HostIdentity Nat)
    (iteration : Iteration) : Decidable (computation.Iterates prevReadyServers iteration) :=
  inferInstanceAs (Decidable (_ ∧ _))

/-- A run of `run_assignment_computation(prev_ready_servers)` that publishes a
version; servers can register and leave while the persistence layer is called. -/
def runAssignmentComputation (computation : AssignmentComputation)
    (prevReadyServers laterReadyServers : HashMap HostIdentity Nat) (iteration : Iteration) :
    Option AssignmentComputation :=
  match computation.plan iteration with
  | .waits | .panics => none
  | .plans plan =>
    if computation.Iterates prevReadyServers iteration ∧
        Enumerates iteration.published plan.loads.keys then
      { computation with readyRangeServers := laterReadyServers }.publish plan
        iteration.published
    else none

end AssignmentComputation

end Sangria.Warden
