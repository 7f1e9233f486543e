import Sangria.Lib.TransitionSystem
import Sangria.Warden.ReadyServers

/-!
# The loop of the assignment computation

`assignment_computation_loop` reads the base ranges, runs one assignment
computation with the servers that were ready when the previous one started, and
starts again.  Range servers register and leave at any time, in particular while
the persistence layer is called.
-/

namespace Sangria.Warden

open FiniteMap
open TransitionSystem

namespace AssignmentComputation

def new (version : Int) : AssignmentComputation := ⟨[], ∅, version, ∅, []⟩

/-- `register_range_server`; the epoch of a new connection has to be greater. -/
def registerRangeServer (computation : AssignmentComputation) (server : HostIdentity)
    (epoch : Nat) : AssignmentComputation :=
  match computation.readyRangeServers.find server with
  | some existing =>
    if epoch ≤ existing then computation
    else { computation with
      readyRangeServers := computation.readyRangeServers.insert server epoch }
  | none =>
    { computation with readyRangeServers := computation.readyRangeServers.insert server epoch }

/-- `notify_range_server_unavailable`; a newer connection is kept. -/
def notifyRangeServerUnavailable (computation : AssignmentComputation) (server : HostIdentity)
    (epoch : Nat) : AssignmentComputation :=
  match computation.readyRangeServers.find server with
  | some existing =>
    if existing ≤ epoch then
      { computation with readyRangeServers := computation.readyRangeServers.erase server }
    else computation
  | none => computation

end AssignmentComputation

/-- What an iteration found when it started, and how it ended. -/
structure Iterated where
  readyServers : Finset HostIdentity
  assignments : List RangeAssignment
  persisted : Bool
  published : Option Plan

inductive Phase where
  | reading
  | running
  | persisting (start : AssignmentComputation) (iteration : Iteration) (plan : Plan)
  | panicked

structure AssignmentLoop where
  computation : AssignmentComputation
  readyServers : HashMap HostIdentity Nat
  phase : Phase
  /-- The finished iterations, the last one first. -/
  iterations : List Iterated

namespace AssignmentLoop

inductive Label where
  | registerRangeServer (server : HostIdentity) (epoch : Nat)
  | notifyRangeServerUnavailable (server : HostIdentity) (epoch : Nat)
  | readBaseRanges (response : Option (List RangeInfo)) (inserted : Bool)
  | runAssignmentComputation (iteration : Iteration)
  | updateRangeAssignments (persisted : Bool)

/-- `run_assignment_computation` returns the servers that were ready at its start,
at whichever point it returns. -/
def finish (loop : AssignmentLoop) (start : AssignmentComputation) (persisted : Bool)
    (published : Option Plan) : AssignmentLoop :=
  { loop with
    readyServers := start.readyRangeServers
    phase := .reading
    iterations :=
      ⟨start.readyRangeServers.keys, start.assignments, persisted, published⟩ ::
        loop.iterations }

def step (loop : AssignmentLoop) : Label → Option AssignmentLoop
  | .registerRangeServer server epoch =>
    some { loop with computation := loop.computation.registerRangeServer server epoch }
  | .notifyRangeServerUnavailable server epoch =>
    some { loop with computation := loop.computation.notifyRangeServerUnavailable server epoch }
  | .readBaseRanges response inserted =>
    match loop.phase with
    | .reading =>
      match loop.computation.readBaseRanges response inserted with
      | .ok computation => some { loop with computation := computation, phase := .running }
      -- The error is only logged.
      | .error _ => some { loop with phase := .running }
    | _ => none
  | .runAssignmentComputation iteration =>
    match loop.phase with
    | .running =>
      if loop.computation.Iterates loop.readyServers iteration then
        match loop.computation.plan iteration with
        | .waits => some (loop.finish loop.computation true none)
        | .panics => some { loop with phase := .panicked }
        | .plans plan =>
          if Enumerates iteration.published plan.loads.keys then
            some { loop with phase := .persisting loop.computation iteration plan }
          else none
      else none
    | _ => none
  | .updateRangeAssignments persisted =>
    match loop.phase with
    | .persisting start iteration plan =>
      if persisted then
        match loop.computation.publish plan iteration.published with
        | none => some { loop with phase := .panicked }
        | some computation =>
          some (finish { loop with computation := computation } start true (some plan))
      else some (loop.finish start false none)
    | _ => none

def Initial (loop : AssignmentLoop) : Prop :=
  ∃ version, loop = ⟨.new version, ∅, .reading, []⟩

inductive Moves (loop : AssignmentLoop) : Label → AssignmentLoop → Prop where
  | servers {label} (readyRangeServers : HashMap HostIdentity Nat) :
      Moves loop label
        { loop with computation := { loop.computation with readyRangeServers } }
  | read {response inserted computation} :
      loop.phase = .reading →
      loop.computation.readBaseRanges response inserted = .ok computation →
      Moves loop (.readBaseRanges response inserted)
        { loop with computation := computation, phase := .running }
  | unread {response inserted} :
      loop.phase = .reading →
      Moves loop (.readBaseRanges response inserted) { loop with phase := .running }
  | waited {iteration} :
      loop.phase = .running →
      loop.computation.Iterates loop.readyServers iteration →
      loop.computation.plan iteration = .waits →
      Moves loop (.runAssignmentComputation iteration) (loop.finish loop.computation true none)
  | planned {iteration plan} :
      loop.phase = .running →
      loop.computation.Iterates loop.readyServers iteration →
      loop.computation.plan iteration = .plans plan →
      Enumerates iteration.published plan.loads.keys →
      Moves loop (.runAssignmentComputation iteration)
        { loop with phase := .persisting loop.computation iteration plan }
  | published {start iteration plan computation} :
      loop.phase = .persisting start iteration plan →
      loop.computation.publish plan iteration.published = some computation →
      Moves loop (.updateRangeAssignments true)
        (finish { loop with computation := computation } start true (some plan))
  | failed {start iteration plan} :
      loop.phase = .persisting start iteration plan →
      Moves loop (.updateRangeAssignments false) (loop.finish start false none)

end AssignmentLoop

/-! ## The plan -/

namespace Assigning

variable {assigning next : Assigning}

theorem assign_isSome (range : RangeInfo) (nonempty : assigning.serverHeap ≠ []) :
    ∃ next, assigning.assign range = some next ∧ next.serverHeap ≠ [] := by
  unfold assign
  split
  next empty => exact absurd (PriorityQueue.pop_eq_none.mp empty) nonempty
  next => exact ⟨_, rfl, List.cons_ne_nil _ _⟩

theorem assignAll_ne_none {ranges : List RangeInfo} (nonempty : assigning.serverHeap ≠ []) :
    assigning.assignAll ranges ≠ none := by
  induction ranges generalizing assigning with
  | nil => simp [assignAll]
  | cons range _ ih =>
    obtain ⟨next, assigned, remains⟩ := assign_isSome range nonempty
    rw [assignAll, assigned]
    exact ih remains

end Assigning

namespace AssignmentComputation

variable {comp : AssignmentComputation} {prevReadyServers : HashMap HostIdentity Nat}
  {iteration : Iteration} {plan : Plan}

theorem seedHeap_ne_nil {loads : Loads} (iterates : comp.Iterates prevReadyServers iteration)
    (enough : ¬ comp.readyRangeServers.keys.card < minNumRangeServers) :
    seedHeap loads iteration ≠ [] := by
  unfold seedHeap
  split
  next =>
    rw [ne_eq, List.map_eq_nil_iff]
    intro empty
    have noServers := iterates.2.2.1.2
    rw [empty, List.toFinset_nil] at noServers
    rw [← noServers] at enough
    exact enough Nat.one_pos
  next known => exact known

structure Plans (computation : AssignmentComputation) (iteration : Iteration) (plan : Plan)
    (queued : List RangeInfo) (left : Loads) (finished : Assigning) : Prop where
  enough : ¬ computation.readyRangeServers.keys.card < minNumRangeServers
  removed : removeServers (Loads.ofAssignments computation.assignments)
    computation.unassignedBaseRanges iteration.removed = (left, queued)
  assigned : Assigning.assignAll
    ⟨seedHeap (Loads.ofAssignments computation.assignments) iteration, left, []⟩ queued =
      some finished
  plan : plan = ⟨computation.readyRangeServers, computation.currentVersion + 1, finished.loads,
    finished.updatedAssignments, (queued.map RangeInfo.id).toFinset⟩

theorem exists_plans (planned : comp.plan iteration = .plans plan) :
    ∃ queued left finished, comp.Plans iteration plan queued left finished := by
  unfold AssignmentComputation.plan at planned
  split at planned
  next => cases planned
  next enough =>
    split at planned
    next => cases planned
    next =>
      split at planned
      next => cases planned
      next assignments current =>
        have same : comp.assignments = assignments := by
          rw [AssignmentComputation.assignments, current]
          rfl
        subst same
        simp only at planned
        split at planned
        next => cases planned
        next finished assigned =>
          cases planned
          exact ⟨_, _, finished, enough, rfl, assigned, rfl⟩

theorem plan_ne_panics (iterates : comp.Iterates prevReadyServers iteration)
    (current : comp.currentAssignments ≠ none) : comp.plan iteration ≠ .panics := by
  unfold AssignmentComputation.plan
  split
  next => simp
  next enough =>
    split
    next => simp
    next =>
      split
      next missing => exact absurd missing current
      next =>
        simp only
        split
        next exhausted =>
          exact absurd exhausted (Assigning.assignAll_ne_none (seedHeap_ne_nil iterates enough))
        next => simp

theorem not_waits_of_removed
    (waits : comp.plan iteration = .waits) (removed : iteration.removed ≠ []) :
    comp.readyRangeServers.keys.card < minNumRangeServers := by
  unfold AssignmentComputation.plan at waits
  split at waits
  next few => exact few
  next =>
    split at waits
    next unchanged => exact absurd unchanged.2.1 removed
    next =>
      split at waits
      next => cases waits
      next =>
        simp only at waits
        split at waits <;> cases waits

end AssignmentComputation

/-! ## Versions -/

namespace AssignmentComputation

variable {comp next : AssignmentComputation} {plan : Plan} {names : List String}

structure Versioned (computation : AssignmentComputation) : Prop where
  le : ∀ version ∈ computation.rangeAssignments.keys, version ≤ computation.currentVersion
  current : computation.currentAssignments ≠ none

theorem mem_keys_evict {rangeAssignments : HashMap Int (List RangeAssignment)} {version : Int}
    (kept : version ∈ (evict rangeAssignments).keys) : version ∈ rangeAssignments.keys := by
  unfold evict at kept
  split at kept
  next =>
    split at kept
    next =>
      rw [mem_keys, find_erase] at kept
      rw [mem_keys]
      split at kept
      next => simp at kept
      next => exact kept
    next => exact kept
  next => exact kept

theorem Versioned.publish (versioned : comp.Versioned)
    (follows : plan.newVersion = comp.currentVersion + 1) (names : List String) :
    ∃ next, comp.publish plan names = some next := by
  unfold AssignmentComputation.publish
  simp only
  split
  next present =>
    rw [← Finmap.mem_keys] at present
    have bound := versioned.le _ (mem_keys_evict present)
    omega
  next => exact ⟨_, rfl⟩

theorem publish_eq (ran : comp.publish plan names = some next) :
    next = { comp with
      rangeAssignments := (evict comp.rangeAssignments).insert plan.newVersion
        (newRangeAssignments plan names)
      currentVersion := plan.newVersion
      unassignedBaseRanges := comp.unassignedBaseRanges.filter fun range =>
        range.id ∉ plan.assignedRanges } := by
  unfold AssignmentComputation.publish at ran
  simp only at ran
  split at ran
  next => cases ran
  next => exact (Option.some.inj ran).symm

theorem currentAssignments_of_find {assignments : List RangeAssignment}
    (cached : comp.rangeAssignments.find comp.currentVersion = some assignments) :
    comp.currentAssignments = some assignments := by
  rw [currentAssignments, if_neg, cached]
  intro empty
  have present : comp.currentVersion ∈ comp.rangeAssignments.keys :=
    mem_keys.mpr ⟨assignments, cached⟩
  rw [empty] at present
  exact Finset.notMem_empty _ present

theorem currentAssignments_of_publish (ran : comp.publish plan names = some next) :
    next.currentAssignments = some (newRangeAssignments plan names) :=
  currentAssignments_of_find (find_currentVersion_of_publish ran)

theorem Versioned.published (versioned : comp.Versioned)
    (follows : plan.newVersion = comp.currentVersion + 1)
    (ran : comp.publish plan names = some next) : next.Versioned := by
  refine ⟨?_, ?_⟩
  · intro version present
    rw [publish_eq ran] at present ⊢
    rw [mem_keys, find_insert] at present
    split at present
    next same => exact same.le
    next =>
      have bound := versioned.le version (mem_keys_evict (mem_keys.mpr present))
      change version ≤ plan.newVersion
      omega
  · rw [currentAssignments_of_publish ran]
    simp

theorem readBaseRanges_eq {response : Option (List RangeInfo)} {inserted : Bool}
    (ok : comp.readBaseRanges response inserted = .ok next) :
    ∃ reported, response = some reported ∧ next = { comp with
      baseRanges := comp.baseRanges ++
        reported.filter fun range => range.id ∉ comp.baseRanges.map RangeInfo.id
      unassignedBaseRanges := comp.unassignedBaseRanges ++
        reported.filter fun range => range.id ∉ comp.baseRanges.map RangeInfo.id } := by
  unfold readBaseRanges at ok
  split at ok
  next => cases ok
  next reported =>
    split at ok
    next => cases ok
    next found =>
      split at ok
      next =>
        cases ok
        unfold newBaseRanges at found
        split at found
        next => cases found
        next =>
          cases found
          exact ⟨reported, rfl, rfl⟩
      next => cases ok

end AssignmentComputation

/-! ## The loop -/

namespace AssignmentLoop

variable {loop next : AssignmentLoop} {label : Label}

/-- The plan that waits for the persistence layer was made in this iteration. -/
structure Awaited (loop : AssignmentLoop) (start : AssignmentComputation) (iteration : Iteration)
    (plan : Plan) : Prop where
  iterates : start.Iterates loop.readyServers iteration
  planned : start.plan iteration = .plans plan
  enumerates : Enumerates iteration.published plan.loads.keys
  computation : loop.computation =
    { start with readyRangeServers := loop.computation.readyRangeServers }

structure Sound (loop : AssignmentLoop) : Prop where
  versioned : loop.computation.Versioned
  awaited : ∀ start iteration plan, loop.phase = .persisting start iteration plan →
    loop.Awaited start iteration plan
  running : loop.phase ≠ .panicked

theorem Sound.initial (started : Initial loop) : Sound loop := by
  obtain ⟨version, rfl⟩ := started
  refine ⟨⟨?_, ?_⟩, ?_, ?_⟩
  · intro version present
    simp [AssignmentComputation.new] at present
  · simp [AssignmentComputation.currentAssignments, AssignmentComputation.new]
  · intro start iteration plan persisting
    cases persisting
  · simp

theorem Awaited.newVersion {start : AssignmentComputation} {iteration : Iteration} {plan : Plan}
    (awaited : loop.Awaited start iteration plan) :
    plan.newVersion = loop.computation.currentVersion + 1 := by
  obtain ⟨queued, left, finished, plans⟩ := AssignmentComputation.exists_plans awaited.planned
  rw [plans.plan, awaited.computation]

theorem Sound.moves (sound : Sound loop) (taken : step loop label = some next) :
    Moves loop label next := by
  cases label with
  | registerRangeServer =>
    cases taken
    unfold AssignmentComputation.registerRangeServer
    split
    · split
      · exact .servers loop.computation.readyRangeServers
      · exact .servers _
    · exact .servers _
  | notifyRangeServerUnavailable =>
    cases taken
    unfold AssignmentComputation.notifyRangeServerUnavailable
    split
    · split
      · exact .servers _
      · exact .servers loop.computation.readyRangeServers
    · exact .servers loop.computation.readyRangeServers
  | readBaseRanges =>
    simp only [step] at taken
    split at taken
    next reading =>
      split at taken
      next ok =>
        cases taken
        exact .read reading ok
      next =>
        cases taken
        exact .unread reading
    next => cases taken
  | runAssignmentComputation =>
    simp only [step] at taken
    split at taken
    next running =>
      split at taken
      next iterates =>
        split at taken
        next waits =>
          cases taken
          exact .waited running iterates waits
        next panics =>
          exact absurd panics
            (AssignmentComputation.plan_ne_panics iterates sound.versioned.current)
        next planned =>
          split at taken
          next enumerates =>
            cases taken
            exact .planned running iterates planned enumerates
          next => cases taken
      next => cases taken
    next => cases taken
  | updateRangeAssignments =>
    simp only [step] at taken
    split at taken
    next iteration _ persisting =>
      split at taken
      next done =>
        subst done
        split at taken
        next asserted =>
          obtain ⟨comp, ran⟩ := sound.versioned.publish
            (sound.awaited _ _ _ persisting).newVersion iteration.published
          rw [asserted] at ran
          cases ran
        next ran =>
          cases taken
          exact .published persisting ran
      next undone =>
        cases taken
        rw [Bool.not_eq_true] at undone
        subst undone
        exact .failed persisting
    next => cases taken

theorem Sound.of_phase (versioned : loop.computation.Versioned)
    (phase : loop.phase = .reading ∨ loop.phase = .running) : Sound loop := by
  refine ⟨versioned, ?_, ?_⟩
  · intro start iteration plan persisting
    rw [persisting] at phase
    simp at phase
  · intro panicked
    rw [panicked] at phase
    simp at phase

theorem Sound.step (sound : Sound loop) (taken : AssignmentLoop.step loop label = some next) :
    Sound next := by
  cases sound.moves taken with
  | servers =>
    refine ⟨⟨sound.versioned.le, sound.versioned.current⟩, ?_, sound.running⟩
    intro start iteration plan persisting
    have awaited := sound.awaited start iteration plan persisting
    refine ⟨awaited.iterates, awaited.planned, awaited.enumerates, ?_⟩
    rw [awaited.computation]
  | read _ ok =>
    obtain ⟨reported, _, rfl⟩ := AssignmentComputation.readBaseRanges_eq ok
    exact .of_phase ⟨sound.versioned.le, sound.versioned.current⟩ (.inr rfl)
  | unread => exact .of_phase sound.versioned (.inr rfl)
  | waited | failed => exact .of_phase sound.versioned (.inl rfl)
  | planned _ iterates planned enumerates =>
    refine ⟨sound.versioned, ?_, ?_⟩
    · intro start iteration plan persisting
      cases persisting
      exact ⟨iterates, planned, enumerates, rfl⟩
    · simp
  | published persisting ran =>
    exact .of_phase
      (sound.versioned.published (sound.awaited _ _ _ persisting).newVersion ran) (.inl rfl)

def handedOverSchedule : List Label :=
  [.registerRangeServer (AssignmentComputation.exampleServer "A") 0,
    .readBaseRanges (some [AssignmentComputation.exampleRange 1]) true,
    .runAssignmentComputation ⟨[AssignmentComputation.exampleServer "A"], [],
      [AssignmentComputation.exampleServer "A"], [], ["A"]⟩,
    .updateRangeAssignments true,
    .notifyRangeServerUnavailable (AssignmentComputation.exampleServer "A") 0,
    .registerRangeServer (AssignmentComputation.exampleServer "B") 0,
    .readBaseRanges none true,
    .runAssignmentComputation ⟨[AssignmentComputation.exampleServer "B"],
      [AssignmentComputation.exampleServer "A"], [AssignmentComputation.exampleServer "B"], ["A"],
      ["B"]⟩,
    .updateRangeAssignments true]

end AssignmentLoop

end Sangria.Warden
