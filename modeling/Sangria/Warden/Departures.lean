import Sangria.Warden.Loop

/-!
# Departures of servers

An iteration compares the ready servers with those of the previous iteration
only.  A departure that was seen by an iteration without effect, because no
server was ready or because the persistence layer failed, is forgotten.
-/

namespace Sangria.Warden

open TransitionSystem

namespace Iterated

variable (iterated : Iterated) (server : HostIdentity)

/-- Some server was ready, and the persistence layer did not fail. -/
def Succeeds : Prop := iterated.readyServers ≠ ∅ ∧ iterated.persisted = true

def Holds : Prop :=
  ∃ assignment ∈ iterated.assignments, assignment.assignee = server.name

/-- A version was published for which all the ranges of the server were queued. -/
def TreatsAsRemoved : Prop :=
  ∃ plan ∈ iterated.published, ∀ assignment ∈ iterated.assignments,
    assignment.assignee = server.name →
      assignment.range ∈ plan.updatedAssignments.map RangeAssignment.range

instance : Decidable iterated.Succeeds := inferInstanceAs (Decidable (_ ∧ _))

instance : Decidable (iterated.Holds server) :=
  inferInstanceAs (Decidable (∃ assignment ∈ iterated.assignments, _))

instance : Decidable (iterated.TreatsAsRemoved server) :=
  inferInstanceAs (Decidable (∃ plan ∈ iterated.published, ∀ assignment ∈ iterated.assignments, _))

end Iterated

/-- The server was ready when some iteration started; it is absent since then, and
no iteration since then succeeded. -/
def Pending (server : HostIdentity) : List Iterated → Prop
  | [] => False
  | last :: earlier =>
    server ∈ last.readyServers ∨ (¬ last.Succeeds ∧ Pending server earlier)

def Pending.decide (server : HostIdentity) : (iterations : List Iterated) →
    Decidable (Pending server iterations)
  | [] => isFalse id
  | _ :: earlier =>
    have := Pending.decide server earlier
    inferInstanceAs (Decidable (_ ∨ _))

instance (server : HostIdentity) (iterations : List Iterated) :
    Decidable (Pending server iterations) := Pending.decide server iterations

/-! ## The ranges to assign -/

theorem Assigning.map_updatedAssignments {assigning next : Assigning} {ranges : List RangeInfo}
    (assigned : assigning.assignAll ranges = some next) :
    next.updatedAssignments.map RangeAssignment.range =
      assigning.updatedAssignments.map RangeAssignment.range ++ ranges := by
  induction ranges generalizing assigning with
  | nil =>
    cases assigned
    simp
  | cons _ _ ih =>
    simp only [assignAll] at assigned
    split at assigned
    next => cases assigned
    next first =>
      rw [ih assigned]
      unfold assign at first
      split at first
      next => cases first
      next =>
        cases first
        simp

namespace AssignmentComputation

theorem mem_removeServers_of_queued {range : RangeInfo} (removed : List HostIdentity)
    (loads : Loads) (queued : List RangeInfo) (waiting : range ∈ queued) :
    range ∈ (removeServers loads queued removed).2 := by
  induction removed generalizing loads queued with
  | nil => exact waiting
  | cons _ _ ih =>
    exact ih _ _ (List.mem_append_left _ waiting)

theorem mem_removeServers {range : RangeInfo} {server : String} (removed : List HostIdentity)
    (loads : Loads) (queued : List RangeInfo) (held : range ∈ loads.rangesOf server)
    (gone : server ∈ removed.map HostIdentity.name) :
    range ∈ (removeServers loads queued removed).2 := by
  induction removed generalizing loads queued with
  | nil => cases gone
  | cons first rest ih =>
    rw [removeServers]
    by_cases same : server = first.name
    · subst same
      exact mem_removeServers_of_queued rest _ _ (List.mem_append_right _ held)
    · apply ih
      · rw [Loads.rangesOf_erase, if_neg same]
        exact held
      · exact (List.mem_cons.mp gone).resolve_left same

variable {comp : AssignmentComputation} {prevReadyServers : HashMap HostIdentity Nat}
  {iteration : Iteration} {plan : Plan} {server : HostIdentity}

theorem mem_removed (iterates : comp.Iterates prevReadyServers iteration)
    (previous : server ∈ prevReadyServers.keys)
    (absent : server ∉ comp.readyRangeServers.keys) : server ∈ iteration.removed :=
  iterates.2.1.mem_iff.mpr (Finset.mem_sdiff.mpr ⟨previous, absent⟩)

theorem requeued_of_plans (iterates : comp.Iterates prevReadyServers iteration)
    (planned : comp.plan iteration = .plans plan)
    (previous : server ∈ prevReadyServers.keys)
    (absent : server ∉ comp.readyRangeServers.keys)
    {assignment : RangeAssignment} (mem : assignment ∈ comp.assignments)
    (named : assignment.assignee = server.name) :
    assignment.range ∈ plan.updatedAssignments.map RangeAssignment.range := by
  obtain ⟨queued, left, finished, plans⟩ := exists_plans planned
  have held : assignment.range ∈
      (Loads.ofAssignments comp.assignments).rangesOf server.name := by
    rw [Loads.rangesOf_ofAssignments]
    apply List.mem_map_of_mem
    rw [List.mem_filter]
    exact ⟨mem, decide_eq_true named⟩
  have waiting := mem_removeServers iteration.removed _ comp.unassignedBaseRanges held
    (List.mem_map_of_mem (mem_removed iterates previous absent))
  rw [plans.removed] at waiting
  rw [plans.plan]
  change assignment.range ∈ finished.updatedAssignments.map RangeAssignment.range
  rw [Assigning.map_updatedAssignments plans.assigned]
  exact waiting

end AssignmentComputation

/-! ## The loop -/

namespace AssignmentLoop

variable {loop next : AssignmentLoop} {label : Label}

/-- No server that left since the previous iteration has ranges. -/
def NoneLeft (loop : AssignmentLoop) (start : AssignmentComputation) : Prop :=
  ∀ server ∈ loop.readyServers.keys \ start.readyRangeServers.keys,
    ∀ assignment ∈ start.assignments, assignment.assignee ≠ server.name

instance (loop : AssignmentLoop) (start : AssignmentComputation) :
    Decidable (loop.NoneLeft start) :=
  inferInstanceAs (Decidable (∀ server ∈ loop.readyServers.keys \ start.readyRangeServers.keys, _))

/-- An iteration that sees a server with ranges leave finds a ready server, and its
update of the persistence layer succeeds. -/
def Heeded (loop : AssignmentLoop) : Label → Prop
  | .runAssignmentComputation _ =>
    loop.computation.readyRangeServers.keys = ∅ → loop.NoneLeft loop.computation
  | .updateRangeAssignments persisted =>
    match loop.phase with
    | .persisting start _ _ => persisted = false → loop.NoneLeft start
    | _ => True
  | _ => True

instance (loop : AssignmentLoop) (label : Label) : Decidable (loop.Heeded label) :=
  match label with
  | .runAssignmentComputation _ => inferInstanceAs (Decidable (_ → _))
  | .updateRangeAssignments persisted =>
    match found : loop.phase with
    | .persisting start _ _ =>
      decidable_of_iff (persisted = false → loop.NoneLeft start) (by simp [Heeded, found])
    | .reading | .running | .panicked => isTrue (by simp [Heeded, found])
  | .readBaseRanges .. | .registerRangeServer .. | .notifyRangeServerUnavailable .. =>
    isTrue trivial

/-- Every departure is acted on, by the first iteration that can. -/
def Heeds (iterations : List Iterated) : Prop :=
  ∀ last earlier, (last :: earlier) <:+ iterations → ∀ server, Pending server earlier →
    server ∉ last.readyServers → last.Succeeds → last.Holds server → last.TreatsAsRemoved server

structure Remembers (loop : AssignmentLoop) : Prop where
  sound : Sound loop
  pending : ∀ server, Pending server loop.iterations → server ∈ loop.readyServers.keys ∨
    ∀ assignment ∈ loop.computation.assignments, assignment.assignee ≠ server.name
  heeds : Heeds loop.iterations

theorem Remembers.initial (loop : AssignmentLoop) (started : Initial loop) : Remembers loop := by
  refine ⟨.initial started, ?_, ?_⟩
  · obtain ⟨version, rfl⟩ := started
    intro server pending
    cases pending
  · obtain ⟨version, rfl⟩ := started
    intro last earlier suffix
    simp at suffix

theorem Remembers.within (remembers : Remembers loop) (sound : Sound next)
    (readyServers : next.readyServers = loop.readyServers)
    (iterations : next.iterations = loop.iterations)
    (assignments : next.computation.assignments = loop.computation.assignments) :
    Remembers next := by
  refine ⟨sound, ?_, ?_⟩
  · rw [iterations, readyServers, assignments]
    exact remembers.pending
  · rw [iterations]
    exact remembers.heeds

theorem Heeds.cons {last : Iterated} {earlier : List Iterated} (heeds : Heeds earlier)
    (acts : ∀ server, Pending server earlier → server ∉ last.readyServers → last.Succeeds →
      last.Holds server → last.TreatsAsRemoved server) : Heeds (last :: earlier) := by
  intro other before suffix
  rw [List.suffix_cons_iff] at suffix
  rcases suffix with same | older
  · cases same
    exact acts
  · exact heeds other before older

/-- A pending departure of a server with ranges is one since the previous iteration. -/
theorem Remembers.departed (remembers : Remembers loop) {server : HostIdentity}
    {start : AssignmentComputation} (same : loop.computation.assignments = start.assignments)
    (pending : Pending server loop.iterations)
    (holds : ∃ assignment ∈ start.assignments, assignment.assignee = server.name) :
    server ∈ loop.readyServers.keys := by
  rcases remembers.pending server pending with previous | none
  · exact previous
  · obtain ⟨assignment, mem, named⟩ := holds
    rw [same] at none
    exact absurd named (none assignment mem)

/-- An iteration without effect sees no departure of a server with ranges. -/
theorem Remembers.finish (remembers : Remembers loop) {start : AssignmentComputation}
    {persisted : Bool} (sound : Sound (loop.finish start persisted none))
    (same : loop.computation.assignments = start.assignments)
    (idle : (start.readyRangeServers.keys ≠ ∅ ∧ persisted = true) ∨ loop.NoneLeft start)
    (acts : ∀ server ∈ loop.readyServers.keys, server ∉ start.readyRangeServers.keys →
      start.readyRangeServers.keys ≠ ∅ → persisted = true → False) :
    Remembers (loop.finish start persisted none) := by
  refine ⟨sound, ?_, ?_⟩
  · intro server pending
    rcases pending with ready | before
    · exact .inl ready
    · by_cases ready : server ∈ start.readyRangeServers.keys
      · exact .inl ready
      right
      change ∀ assignment ∈ loop.computation.assignments, _
      rcases remembers.pending server before.2 with previous | none
      · rw [same]
        exact idle.resolve_left before.1 server (Finset.mem_sdiff.mpr ⟨previous, ready⟩)
      · exact none
  · apply remembers.heeds.cons
    intro server pending absent succeeds holds
    exact absurd succeeds.2 (acts server (remembers.departed same pending holds) absent succeeds.1)

theorem Remembers.step (loop next : AssignmentLoop) (label : Label) (remembers : Remembers loop)
    (heeded : loop.Heeded label) (taken : AssignmentLoop.step loop label = some next) :
    Remembers next := by
  have sound := remembers.sound.step taken
  cases remembers.sound.moves taken with
  | servers | unread | planned => exact remembers.within sound rfl rfl rfl
  | @read response inserted comp reading ok =>
    obtain ⟨reported, _, rfl⟩ := AssignmentComputation.readBaseRanges_eq ok
    exact remembers.within sound rfl rfl rfl
  | waited _ iterates waits =>
    apply remembers.finish sound rfl
    · by_cases empty : loop.computation.readyRangeServers.keys = ∅
      · exact .inr (heeded empty)
      · exact .inl ⟨empty, rfl⟩
    · intro server previous absent nonempty _
      have gone := AssignmentComputation.mem_removed iterates previous absent
      have few := AssignmentComputation.not_waits_of_removed waits (List.ne_nil_of_mem gone)
      rw [minNumRangeServers, Nat.lt_one_iff, Finset.card_eq_zero] at few
      exact nonempty few
  | @published start iteration plan comp persisting ran =>
    have awaited := remembers.sound.awaited start iteration plan persisting
    have same : loop.computation.assignments = start.assignments := by
      rw [awaited.computation]
      rfl
    obtain ⟨queued, left, finished, plans⟩ :=
      AssignmentComputation.exists_plans awaited.planned
    have nonempty : start.readyRangeServers.keys ≠ ∅ := by
      intro empty
      have enough := plans.enough
      rw [empty] at enough
      exact enough Nat.one_pos
    refine ⟨sound, ?_, ?_⟩
    · intro server pending
      rcases pending with ready | before
      · exact .inl ready
      · exact absurd ⟨nonempty, rfl⟩ before.1
    · apply remembers.heeds.cons
      intro server pending absent _ holds
      refine ⟨plan, rfl, ?_⟩
      intro assignment mem named
      exact AssignmentComputation.requeued_of_plans awaited.iterates awaited.planned
        (remembers.departed same pending holds) absent mem named
  | @failed start iteration plan persisting =>
    have awaited := remembers.sound.awaited start iteration plan persisting
    simp only [Heeded, persisting] at heeded
    apply remembers.finish sound
    · rw [awaited.computation]
      rfl
    · exact .inr (heeded trivial)
    · intro server _ _ _ done
      cases done

/-- A departure is acted on when no iteration without effect sees it. -/
theorem departures_heeded {loop : AssignmentLoop}
    (reached : Reachable AssignmentLoop.step Heeded Initial loop) : Heeds loop.iterations :=
  (reached.invariant Remembers.initial Remembers.step).heeds

/-- The last iteration finds the pending departure of a server with ranges. -/
def FindsDeparture (server : HostIdentity) : List Iterated → Prop
  | [] => False
  | last :: earlier =>
    Pending server earlier ∧ server ∉ last.readyServers ∧ last.Succeeds ∧ last.Holds server

instance (server : HostIdentity) (iterations : List Iterated) :
    Decidable (FindsDeparture server iterations) :=
  match iterations with
  | [] => isFalse id
  | _ :: _ => inferInstanceAs (Decidable (_ ∧ _))

/-- The only server leaves, an iteration finds no server, and another one comes. -/
def forgottenSchedule : List Label :=
  [.registerRangeServer (AssignmentComputation.exampleServer "A") 0,
    .readBaseRanges (some [AssignmentComputation.exampleRange 1]) true,
    .runAssignmentComputation ⟨[AssignmentComputation.exampleServer "A"], [],
      [AssignmentComputation.exampleServer "A"], [], ["A"]⟩,
    .updateRangeAssignments true,
    .notifyRangeServerUnavailable (AssignmentComputation.exampleServer "A") 0,
    .readBaseRanges none true,
    .runAssignmentComputation ⟨[], [AssignmentComputation.exampleServer "A"], [], ["A"], []⟩,
    .registerRangeServer (AssignmentComputation.exampleServer "B") 0,
    .readBaseRanges none true,
    .runAssignmentComputation ⟨[AssignmentComputation.exampleServer "B"], [],
      [AssignmentComputation.exampleServer "B"], ["A"], ["A"]⟩,
    .updateRangeAssignments true]

theorem departure_forgotten : ∃ loop : AssignmentLoop,
    Reachable AssignmentLoop.step (fun _ _ => True) Initial loop ∧ ¬ Heeds loop.iterations := by
  obtain ⟨loop, reached, passed⟩ := @exists_reachable_of_run _ _ AssignmentLoop.step
    (fun _ _ => True) Initial _ ⟨.new 0, ∅, .reading, []⟩ ⟨0, rfl⟩ forgottenSchedule
    (fun loop => decide (FindsDeparture (AssignmentComputation.exampleServer "A") loop.iterations ∧
      ∀ last ∈ loop.iterations.head?,
        ¬ last.TreatsAsRemoved (AssignmentComputation.exampleServer "A"))) (by decide +kernel)
  refine ⟨loop, reached, ?_⟩
  intro heeds
  obtain ⟨finds, ignored⟩ := of_decide_eq_true passed
  cases found : loop.iterations with
  | nil =>
    rw [found] at finds
    exact finds
  | cons last earlier =>
    rw [found] at finds ignored heeds
    obtain ⟨pending, absent, succeeds, holds⟩ := finds
    exact ignored last rfl
      (heeds last earlier (List.suffix_refl _) _ pending absent succeeds holds)

theorem departures_heeded_handedOver : ∃ loop : AssignmentLoop,
    Reachable AssignmentLoop.step Heeded Initial loop ∧
      FindsDeparture (AssignmentComputation.exampleServer "A") loop.iterations ∧
      Heeds loop.iterations := by
  obtain ⟨loop, reached, passed⟩ := @exists_reachable_of_run _ _ AssignmentLoop.step
    Heeded Initial _ ⟨.new 0, ∅, .reading, []⟩ ⟨0, rfl⟩ handedOverSchedule
    (fun loop => decide (FindsDeparture (AssignmentComputation.exampleServer "A") loop.iterations))
    (by decide +kernel)
  exact ⟨loop, reached, of_decide_eq_true passed, departures_heeded reached⟩

end AssignmentLoop

end Sangria.Warden
