import Mathlib.Algebra.Order.Ring.Nat
import Sangria.Warden.Assignment

/-!
# Assignees are ready servers

The heap keeps the servers that left.  One of them is chosen as soon as every
ready server of the heap has reached its load, so the ranges to assign have to
fit below it.
-/

namespace Sangria.Warden

open FiniteMap

namespace Loads

theorem rangesOf_push (loads : Loads) (assignee server : String) (range : RangeInfo) :
    (loads.push assignee range).rangesOf server =
      loads.rangesOf server ++ if server = assignee then [range] else [] := by
  rw [push, rangesOf, find_insert]
  split
  next same =>
    subst same
    rfl
  next => rw [List.append_nil, rangesOf]

theorem rangesOf_erase (loads : Loads) (gone server : String) :
    rangesOf (loads.erase gone) server = if server = gone then [] else loads.rangesOf server := by
  rw [rangesOf, find_erase]
  split <;> rfl

theorem rangesOf_foldl (assignments : List RangeAssignment) (loads : Loads) (server : String) :
    rangesOf (assignments.foldl
        (fun loads assignment => loads.push assignment.assignee assignment.range) loads) server =
      loads.rangesOf server ++
        (assignments.filter fun assignment => assignment.assignee = server).map
          RangeAssignment.range := by
  induction assignments generalizing loads with
  | nil => simp
  | cons assignment _ ih =>
    rw [List.foldl_cons, ih, rangesOf_push, List.append_assoc]
    by_cases same : assignment.assignee = server
    · simp [same]
    · simp [same, Ne.symm same]

theorem rangesOf_ofAssignments (assignments : List RangeAssignment) (server : String) :
    (ofAssignments assignments).rangesOf server =
      (assignments.filter fun assignment => assignment.assignee = server).map
        RangeAssignment.range := by
  rw [ofAssignments, rangesOf_foldl]
  simp [rangesOf]

end Loads

theorem Loads.mem_keys_push (loads : Loads) (assignee server : String) (range : RangeInfo) :
    server ∈ Finmap.keys (loads.push assignee range) ↔ server = assignee ∨ server ∈ loads.keys := by
  rw [push, mem_keys, mem_keys, find_insert]
  split
  next same => simp [same]
  next ne => simp [ne]

theorem Loads.mem_keys_foldl (assignments : List RangeAssignment) (loads : Loads)
    (server : String) :
    server ∈ Finmap.keys (assignments.foldl
        (fun (loads : Loads) assignment => loads.push assignment.assignee assignment.range) loads) ↔
      server ∈ loads.keys ∨ server ∈ assignments.map RangeAssignment.assignee := by
  induction assignments generalizing loads with
  | nil => simp
  | cons _ _ ih =>
    rw [List.foldl_cons, ih, mem_keys_push, List.map_cons, List.mem_cons]
    tauto

theorem Loads.keys_ofAssignments (assignments : List RangeAssignment) :
    (ofAssignments assignments).keys = (assignments.map RangeAssignment.assignee).toFinset := by
  ext server
  rw [ofAssignments, mem_keys_foldl, List.mem_toFinset]
  simp

def load (assignments : List RangeAssignment) (server : String) : Nat :=
  (assignments.filter fun assignment => assignment.assignee = server).length

namespace AssignmentComputation

variable (computation : AssignmentComputation) (prevReadyServers : HashMap HostIdentity Nat)

def readyNames : Finset String := computation.readyRangeServers.keys.image HostIdentity.name

def addedServers : Finset HostIdentity :=
  computation.readyRangeServers.keys \ prevReadyServers.keys

def removedNames : Finset String :=
  (prevReadyServers.keys \ computation.readyRangeServers.keys).image HostIdentity.name

def assignments : List RangeAssignment := computation.currentAssignments.getD []

/-- The number of ranges to assign: the unassigned ones and those of the removed servers. -/
def demand : Nat :=
  computation.unassignedBaseRanges.length +
    (computation.assignments.filter fun assignment =>
      assignment.assignee ∈ computation.removedNames prevReadyServers).length

end AssignmentComputation

/-- How many ranges an entry of the heap takes before it is no longer below the bound. -/
def spare (bound : Nat ×ₗ String) (count : Nat) (server : String) : Nat :=
  if server < (ofLex bound).2 then (ofLex bound).1 + 1 - count else (ofLex bound).1 - count

namespace AssignmentComputation

variable (computation : AssignmentComputation) (prevReadyServers : HashMap HostIdentity Nat)

/-- How many ranges the ready servers of the heap take before all of them have
reached the load of `server`. -/
def room (server : String) : Nat :=
  let bound := toLex (load computation.assignments server, server)
  (∑ other ∈ (computation.assignments.map RangeAssignment.assignee).toFinset with
      other ∈ computation.readyNames,
    spare bound (load computation.assignments other) other) +
  ∑ added ∈ computation.addedServers prevReadyServers, spare bound 0 added.name

/-- The ready servers take all the ranges before one of them is as loaded as a
server that left with ranges. -/
def Fits : Prop :=
  ∀ server ∈ computation.removedNames prevReadyServers, server ∉ computation.readyNames →
    load computation.assignments server ≠ 0 →
    computation.demand prevReadyServers ≤ computation.room prevReadyServers server

instance : Decidable (computation.Fits prevReadyServers) :=
  inferInstanceAs (Decidable (∀ server ∈ computation.removedNames prevReadyServers, _ → _ → _))

end AssignmentComputation

/-! ## The loop over the ranges -/

theorem lt_of_spare_pos {bound : Nat ×ₗ String} {count : Nat} {server : String}
    (positive : 0 < spare bound count server) : toLex (count, server) < bound := by
  rw [Prod.Lex.lt_iff]
  unfold spare at positive
  split at positive
  next earlier =>
    by_cases less : count < (ofLex bound).1
    · exact .inl less
    · exact .inr ⟨show count = (ofLex bound).1 by omega, earlier⟩
  next => exact .inl (show count < (ofLex bound).1 by omega)

theorem spare_le_spare_succ (bound : Nat ×ₗ String) (count : Nat) (server : String) :
    spare bound count server ≤ spare bound (count + 1) server + 1 := by
  unfold spare
  split <;> omega

theorem spare_succ_lt_spare {bound : Nat ×ₗ String} {count : Nat} {server : String}
    (below : toLex (count, server) < bound) :
    spare bound (count + 1) server < spare bound count server := by
  rw [Prod.Lex.lt_iff] at below
  unfold spare
  rcases below with less | ⟨same, earlier⟩
  · change count < (ofLex bound).1 at less
    split <;> omega
  · change count = (ofLex bound).1 at same
    change server < (ofLex bound).2 at earlier
    rw [if_pos earlier, if_pos earlier]
    omega

def seat (ready : Finset String) (bound entry : Nat ×ₗ String) : Nat :=
  if (ofLex entry).2 ∈ ready then spare bound (ofLex entry).1 (ofLex entry).2 else 0

theorem seat_toLex (ready : Finset String) (bound : Nat ×ₗ String) (count : Nat)
    (server : String) : seat ready bound (toLex (count, server)) =
      if server ∈ ready then spare bound count server else 0 := rfl

/-- Only ready servers have ranges, and `remaining` ranges fit below every other
entry of the heap. -/
structure Contained (ready : Finset String) (assigning : Assigning) (remaining : Nat) : Prop where
  loads : ∀ server, assigning.loads.rangesOf server ≠ [] → server ∈ ready
  heap : ∀ entry ∈ assigning.serverHeap, (ofLex entry).2 ∉ ready →
    remaining ≤ (assigning.serverHeap.map (seat ready entry)).sum

namespace Contained

variable {ready : Finset String} {assigning next : Assigning} {range : RangeInfo} {remaining : Nat}

theorem least_ready (contained : Contained ready assigning (remaining + 1))
    {least : Nat ×ₗ String} {others : ServerHeap}
    (popped : PriorityQueue.pop assigning.serverHeap = some (least, others)) :
    (ofLex least).2 ∈ ready := by
  by_contra notReady
  obtain ⟨permuted, minimal⟩ := PriorityQueue.pop_spec popped
  have room := contained.heap least (permuted.mem_iff.mpr List.mem_cons_self) notReady
  have vanishes : (assigning.serverHeap.map (seat ready least)).sum = 0 := by
    rw [List.sum_eq_zero_iff]
    intro amount mem
    obtain ⟨entry, inHeap, rfl⟩ := List.mem_map.mp mem
    by_contra nonzero
    unfold seat at nonzero
    split at nonzero
    next =>
      exact absurd (lt_of_spare_pos (Nat.pos_of_ne_zero nonzero)) (minimal entry inHeap).not_gt
    next => exact nonzero rfl
  omega

theorem assign (contained : Contained ready assigning (remaining + 1))
    (assigned : assigning.assign range = some next) : Contained ready next remaining := by
  unfold Assigning.assign at assigned
  split at assigned
  next => cases assigned
  next least _ popped =>
    cases assigned
    have chosen := contained.least_ready popped
    obtain ⟨permuted, _⟩ := PriorityQueue.pop_spec popped
    refine ⟨?_, ?_⟩
    · intro server nonempty
      rw [Loads.rangesOf_push] at nonempty
      by_cases same : server = (ofLex least).2
      · exact same ▸ chosen
      · rw [if_neg same, List.append_nil] at nonempty
        exact contained.loads server nonempty
    · intro entry mem notReady
      have before : entry ∈ assigning.serverHeap := by
        rw [permuted.mem_iff]
        rcases List.mem_cons.mp mem with same | behind
        · subst same
          exact absurd chosen notReady
        · exact List.mem_cons_of_mem _ behind
      have room := contained.heap entry before notReady
      rw [(permuted.map (seat ready entry)).sum_eq, List.map_cons, List.sum_cons] at room
      have step := spare_le_spare_succ entry (ofLex least).1 (ofLex least).2
      rw [List.map_cons, List.sum_cons]
      simp only [seat, ofLex_toLex, chosen, if_true] at room ⊢
      omega

/-- The range that was assigned took a place below every entry that is not ready. -/
theorem of_assign (contained : Contained ready next remaining)
    (assigned : assigning.assign range = some next) :
    Contained ready assigning (remaining + 1) := by
  unfold Assigning.assign at assigned
  split at assigned
  next => cases assigned
  next least _ popped =>
    cases assigned
    obtain ⟨permuted, minimal⟩ := PriorityQueue.pop_spec popped
    have chosen : (ofLex least).2 ∈ ready := by
      apply contained.loads
      simp [Loads.rangesOf_push]
    refine ⟨?_, ?_⟩
    · intro server nonempty
      apply contained.loads
      rw [Loads.rangesOf_push]
      exact List.append_ne_nil_of_left_ne_nil nonempty _
    · intro entry mem notReady
      have ne : entry ≠ least := by
        rintro rfl
        exact notReady chosen
      have behind := (List.mem_cons.mp (permuted.mem_iff.mp mem)).resolve_left ne
      have room := contained.heap entry (List.mem_cons_of_mem _ behind) notReady
      have step := spare_succ_lt_spare (show toLex ((ofLex least).1, (ofLex least).2) < entry from
        lt_of_le_of_ne (minimal entry mem) ne.symm)
      rw [(permuted.map (seat ready entry)).sum_eq, List.map_cons, List.sum_cons]
      rw [List.map_cons, List.sum_cons] at room
      simp only [seat, ofLex_toLex, chosen, if_true] at room ⊢
      omega

theorem assignAll_iff {ranges : List RangeInfo}
    (assigned : assigning.assignAll ranges = some next) :
    Contained ready assigning ranges.length ↔
      ∀ server, next.loads.rangesOf server ≠ [] → server ∈ ready := by
  induction ranges generalizing assigning with
  | nil =>
    cases assigned
    exact ⟨loads, fun ready => ⟨ready, fun _ _ _ => Nat.zero_le _⟩⟩
  | cons _ _ ih =>
    simp only [Assigning.assignAll] at assigned
    split at assigned
    next => cases assigned
    next first =>
      rw [← ih assigned]
      exact ⟨fun contained => contained.assign first, fun contained => contained.of_assign first⟩

end Contained

/-! ## The start of the loop -/

namespace AssignmentComputation

theorem rangesOf_removeServers (removed : List HostIdentity) (loads : Loads)
    (queued : List RangeInfo) (server : String) :
    (removeServers loads queued removed).1.rangesOf server =
      if server ∈ removed.map HostIdentity.name then [] else loads.rangesOf server := by
  induction removed generalizing loads queued with
  | nil => simp [removeServers]
  | cons gone _ ih =>
    rw [removeServers, ih, Loads.rangesOf_erase]
    by_cases same : server = gone.name
    · simp [same]
    · simp [same]

private theorem countP_name (assignments : List RangeAssignment) (name : String)
    (names : List String) :
    (assignments.countP fun assignment => assignment.assignee = name) +
        (assignments.countP fun assignment =>
          assignment.assignee ∈ names ∧ assignment.assignee ≠ name) =
      assignments.countP fun assignment => assignment.assignee ∈ name :: names := by
  induction assignments with
  | nil => rfl
  | cons assignment _ ih =>
    simp only [List.countP_cons, ← ih]
    by_cases same : assignment.assignee = name
    · simp [same]
      omega
    · simp [same]
      omega

theorem length_removeServers (removed : List HostIdentity) (assignments : List RangeAssignment)
    (loads : Loads) (queued : List RangeInfo)
    (same : ∀ server, (loads.rangesOf server).length = load assignments server) :
    (removeServers loads queued removed).2.length = queued.length +
      (assignments.filter fun assignment =>
        assignment.assignee ∈ removed.map HostIdentity.name).length := by
  induction removed generalizing assignments loads queued with
  | nil => simp [removeServers]
  | cons gone rest ih =>
    have erased : ∀ server, (Loads.rangesOf (loads.erase gone.name) server).length =
        load (assignments.filter fun assignment => assignment.assignee ≠ gone.name) server := by
      intro server
      rw [Loads.rangesOf_erase, load, List.filter_filter]
      split
      next same =>
        subst same
        simp
      next ne =>
        rw [same, load]
        congr 1
        apply List.filter_congr
        intro assignment _
        by_cases other : assignment.assignee = server
        · simp [other, ne]
        · simp [other]
    have split := countP_name assignments gone.name (rest.map HostIdentity.name)
    simp only [List.countP_eq_length_filter] at split
    rw [removeServers, ih _ _ _ erased, List.length_append, same, load,
      List.filter_filter, List.map_cons, ← split, Nat.add_assoc]
    simp only [Bool.decide_and]

variable {computation : AssignmentComputation} {prevReadyServers : HashMap HostIdentity Nat}
  {iteration : Iteration}

theorem mem_removed_iff (iterates : computation.Iterates prevReadyServers iteration)
    (server : String) : server ∈ iteration.removed.map HostIdentity.name ↔
      server ∈ computation.removedNames prevReadyServers := by
  rw [List.mem_map, removedNames, Finset.mem_image]
  simp only [iterates.2.1.mem_iff]

theorem length_queued (iterates : computation.Iterates prevReadyServers iteration) :
    (removeServers (Loads.ofAssignments computation.assignments)
      computation.unassignedBaseRanges iteration.removed).2.length =
        computation.demand prevReadyServers := by
  rw [length_removeServers _ computation.assignments, demand]
  · simp only [mem_removed_iff iterates]
  · intro server
    rw [Loads.rangesOf_ofAssignments, List.length_map, load]

theorem sum_knownServers (iterates : computation.Iterates prevReadyServers iteration)
    (server : String) :
    ((knownServers (Loads.ofAssignments computation.assignments) iteration).map
        (seat computation.readyNames
          (toLex (load computation.assignments server, server)))).sum =
      computation.room prevReadyServers server := by
  rw [knownServers, List.map_append, List.sum_append, List.map_map, List.map_map,
    iterates.2.2.2.sum_map, iterates.1.sum_map, room, Finset.sum_filter]
  congr 1
  · change ∑ other ∈ (Loads.ofAssignments computation.assignments).keys, _ = _
    rw [Loads.keys_ofAssignments]
    apply Finset.sum_congr rfl
    intro other _
    rw [Function.comp_apply, seat_toLex, Loads.rangesOf_ofAssignments, List.length_map]
    rfl
  · apply Finset.sum_congr rfl
    intro added mem
    have ready : added.name ∈ computation.readyNames :=
      Finset.mem_image_of_mem _ (Finset.mem_sdiff.mp mem).1
    rw [Function.comp_apply, seat_toLex, if_pos ready]

theorem mem_removedNames_of_assigned
    (assigned : ∀ assignment ∈ computation.assignments,
      ∃ server ∈ prevReadyServers.keys, server.name = assignment.assignee)
    {assignment : RangeAssignment} (mem : assignment ∈ computation.assignments)
    (notReady : assignment.assignee ∉ computation.readyNames) :
    assignment.assignee ∈ computation.removedNames prevReadyServers := by
  obtain ⟨server, previous, named⟩ := assigned assignment mem
  rw [← named] at notReady ⊢
  apply Finset.mem_image_of_mem
  rw [Finset.mem_sdiff]
  exact ⟨previous, fun ready => notReady (Finset.mem_image_of_mem _ ready)⟩

theorem exists_assignment_of_load_ne_zero {assignments : List RangeAssignment} {server : String}
    (loaded : load assignments server ≠ 0) :
    ∃ assignment ∈ assignments, assignment.assignee = server := by
  obtain ⟨assignment, mem⟩ := List.exists_mem_of_length_pos (Nat.pos_of_ne_zero loaded)
  rw [List.mem_filter, decide_eq_true_eq] at mem
  exact ⟨assignment, mem⟩

/-- The heap, the loads and the assigned ranges when the loop starts. -/
def start (computation : AssignmentComputation) (iteration : Iteration) : Assigning :=
  ⟨seedHeap (Loads.ofAssignments computation.assignments) iteration,
    (removeServers (Loads.ofAssignments computation.assignments)
      computation.unassignedBaseRanges iteration.removed).1, []⟩

theorem contained_start (iterates : computation.Iterates prevReadyServers iteration)
    (assigned : ∀ assignment ∈ computation.assignments,
      ∃ server ∈ prevReadyServers.keys, server.name = assignment.assignee)
    (fits : computation.Fits prevReadyServers) :
    Contained computation.readyNames (start computation iteration)
      (computation.demand prevReadyServers) := by
  refine ⟨?_, ?_⟩
  · intro server nonempty
    rw [start, rangesOf_removeServers] at nonempty
    split at nonempty
    next => exact absurd rfl nonempty
    next kept =>
      rw [Loads.rangesOf_ofAssignments, ne_eq, List.map_eq_nil_iff,
        ← List.length_eq_zero_iff] at nonempty
      obtain ⟨assignment, mem, named⟩ := exists_assignment_of_load_ne_zero nonempty
      by_contra notReady
      rw [mem_removed_iff iterates, ← named] at kept
      exact kept (mem_removedNames_of_assigned assigned mem (named ▸ notReady))
  · intro entry mem notReady
    simp only [start, seedHeap] at mem ⊢
    split at mem
    next =>
      obtain ⟨server, ready, rfl⟩ := List.mem_map.mp mem
      exact absurd (Finset.mem_image_of_mem _ (iterates.2.2.1.mem_iff.mp ready)) notReady
    next nonempty =>
      rw [if_neg nonempty]
      rcases List.mem_append.mp mem with old | added
      · obtain ⟨server, member, rfl⟩ := List.mem_map.mp old
        rw [Loads.rangesOf_ofAssignments, List.length_map]
        have found : server ∈ (Loads.ofAssignments computation.assignments).keys :=
          iterates.2.2.2.mem_iff.mp member
        rw [Loads.keys_ofAssignments, List.mem_toFinset] at found
        obtain ⟨assignment, present, rfl⟩ := List.mem_map.mp found
        have loaded : load computation.assignments assignment.assignee ≠ 0 := by
          rw [load, ne_eq, List.length_eq_zero_iff, List.filter_eq_nil_iff]
          intro none
          exact none assignment present (by simp)
        have gone := mem_removedNames_of_assigned assigned present notReady
        exact (fits _ gone notReady loaded).trans_eq (sum_knownServers iterates _).symm
      · obtain ⟨server, member, rfl⟩ := List.mem_map.mp added
        have ready := (Finset.mem_sdiff.mp (iterates.1.mem_iff.mp member)).1
        exact absurd (Finset.mem_image_of_mem _ ready) notReady

theorem fits_of_contained (iterates : computation.Iterates prevReadyServers iteration)
    (contained : Contained computation.readyNames (start computation iteration)
      (computation.demand prevReadyServers)) : computation.Fits prevReadyServers := by
  intro server _ notReady loaded
  obtain ⟨assignment, mem, named⟩ := exists_assignment_of_load_ne_zero loaded
  have listed : server ∈ iteration.assignees := by
    apply iterates.2.2.2.mem_iff.mpr
    change server ∈ (Loads.ofAssignments computation.assignments).keys
    rw [Loads.keys_ofAssignments, List.mem_toFinset]
    exact named ▸ List.mem_map_of_mem mem
  have known : toLex (load computation.assignments server, server) ∈
      knownServers (Loads.ofAssignments computation.assignments) iteration := by
    apply List.mem_append_left
    refine List.mem_map.mpr ⟨server, listed, ?_⟩
    rw [Loads.rangesOf_ofAssignments, List.length_map]
    rfl
  have heap : (start computation iteration).serverHeap =
      knownServers (Loads.ofAssignments computation.assignments) iteration :=
    if_neg (List.ne_nil_of_mem known)
  have room := contained.heap (toLex (load computation.assignments server, server))
    (heap ▸ known) notReady
  rw [heap, sum_knownServers iterates] at room
  exact room

theorem rangesOf_plan_iff {plan : Plan} (iterates : computation.Iterates prevReadyServers iteration)
    (planned : computation.plan iteration = .plans plan)
    (assigned : ∀ assignment ∈ computation.assignments,
      ∃ server ∈ prevReadyServers.keys, server.name = assignment.assignee) :
    (∀ server, plan.loads.rangesOf server ≠ [] → server ∈ computation.readyNames) ↔
      computation.Fits prevReadyServers := by
  unfold AssignmentComputation.plan at planned
  split at planned
  next => cases planned
  next =>
    split at planned
    next => cases planned
    next =>
      split at planned
      next => cases planned
      next assignments current =>
        simp only at planned
        split at planned
        next => cases planned
        next finished =>
          cases planned
          have same : computation.assignments = assignments := by
            rw [AssignmentComputation.assignments, current]
            rfl
          subst same
          rw [← Contained.assignAll_iff finished, length_queued iterates]
          exact ⟨fits_of_contained iterates, contained_start iterates assigned⟩

theorem find_currentVersion_of_publish {current published : AssignmentComputation} {plan : Plan}
    {names : List String} (ran : current.publish plan names = some published) :
    published.rangeAssignments.find published.currentVersion =
      some (newRangeAssignments plan names) := by
  unfold publish at ran
  simp only at ran
  split at ran
  next => cases ran
  next =>
    cases ran
    exact find_insert_self ..

/-- The assignees of a published version are ready exactly when the ranges fit. -/
theorem assignee_mem_readyNames {laterReadyServers : HashMap HostIdentity Nat}
    {published : AssignmentComputation}
    (ran : computation.runAssignmentComputation prevReadyServers laterReadyServers iteration =
      some published)
    (assigned : ∀ assignment ∈ computation.assignments,
      ∃ server ∈ prevReadyServers.keys, server.name = assignment.assignee) :
    (∃ assignments, published.rangeAssignments.find published.currentVersion = some assignments ∧
      ∀ assignment ∈ assignments, ∃ server ∈ computation.readyRangeServers.keys,
        server.name = assignment.assignee) ↔ computation.Fits prevReadyServers := by
  unfold runAssignmentComputation at ran
  split at ran
  next => cases ran
  next => cases ran
  next plan planned =>
    split at ran
    next orders =>
      rw [← rangesOf_plan_iff orders.1 planned assigned, find_currentVersion_of_publish ran]
      constructor
      · rintro ⟨_, same, ready⟩ server nonempty
        cases same
        obtain ⟨range, held⟩ := List.exists_mem_of_ne_nil _ nonempty
        have listed : server ∈ iteration.published := by
          rw [orders.2.mem_iff, mem_keys, ← Option.isSome_iff_exists]
          by_contra missing
          rw [Loads.rangesOf, Option.not_isSome_iff_eq_none.mp missing] at nonempty
          exact nonempty rfl
        exact Finset.mem_image.mpr (ready ⟨range, server⟩
          (List.mem_flatMap.mpr ⟨server, listed, List.mem_map_of_mem held⟩))
      · intro ready
        refine ⟨_, rfl, ?_⟩
        intro assignment mem
        obtain ⟨server, _, mapped⟩ := List.mem_flatMap.mp mem
        obtain ⟨range, held, rfl⟩ := List.mem_map.mp mapped
        exact Finset.mem_image.mp (ready server (List.ne_nil_of_mem held))
    next => cases ran

def exampleServer (name : String) : HostIdentity := ⟨name, ⟨⟨none, "region"⟩, "zone"⟩⟩

def exampleRange (id : Uuid) : RangeInfo := ⟨⟨0⟩, id, .all⟩

def exampleComputation (assignments : List RangeAssignment) : AssignmentComputation :=
  ⟨[], Finmap.singleton 1 assignments, 1, Finmap.singleton (exampleServer "B") 0, []⟩

/-- Both servers had one range: the range of the one that left stays there. -/
theorem assignee_not_ready :
    ∃ (computation published : AssignmentComputation)
      (prevReadyServers laterReadyServers : HashMap HostIdentity Nat) (iteration : Iteration)
      (assignments : List RangeAssignment),
      (∀ assignment ∈ computation.assignments,
        ∃ server ∈ prevReadyServers.keys, server.name = assignment.assignee) ∧
      computation.runAssignmentComputation prevReadyServers laterReadyServers iteration =
        some published ∧
      published.rangeAssignments.find published.currentVersion = some assignments ∧
      ∃ assignment ∈ assignments, ∀ server ∈ computation.readyRangeServers.keys,
        server.name ≠ assignment.assignee := by
  have ran : ((exampleComputation
      [⟨exampleRange 1, "A"⟩, ⟨exampleRange 2, "B"⟩]).runAssignmentComputation
        ((Finmap.singleton (exampleServer "A") 0).insert (exampleServer "B") 0)
        (Finmap.singleton (exampleServer "B") 0)
        ⟨[], [exampleServer "A"], [exampleServer "B"], ["A", "B"], ["A", "B"]⟩).any
          (fun published => published.rangeAssignments.find published.currentVersion =
            some [⟨exampleRange 1, "A"⟩, ⟨exampleRange 2, "B"⟩]) = true := by
    decide +kernel
  obtain ⟨published, ran, found⟩ := (Option.any_eq_true _ _).mp ran
  exact ⟨_, published, _, _, _, _, by decide +kernel, ran, of_decide_eq_true found,
    by decide +kernel⟩

/-- The server that left had two ranges, and the other one takes both. -/
theorem assignee_mem_readyNames_example :
    ∃ published assignments,
      (exampleComputation
        [⟨exampleRange 1, "A"⟩, ⟨exampleRange 2, "A"⟩]).runAssignmentComputation
          (Finmap.singleton (exampleServer "A") 0) (Finmap.singleton (exampleServer "B") 0)
          ⟨[exampleServer "B"], [exampleServer "A"], [exampleServer "B"], ["A"], ["B"]⟩ =
        some published ∧
      published.rangeAssignments.find published.currentVersion = some assignments ∧
      ∀ assignment ∈ assignments, ∃ server ∈ (exampleComputation
          [⟨exampleRange 1, "A"⟩, ⟨exampleRange 2, "A"⟩]).readyRangeServers.keys,
        server.name = assignment.assignee := by
  obtain ⟨published, ran⟩ := Option.isSome_iff_exists.mp (show ((exampleComputation
      [⟨exampleRange 1, "A"⟩, ⟨exampleRange 2, "A"⟩]).runAssignmentComputation
        (Finmap.singleton (exampleServer "A") 0) (Finmap.singleton (exampleServer "B") 0)
        ⟨[exampleServer "B"], [exampleServer "A"], [exampleServer "B"], ["A"], ["B"]⟩).isSome =
          true by decide +kernel)
  obtain ⟨assignments, found, ready⟩ :=
    (assignee_mem_readyNames ran (by decide +kernel)).mpr (by decide +kernel)
  exact ⟨published, assignments, ran, found, ready⟩

end AssignmentComputation

end Sangria.Warden
