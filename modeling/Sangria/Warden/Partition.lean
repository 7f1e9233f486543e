import Mathlib.Algebra.BigOperators.Group.Finset.Piecewise
import Sangria.Warden.Loop

/-!
# No range is lost or duplicated

A plan moves the ranges of the removed servers and the unassigned ones to other
servers.  The ranges of the loads, together with those still to assign, stay the
same multiset throughout.
-/

namespace Sangria.Warden

open FiniteMap
open TransitionSystem

namespace Loads

def contents (loads : Loads) : Multiset RangeInfo :=
  ∑ server ∈ loads.keys, (loads.rangesOf server : Multiset RangeInfo)

theorem contents_eq_sum {loads : Loads} {servers : Finset String}
    (included : loads.keys ⊆ servers) :
    loads.contents = ∑ server ∈ servers, (loads.rangesOf server : Multiset RangeInfo) := by
  apply Finset.sum_subset included
  intro server _ absent
  rw [mem_keys, not_exists] at absent
  rw [rangesOf, Option.eq_none_iff_forall_ne_some.mpr absent]
  rfl

theorem contents_push (loads : Loads) (assignee : String) (range : RangeInfo) :
    (loads.push assignee range).contents = loads.contents + {range} := by
  have pushed : Finmap.keys (loads.push assignee range) ⊆ insert assignee loads.keys := by
    intro server present
    rw [Finset.mem_insert]
    exact (mem_keys_push loads assignee server range).mp present
  rw [contents_eq_sum pushed, contents_eq_sum (Finset.subset_insert assignee loads.keys)]
  simp only [rangesOf_push, ← Multiset.coe_add]
  rw [Finset.sum_add_distrib]
  congr 1
  have single : ∀ server, ((if server = assignee then [range] else [] : List RangeInfo) :
      Multiset RangeInfo) = if server = assignee then {range} else 0 := by
    intro server
    split <;> rfl
  simp [single]

theorem contents_erase (loads : Loads) (gone : String) :
    contents (loads.erase gone) + loads.rangesOf gone = loads.contents := by
  have erased : Finmap.keys (loads.erase gone) ⊆ insert gone loads.keys := by
    intro server present
    rw [mem_keys, find_erase] at present
    split at present
    next same => exact Finset.mem_insert.mpr (.inl same)
    next => exact Finset.mem_insert_of_mem (mem_keys.mpr present)
  have single : ∀ server ∈ insert gone loads.keys, (loads.rangesOf server : Multiset RangeInfo) =
      rangesOf (loads.erase gone) server +
        if server = gone then (loads.rangesOf gone : Multiset RangeInfo) else 0 := by
    intro server _
    rw [rangesOf_erase]
    split
    next same =>
      subst same
      simp
    next => simp
  rw [contents_eq_sum (Finset.subset_insert gone loads.keys), Finset.sum_congr rfl single,
    Finset.sum_add_distrib, contents_eq_sum erased]
  simp

theorem contents_foldl (assignments : List RangeAssignment) (loads : Loads) :
    contents (assignments.foldl
        (fun loads assignment => loads.push assignment.assignee assignment.range) loads) =
      loads.contents + (assignments.map RangeAssignment.range : List RangeInfo) := by
  induction assignments generalizing loads with
  | nil => simp
  | cons _ _ ih =>
    rw [List.foldl_cons, ih, contents_push, List.map_cons, add_assoc]
    rfl

theorem contents_ofAssignments (assignments : List RangeAssignment) :
    (ofAssignments assignments).contents =
    (assignments.map RangeAssignment.range : List RangeInfo) := by
  rw [ofAssignments, contents_foldl]
  simp [contents]

end Loads

namespace Assigning

variable {assigning next : Assigning}

theorem contents_assign {range : RangeInfo} (assigned : assigning.assign range = some next) :
    next.loads.contents = assigning.loads.contents + {range} := by
  unfold assign at assigned
  split at assigned
  next => cases assigned
  next =>
    cases assigned
    exact Loads.contents_push ..

theorem contents_assignAll {ranges : List RangeInfo}
    (assigned : assigning.assignAll ranges = some next) :
    next.loads.contents = assigning.loads.contents + ranges := by
  induction ranges generalizing assigning with
  | nil =>
    cases assigned
    simp
  | cons _ _ ih =>
    simp only [assignAll] at assigned
    split at assigned
    next => cases assigned
    next first =>
      rw [ih assigned, contents_assign first, add_assoc]
      rfl

end Assigning

namespace AssignmentComputation

variable {comp next : AssignmentComputation} {prevReadyServers : HashMap HostIdentity Nat}
  {iteration : Iteration} {plan : Plan}

theorem contents_removeServers (removed : List HostIdentity) (loads : Loads)
    (queued : List RangeInfo) :
    (removeServers loads queued removed).1.contents + (removeServers loads queued removed).2 =
      loads.contents + queued := by
  induction removed generalizing loads queued with
  | nil => rfl
  | cons gone _ ih =>
    rw [removeServers, ih, ← Loads.contents_erase loads gone.name,
      ← Multiset.coe_add, add_assoc, add_comm (queued : Multiset RangeInfo)]

theorem subset_removeServers (removed : List HostIdentity) (loads : Loads)
    (queued : List RangeInfo) : queued ⊆ (removeServers loads queued removed).2 := by
  induction removed generalizing loads queued with
  | nil => exact List.Subset.refl _
  | cons _ _ ih =>
    exact List.Subset.trans (List.subset_append_left ..) (ih ..)

theorem coe_newRangeAssignments {names : List String}
    (enumerates : Enumerates names plan.loads.keys) :
    ((newRangeAssignments plan names).map RangeAssignment.range : Multiset RangeInfo) =
      plan.loads.contents := by
  rw [Loads.contents, ← enumerates.sum_map, newRangeAssignments, List.map_flatMap]
  clear enumerates
  induction names with
  | nil => rfl
  | cons _ _ ih =>
    rw [List.flatMap_cons, ← Multiset.coe_add, ih, List.map_cons, List.sum_cons,
      List.map_map]
    congr 2
    exact List.map_id _

/-- A published version has the ranges that were assigned or unassigned, and none
stays unassigned. -/
theorem Plans.published {queued : List RangeInfo} {left : Loads} {finished : Assigning}
    {current : AssignmentComputation}
    (plans : comp.Plans iteration plan queued left finished)
    (enumerates : Enumerates iteration.published plan.loads.keys)
    (unassigned : current.unassignedBaseRanges = comp.unassignedBaseRanges)
    (ran : current.publish plan iteration.published = some next) :
    ((next.assignments.map RangeAssignment.range ++ next.unassignedBaseRanges : List RangeInfo) :
        Multiset RangeInfo) =
      (comp.assignments.map RangeAssignment.range ++ comp.unassignedBaseRanges :
        List RangeInfo) := by
  have all := contents_removeServers iteration.removed
    (Loads.ofAssignments comp.assignments) comp.unassignedBaseRanges
  have included := subset_removeServers iteration.removed
    (Loads.ofAssignments comp.assignments) comp.unassignedBaseRanges
  rw [plans.removed] at all included
  have emptied : next.unassignedBaseRanges = [] := by
    rw [publish_eq ran, unassigned, plans.plan]
    apply List.filter_eq_nil_iff.mpr
    intro range waiting
    simp only [List.mem_toFinset, decide_eq_true_eq, not_not]
    exact List.mem_map_of_mem (included waiting)
  rw [emptied, List.append_nil, assignments, currentAssignments_of_publish ran, Option.getD_some,
    coe_newRangeAssignments enumerates, plans.plan, Assigning.contents_assignAll plans.assigned]
  change left.contents + _ = _
  rw [all, Loads.contents_ofAssignments, Multiset.coe_add]

end AssignmentComputation

namespace AssignmentLoop

variable {loop next : AssignmentLoop} {label : Label}

def UniqueIds (_ : AssignmentLoop) : Label → Prop
  | .readBaseRanges (some reported) _ => (reported.map RangeInfo.id).Nodup
  | _ => True

instance (loop : AssignmentLoop) (label : Label) : Decidable (UniqueIds loop label) :=
  match label with
  | .readBaseRanges (some reported) _ =>
    inferInstanceAs (Decidable ((reported.map RangeInfo.id).Nodup))
  | .readBaseRanges none _ | .registerRangeServer .. | .notifyRangeServerUnavailable ..
  | .runAssignmentComputation _ | .updateRangeAssignments _ => isTrue trivial

/-- The base ranges are the assigned and the unassigned ones. -/
structure Partitioned (loop : AssignmentLoop) : Prop where
  sound : Sound loop
  unique : (loop.computation.baseRanges.map RangeInfo.id).Nodup
  ranges : ((loop.computation.assignments.map RangeAssignment.range ++
      loop.computation.unassignedBaseRanges : List RangeInfo) : Multiset RangeInfo) =
    loop.computation.baseRanges

theorem Partitioned.initial (loop : AssignmentLoop) (started : Initial loop) :
    Partitioned loop := by
  refine ⟨.initial started, ?_, ?_⟩
  · obtain ⟨version, rfl⟩ := started
    exact List.nodup_nil
  · obtain ⟨version, rfl⟩ := started
    rfl

theorem nodup_append_filter {known reported : List RangeInfo}
    (unique : (known.map RangeInfo.id).Nodup) (distinct : (reported.map RangeInfo.id).Nodup) :
    ((known ++ reported.filter fun range => range.id ∉ known.map RangeInfo.id).map
      RangeInfo.id).Nodup := by
  rw [List.map_append, List.nodup_append']
  refine ⟨unique, distinct.sublist (List.filter_sublist.map _), ?_⟩
  intro id isKnown isNew
  obtain ⟨range, kept, rfl⟩ := List.mem_map.mp isNew
  exact of_decide_eq_true (List.mem_filter.mp kept).2 isKnown

theorem Partitioned.step (loop next : AssignmentLoop) (label : Label)
    (partitioned : Partitioned loop) (distinct : UniqueIds loop label)
    (taken : AssignmentLoop.step loop label = some next) : Partitioned next := by
  have sound := partitioned.sound.step taken
  cases partitioned.sound.moves taken with
  | servers | unread | waited | failed => exact ⟨sound, partitioned.unique, partitioned.ranges⟩
  | read _ ok =>
    refine ⟨sound, ?_, ?_⟩
    · obtain ⟨reported, rfl, rfl⟩ := AssignmentComputation.readBaseRanges_eq ok
      exact nodup_append_filter partitioned.unique distinct
    · obtain ⟨reported, rfl, rfl⟩ := AssignmentComputation.readBaseRanges_eq ok
      have ranges := partitioned.ranges
      simp only [← Multiset.coe_add] at ranges ⊢
      rw [← ranges, add_assoc]
      rfl
  | planned =>
    exact ⟨sound, partitioned.unique, partitioned.ranges⟩
  | @published start iteration plan comp persisting ran =>
    have awaited := partitioned.sound.awaited start iteration plan persisting
    obtain ⟨queued, left, finished, plans⟩ :=
      AssignmentComputation.exists_plans awaited.planned
    have unassigned : loop.computation.unassignedBaseRanges = start.unassignedBaseRanges := by
      rw [awaited.computation]
    have assignments : loop.computation.assignments = start.assignments := by
      rw [awaited.computation]
      rfl
    have baseRanges : comp.baseRanges = loop.computation.baseRanges := by
      rw [AssignmentComputation.publish_eq ran]
    refine ⟨sound, ?_, ?_⟩
    · change (comp.baseRanges.map RangeInfo.id).Nodup
      rw [baseRanges]
      exact partitioned.unique
    · have moved := plans.published awaited.enumerates unassigned ran
      rw [← unassigned, ← assignments, partitioned.ranges, ← baseRanges] at moved
      exact moved

/-- Every base range is assigned in the current version or unassigned, once, and
there is no other range. -/
theorem base_range_occurs_once {loop : AssignmentLoop}
    (reached : Reachable AssignmentLoop.step UniqueIds Initial loop) :
    loop.phase ≠ .panicked ∧
    ∃ assignments, loop.computation.currentAssignments = some assignments ∧
      ∀ id, (assignments.map (fun assignment => assignment.range.id) ++
          loop.computation.unassignedBaseRanges.map RangeInfo.id).count id =
        if id ∈ loop.computation.baseRanges.map RangeInfo.id then 1 else 0 := by
  have partitioned := reached.invariant Partitioned.initial Partitioned.step
  refine ⟨partitioned.sound.running, ?_⟩
  obtain ⟨assignments, current⟩ :=
    Option.ne_none_iff_exists'.mp partitioned.sound.versioned.current
  refine ⟨assignments, current, ?_⟩
  intro id
  have same : loop.computation.assignments = assignments := by
    rw [AssignmentComputation.assignments, current]
    rfl
  have permuted := (Multiset.coe_eq_coe.mp partitioned.ranges).map RangeInfo.id
  rw [same, List.map_append, List.map_map] at permuted
  rw [← partitioned.unique.count]
  exact permuted.count_eq id

theorem base_range_occurs_once_handedOver : ∃ loop : AssignmentLoop,
    Reachable AssignmentLoop.step UniqueIds Initial loop ∧
    loop.computation.currentAssignments =
      some [⟨AssignmentComputation.exampleRange 1, "B"⟩] ∧
    loop.phase ≠ .panicked ∧
    ∃ assignments, loop.computation.currentAssignments = some assignments ∧
      ∀ id, (assignments.map (fun assignment => assignment.range.id) ++
          loop.computation.unassignedBaseRanges.map RangeInfo.id).count id =
        if id ∈ loop.computation.baseRanges.map RangeInfo.id then 1 else 0 := by
  obtain ⟨loop, reached, passed⟩ := @exists_reachable_of_run _ _ AssignmentLoop.step UniqueIds
    Initial _ ⟨.new 0, ∅, .reading, []⟩ ⟨0, rfl⟩ handedOverSchedule
    (fun loop => decide (loop.computation.currentAssignments =
      some [⟨AssignmentComputation.exampleRange 1, "B"⟩])) (by decide +kernel)
  exact ⟨loop, reached, of_decide_eq_true passed, base_range_occurs_once reached⟩

end AssignmentLoop

end Sangria.Warden
