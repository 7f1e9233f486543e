import Sangria.RangeServer.Server.LoadedRanges

/-!
# The updates replay the assignment

Whoever applies the loads and unloads that the warden handler sends, in their
order, has the assigned ranges after every update of the warden.
-/

namespace Sangria.RangeServer

namespace WardenUpdate

/-- No range is loaded twice, and no range is unloaded that is not there. -/
def replay (ranges : Finset FullRangeId) : List WardenUpdate → Option (Finset FullRangeId)
  | [] => some ranges
  | .loadRange id :: updates => if id ∈ ranges then none else replay (insert id ranges) updates
  | .unloadRange id :: updates => if id ∈ ranges then replay (ranges.erase id) updates else none

variable {ranges : Finset FullRangeId}

theorem replay_append (first second : List WardenUpdate) :
    replay ranges (first ++ second) = (replay ranges first).bind (replay · second) := by
  induction first generalizing ranges with
  | nil => rfl
  | cons update first ih =>
    cases update with
    | loadRange | unloadRange =>
      simp only [List.cons_append, replay]
      split
      · first | rfl | exact ih
      · first | rfl | exact ih

theorem replay_loads {ids : List FullRangeId} (nodup : ids.Nodup)
    (absent : ∀ id ∈ ids, id ∉ ranges) :
    replay ranges (ids.map .loadRange) = some (ranges ∪ ids.toFinset) := by
  induction ids generalizing ranges with
  | nil => simp [replay]
  | cons id ids ih =>
    obtain ⟨fresh, rest⟩ := List.nodup_cons.mp nodup
    rw [List.map_cons, replay, if_neg (absent id List.mem_cons_self), ih rest]
    · simp
    · intro other present loaded
      rcases Finset.mem_insert.mp loaded with rfl | old
      · exact fresh present
      · exact absent other (List.mem_cons_of_mem _ present) old

theorem replay_unloads {ids : List FullRangeId} (nodup : ids.Nodup)
    (present : ∀ id ∈ ids, id ∈ ranges) :
    replay ranges (ids.map .unloadRange) = some (ranges \ ids.toFinset) := by
  induction ids generalizing ranges with
  | nil => simp [replay]
  | cons id ids ih =>
    obtain ⟨fresh, rest⟩ := List.nodup_cons.mp nodup
    rw [List.map_cons, replay, if_pos (present id List.mem_cons_self), ih rest]
    · simp [Finset.sdiff_insert, Finset.erase_sdiff_comm]
    · intro other unloaded
      refine Finset.mem_erase.mpr ⟨?_, present other (List.mem_cons_of_mem _ unloaded)⟩
      rintro rfl
      exact fresh unloaded

end WardenUpdate

/-- The ranges after an update, as the message describes them. -/
def AssignmentUpdate.apply (ranges : Finset FullRangeId) : AssignmentUpdate → Finset FullRangeId
  | .fullAssignment range .. => range.toFinset
  | .incrementalAssignment loads unloads => (ranges ∪ loads.toFinset) \ unloads.toFinset

namespace WardenHandler

open WardenUpdate LoadedRanges

variable {handler next : WardenHandler}

def Replays (handler : WardenHandler) : Prop :=
  replay ∅ handler.updates = some handler.assignedRanges

theorem Replays.load (replays : handler.Replays) (id : FullRangeId) :
    (handler.load id).Replays := by
  unfold Replays at replays ⊢
  unfold WardenHandler.load
  simp only
  split
  next assigned => rw [Finset.insert_eq_of_mem assigned, replays]
  next unassigned => simp [replay_append, replays, replay, unassigned]

theorem Replays.unload (replays : handler.Replays) (id : FullRangeId) :
    (handler.unload id).Replays := by
  unfold Replays at replays ⊢
  unfold WardenHandler.unload
  simp only
  split
  next assigned => simp [replay_append, replays, replay, assigned]
  next unassigned => rw [Finset.erase_eq_of_notMem unassigned, replays]

theorem foldl_load (ids : List FullRangeId) (replays : handler.Replays) :
    (ids.foldl load handler).Replays ∧
      (ids.foldl load handler).assignedRanges = handler.assignedRanges ∪ ids.toFinset := by
  induction ids generalizing handler with
  | nil => simp [replays]
  | cons id ids ih =>
    obtain ⟨kept, assigned⟩ := ih (replays.load id)
    refine ⟨kept, assigned.trans ?_⟩
    simp [WardenHandler.load]

theorem foldl_unload (ids : List FullRangeId) (replays : handler.Replays) :
    (ids.foldl unload handler).Replays ∧
      (ids.foldl unload handler).assignedRanges = handler.assignedRanges \ ids.toFinset := by
  induction ids generalizing handler with
  | nil => simp [replays]
  | cons id ids ih =>
    obtain ⟨kept, assigned⟩ := ih (replays.unload id)
    refine ⟨kept, assigned.trans ?_⟩
    simp [WardenHandler.unload, Finset.sdiff_insert, Finset.erase_sdiff_comm]

theorem Replays.processWardenUpdate {update : AssignmentUpdate} (replays : handler.Replays)
    (processed : handler.processWardenUpdate update = some next) :
    next.Replays ∧ next.assignedRanges = update.apply handler.assignedRanges := by
  cases update with
  | fullAssignment range removed added =>
    simp only [WardenHandler.processWardenUpdate] at processed
    split at processed
    next orders =>
      cases processed
      refine ⟨?_, rfl⟩
      obtain ⟨⟨removedOnce, gone⟩, addedOnce, new⟩ := orders
      unfold Replays at replays ⊢
      simp only [replay_append, replays, Option.bind_some]
      rw [replay_unloads removedOnce, Option.bind_some, replay_loads addedOnce, gone, new]
      · rw [sdiff_sdiff_right_self, Finset.inf_eq_inter, Finset.inter_comm, Finset.union_comm,
          Finset.sdiff_union_inter]
      · intro id loaded kept
        have outside := List.mem_toFinset.mpr loaded
        rw [new, Finset.mem_sdiff] at outside
        exact outside.2 (Finset.mem_sdiff.mp kept).1
      · intro id unloaded
        have inside := List.mem_toFinset.mpr unloaded
        rw [gone, Finset.mem_sdiff] at inside
        exact inside.1
    next => cases processed
  | incrementalAssignment loads unloads =>
    cases processed
    obtain ⟨loaded, union⟩ := foldl_load loads replays
    obtain ⟨unloaded, difference⟩ := foldl_unload unloads loaded
    exact ⟨unloaded, by rw [difference, union]; rfl⟩

theorem Replays.foldlM {updates : List AssignmentUpdate} (replays : handler.Replays)
    (processed : updates.foldlM WardenHandler.processWardenUpdate handler = some next) :
    next.Replays ∧
      next.assignedRanges = updates.foldl AssignmentUpdate.apply handler.assignedRanges := by
  induction updates generalizing handler with
  | nil =>
    cases processed
    exact ⟨replays, rfl⟩
  | cons update updates ih =>
    rw [List.foldlM_cons] at processed
    obtain ⟨middle, first, rest⟩ := Option.bind_eq_some_iff.mp processed
    obtain ⟨kept, assigned⟩ := replays.processWardenUpdate first
    rw [List.foldl_cons, ← assigned]
    exact ih kept rest

end WardenHandler

end Sangria.RangeServer
