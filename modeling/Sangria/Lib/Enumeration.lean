import Mathlib.Algebra.BigOperators.Group.Finset.Basic

/-!
# Iteration and priority queues

The order in which a hash map or a hash set is iterated is not specified; a list
enumerates a set when it has every element once.  A priority queue is the list
of its entries in any order, from which a least one is taken.
-/

universe u v

variable {α : Type u}

/-- One of the orders in which a set can be iterated. -/
def Enumerates [DecidableEq α] (list : List α) (set : Finset α) : Prop :=
  list.Nodup ∧ list.toFinset = set

instance [DecidableEq α] (list : List α) (set : Finset α) : Decidable (Enumerates list set) :=
  inferInstanceAs (Decidable (_ ∧ _))

namespace Enumerates

variable [DecidableEq α] {list : List α} {set : Finset α}

theorem mem_iff (enumerates : Enumerates list set) {item : α} : item ∈ list ↔ item ∈ set := by
  rw [← enumerates.2, List.mem_toFinset]

theorem sum_map {β : Type v} [AddCommMonoid β] (enumerates : Enumerates list set)
    (weight : α → β) : (list.map weight).sum = ∑ item ∈ set, weight item := by
  rw [← enumerates.2, List.sum_toFinset weight enumerates.1]

end Enumerates

namespace PriorityQueue

variable [LinearOrder α]

/-- A least entry and the other ones. -/
def pop : List α → Option (α × List α)
  | [] => none
  | entry :: rest =>
    match pop rest with
    | none => some (entry, [])
    | some (least, others) =>
      if least < entry then some (least, entry :: others) else some (entry, rest)

theorem pop_eq_none {queue : List α} : pop queue = none ↔ queue = [] := by
  cases queue with
  | nil => simp [pop]
  | cons =>
    simp only [pop]
    split
    · simp
    · split <;> simp

theorem pop_spec {queue others : List α} {least : α}
    (popped : pop queue = some (least, others)) :
    queue.Perm (least :: others) ∧ ∀ entry ∈ queue, least ≤ entry := by
  induction queue generalizing least others with
  | nil => cases popped
  | cons entry _ ih =>
    simp only [pop] at popped
    split at popped
    next empty =>
      cases popped
      rw [pop_eq_none.mp empty]
      simp
    next found =>
      obtain ⟨permuted, least⟩ := ih found
      split at popped
      next less =>
        cases popped
        refine ⟨(permuted.cons entry).trans (.swap ..), ?_⟩
        rw [List.forall_mem_cons]
        exact ⟨less.le, least⟩
      next notLess =>
        cases popped
        refine ⟨.refl _, ?_⟩
        rw [List.forall_mem_cons]
        exact ⟨le_rfl, fun other mem =>
          (not_lt.mp notLess).trans (least other mem)⟩

end PriorityQueue
