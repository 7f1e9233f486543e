import Mathlib.Data.List.Sublists
import Sangria.Lib.Acyclic

/-!
# Locking in two phases

Agents visit resources, one at a time at each resource.  A visit is marked if
others can be ordered behind it.  An agent has a lock point: it takes no
resource after it, and gives no resource with a marked visit up before it.  Then
the order of the visits agrees with the order of the lock points.
-/

universe u v

variable {α : Type u} {ρ : Type v}

/-- A marked visit of the first agent comes before a visit of the second one. -/
def Precedes (visits : ρ → List (α × Bool)) (first second : α) : Prop :=
  first ≠ second ∧
    ∃ resource mark, [(first, true), (second, mark)].Sublist (visits resource)

/-- `points` are the agents that passed their lock point, in this order. -/
structure TwoPhase [DecidableEq α] (holder : ρ → Option α) (visits : ρ → List (α × Bool))
    (points : List α) : Prop where
  left : ∀ resource agent, (agent, true) ∈ visits resource → holder resource ≠ some agent →
    agent ∈ points
  behind : ∀ resource agent other, holder resource = some agent → other ≠ agent →
    (other, true) ∈ visits resource → points.idxOf other < points.idxOf agent
  ordered : ∀ first second, Precedes visits first second →
    points.idxOf first < points.idxOf second

theorem pair_sublist_concat {first second last : α} {list : List α}
    (inside : [first, second].Sublist (list ++ [last])) :
    [first, second].Sublist list ∨ first ∈ list ∧ second = last := by
  obtain ⟨before, after, split, left, right⟩ := List.sublist_append_iff.mp inside
  match before, split with
  | [], split =>
    have short := right.length_le
    rw [← List.nil_append after, ← split] at short
    simp at short
  | [item], split =>
    simp only [List.singleton_append, List.cons.injEq] at split
    obtain ⟨rfl, rfl⟩ := split
    have here := List.singleton_sublist.mp right
    exact .inr ⟨List.singleton_sublist.mp left, List.mem_singleton.mp here⟩
  | [item, item'], split =>
    simp only [List.cons_append, List.nil_append, List.cons.injEq] at split
    obtain ⟨rfl, rfl, -⟩ := split
    exact .inl left
  | _ :: _ :: _ :: _, split => simp at split

namespace TwoPhase

variable [DecidableEq α] {holder holder' : ρ → Option α} {visits visits' : ρ → List (α × Bool)}
  {points : List α}

theorem initial : TwoPhase (fun _ : ρ => (none : Option α)) (fun _ => []) [] where
  left := by simp
  behind := by simp
  ordered := by
    rintro first second ⟨-, resource, mark, inside⟩
    cases inside

/-- The holder of a resource visits it. -/
theorem visit (twoPhase : TwoPhase holder visits points) {resource : ρ} {agent : α} {mark : Bool}
    (holds : holder resource = some agent)
    (here : visits' resource = visits resource ++ [(agent, mark)])
    (elsewhere : ∀ other, other ≠ resource → visits' other = visits other) :
    TwoPhase holder visits' points := by
  have earlier {other : ρ} {visitor : α} (visited : (visitor, true) ∈ visits' other) :
      (visitor, true) ∈ visits other ∨ other = resource ∧ visitor = agent := by
    by_cases same : other = resource
    · rw [same, here] at visited
      rcases List.mem_append.mp visited with before | now
      · exact .inl (same ▸ before)
      · exact .inr ⟨same, (Prod.mk.inj (List.mem_singleton.mp now)).1⟩
    · rw [elsewhere other same] at visited
      exact .inl visited
  refine ⟨?_, ?_, ?_⟩
  · intro other visitor visited gone
    rcases earlier visited with before | ⟨rfl, rfl⟩
    · exact twoPhase.left other visitor before gone
    · exact absurd holds gone
  · intro other visitor visitor' held ne visited
    rcases earlier visited with before | ⟨rfl, rfl⟩
    · exact twoPhase.behind other visitor visitor' held ne before
    · rw [holds] at held
      exact absurd (Option.some.inj held) ne
  · rintro first second ⟨ne, other, mark', inside⟩
    by_cases same : other = resource
    · rw [same, here] at inside
      rcases pair_sublist_concat inside with before | ⟨before, now⟩
      · exact twoPhase.ordered first second ⟨ne, resource, mark', before⟩
      · rw [Prod.mk.injEq] at now
        rw [now.1]
        exact twoPhase.behind resource agent first holds (now.1 ▸ ne) before
    · rw [elsewhere other same] at inside
      exact twoPhase.ordered first second ⟨ne, other, mark', inside⟩

/-- The holder of a resource visits it several times. -/
theorem visitAll (twoPhase : TwoPhase holder visits points) {resource : ρ} {agent : α}
    (holds : holder resource = some agent) {more : List (α × Bool)}
    (own : ∀ visit ∈ more, visit.1 = agent) (here : visits' resource = visits resource ++ more)
    (elsewhere : ∀ other, other ≠ resource → visits' other = visits other) :
    TwoPhase holder visits' points := by
  classical
  induction more generalizing visits with
  | nil =>
    have same : visits' = visits := by
      funext other
      by_cases same : other = resource
      · rw [same, here, List.append_nil]
      · exact elsewhere other same
    rwa [same]
  | cons first _ ih =>
    obtain ⟨visitor, mark⟩ := first
    obtain rfl : visitor = agent := own _ List.mem_cons_self
    let once := Function.update visits resource (visits resource ++ [(visitor, mark)])
    have now : once resource = visits resource ++ [(visitor, mark)] := Function.update_self ..
    have same (other : ρ) (ne : other ≠ resource) : once other = visits other :=
      Function.update_of_ne ne ..
    refine ih (twoPhase.visit holds now same)
      (fun visit member => own visit (.tail _ member)) ?_ ?_
    · rw [here, now, List.append_assoc]
      rfl
    · intro other ne
      rw [elsewhere other ne, same other ne]

/-- Resources are given up by agents that passed their lock point, and taken by
agents that did not. -/
theorem pass (twoPhase : TwoPhase holder visits points)
    (taken : ∀ resource agent, holder' resource = some agent →
      holder resource = some agent ∨ agent ∉ points)
    (given : ∀ resource agent, holder resource = some agent → holder' resource ≠ some agent →
      (agent, true) ∈ visits resource → agent ∈ points) :
    TwoPhase holder' visits points := by
  have left : ∀ resource agent, (agent, true) ∈ visits resource →
      holder' resource ≠ some agent → agent ∈ points := by
    intro resource agent visited gone
    by_cases held : holder resource = some agent
    · exact given resource agent held gone visited
    · exact twoPhase.left resource agent visited held
  refine ⟨left, ?_, twoPhase.ordered⟩
  intro resource agent other held ne visited
  rcases taken resource agent held with before | fresh
  · exact twoPhase.behind resource agent other before ne visited
  · have passed : other ∈ points := by
      apply left resource other visited
      rw [held]
      exact fun same => ne (Option.some.inj same).symm
    rw [List.idxOf_eq_length_iff.mpr fresh]
    exact List.idxOf_lt_length_iff.mpr passed

theorem idxOf_lt_concat {first second last : α}
    (before : points.idxOf first < points.idxOf second) :
    (points ++ [last]).idxOf first < (points ++ [last]).idxOf second := by
  have passed : first ∈ points := by
    apply List.idxOf_lt_length_iff.mp
    exact before.trans_le List.idxOf_le_length
  rw [List.idxOf_append_of_mem passed]
  by_cases passed' : second ∈ points
  · rwa [List.idxOf_append_of_mem passed']
  · rw [List.idxOf_append_of_notMem passed']
    exact (List.idxOf_lt_length_iff.mpr passed).trans_le (Nat.le_add_right _ _)

/-- An agent passes its lock point. -/
theorem point (twoPhase : TwoPhase holder visits points) (agent : α) :
    TwoPhase holder visits (points ++ [agent]) where
  left := fun resource other visited gone =>
    List.mem_append_left _ (twoPhase.left resource other visited gone)
  behind := fun resource other other' held ne visited =>
    idxOf_lt_concat (twoPhase.behind resource other other' held ne visited)
  ordered := fun first second precedes => idxOf_lt_concat (twoPhase.ordered first second precedes)

end TwoPhase
