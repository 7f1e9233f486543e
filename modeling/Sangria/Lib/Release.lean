import Mathlib.Data.Finset.Defs
import Mathlib.Data.List.Induction
import Mathlib.Data.List.Nodup
import Mathlib.Order.Bounds.Basic
import Sangria.Lib.History

/-!
# Release from blockers

Items wait for blockers.  When some items are resolved, a waiting item is
released if each of its blockers is resolved or is released as well.  An
enumeration in which blockers come first lists released items only, and a set
closed under the rule has all of them.
-/

namespace Release

universe u

variable {Item : Type u}

inductive Released (blocks : Item → Item → Prop) (waiting resolved : Item → Prop) :
    Item → Prop where
  | intro {item : Item} : waiting item →
      (∀ blocker, blocks blocker item → ¬ resolved blocker →
        Released blocks waiting resolved blocker) →
      Released blocks waiting resolved item

/-- Every blocker of a listed item is resolved or listed earlier. -/
def BlockersFirst (blocks : Item → Item → Prop) (waiting resolved : Item → Prop)
    (order : List Item) : Prop :=
  ∀ before item after, order = before ++ item :: after →
    waiting item ∧ ∀ blocker, blocks blocker item → resolved blocker ∨ blocker ∈ before

section

variable {blocks : Item → Item → Prop} {waiting resolved : Item → Prop}

theorem BlockersFirst.nil : BlockersFirst blocks waiting resolved [] := by
  intro before item after split
  simp at split

theorem BlockersFirst.of_append {order rest : List Item}
    (first : BlockersFirst blocks waiting resolved (order ++ rest)) :
    BlockersFirst blocks waiting resolved order := by
  intro before item after split
  exact first before item (after ++ rest) (by simp [split])

theorem BlockersFirst.of_forall {order : List Item}
    (free : ∀ item ∈ order, waiting item ∧ ∀ blocker, blocks blocker item → resolved blocker) :
    BlockersFirst blocks waiting resolved order := by
  intro before item after split
  obtain ⟨waits, unblocked⟩ := free item (by simp [split])
  exact ⟨waits, fun blocker blocked => .inl (unblocked blocker blocked)⟩

/-- Behind an order, what it lists counts as resolved. -/
theorem BlockersFirst.append {order rest : List Item}
    (first : BlockersFirst blocks waiting resolved order)
    (second : BlockersFirst blocks waiting
      (fun blocker => resolved blocker ∨ blocker ∈ order) rest) :
    BlockersFirst blocks waiting resolved (order ++ rest) := by
  intro before item after split
  rcases History.split_append split with ⟨others, whole⟩ | ⟨middle, whole, tail⟩
  · exact first before item others whole
  · obtain ⟨waits, unblocked⟩ := second middle item after tail
    refine ⟨waits, ?_⟩
    intro blocker blocked
    rw [whole, List.mem_append]
    rcases unblocked blocker blocked with (done | listed) | between
    · exact .inl done
    · exact .inr (.inl listed)
    · exact .inr (.inr between)

theorem BlockersFirst.append_singleton {order : List Item} {item : Item}
    (first : BlockersFirst blocks waiting resolved order) (waits : waiting item)
    (unblocked : ∀ blocker, blocks blocker item → resolved blocker ∨ blocker ∈ order) :
    BlockersFirst blocks waiting resolved (order ++ [item]) := by
  refine first.append (.of_forall ?_)
  intro other mem
  rw [List.mem_singleton.mp mem]
  exact ⟨waits, unblocked⟩

/-- Other blockers are allowed when they are resolved. -/
theorem BlockersFirst.mono {blocks' : Item → Item → Prop} {waiting' resolved' : Item → Prop}
    {order : List Item} (first : BlockersFirst blocks waiting resolved order)
    (waits : ∀ item, waiting item → waiting' item)
    (resolves : ∀ item, resolved item → resolved' item)
    (covered : ∀ item, waiting item → ∀ blocker, blocks' blocker item →
      blocks blocker item ∨ resolved' blocker) :
    BlockersFirst blocks' waiting' resolved' order := by
  intro before item after split
  obtain ⟨waiting, unblocked⟩ := first before item after split
  refine ⟨waits item waiting, ?_⟩
  intro blocker blocked
  rcases covered item waiting blocker blocked with old | done
  · exact (unblocked blocker old).imp_left (resolves blocker)
  · exact .inl done

theorem BlockersFirst.waits {order : List Item}
    (first : BlockersFirst blocks waiting resolved order) {item : Item}
    (listed : item ∈ order) : waiting item := by
  obtain ⟨before, after, split⟩ := List.append_of_mem listed
  exact (first before item after split).1

theorem Released.of_blockersFirst {order : List Item}
    (first : BlockersFirst blocks waiting resolved order) {item : Item}
    (listed : item ∈ order) : Released blocks waiting resolved item := by
  induction order using List.reverseRecOn generalizing item with
  | nil => simp at listed
  | append_singleton order last ih =>
    have earlier {item : Item} (listed : item ∈ order) :=
      ih first.of_append listed
    rcases List.mem_append.mp listed with before | same
    · exact earlier before
    · rw [List.mem_singleton.mp same]
      obtain ⟨waits, unblocked⟩ := first order last [] rfl
      refine .intro waits ?_
      intro blocker blocked unresolved
      exact earlier ((unblocked blocker blocked).resolve_left unresolved)

theorem Released.mem_of_closed {closed : Item → Prop}
    (closure : ∀ item, waiting item →
      (∀ blocker, blocks blocker item → resolved blocker ∨ closed blocker) → closed item)
    {item : Item} (released : Released blocks waiting resolved item) : closed item := by
  induction released with
  | intro waits _ ih =>
    refine closure _ waits ?_
    intro blocker blocked
    by_cases done : resolved blocker
    · exact .inl done
    · exact .inr (ih blocker blocked done)

theorem Released.waits {item : Item} (released : Released blocks waiting resolved item) :
    waiting item := by
  cases released with
  | intro waits => exact waits

/-- An item that waits for itself is not released. -/
theorem Released.not_cycle {item : Item} (released : Released blocks waiting resolved item) :
    ¬ Relation.TransGen
    (fun blocker item => blocks blocker item ∧ ¬ resolved blocker) item item := by
  induction released with
  | intro _ _ ih =>
    intro cycle
    obtain ⟨blocker, path, blocked, unresolved⟩ := Relation.TransGen.tail'_iff.mp cycle
    exact ih blocker blocked unresolved (.head' ⟨blocked, unresolved⟩ path)

/-- What is released is the least fixpoint of the rule. -/
theorem isLeast_released :
    IsLeast {closed : Set Item | ∀ item, item ∈ closed ↔
        waiting item ∧ ∀ blocker, blocks blocker item → resolved blocker ∨ blocker ∈ closed}
      {item | Released blocks waiting resolved item} := by
  constructor
  · intro item
    constructor
    · rintro ⟨waits, unblocked⟩
      refine ⟨waits, fun blocker blocked => ?_⟩
      by_cases done : resolved blocker
      · exact .inl done
      · exact .inr (unblocked blocker blocked done)
    · rintro ⟨waits, unblocked⟩
      exact .intro waits fun blocker blocked unresolved =>
        (unblocked blocker blocked).resolve_left unresolved
  · intro closed fixed item released
    exact released.mem_of_closed fun item waits unblocked => (fixed item).mpr ⟨waits, unblocked⟩

/-- Nothing stands before a blocker that is not resolved. -/
theorem BlockersFirst.pairwise {order : List Item}
    (first : BlockersFirst blocks waiting resolved order) (distinct : order.Nodup) :
    order.Pairwise fun earlier later => blocks later earlier → resolved later := by
  rw [List.pairwise_iff_getElem]
  intro i j belowI belowJ less blocked
  have split : order = order.take i ++ order[i] :: order.drop (i + 1) := by
    rw [← List.drop_eq_getElem_cons belowI, List.take_append_drop]
  rcases (first _ _ _ split).2 _ blocked with done | earlier
  · exact done
  · obtain ⟨k, belowK, same⟩ := List.getElem_of_mem earlier
    rw [List.length_take] at belowK
    rw [List.getElem_take, distinct.getElem_inj_iff] at same
    omega

/-- Release by chains of blockers up to a given length. -/
def releasedWithin (blockers : Item → Finset Item) (waiting resolved : Item → Prop)
    [DecidablePred waiting] [DecidablePred resolved] : Nat → Item → Bool
  | 0, _ => false
  | length + 1, item => decide (waiting item ∧ ∀ blocker ∈ blockers item,
      resolved blocker ∨ releasedWithin blockers waiting resolved length blocker = true)

theorem Released.of_releasedWithin {blockers : Item → Finset Item}
    [DecidablePred waiting] [DecidablePred resolved]
    (complete : ∀ item blocker, blocks blocker item → blocker ∈ blockers item)
    {length : Nat} {item : Item}
    (within : releasedWithin blockers waiting resolved length item = true) :
    Released blocks waiting resolved item := by
  induction length generalizing item with
  | zero => simp [releasedWithin] at within
  | succ _ ih =>
    simp only [releasedWithin, decide_eq_true_eq] at within
    refine .intro within.1 ?_
    intro blocker blocked unresolved
    exact ih
      ((within.2 blocker (complete item blocker blocked)).resolve_left unresolved)

end

end Release
