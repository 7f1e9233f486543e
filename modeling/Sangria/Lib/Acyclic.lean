import Mathlib.Data.Fintype.Card
import Mathlib.Data.Fintype.EquivFin
import Mathlib.Data.Fintype.Sets
import Mathlib.Logic.Relation

/-!
# Acyclic relations
-/

universe u v

variable {α : Type u}

/-- No element is related to itself by a chain. -/
def Acyclic (relation : α → α → Prop) : Prop :=
  ∀ item, ¬ Relation.TransGen relation item item

namespace Acyclic

variable {relation : α → α → Prop}

/-- A relation along which a rank grows. -/
theorem of_rank {β : Type v} [Preorder β] (rank : α → β)
    (grows : ∀ first second, relation first second → rank first < rank second) :
    Acyclic relation := by
  have chain {first second : α} (related : Relation.TransGen relation first second) :
      rank first < rank second := by
    induction related with
    | single here => exact grows _ _ here
    | tail _ last ih => exact ih.trans (grows _ _ last)
  exact fun item related => lt_irrefl _ (chain related)

/-- What holds of an element only together with a predecessor holds nowhere in
a finite set. -/
theorem not_of_descent (acyclic : Acyclic relation) {property : α → Prop} (finite : Finset α)
    (bounded : ∀ item, property item → item ∈ finite)
    (descends : ∀ item, property item → ∃ before, relation before item ∧ property before)
    (item : α) : ¬ property item := by
  let chained (first second : finite) := Relation.TransGen relation first.1 second.1
  have transitive : IsTrans finite chained := ⟨fun _ _ _ left right => left.trans right⟩
  have irreflexive : Std.Irrefl chained := ⟨fun member => acyclic member.1⟩
  have founded := Finite.wellFounded_of_trans_of_irrefl chained
  intro holds
  let start : finite := ⟨item, bounded item holds⟩
  suffices none : ∀ member : finite, ¬ property member.1 from none start holds
  intro member
  induction member using founded.induction with
  | _ member ih =>
    intro here
    obtain ⟨before, related, earlier⟩ := descends member.1 here
    exact ih ⟨before, bounded before earlier⟩ (.single related) earlier

end Acyclic
