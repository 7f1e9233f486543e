import Mathlib.Data.List.Basic

/-!
# Positions in a history

A history grows at its end.  An entry of an appended history is one of the old
history or one of what was appended.
-/

namespace History

universe u

variable {Entry : Type u}

theorem split_append {first second earlier later : List Entry} {entry : Entry}
    (split : first ++ second = earlier ++ entry :: later) :
    (∃ rest, first = earlier ++ entry :: rest) ∨
      ∃ between, earlier = first ++ between ∧ second = between ++ entry :: later := by
  rcases List.append_eq_append_iff.mp split with ⟨between, whole, tail⟩ | ⟨rest, whole, tail⟩
  · exact .inr ⟨between, whole, tail⟩
  · cases rest with
    | nil => exact .inr ⟨[], by simpa using whole.symm, by simpa using tail.symm⟩
    | cons _ rest =>
      simp only [List.cons_append, List.cons.injEq] at tail
      exact .inl ⟨rest, by rw [whole, tail.1]⟩

/-- Every entry satisfies a property of what precedes it. -/
def Justified (property : List Entry → Entry → Prop) (history : List Entry) : Prop :=
  ∀ earlier entry later, history = earlier ++ entry :: later → property earlier entry

theorem Justified.nil {property : List Entry → Entry → Prop} : Justified property [] := by
  intro earlier entry later split
  simp at split

theorem Justified.append_singleton {property : List Entry → Entry → Prop}
    {history : List Entry} {entry : Entry} (justified : Justified property history)
    (last : property history entry) : Justified property (history ++ [entry]) := by
  intro earlier other later split
  rcases split_append split with ⟨rest, whole⟩ | ⟨between, whole, tail⟩
  · exact justified earlier other rest whole
  · cases between with
    | nil =>
      simp only [List.nil_append, List.cons.injEq] at tail
      rw [List.append_nil] at whole
      rw [whole, ← tail.1]
      exact last
    | cons => simp at tail

theorem Justified.append {property : List Entry → Entry → Prop}
    {history entries : List Entry} (justified : Justified property history)
    (always : ∀ earlier, ∀ entry ∈ entries, property earlier entry) :
    Justified property (history ++ entries) := by
  intro earlier entry later split
  rcases split_append split with ⟨rest, whole⟩ | ⟨between, whole, tail⟩
  · exact justified earlier entry rest whole
  · exact always earlier entry (by simp [tail])

theorem Justified.mono {property property' : List Entry → Entry → Prop}
    {history : List Entry} (justified : Justified property history)
    (implied : ∀ earlier, ∀ entry ∈ history, property earlier entry → property' earlier entry) :
    Justified property' history := by
  intro earlier entry later split
  exact implied earlier entry (by simp [split]) (justified earlier entry later split)

end History
