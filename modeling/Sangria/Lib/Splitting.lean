import Mathlib.Data.List.Basic

/-!
# Splitting at a separator

`List.splitOn` by the separators that it finds: their number gives the number of
the parts, and a list is split into two parts where its only separator stands.
-/

namespace Splitting

open List

universe u

variable {α : Type u} [DecidableEq α] {separator : α} {items left right : List α}

theorem length_splitOn (separator : α) (items : List α) :
    (splitOn separator items).length = items.count separator + 1 := by
  induction items with
  | nil => rfl
  | cons item rest ih =>
    unfold splitOn at ih ⊢
    rw [splitOnP_cons_eq_if_modifyHead, count_cons]
    split
    next => rw [length_cons, ih]
    next => rw [length_modifyHead, ih, Nat.add_zero]

theorem eq_of_splitOn_pair (parts : splitOn separator items = [left, right]) :
    items = left ++ separator :: right := by
  rw [← @intercalate_splitOn _ items _ _ separator, parts]
  simp [intercalate]

theorem notMem_of_splitOn_pair (parts : splitOn separator items = [left, right]) :
    separator ∉ left ∧ separator ∉ right := by
  have one := length_splitOn separator items
  rw [parts, eq_of_splitOn_pair parts, count_append, count_cons_self] at one
  simp only [length_cons, length_nil] at one
  exact ⟨count_eq_zero.mp (by omega), count_eq_zero.mp (by omega)⟩

theorem splitOn_pair (notLeft : separator ∉ left) (notRight : separator ∉ right) :
    splitOn separator (left ++ separator :: right) = [left, right] := by
  rw [splitOn_append_cons_self_of_not_mem notLeft, splitOn_eq_singleton notRight]

theorem splitOn_pair_iff : splitOn separator items = [left, right] ↔
    items = left ++ separator :: right ∧ separator ∉ left ∧ separator ∉ right := by
  constructor
  · intro parts
    exact ⟨eq_of_splitOn_pair parts, notMem_of_splitOn_pair parts⟩
  · rintro ⟨rfl, notLeft, notRight⟩
    exact splitOn_pair notLeft notRight

theorem takeWhile_eq_left (notLeft : separator ∉ left) :
    (left ++ separator :: right).takeWhile (· ≠ separator) = left := by
  rw [takeWhile_append_of_pos]
  · simp
  · intro item present
    have ne : item ≠ separator := by
      rintro rfl
      exact notLeft present
    simp [ne]

end Splitting
