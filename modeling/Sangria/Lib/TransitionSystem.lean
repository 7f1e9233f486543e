import Mathlib.Data.List.Basic
import Mathlib.Logic.Relation

/-!
# Guarded transition systems

A system is an executable step function `State → Label → Option State`; a label
that is not enabled has no successor.  A guard is a condition on the state
before a step and on its label.  `Reachable` collects the states of all runs
whose steps meet the guard, and `runWhere` is its executable counterpart on an
explicit schedule.
-/

namespace TransitionSystem

universe u v

variable {State : Type u} {Label : Type v}

/-- States of the runs from `start` all of whose steps meet `guard` in the
state they are taken in. -/
inductive Reachable (step : State → Label → Option State)
    (guard : State → Label → Prop) (start : State → Prop) : State → Prop where
  | start {state : State} : start state → Reachable step guard start state
  | step {state next : State} {label : Label} :
      Reachable step guard start state →
      guard state label →
      step state label = some next →
      Reachable step guard start next

/-- Follow a schedule, stopping at the first label that is not enabled or does
not meet the guard. -/
def runWhere (step : State → Label → Option State) (guard : State → Label → Prop)
    [∀ state label, Decidable (guard state label)] :
    State → List Label → Option State
  | state, [] => some state
  | state, label :: rest =>
    if guard state label then
      match step state label with
      | some next => runWhere step guard next rest
      | none => none
    else
      none

section Rules

variable {step : State → Label → Option State}
  {guard : State → Label → Prop} {start : State → Prop}

/-- The invariant rule: what holds initially and is kept by every guarded step
holds in every reachable state. -/
theorem Reachable.invariant {property : State → Prop}
    (atStart : ∀ state, start state → property state)
    (kept : ∀ state next label, property state → guard state label →
      step state label = some next → property next)
    {state : State} (reached : Reachable step guard start state) :
    property state := by
  induction reached with
  | start started => exact atStart _ started
  | step _ permitted taken ih =>
    exact kept _ _ _ ih permitted taken

/-- Weaker guards and more initial states reach more states. -/
theorem Reachable.mono {strong : State → Label → Prop} {fewer : State → Prop}
    (implied : ∀ state label, strong state label → guard state label)
    (included : ∀ state, fewer state → start state)
    {state : State} (reached : Reachable step strong fewer state) :
    Reachable step guard start state := by
  induction reached with
  | start started => exact .start (included _ started)
  | step _ permitted taken ih =>
    exact .step ih (implied _ _ permitted) taken

/-- The erasure rule: when the other system matches the steps with kept labels,
and the steps with the other labels leave it related, it follows the schedule
without those labels. -/
theorem exists_run_filter [∀ state label, Decidable (guard state label)]
    {guard' : State → Label → Prop} [∀ state label, Decidable (guard' state label)]
    {related : State → State → Prop} {kept : Label → Bool}
    (absorbed : ∀ state next label other, related state other → guard state label →
      step state label = some next → kept label = false → related next other)
    (matched : ∀ state next label other, related state other → guard state label →
      step state label = some next → kept label = true →
        ∃ other', guard' other label ∧ step other label = some other' ∧ related next other')
    {state last other : State} (schedule : List Label) (before : related state other)
    (ran : runWhere step guard state schedule = some last) :
    ∃ last', runWhere step guard' other (schedule.filter kept) = some last' ∧
      related last last' := by
  induction schedule generalizing state other with
  | nil =>
    cases ran
    exact ⟨other, rfl, before⟩
  | cons label _ ih =>
    simp only [runWhere] at ran
    split at ran
    next permitted =>
      split at ran
      next taken =>
        cases choice : kept label with
        | false =>
          rw [List.filter_cons_of_neg (ne_true_of_eq_false choice)]
          exact ih (absorbed _ _ _ _ before permitted taken choice) ran
        | true =>
          obtain ⟨other', permitted', taken', after⟩ :=
            matched _ _ _ _ before permitted taken choice
          obtain ⟨last', ran', related'⟩ := ih after ran
          rw [List.filter_cons_of_pos choice]
          refine ⟨last', ?_, related'⟩
          simp only [runWhere, if_pos permitted', taken', ran']
      next => cases ran
    next => cases ran

theorem Reachable.append_run [∀ state label, Decidable (guard state label)]
    {first last : State} (schedule : List Label)
    (reached : Reachable step guard start first)
    (ran : runWhere step guard first schedule = some last) :
    Reachable step guard start last := by
  induction schedule generalizing first with
  | nil =>
    simp only [runWhere, Option.some.injEq] at ran
    subst ran
    exact reached
  | cons _ _ ih =>
    simp only [runWhere] at ran
    split at ran
    next permitted =>
      split at ran
      next taken =>
        exact ih (reached.step permitted taken) ran
      next => simp at ran
    next => simp at ran

/-- A schedule that ends in a state passing a test witnesses a reachable
state that passes it. -/
theorem exists_reachable_of_run [∀ state label, Decidable (guard state label)]
    {first : State} (started : start first) (schedule : List Label) (test : State → Bool)
    (passed : (runWhere step guard first schedule).map test = some true) :
    ∃ state, Reachable step guard start state ∧ test state = true := by
  obtain ⟨last, ran, accepted⟩ := Option.map_eq_some_iff.mp passed
  exact ⟨last, Reachable.append_run schedule (.start started) ran, accepted⟩

end Rules

end TransitionSystem
