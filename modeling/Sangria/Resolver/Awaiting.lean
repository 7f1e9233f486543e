import Sangria.Lib.Acyclic
import Sangria.Resolver.Moves

/-!
# Dependencies of waiting transactions

A dependency of a waiting transaction blocks it or is resolved, unless the
worklist released it without the transaction.  Conditions on registrations say
which of those are excused.
-/

namespace Sangria.Resolver

open FiniteMap

variable {before after : State} {waiting : Uuid → Prop} {ids : List Uuid}
  {ready : List TransactionInfo}

/-! ## Ranges of the entries -/

theorem Registered.writeRanges_cloned
    (registered : Registered before waiting ids after ready) {tx : TransactionInfo}
    (listed : tx ∈ ready) :
    before.writeRanges tx.id = tx.writeRanges := by
  obtain ⟨old, found, participants, -⟩ := registered.cloned tx listed
  simp only [State.writeRanges, found, Option.elim_some, TransactionInfo.writeRanges, participants]

theorem Registered.writeRanges
    (registered : Registered before waiting ids after ready) (id : Uuid) :
    after.writeRanges id = before.writeRanges id := by
  cases found : after.infoPerTransaction.find id with
  | none => simp only [State.writeRanges, found, registered.present id found]
  | some info =>
    obtain ⟨old, found', participants, -⟩ := registered.kept id info found
    simp only [State.writeRanges, found, found', Option.elim_some, TransactionInfo.writeRanges,
      participants]

namespace Process

open TransitionSystem Release

variable {process next : Process} {label : Label}

theorem Moves.submitted (moves : Moves process label next) :
    process.graph.submitted ⊆ next.graph.submitted := by
  cases moves with
  | submit => exact Finset.subset_insert _ _
  | _ => exact subset_rfl

theorem Moves.external (moves : Moves process label next) :
    process.external ⊆ next.external := by
  cases moves with
  | registerExternal => exact Finset.subset_union_left
  | _ => exact subset_rfl

theorem Moves.dependenciesOf (moves : Moves process label next)
    (once : SubmittedOnce process label) {id : Uuid} (known : id ∈ process.graph.submitted) :
    next.dependenciesOf id = process.dependenciesOf id := by
  cases moves with
  | submit =>
    simp only [Process.dependenciesOf, find_insert]
    rw [if_neg]
    rintro rfl
    exact once.1 known
  | _ => rfl

def DependsOn (process : Process) (dependency id : Uuid) : Prop :=
  dependency ∈ process.dependenciesOf id

def Descending (process : Process) : Prop :=
  ∀ id ∈ process.dependencies.keys, ∀ dependency ∈ process.dependenciesOf id,
    dependency.asU128 < id.asU128

instance (process : Process) : Decidable (Descending process) :=
  inferInstanceAs (Decidable (∀ id ∈ _, ∀ dependency ∈ _, _))

theorem Descending.acyclic (descending : Descending process) : Acyclic process.DependsOn := by
  apply Acyclic.of_rank Uuid.asU128
  intro dep id depends
  refine descending id ?_ dep depends
  cases found : process.dependencies.find id with
  | none => simp [DependsOn, dependenciesOf, found] at depends
  | some list => exact mem_keys.mpr ⟨list, found⟩

theorem Moves.writeRanges (moves : Moves process label next)
    (once : SubmittedOnce process label) (sound : process.graph.Sound) {id : Uuid}
    (known : id ∈ process.graph.submitted) {info : TransactionInfo}
    (found : process.graph.state.infoPerTransaction.find id = some info) :
    next.graph.state.writeRanges id = process.graph.state.writeRanges id := by
  cases moves with
  | @submit transactionId deps participants fake state info' writes free res =>
    have ne : id ≠ transactionId := by
      rintro rfl
      exact once.1 known
    obtain ⟨new, found', data⟩ := (State.enrolled res).kept id info ne found
    simp only [State.writeRanges, found, found', Option.elim_some, TransactionInfo.writeRanges,
      data.2.2.1]
  | registerExternal free res | register listed free res =>
    exact (sound.linked.registered res).writeRanges id
  | _ => rfl

/-- A call of `add_transactions` starts with a submission that has nothing to
wait for, or with what a registration released. -/
theorem Moves.entering {add : Add} (moves : Moves process label next)
    (free : process.adding = none) (adding : next.adding = some add) :
    (∃ id deps participants fake info, label = .commit id deps participants fake ∧
      Enrolled process.graph.state id deps participants fake next.graph.state info ∧
      info.numDependencies = 0 ∧ id ∈ next.graph.handed ∧
      next.dependenciesOf id = deps ∧ add = ⟨[info], .reading⟩) ∨
    ∃ ids order ready, (label = .registerExternal ids order ∨
        label = .register ids order ∧ ids ∈ process.registers) ∧
      process.graph.state.registerCommittedTransactions order ids =
        some (next.graph.state, ready) ∧
      (∀ id, id ∈ next.graph.handed ↔ id ∈ process.graph.handed ∨ id ∈ ready.map (·.id)) ∧
      add = ⟨ready, .reading⟩ := by
  cases moves with
  | @submit id deps participants fake state info writes free' res =>
    obtain ⟨ready, same⟩ := Option.ite_none_right_eq_some.mp adding
    refine .inl ⟨id, deps, participants, fake, info, rfl, State.enrolled res, ready,
      ?_, ?_, (Option.some.inj same).symm⟩
    · simp only [ready, if_true]
      exact Finset.mem_insert_self _ _
    · simp [Process.dependenciesOf]
  | @registerExternal ids order state ready free' res =>
    obtain ⟨-, same⟩ := Option.ite_none_left_eq_some.mp adding
    refine .inr ⟨ids, order, ready, .inl rfl, res, ?_, (Option.some.inj same).symm⟩
    simp
  | @register ids order state ready listed free' res =>
    obtain ⟨-, same⟩ := Option.ite_none_left_eq_some.mp adding
    refine .inr ⟨ids, order, ready, .inr ⟨rfl, listed⟩, res, ?_, (Option.some.inj same).symm⟩
    simp
  | readRanges adding' | insertRanges adding' | countPending adding' | extend adding' =>
    simp [free] at adding'
  | markNonEmpty => simp [setRound] at adding
  | _ => exact absurd (free.symm.trans adding) (by simp)

/-- Each dependency of a waiting transaction blocks it, is resolved or is
excused. -/
structure Awaiting (excused : Uuid → Uuid → Prop) (process : Process) : Prop where
  sound : process.graph.Sound
  unsubmitted : ∀ id ∉ process.graph.submitted, process.dependencies.find id = none
  awaited : ∀ id, process.graph.Waiting id → ∀ dependency ∈ process.dependenciesOf id,
    process.graph.state.Blocks dependency id ∨
      dependency ∈ process.graph.state.resolvedTransactions ∨ excused dependency id

variable {excused excused' : Uuid → Uuid → Prop}

theorem Awaiting.empty : Awaiting excused empty := by
  refine ⟨Graph.Sound.empty, ?_, ?_⟩ <;>
    simp [Process.empty, Graph.empty, State.empty, Graph.Waiting]

/-- What waits for a released transaction is released with it, or excused. -/
def Follows (excused : Uuid → Uuid → Prop) (process : Process) : Label → Prop
  | .registerExternal ids _ | .register ids _ =>
    ∀ id dependent,
      Released process.graph.state.Blocks process.graph.Waiting (· ∈ ids) id →
      process.graph.state.Blocks id dependent →
      Released process.graph.state.Blocks process.graph.Waiting (· ∈ ids) dependent ∨
        excused id dependent
  | _ => True

theorem Awaiting.register {ids : List Uuid} {state : State} {ready : List TransactionInfo}
    (awaiting : Awaiting excused process)
    (registered : Registered process.graph.state process.graph.Waiting ids state ready)
    (follows : ∀ id dependent,
      Released process.graph.state.Blocks process.graph.Waiting (· ∈ ids) id →
      process.graph.state.Blocks id dependent →
      Released process.graph.state.Blocks process.graph.Waiting (· ∈ ids) dependent ∨
        excused id dependent)
    {id : Uuid} (waits : process.graph.Waiting id) (unreleased : id ∉ ready.map (·.id))
    {dep : Uuid} (listed : dep ∈ process.dependenciesOf id) :
    state.Blocks dep id ∨ dep ∈ state.resolvedTransactions ∨
      excused dep id := by
  rw [registered.resolved, Finset.mem_union, List.mem_toFinset]
  rcases awaiting.awaited id waits dep listed with blocks | done | excuse
  · by_cases named : dep ∈ ids
    · exact .inr (.inl (.inr named))
    · by_cases released : dep ∈ ready.map (·.id)
      · rcases follows _ _ ((registered.released _).mp released) blocks with follows | excuse
        · exact absurd ((registered.released id).mpr follows) unreleased
        · exact .inr (.inr excuse)
      · exact .inl ((registered.edges _ _).mpr ⟨blocks, named, released⟩)
  · exact .inr (.inl (.inl done))
  · exact .inr (.inr excuse)

theorem Awaiting.step (awaiting : Awaiting excused process) (moves : Moves process label next)
    (once : SubmittedOnce process label) (follows : Follows excused process label)
    (stable : ∀ dep id, id ∈ process.graph.submitted → excused dep id →
      excused' dep id) : Awaiting excused' next := by
  have sound := moves.sound once awaiting.sound
  have linked := awaiting.sound.linked
  have carried {id dep : Uuid} {state : State} (known : id ∈ process.graph.submitted)
      (before : state.Blocks dep id ∨ dep ∈ state.resolvedTransactions ∨
        excused dep id) :
      state.Blocks dep id ∨ dep ∈ state.resolvedTransactions ∨
        excused' dep id :=
    before.imp_right (Or.imp_right (stable dep id known))
  have waited {ready : List TransactionInfo} {id : Uuid}
      (known : id ∈ process.graph.submitted)
      (unhanded : id ∉ process.graph.handed ∪ (ready.map (·.id)).toFinset) :
      process.graph.Waiting id ∧ id ∉ ready.map (·.id) := by
    rw [Finset.mem_union, List.mem_toFinset, not_or] at unhanded
    exact ⟨⟨known, unhanded.1⟩, unhanded.2⟩
  cases moves with
  | @submit transactionId deps participants fake state info writes free res =>
    have enrolled := State.enrolled res
    refine ⟨sound, ?_, ?_⟩
    · intro id unknown
      change find (process.dependencies.insert transactionId deps) id = none
      rw [Finset.mem_insert, not_or] at unknown
      rw [find_insert, if_neg unknown.1]
      exact awaiting.unsubmitted id unknown.2
    · intro id waits dep listed
      simp only [dependenciesOf, find_insert] at listed
      simp only [enrolled.resolved]
      split at listed
      next same =>
        by_cases done : dep ∈ process.graph.state.resolvedTransactions
        · exact .inr (.inl done)
        · exact .inl ((enrolled.edges _ _).mpr (.inr ⟨same, listed, done⟩))
      next other =>
        have known := (Finset.mem_insert.mp waits.1).resolve_left other
        have unhanded : id ∉ process.graph.handed := by
          intro handed
          apply waits.2
          simp only
          split
          · exact Finset.mem_insert_of_mem handed
          · exact handed
        rcases awaiting.awaited id ⟨known, unhanded⟩ dep listed with
          blocks | done | excuse
        · exact .inl ((enrolled.edges _ _).mpr (.inl blocks))
        · exact .inr (.inl done)
        · exact .inr (.inr (stable _ _ known excuse))
  | registerExternal free res | register listed free res =>
    refine ⟨sound, awaiting.unsubmitted, ?_⟩
    intro id waits dep listed
    obtain ⟨before, unreleased⟩ := waited waits.1 waits.2
    exact carried waits.1 (awaiting.register (linked.registered res) follows before
      unreleased listed)
  | _ =>
    exact ⟨sound, awaiting.unsubmitted, fun id waits dep listed =>
      carried waits.1 (awaiting.awaited id waits dep listed)⟩

end Process

end Sangria.Resolver
