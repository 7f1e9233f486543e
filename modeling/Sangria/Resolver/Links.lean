import Sangria.Resolver.Dependencies

/-!
# Counters and reverse edges

`num_dependencies` and the reverse edges in `dependents` are updated by
different functions.  `Linked` says how they agree whenever the lock of the
state is free, and enrolling a transaction keeps it.
-/

namespace Sangria.Resolver

namespace State

variable {transactionId dep id : Uuid} {state : State} {info : TransactionInfo}

def Blocks (state : State) (dependency transactionId : Uuid) : Prop :=
  ∃ info, state.infoPerTransaction.find dependency = some info ∧
    transactionId ∈ info.dependents

instance (state : State) (dependency transactionId : Uuid) :
    Decidable (state.Blocks dependency transactionId) :=
  match found : state.infoPerTransaction.find dependency with
  | none => isFalse (by simp [Blocks, found])
  | some info => decidable_of_iff (transactionId ∈ info.dependents) (by simp [Blocks, found])

def blockers (state : State) (transactionId : Uuid) : Finset Uuid :=
  state.infoPerTransaction.keys.filter fun dependency => state.Blocks dependency transactionId

@[simp]
theorem mem_blockers :
    dep ∈ state.blockers transactionId ↔ state.Blocks dep transactionId := by
  simp only [blockers, Finset.mem_filter, FiniteMap.mem_keys, and_iff_right_iff_imp]
  rintro ⟨info, found, -⟩
  exact ⟨info, found⟩

@[simp]
theorem find_put (state : State) (id other : Uuid) (info : TransactionInfo) :
    (state.put id info).infoPerTransaction.find other =
      if other = id then some info else state.infoPerTransaction.find other := by
  simp only [put, FiniteMap.find_insert]

theorem blocks_put : (state.put id info).Blocks dep transactionId ↔
      if dep = id then transactionId ∈ info.dependents
      else state.Blocks dep transactionId := by
  simp only [Blocks, find_put]
  split <;> simp

theorem blocks_put_of_dependents {old : TransactionInfo}
    (found : state.infoPerTransaction.find id = some old)
    (same : info.dependents = old.dependents) :
    (state.put id info).Blocks dep transactionId ↔
      state.Blocks dep transactionId := by
  rw [blocks_put]
  split
  next equal =>
    subst equal
    simp [Blocks, found, same]
  next => rfl

theorem blockers_congr {left right : State}
    (same : ∀ dep, left.Blocks dep transactionId ↔
      right.Blocks dep transactionId) :
    left.blockers transactionId = right.blockers transactionId := by
  ext dep
  simp [same]

end State

/-- Counters and reverse edges agree for the transactions that are `waiting`:
submitted, and not yet handed to group commit. -/
structure Linked (state : State) (waiting : Uuid → Prop) : Prop where
  named : ∀ id info, state.infoPerTransaction.find id = some info → info.id = id
  counted : ∀ id, waiting id → ∃ info, state.infoPerTransaction.find id = some info ∧
    info.numDependencies = (state.blockers id).card ∧ 0 < info.numDependencies
  blocked : ∀ dependency id, state.Blocks dependency id → waiting id
  settled : ∀ dependency ∈ state.resolvedTransactions, ∀ id, ¬ state.Blocks dependency id

theorem Linked.empty : Linked State.empty fun _ => False := by
  constructor <;> simp [State.empty, State.Blocks]

theorem Linked.congr {state : State} {waiting waiting' : Uuid → Prop}
    (linked : Linked state waiting) (same : ∀ id, waiting id ↔ waiting' id) :
    Linked state waiting' where
  named := linked.named
  counted := fun id waits => linked.counted id ((same id).mpr waits)
  blocked := fun dep id blocks => (same id).mp (linked.blocked dep id blocks)
  settled := linked.settled

/-! ## Enrolment -/

section Enroll

variable {transactionId : Uuid} {fake : Bool}
variable {state after : State} {info : TransactionInfo} {dependencies : List Uuid}
  {participants : List ParticipantRangeInfo} {waiting : Uuid → Prop}

theorem State.find_addDependent (state : State) (dep other : Uuid) :
    (state.addDependent dep transactionId fake).infoPerTransaction.find other =
      if other = dep then
        some { state.entry dep fake with
          dependents := insert transactionId (state.entry dep fake).dependents }
      else state.infoPerTransaction.find other := by
  simp [State.addDependent]

theorem State.blocks_addDependent {dep other id : Uuid} :
    (state.addDependent dep transactionId fake).Blocks other id ↔
      state.Blocks other id ∨ other = dep ∧ id = transactionId := by
  rw [State.addDependent, State.blocks_put]
  by_cases same : other = dep
  · subst same
    simp only [if_true, Finset.mem_insert, State.entry, true_and]
    cases found : state.infoPerTransaction.find other with
    | none => simp [State.Blocks, found, TransactionInfo.default]
    | some => simp [State.Blocks, found, or_comm]
  · simp [same]

/-- The data of an entry that the loop over the dependencies keeps. -/
def SameData (info info' : TransactionInfo) : Prop :=
  info'.id = info.id ∧ info'.numDependencies = info.numDependencies ∧
    info'.participantRangesInfo = info.participantRangesInfo ∧ info'.fake = info.fake

/-- What the loop over the dependencies does to the state. -/
structure Adds (transactionId : Uuid) (fake : Bool) (dependencies : List Uuid)
    (before after : State) : Prop where
  resolved : after.resolvedTransactions = before.resolvedTransactions
  edges : ∀ other id, after.Blocks other id ↔ before.Blocks other id ∨
    id = transactionId ∧ other ∈ dependencies ∧ other ∉ before.resolvedTransactions
  kept : ∀ id info, before.infoPerTransaction.find id = some info →
    ∃ info', after.infoPerTransaction.find id = some info' ∧ SameData info info'
  placeholder : ∀ id info', after.infoPerTransaction.find id = some info' →
    (∃ info, before.infoPerTransaction.find id = some info ∧ SameData info info') ∨
      id ∈ dependencies ∧ SameData (TransactionInfo.default id fake) info'

theorem State.addDependencies_spec (state : State) (pending : Nat) (dependencies : List Uuid) :
    Adds transactionId fake dependencies state
      (State.addDependencies transactionId fake state pending dependencies).1 ∧
    (State.addDependencies transactionId fake state pending dependencies).2 =
      pending + (dependencies.filter (· ∉ state.resolvedTransactions)).length := by
  induction dependencies generalizing state pending with
  | nil =>
    refine ⟨⟨rfl, by simp [State.addDependencies], ?_, ?_⟩, rfl⟩
    · exact fun id info found => ⟨info, found, rfl, rfl, rfl, rfl⟩
    · exact fun id info found => .inl ⟨info, found, rfl, rfl, rfl, rfl⟩
  | cons dep _ ih =>
    by_cases done : dep ∈ state.resolvedTransactions
    · obtain ⟨adds, count⟩ := ih state pending
      simp only [State.addDependencies, if_pos done]
      refine ⟨⟨adds.resolved, ?_, adds.kept, ?_⟩, ?_⟩
      · intro other id
        rw [adds.edges, List.mem_cons]
        constructor
        · rintro (old | ⟨rfl, listed, unresolved⟩)
          · exact .inl old
          · exact .inr ⟨rfl, .inr listed, unresolved⟩
        · rintro (old | ⟨rfl, rfl | listed, unresolved⟩)
          · exact .inl old
          · exact absurd done unresolved
          · exact .inr ⟨rfl, listed, unresolved⟩
      · intro id info' found
        rcases adds.placeholder id info' found with old | ⟨listed, data⟩
        · exact .inl old
        · exact .inr ⟨List.mem_cons_of_mem _ listed, data⟩
      · simp [count, done]
    · obtain ⟨adds, count⟩ :=
        ih (state.addDependent dep transactionId fake) (pending + 1)
      simp only [State.addDependencies, if_neg done]
      refine ⟨⟨adds.resolved, ?_, ?_, ?_⟩, ?_⟩
      · intro other id
        rw [adds.edges, State.blocks_addDependent, List.mem_cons]
        constructor
        · rintro ((old | ⟨rfl, rfl⟩) | ⟨rfl, listed, unresolved⟩)
          · exact .inl old
          · exact .inr ⟨rfl, .inl rfl, done⟩
          · exact .inr ⟨rfl, .inr listed, unresolved⟩
        · rintro (old | ⟨rfl, rfl | listed, unresolved⟩)
          · exact .inl (.inl old)
          · exact .inl (.inr ⟨rfl, rfl⟩)
          · exact .inr ⟨rfl, listed, unresolved⟩
      · intro id info found
        by_cases same : id = dep
        · subst same
          obtain ⟨info', found', data⟩ :=
            adds.kept id _ (by rw [State.find_addDependent, if_pos rfl])
          refine ⟨info', found', ?_⟩
          simpa [SameData, State.entry, found] using data
        · exact adds.kept id info (by rw [State.find_addDependent, if_neg same]; exact found)
      · intro id info' found
        rcases adds.placeholder id info' found with ⟨info, found', data⟩ | ⟨listed, data⟩
        · rw [State.find_addDependent] at found'
          split at found'
          next same =>
            subst same
            cases found'
            cases present : state.infoPerTransaction.find id with
            | none =>
              refine .inr ⟨List.mem_cons_self, ?_⟩
              simpa [SameData, State.entry, present] using data
            | some old =>
              refine .inl ⟨old, rfl, ?_⟩
              simpa [SameData, State.entry, present] using data
          next => exact .inl ⟨info, found', data⟩
        · exact .inr ⟨List.mem_cons_of_mem _ listed, data⟩
      · have same : (state.addDependent dep transactionId fake).resolvedTransactions =
            state.resolvedTransactions := rfl
        rw [count, same, List.filter_cons_of_pos (by simpa using done), List.length_cons]
        omega

structure Enrolled (before : State) (transactionId : Uuid) (dependencies : List Uuid)
    (participants : List ParticipantRangeInfo) (fake : Bool)
    (after : State) (info : TransactionInfo) : Prop where
  resolved : after.resolvedTransactions = before.resolvedTransactions
  edges : ∀ other id, after.Blocks other id ↔ before.Blocks other id ∨
    id = transactionId ∧ other ∈ dependencies ∧ other ∉ before.resolvedTransactions
  found : after.infoPerTransaction.find transactionId = some info
  count : info.numDependencies =
    (dependencies.filter (· ∉ before.resolvedTransactions)).length
  participants : info.participantRangesInfo = participants
  kept : ∀ id old, id ≠ transactionId → before.infoPerTransaction.find id = some old →
    ∃ new, after.infoPerTransaction.find id = some new ∧ SameData old new
  origin : ∀ id new, after.infoPerTransaction.find id = some new →
    (∃ old, before.infoPerTransaction.find id = some old ∧ new.id = old.id ∧
      new.fake = old.fake) ∨ new.id = id ∧ new.fake = fake

theorem State.enroll_spec (state : State) (dependencies : List Uuid)
    (participants : List ParticipantRangeInfo) :
    Enrolled state transactionId dependencies participants fake
      (state.enroll transactionId dependencies participants fake).1
      (state.enroll transactionId dependencies participants fake).2 := by
  obtain ⟨adds, count⟩ := @State.addDependencies_spec transactionId fake state 0 dependencies
  simp only [State.enroll]
  generalize State.addDependencies transactionId fake state 0 dependencies = result at adds count
  obtain ⟨added, pending⟩ := result
  simp only at adds count ⊢
  refine ⟨adds.resolved, ?_, by simp, by simpa using count, rfl, ?_, ?_⟩
  · intro other id
    rw [← adds.edges, State.blocks_put]
    split
    next same =>
      subst same
      cases found : added.infoPerTransaction.find other with
      | none => simp [State.entry, State.Blocks, found, TransactionInfo.default]
      | some => simp [State.entry, State.Blocks, found]
    next => rfl
  · intro id old ne found
    obtain ⟨new, found', data⟩ := adds.kept id old found
    exact ⟨new, by rw [State.find_put, if_neg ne]; exact found', data⟩
  · intro id new found
    rw [State.find_put] at found
    have source {info : TransactionInfo} (present : added.infoPerTransaction.find id = some info) :
        (∃ old, state.infoPerTransaction.find id = some old ∧ info.id = old.id ∧
          info.fake = old.fake) ∨ info.id = id ∧ info.fake = fake := by
      rcases adds.placeholder id info present with ⟨old, found', data⟩ | ⟨-, data⟩
      · exact .inl ⟨old, found', data.1, data.2.2.2⟩
      · exact .inr ⟨data.1, data.2.2.2⟩
    split at found
    next same =>
      subst same
      cases found
      cases present : added.infoPerTransaction.find id with
      | none => exact .inr (by simp [State.entry, present, TransactionInfo.default])
      | some => simpa [State.entry, present] using source present
    next => exact source found

theorem State.enrolled {transactionId : Uuid} {fake : Bool}
    (res : state.enroll transactionId dependencies participants fake = (after, info)) :
    Enrolled state transactionId dependencies participants fake after info := by
  have enrolled := @State.enroll_spec transactionId fake state dependencies participants
  rwa [res] at enrolled

theorem Linked.enrolled_id {transactionId : Uuid} {fake : Bool} (linked : Linked state waiting)
    (enrolled : Enrolled state transactionId dependencies participants fake after info) :
    info.id = transactionId := by
  rcases enrolled.origin _ _ enrolled.found with ⟨old, found, same, -⟩ | ⟨same, -⟩
  · rw [same, linked.named _ _ found]
  · exact same

theorem Linked.enroll (linked : Linked state waiting)
    (enrolled : Enrolled state transactionId dependencies participants fake after info)
    (fresh : ¬ waiting transactionId) (distinct : dependencies.Nodup) :
    Linked after fun id => waiting id ∨ id = transactionId ∧ 0 < info.numDependencies := by
  have unlisted (dep : Uuid) : ¬ state.Blocks dep transactionId :=
    fun blocks => fresh (linked.blocked _ _ blocks)
  have pending : after.blockers transactionId =
      (dependencies.filter (· ∉ state.resolvedTransactions)).toFinset := by
    ext dep
    simp [enrolled.edges, unlisted]
  refine ⟨?_, ?_, ?_, ?_⟩
  · intro id new found
    rcases enrolled.origin id new found with ⟨old, found', same, -⟩ | ⟨same, -⟩
    · rw [same, linked.named id old found']
    · exact same
  · rintro id (waits | ⟨rfl, positive⟩)
    · have ne : id ≠ transactionId := by
        rintro rfl
        exact fresh waits
      obtain ⟨old, found, count, positive⟩ := linked.counted id waits
      obtain ⟨new, found', -, same, -⟩ := enrolled.kept id old ne found
      have unchanged : after.blockers id = state.blockers id := by
        apply State.blockers_congr
        intro dep
        simp [enrolled.edges, ne]
      exact ⟨new, found', by rw [same, unchanged, count], by rw [same]; exact positive⟩
    · refine ⟨info, enrolled.found, ?_, positive⟩
      rw [pending, List.toFinset_card_of_nodup (distinct.filter _), enrolled.count]
  · intro dep id blocks
    rcases (enrolled.edges _ _).mp blocks with old | ⟨rfl, listed, unresolved⟩
    · exact .inl (linked.blocked _ _ old)
    · refine .inr ⟨rfl, ?_⟩
      rw [enrolled.count]
      exact List.length_pos_of_mem (List.mem_filter.mpr ⟨listed, by simpa using unresolved⟩)
  · intro dep done id blocks
    rw [enrolled.resolved] at done
    rcases (enrolled.edges _ _).mp blocks with old | ⟨-, -, unresolved⟩
    · exact linked.settled _ done _ old
    · exact unresolved done

end Enroll

end Sangria.Resolver
