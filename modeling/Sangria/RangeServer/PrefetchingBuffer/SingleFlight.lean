import Sangria.RangeServer.PrefetchingBuffer.Fetches

/-!
# One fetch at a time, and deleted keys

Two results about the callers of the prefetching buffer.  A key has one fetch at
a time if no request meets a channel that holds an old value, no caller retries
while the key is loading or gone, and no loading key is evicted.  A deleted key
stays absent if it has a state, or no value, when it is deleted, and if no old
fetch shares its number with a later one.
-/

namespace Sangria.RangeServer

open FiniteMap
open TransitionSystem (Reachable)
open Prefetching (Label Moves)
open PrefetchState (Enters)

/-- The callers, and an observer: those whose key was fetched at some moment since they called. -/
structure Flights where
  prefetching : Prefetching
  saw : Finset Nat

namespace Flights

variable {flights next : Flights} {label : Label}

def step (flights : Flights) (label : Label) : Option Flights :=
  (flights.prefetching.step label).map fun next => ⟨next, flights.saw ∪ next.sees⟩

def Initial (flights : Flights) : Prop := flights = ⟨⟨.new, ∅⟩, ∅⟩

/-- A buffer without deletions. -/
def Undeleted (_ : Flights) : Label → Prop
  | .delete _ => False
  | _ => True

instance (flights : Flights) : (label : Label) → Decidable (flights.Undeleted label)
  | .delete _ => instDecidableFalse
  | .request .. | .cloneWatcher _ | .wake _ | .retry _ | .complete .. | .fail _ | .upsert ..
  | .transactionComplete _ => instDecidableTrue

/-- A request meets no old value in the channel of a loading key, a caller retries a key that has
a state and is not loading, and no loading key is evicted. -/
def Orderly (flights : Flights) : Label → Prop
  | .delete _ => False
  | .request _ _ key => flights.prefetching.state.isLoading key = true →
    (flights.prefetching.state.keyStateWatcher.find key).all (·.sent = 0) = true
  | .retry id => (flights.prefetching.callers.find id).all (fun caller =>
    flights.prefetching.state.buffer.keyState.find caller.key ≠ none ∧
      flights.prefetching.state.isLoading caller.key = false) = true
  | .transactionComplete transaction =>
    ∀ key ∈ (flights.prefetching.state.transactionKeys.find transaction).getD [],
      PrefetchState.leave transaction (flights.prefetching.state.keyTransactions.find key) = none →
      flights.prefetching.state.isLoading key = false
  | _ => True

instance (flights : Flights) : (label : Label) → Decidable (flights.Orderly label)
  | .delete _ => instDecidableFalse
  | .request .. => inferInstanceAs (Decidable (_ = true → _ = true))
  | .retry _ => inferInstanceAs (Decidable (_ = true))
  | .transactionComplete transaction => inferInstanceAs (Decidable
    (∀ key ∈ (flights.prefetching.state.transactionKeys.find transaction).getD [], _ → _))
  | .cloneWatcher _ | .wake _ | .complete .. | .fail _ | .upsert .. => instDecidableTrue

structure Single (flights : Flights) : Prop where
  loading : ∀ id caller number, flights.prefetching.callers.find id = some caller →
    caller.fetch = some number →
    flights.prefetching.state.buffer.keyState.find caller.key = some (.loading number)
  one : ∀ id other caller caller', flights.prefetching.callers.find id = some caller →
    flights.prefetching.callers.find other = some caller' → caller.fetch ≠ none →
    caller'.fetch ≠ none → caller.key = caller'.key → id = other
  calm : ∀ id caller, flights.prefetching.callers.find id = some caller →
    caller.progress ≠ .panicked
  fetched : ∀ id caller, flights.prefetching.callers.find id = some caller →
    caller.progress = .told .fetched → id ∈ flights.saw
  waits : ∀ id caller number, flights.prefetching.callers.find id = some caller →
    (caller.progress = .asking number ∨ caller.progress = .waiting number) →
    flights.prefetching.state.announces caller.key = true → id ∈ flights.saw

section Steps

variable {id number : Nat} {caller : Caller} {state : PrefetchState} {saw : Finset Nat}

/-- A step that leaves the loading keys and what the channels hold. -/
theorem Single.keep (single : Single flights)
    (states : ∀ key number,
      flights.prefetching.state.buffer.keyState.find key = some (.loading number) →
      state.buffer.keyState.find key = some (.loading number))
    (announced : ∀ key, state.announces key = flights.prefetching.state.announces key)
    (grown : flights.saw ⊆ saw) : Single ⟨⟨state, flights.prefetching.callers⟩, saw⟩ where
  loading := fun id caller number found fetch =>
    states _ _ (single.loading id caller number found fetch)
  one := single.one
  calm := single.calm
  fetched := fun id caller found told => grown (single.fetched id caller found told)
  waits := fun id caller number found waiting told =>
    grown (single.waits id caller number found waiting ((announced _).symm.trans told))

variable {callers : HashMap Nat Caller}

/-- A caller that does not fetch comes to its next section. -/
theorem Single.park (single : Single flights)
    (split : ∀ {other : Nat} {later : Caller}, callers.find other = some later →
      (other = id ∧ later = caller) ∨
        other ≠ id ∧ flights.prefetching.callers.find other = some later)
    (idle : caller.fetch = none) (calm : caller.progress ≠ .panicked)
    (fetched : caller.progress = .told .fetched → id ∈ saw)
    (waits : ∀ number, (caller.progress = .asking number ∨ caller.progress = .waiting number) →
      flights.prefetching.state.announces caller.key = true → id ∈ saw)
    (states : state.buffer.keyState.find = flights.prefetching.state.buffer.keyState.find)
    (announced : ∀ key, state.announces key = flights.prefetching.state.announces key)
    (grown : flights.saw ⊆ saw) : Single ⟨⟨state, callers⟩, saw⟩ := by
  constructor
  · intro other later number found fetch
    rcases split found with ⟨rfl, rfl⟩ | ⟨-, old⟩
    · rw [idle] at fetch
      cases fetch
    · exact (congrFun states _).trans (single.loading other later number old fetch)
  · intro first second caller₁ caller₂ found₁ found₂ fetch₁ fetch₂ same
    rcases split found₁ with ⟨rfl, rfl⟩ | ⟨-, old₁⟩
    · exact absurd idle fetch₁
    · rcases split found₂ with ⟨rfl, rfl⟩ | ⟨-, old₂⟩
      · exact absurd idle fetch₂
      · exact single.one first second caller₁ caller₂ old₁ old₂ fetch₁ fetch₂ same
  · intro other later found
    rcases split found with ⟨rfl, rfl⟩ | ⟨-, old⟩
    · exact calm
    · exact single.calm other later old
  · intro other later found told
    rcases split found with ⟨rfl, rfl⟩ | ⟨-, old⟩
    · exact fetched told
    · exact grown (single.fetched other later old told)
  · intro other later number found waiting told
    have heard := (announced later.key).symm.trans told
    rcases split found with ⟨rfl, rfl⟩ | ⟨-, old⟩
    · exact waits number waiting heard
    · exact grown (single.waits other later number old waiting heard)

/-- A caller begins to fetch a key that nobody fetches. -/
theorem Single.begin (single : Single flights)
    (told : caller.progress = .told (.requested number))
    (split : ∀ {other : Nat} {later : Caller}, callers.find other = some later →
      (other = id ∧ later = caller) ∨
        other ≠ id ∧ flights.prefetching.callers.find other = some later)
    (idle : ∀ number, flights.prefetching.state.buffer.keyState.find caller.key ≠
      some (.loading number))
    (states : ∀ other, state.buffer.keyState.find other = if other = caller.key then
      some (.loading number) else flights.prefetching.state.buffer.keyState.find other)
    (announced : ∀ key, state.announces key = flights.prefetching.state.announces key)
    (grown : flights.saw ⊆ saw) : Single ⟨⟨state, callers⟩, saw⟩ := by
  have fetch : caller.fetch = some number := by rw [Caller.fetch, told]
  have elsewhere : ∀ other later, flights.prefetching.callers.find other = some later →
      later.fetch ≠ none → later.key ≠ caller.key := by
    intro other later old fetches same
    obtain ⟨earlier, fetches⟩ := Option.ne_none_iff_exists'.mp fetches
    exact idle earlier (same ▸ single.loading other later earlier old fetches)
  constructor
  · intro other later number' found' fetch'
    rw [states]
    rcases split found' with ⟨rfl, rfl⟩ | ⟨-, old⟩
    · rw [if_pos rfl, ← fetch.symm.trans fetch' |> Option.some.inj]
    · rw [if_neg (elsewhere other later old (by simp [fetch']))]
      exact single.loading other later number' old fetch'
  · intro first second caller₁ caller₂ found₁ found₂ fetch₁ fetch₂ same
    rcases split found₁ with ⟨rfl, rfl⟩ | ⟨-, old₁⟩ <;>
      rcases split found₂ with ⟨rfl, rfl⟩ | ⟨-, old₂⟩
    · rfl
    · exact absurd same.symm (elsewhere second caller₂ old₂ fetch₂)
    · exact absurd same (elsewhere first caller₁ old₁ fetch₁)
    · exact single.one first second caller₁ caller₂ old₁ old₂ fetch₁ fetch₂ same
  · intro other later found'
    rcases split found' with ⟨rfl, rfl⟩ | ⟨-, old⟩
    · simp [told]
    · exact single.calm other later old
  · intro other later found' told'
    rcases split found' with ⟨rfl, rfl⟩ | ⟨-, old⟩
    · rw [told] at told'
      cases told'
    · exact grown (single.fetched other later old told')
  · intro other later number' found' waiting heard
    rcases split found' with ⟨rfl, rfl⟩ | ⟨-, old⟩
    · rw [told] at waiting
      rcases waiting with waiting | waiting <;> cases waiting
    · exact grown (single.waits other later number' old waiting ((announced _).symm.trans heard))

/-- The caller that fetches a key reports, and the key is not loading any more. -/
theorem Single.report (single : Single flights)
    (found : flights.prefetching.callers.find id = some caller)
    (fetch : caller.fetch = some number)
    (states : ∀ other, other ≠ caller.key → state.buffer.keyState.find other =
      flights.prefetching.state.buffer.keyState.find other)
    (announced : ∀ key, state.announces key = true →
      flights.prefetching.state.announces key = true ∨ ∀ other later,
        flights.prefetching.callers.find other = some later → later.key = key → other ≠ id →
          other ∈ saw)
    (grown : flights.saw ⊆ saw) :
    Single ⟨⟨state, flights.prefetching.set id caller .finished⟩, saw⟩ := by
  have split : ∀ {other : Nat} {later : Caller},
      (flights.prefetching.set id caller .finished).find other = some later → _ :=
    eq_or_find_of_insert
  constructor
  · intro other later number' found' fetch'
    rcases split found' with ⟨rfl, rfl⟩ | ⟨ne, old⟩
    · cases fetch'
    · refine (states _ fun same => ne ?_).trans (single.loading other later number' old fetch')
      exact single.one other id later caller old found (by simp [fetch'])
        (by simp [fetch]) same
  · intro first second caller₁ caller₂ found₁ found₂ fetch₁ fetch₂ same
    rcases split found₁ with ⟨rfl, rfl⟩ | ⟨-, old₁⟩
    · exact absurd rfl fetch₁
    · rcases split found₂ with ⟨rfl, rfl⟩ | ⟨-, old₂⟩
      · exact absurd rfl fetch₂
      · exact single.one first second caller₁ caller₂ old₁ old₂ fetch₁ fetch₂ same
  · intro other later found'
    rcases split found' with ⟨rfl, rfl⟩ | ⟨-, old⟩
    · simp
    · exact single.calm other later old
  · intro other later found' told
    rcases split found' with ⟨rfl, rfl⟩ | ⟨-, old⟩
    · cases told
    · exact grown (single.fetched other later old told)
  · intro other later number' found' waiting heard
    rcases split found' with ⟨rfl, rfl⟩ | ⟨ne, old⟩
    · rcases waiting with waiting | waiting <;> cases waiting
    · rcases announced later.key heard with before | seen
      · exact grown (single.waits other later number' old waiting before)
      · exact seen other later old rfl ne

theorem Single.request {transaction : Uuid} {key : Bytes} {progress : Progress}
    (single : Single flights) (orderly : Orderly flights (.request id transaction key))
    (enters : Enters flights.prefetching.state state key progress)
    (announced : ∀ other, state.announces other = flights.prefetching.state.announces other) :
    Single ⟨⟨state, flights.prefetching.callers.insert id ⟨transaction, key, progress⟩⟩,
      flights.saw ∪ Prefetching.sees
        ⟨state, flights.prefetching.callers.insert id ⟨transaction, key, progress⟩⟩⟩ := by
  have grown := @Finset.subset_union_left _ _ flights.saw (Prefetching.sees
    ⟨state, flights.prefetching.callers.insert id ⟨transaction, key, progress⟩⟩)
  cases enters with
  | fetched here same =>
    refine single.park eq_or_find_of_insert rfl (by simp) (fun _ => ?_) (by simp) same announced
      grown
    refine Finset.mem_union_right _ (Prefetching.mem_sees.mpr ⟨_, find_insert_self .., ?_⟩)
    exact (congrFun same key).trans here
  | loading here same =>
    refine single.park eq_or_find_of_insert rfl (by simp) (by simp) (fun _ _ heard => ?_) same
      announced grown
    -- Nothing was sent on the channel yet.
    have unsent := orderly (by simp [PrefetchState.isLoading, here])
    unfold PrefetchState.announces at heard
    split at heard
    next channel watched =>
      rw [watched, Option.all_some, decide_eq_true_eq] at unsent
      exact absurd unsent (of_decide_eq_true heard).1
    next => cases heard
  | requested before states =>
    refine single.begin rfl eq_or_find_of_insert ?_ states announced grown
    intro number' loading
    rcases before with ⟨found, -⟩ | ⟨found, -⟩ <;> cases found.symm.trans loading

end Steps

theorem Single.step (single : Single flights) (orderly : Orderly flights label)
    (taken : flights.step label = some next) : Single next := by
  obtain ⟨prefetching, moved, rfl⟩ := Option.map_eq_some_iff.mp taken
  have grown : flights.saw ⊆ flights.saw ∪ prefetching.sees := Finset.subset_union_left
  cases Moves.of_step moved with
  | request _ enters announced => exact single.request orderly enters announced
  | clone found asking parked =>
    rcases parked with rfl | rfl
    · exact single.park eq_or_find_of_insert rfl (by simp) (by simp)
        (fun _ _ told => grown (single.waits _ _ _ found (.inl asking) told)) rfl (fun _ => rfl)
        grown
    · exact single.park eq_or_find_of_insert rfl (by simp) (by simp) (by simp) rfl
        (fun _ => rfl) grown
  | wake found waiting woken =>
    rcases woken with ⟨rfl, announced⟩ | rfl
    · exact single.park eq_or_find_of_insert rfl (by simp)
        (fun _ => grown (single.waits _ _ _ found (.inr waiting) announced))
        (by simp) rfl (fun _ => rfl) grown
    · exact single.park eq_or_find_of_insert rfl (by simp) (by simp) (by simp) rfl
        (fun _ => rfl) grown
  | @retry id caller number found retrying =>
    simp only [Orderly, found, Option.all_some, decide_eq_true_eq] at orderly
    obtain ⟨keyState, here⟩ := Option.ne_none_iff_exists'.mp orderly.1
    have changed := @PrefetchState.changed_of_some _ _ number _ here
    rw [changed, if_pos rfl] at grown ⊢
    refine @Single.begin _ id number { caller with progress := .told (.requested number) } _ _ _
      single rfl eq_or_find_of_insert ?_ (fun _ => PrefetchState.find_changeKeystateToLoading)
      (fun _ => PrefetchState.announces_changeKeystateToLoading) grown
    intro number' loading
    simp [PrefetchState.isLoading, loading] at orderly
  | @complete id caller number value found fetch =>
    have here := single.loading id caller number found fetch
    have states := fun other => PrefetchState.find_fetchComplete value here other
    refine single.report found fetch (fun other ne => (states other).trans (if_neg ne)) ?_ grown
    intro key heard
    rcases PrefetchState.announces_fetchComplete value here key heard with rfl | before
    · refine .inr fun other later old same ne => Finset.mem_union_right _ ?_
      refine Prefetching.mem_sees.mpr ⟨later, (find_insert_of_ne _ ne).trans old, ?_⟩
      exact (states later.key).trans (if_pos same)
    · exact .inl before
  | @fail id caller number found fetch =>
    have here := single.loading id caller number found fetch
    refine single.report found fetch
      (fun other ne => (PrefetchState.find_fetchFailed here other).trans (if_neg ne)) ?_ grown
    exact fun key heard => .inl (PrefetchState.announces_fetchFailed here key heard)
  | upsert => exact single.keep (fun _ _ loading => loading) (fun _ => rfl) grown
  | delete => exact orderly.elim
  | @transactionComplete transaction =>
    refine single.keep ?_ ?_ grown
    · intro key number here
      rcases @PrefetchState.evicted_or_kept flights.prefetching.state transaction key with
        ⟨-, -, keys, found, listed, last⟩ | ⟨-, same⟩
      · have idle := orderly key (by rw [found]; exact listed) last
        simp [PrefetchState.isLoading, here] at idle
      · exact same.trans here
    · intro key
      unfold PrefetchState.announces
      rw [(PrefetchState.complete_keeps transaction).1]

theorem single_of_reachable (reached : Reachable step Orderly Initial flights) :
    Single flights := by
  refine @Reachable.invariant _ _ step Orderly Initial Single ?_ ?_ _ reached
  · rintro _ rfl
    constructor <;> simp
  · intro state next label single orderly taken
    exact single.step orderly taken

/-- A key has one fetch at a time, a caller is told of a fetched key only if it was fetched since
the call, and no caller panics. -/
structure SingleFlight (flights : Flights) : Prop where
  one : ∀ key, ∀ id ∈ flights.prefetching.fetching key,
    ∀ other ∈ flights.prefetching.fetching key, id = other
  fetched : ∀ id caller, flights.prefetching.callers.find id = some caller →
    caller.progress = .told .fetched → id ∈ flights.saw
  calm : ∀ id caller, flights.prefetching.callers.find id = some caller →
    caller.progress ≠ .panicked

theorem single_flight (reached : Reachable step Orderly Initial flights) :
    SingleFlight flights := by
  have single := single_of_reachable reached
  refine ⟨?_, single.fetched, single.calm⟩
  intro key id fetches other fetches'
  obtain ⟨caller, found, rfl, fetch⟩ := Prefetching.mem_fetching.mp fetches
  obtain ⟨caller', found', same, fetch'⟩ := Prefetching.mem_fetching.mp fetches'
  exact single.one id other caller caller' found found' fetch fetch' same.symm

/-- A caller waits for a fetch that fails, and makes it. -/
theorem single_flight_retried : ∃ flights, Reachable step Orderly Initial flights ∧
    flights.prefetching.fetching [1] = {2} ∧ SingleFlight flights := by
  obtain ⟨flights, reached, passed⟩ :=
    @TransitionSystem.exists_reachable_of_run _ _ step Orderly Initial _ ⟨⟨.new, ∅⟩, ∅⟩ rfl
      [.request 1 1 [1], .request 2 2 [1], .cloneWatcher 2, .fail 1, .wake 2, .retry 2]
      (fun flights => decide (flights.prefetching.fetching [1] = {2})) (by decide +kernel)
  exact ⟨flights, reached, of_decide_eq_true passed, single_flight reached⟩

/-- After a failure the channel holds the old value, and a caller that finds the key loading
fetches it beside the one that does. -/
theorem two_callers_fetch : ∃ flights, Reachable step Undeleted Initial flights ∧
    2 ∈ flights.prefetching.fetching [1] ∧ 3 ∈ flights.prefetching.fetching [1] := by
  obtain ⟨flights, reached, passed⟩ :=
    @TransitionSystem.exists_reachable_of_run _ _ step Undeleted Initial _ ⟨⟨.new, ∅⟩, ∅⟩ rfl
      [.request 1 1 [1], .fail 1, .request 2 2 [1], .request 3 3 [1], .cloneWatcher 3, .wake 3,
        .retry 3]
      (fun flights => decide (2 ∈ flights.prefetching.fetching [1] ∧
        3 ∈ flights.prefetching.fetching [1])) (by decide +kernel)
  exact ⟨flights, reached, of_decide_eq_true passed⟩

end Flights

/-! ## Deleted keys -/

/-- The callers, and observers: the keys that were deleted and neither upserted nor fetched anew,
and the callers that fetch a key since before it was deleted. -/
structure Deletions where
  prefetching : Prefetching
  deleted : Finset Bytes
  stale : Finset Nat

namespace Deletions

variable {deletions next : Deletions} {label : Label}

def deletedAfter (deletions : Deletions) : Label → Finset Bytes
  | .upsert key _ => deletions.deleted.erase key
  | .delete key => insert key deletions.deleted
  | .complete id _ =>
    match deletions.prefetching.callers.find id with
    | some caller =>
      if id ∈ deletions.stale then deletions.deleted else deletions.deleted.erase caller.key
    | none => deletions.deleted
  | _ => deletions.deleted

def staleAfter (deletions : Deletions) : Label → Finset Nat
  | .delete key => deletions.stale ∪ deletions.prefetching.fetching key
  | _ => deletions.stale

def step (deletions : Deletions) (label : Label) : Option Deletions :=
  (deletions.prefetching.step label).map fun next =>
    ⟨next, deletions.deletedAfter label, deletions.staleAfter label⟩

def Initial (deletions : Deletions) : Prop := deletions = ⟨⟨.new, ∅⟩, ∅, ∅⟩

/-- A key is deleted only if it has a state or no value, and not between a failed fetch and the
next while another caller fetches it; a caller retries only a key that is requested with its
number. -/
def Careful (deletions : Deletions) : Label → Prop
  | .delete key =>
    (deletions.prefetching.state.buffer.keyState.find key = none →
      deletions.prefetching.state.buffer.prefetchStore.find key = none) ∧
    ((deletions.prefetching.state.buffer.keyState.find key).all (·.isRequested = false) = true ∨
      deletions.prefetching.fetching key = ∅)
  | .retry id => (deletions.prefetching.callers.find id).all (fun caller =>
      deletions.prefetching.state.buffer.keyState.find caller.key =
        caller.number.map KeyState.requested) = true
  | _ => True

instance (deletions : Deletions) : (label : Label) → Decidable (deletions.Careful label)
  | .delete _ => inferInstanceAs (Decidable ((_ → _) ∧ (_ ∨ _)))
  | .retry _ => inferInstanceAs (Decidable (_ = true))
  | .request .. | .transactionComplete _ | .cloneWatcher _ | .wake _ | .complete .. | .fail _
  | .upsert .. => instDecidableTrue

structure Absent (deletions : Deletions) : Prop where
  gone : ∀ key ∈ deletions.deleted,
    deletions.prefetching.state.buffer.prefetchStore.find key = none
  bounded : ∀ key keyState number,
    deletions.prefetching.state.buffer.keyState.find key = some keyState →
    keyState.number = some number → number ≤ deletions.prefetching.state.fetchSequenceNumber
  numbered : ∀ id caller number, deletions.prefetching.callers.find id = some caller →
    caller.number = some number → number ≤ deletions.prefetching.state.fetchSequenceNumber
  older : ∀ id ∈ deletions.stale, ∀ caller number keyState later,
    deletions.prefetching.callers.find id = some caller → caller.fetch = some number →
    deletions.prefetching.state.buffer.keyState.find caller.key = some keyState →
    keyState.number = some later → number < later
  known : ∀ id ∈ deletions.stale, ∃ caller, deletions.prefetching.callers.find id = some caller ∧
    (caller.fetch ≠ none ∨ caller.progress = .finished)

section Absent

variable {id number : Nat} {caller : Caller} {state : PrefetchState} {progress : Progress}
  {key : Bytes} {deleted : Finset Bytes}

theorem number_of_fetch (fetch : caller.fetch = some number) : caller.number = some number := by
  unfold Caller.fetch at fetch
  split at fetch
  next told =>
    rw [Caller.number, told]
    exact fetch
  next => cases fetch

/-- A caller that neither fetches nor has reported on a fetch is not stale. -/
theorem Absent.fresh (absent : Absent deletions)
    (found : deletions.prefetching.callers.find id = some caller) (idle : caller.fetch = none)
    (running : caller.progress ≠ .finished) : id ∉ deletions.stale := by
  intro stale
  obtain ⟨other, found', fetch | finished⟩ := absent.known id stale
  · cases found.symm.trans found'
    exact fetch idle
  · cases found.symm.trans found'
    exact running finished

/-- A caller goes on.  The numbers of the keys are from before or larger than all of them, so
the stale fetches stay older. -/
theorem Absent.advance (absent : Absent deletions)
    (gone : ∀ key ∈ deleted, state.buffer.prefetchStore.find key = none)
    (sequence : deletions.prefetching.state.fetchSequenceNumber ≤ state.fetchSequenceNumber)
    (states : ∀ key keyState number, state.buffer.keyState.find key = some keyState →
      keyState.number = some number →
      (∃ before, deletions.prefetching.state.buffer.keyState.find key = some before ∧
        before.number = some number) ∨
      deletions.prefetching.state.fetchSequenceNumber < number ∧
        number ≤ state.fetchSequenceNumber)
    (numbered : ∀ number, caller.number = some number → number ≤ state.fetchSequenceNumber)
    (stale : id ∈ deletions.stale → caller.progress = .finished) :
    Absent ⟨⟨state, deletions.prefetching.callers.insert id caller⟩, deleted,
      deletions.stale⟩ where
  gone := gone
  bounded := by
    intro key keyState number found same
    rcases states key keyState number found same with ⟨before, found', same'⟩ | ⟨_, bound⟩
    · exact (absent.bounded key before number found' same').trans sequence
    · exact bound
  numbered := by
    intro other found number here same
    rcases eq_or_find_of_insert here with ⟨_, rfl⟩ | ⟨_, before⟩
    · exact numbered number same
    · exact (absent.numbered other found number before same).trans sequence
  older := by
    intro other member found number keyState later here fetch listed same
    rcases eq_or_find_of_insert here with ⟨rfl, rfl⟩ | ⟨_, before⟩
    · rw [Caller.fetch, stale member] at fetch
      cases fetch
    · rcases states _ keyState later listed same with ⟨keyState', listed', same'⟩ | ⟨newer, _⟩
      · exact absent.older other member found number keyState' later before fetch listed' same'
      · exact (absent.numbered other found number before (number_of_fetch fetch)).trans_lt newer
  known := by
    intro other member
    obtain ⟨found, before, told⟩ := absent.known other member
    by_cases here : other = id
    · subst here
      exact ⟨caller, find_insert_self .., .inr (stale member)⟩
    · exact ⟨found, (find_insert_of_ne _ here).trans before, told⟩

/-- The call of another section, by a caller that does not fetch. -/
theorem Absent.park (absent : Absent deletions)
    (found : deletions.prefetching.callers.find id = some caller)
    (before : caller.number = some number) (idle : caller.fetch = none)
    (after : progress = .waiting number ∨ progress = .retrying number ∨
      progress = .told .fetched ∨ progress = .told (.loading number)) :
    Absent ⟨⟨deletions.prefetching.state, deletions.prefetching.set id caller progress⟩,
      deletions.deleted, deletions.stale⟩ := by
  have running : caller.progress ≠ .finished := by
    intro finished
    rw [Caller.number, finished] at before
    cases before
  refine absent.advance absent.gone (Nat.le_refl _)
    (fun _ keyState _ listed same => .inl ⟨keyState, listed, same⟩) ?_
    fun stale => absurd stale (absent.fresh found idle running)
  intro number' same
  have kept : number' = number := by
    rcases after with rfl | rfl | rfl | rfl <;> cases same <;> rfl
  exact kept ▸ absent.numbered id caller number found before

/-- The report of a caller about its fetch, which makes no number newer. -/
theorem Absent.report (absent : Absent deletions)
    (sequence : state.fetchSequenceNumber = deletions.prefetching.state.fetchSequenceNumber)
    (states : ∀ key keyState number, state.buffer.keyState.find key = some keyState →
      keyState.number = some number → ∃ before,
        deletions.prefetching.state.buffer.keyState.find key = some before ∧
          before.number = some number)
    (store : ∀ key ∈ deleted, key ∈ deletions.deleted ∧ state.buffer.prefetchStore.find key =
      deletions.prefetching.state.buffer.prefetchStore.find key) :
    Absent ⟨⟨state, deletions.prefetching.set id caller .finished⟩, deleted,
      deletions.stale⟩ := by
  refine absent.advance ?_ sequence.ge ?_ (fun _ same => by cases same) fun _ => rfl
  · intro key member
    obtain ⟨before, same⟩ := store key member
    exact same.trans (absent.gone key before)
  · exact fun key keyState number listed same => .inl (states key keyState number listed same)

theorem Absent.request {tx : Uuid} (absent : Absent deletions)
    (unused : deletions.prefetching.callers.find id = none)
    (enters : Enters deletions.prefetching.state state key progress)
    (store : state.buffer.prefetchStore = deletions.prefetching.state.buffer.prefetchStore) :
    Absent ⟨⟨state, deletions.prefetching.callers.insert id ⟨tx, key, progress⟩⟩,
      deletions.deleted, deletions.stale⟩ := by
  have gone : ∀ key ∈ deletions.deleted, state.buffer.prefetchStore.find key = none :=
    store ▸ absent.gone
  have fresh : id ∈ deletions.stale → progress = .finished := by
    intro stale
    obtain ⟨caller, found, _⟩ := absent.known id stale
    cases unused.symm.trans found
  cases enters with
  | fetched here same sequence =>
    refine absent.advance gone sequence.ge ?_ (fun _ same => by cases same) fresh
    exact fun _ keyState _ listed same' => .inl ⟨keyState, same ▸ listed, same'⟩
  | loading here same sequence =>
    refine absent.advance gone sequence.ge ?_ ?_ fresh
    · exact fun _ keyState _ listed same' => .inl ⟨keyState, same ▸ listed, same'⟩
    · rintro _ ⟨⟩
      exact sequence ▸ absent.bounded key _ _ here rfl
  | @requested number before states =>
    -- the number of the key was its number, or it is the next one
    have numbered : number ≤ state.fetchSequenceNumber := by
      rcases before with ⟨here, sequence⟩ | ⟨_, _, sequence⟩
      · exact sequence ▸ absent.bounded key _ _ here rfl
      · exact sequence.ge
    refine absent.advance gone ?_ ?_ (fun _ same => by cases same; exact numbered) fresh
    · rcases before with ⟨_, sequence⟩ | ⟨_, new, sequence⟩
      · exact sequence.ge
      · omega
    · intro other keyState later listed same
      rw [states] at listed
      split at listed
      next here =>
        cases listed
        cases same
        rcases before with ⟨found, _⟩ | ⟨_, new, _⟩
        · exact .inl ⟨_, here ▸ found, rfl⟩
        · exact .inr ⟨by omega, numbered⟩
      next => exact .inl ⟨keyState, listed, same⟩

theorem Absent.retry (absent : Absent deletions)
    (careful : Careful deletions (.retry id))
    (found : deletions.prefetching.callers.find id = some caller)
    (retrying : caller.progress = .retrying number) :
    Absent ⟨⟨(deletions.prefetching.state.changeKeystateToLoading caller.key number).1,
      deletions.prefetching.set id caller
        (if (deletions.prefetching.state.changeKeystateToLoading caller.key number).2 then
          .told (.requested number) else .panicked)⟩, deletions.deleted, deletions.stale⟩ := by
  simp only [Careful, found, Option.all_some, decide_eq_true_eq, Caller.number, retrying,
    Option.map_some] at careful
  have sequence := @PrefetchState.fetchSequenceNumber_change
    deletions.prefetching.state caller.key number
  have fresh : id ∉ deletions.stale :=
    absent.fresh found (by rw [Caller.fetch, retrying]) (by rw [retrying]; exact nofun)
  rw [PrefetchState.changed_of_some careful, if_pos rfl]
  refine absent.advance ?_ sequence.ge ?_ ?_ fun stale => absurd stale fresh
  · intro key member
    rw [PrefetchState.prefetchStore_change]
    exact absent.gone key member
  · intro key keyState later listed same
    rw [PrefetchState.find_changeKeystateToLoading] at listed
    split at listed
    next here =>
      cases listed
      cases same
      exact .inl ⟨_, here ▸ careful, rfl⟩
    next => exact .inl ⟨keyState, listed, same⟩
  · rintro _ ⟨⟩
    exact sequence ▸ absent.numbered id caller number found (by rw [Caller.number, retrying])

theorem Absent.complete {value : Option Bytes} (absent : Absent deletions)
    (found : deletions.prefetching.callers.find id = some caller)
    (fetch : caller.fetch = some number) :
    Absent ⟨⟨deletions.prefetching.state.fetchComplete caller.key value number,
      deletions.prefetching.set id caller .finished⟩,
      deletions.deletedAfter (.complete id value), deletions.stale⟩ := by
  by_cases here :
      deletions.prefetching.state.buffer.keyState.find caller.key = some (.loading number)
  · -- A stale fetch has an older number, so this one was requested after the deletion.
    have fresh : id ∉ deletions.stale := fun stale =>
      absurd (absent.older id stale caller number _ number found fetch here rfl) (Nat.lt_irrefl _)
    obtain ⟨sequence, store⟩ := PrefetchState.fetchComplete_keeps value here
    refine absent.report sequence ?_ ?_
    · intro key keyState later listed same
      rw [PrefetchState.find_fetchComplete value here] at listed
      split at listed
      next =>
        cases listed
        cases same
      next => exact ⟨keyState, listed, same⟩
    · simp only [deletedAfter, found, if_neg fresh]
      intro key member
      obtain ⟨ne, listed⟩ := Finset.mem_erase.mp member
      exact ⟨listed, store key ne⟩
  · rw [show deletions.prefetching.state.fetchComplete caller.key value number =
      deletions.prefetching.state from if_neg here]
    refine absent.report rfl (fun _ keyState _ listed same => ⟨keyState, listed, same⟩) ?_
    intro key member
    simp only [deletedAfter, found] at member
    split at member
    next => exact ⟨member, rfl⟩
    next => exact ⟨Finset.mem_of_mem_erase member, rfl⟩

theorem Absent.fail (absent : Absent deletions) :
    Absent ⟨⟨deletions.prefetching.state.fetchFailed caller.key number,
      deletions.prefetching.set id caller .finished⟩, deletions.deleted, deletions.stale⟩ := by
  by_cases here :
      deletions.prefetching.state.buffer.keyState.find caller.key = some (.loading number)
  · obtain ⟨sequence, store⟩ := PrefetchState.fetchFailed_keeps here
    refine absent.report sequence ?_ fun key listed => ⟨listed, by rw [store]⟩
    intro key keyState later listed same
    rw [PrefetchState.find_fetchFailed here] at listed
    split at listed
    next there =>
      cases listed
      cases same
      exact ⟨_, there ▸ here, rfl⟩
    next => exact ⟨keyState, listed, same⟩
  · rw [show deletions.prefetching.state.fetchFailed caller.key number =
      deletions.prefetching.state from if_neg here]
    exact absent.report rfl (fun _ keyState _ listed same => ⟨keyState, listed, same⟩)
      fun key listed => ⟨listed, rfl⟩

theorem Absent.delete (absent : Absent deletions)
    (careful : Careful deletions (.delete key)) :
    Absent ⟨⟨deletions.prefetching.state.delete key, deletions.prefetching.callers⟩,
      insert key deletions.deleted, deletions.stale ∪ deletions.prefetching.fetching key⟩ := by
  obtain ⟨kept, idle⟩ := careful
  have sequence := @PrefetchState.fetchSequenceNumber_delete deletions.prefetching.state key
  refine ⟨?_, ?_, ?_, ?_, ?_⟩
  · intro other member
    rw [PrefetchState.find_store_delete]
    split
    next => rfl
    next stays =>
      rcases Finset.mem_insert.mp member with rfl | listed
      · exact kept (not_not.mp fun stated => stays ⟨rfl, stated⟩)
      · exact absent.gone other listed
  · intro other keyState number found same
    exact sequence ▸ absent.bounded other keyState number
      (PrefetchState.find_keyState_delete found same).1 same
  · exact fun id caller number found same => sequence ▸ absent.numbered id caller number found same
  · -- a key keeps its number only where it is requested, and then nobody fetches it
    intro id member caller number keyState later found fetch listed same
    obtain ⟨listed', requested⟩ := PrefetchState.find_keyState_delete listed same
    rcases Finset.mem_union.mp member with stale | fetching
    · exact absent.older id stale caller number keyState later found fetch listed' same
    · obtain ⟨other, found', here, _⟩ := Prefetching.mem_fetching.mp fetching
      cases found.symm.trans found'
      rcases idle with unrequested | none
      · rw [← here, listed'] at unrequested
        simp [requested here] at unrequested
      · rw [none] at fetching
        cases fetching
  · intro id member
    rcases Finset.mem_union.mp member with stale | fetching
    · exact absent.known id stale
    · obtain ⟨caller, found, _, fetch⟩ := Prefetching.mem_fetching.mp fetching
      exact ⟨caller, found, .inl fetch⟩

end Absent

theorem Absent.step (absent : Absent deletions) (careful : Careful deletions label)
    (taken : deletions.step label = some next) : Absent next := by
  obtain ⟨prefetching, moved, rfl⟩ := Option.map_eq_some_iff.mp taken
  cases Moves.of_step moved with
  | request unused enters _ store => exact absent.request unused enters store
  | clone found asking parked =>
    refine absent.park found (by rw [Caller.number, asking]) (by rw [Caller.fetch, asking]) ?_
    rcases parked with rfl | rfl <;> simp
  | wake found waiting woken =>
    refine absent.park found (by rw [Caller.number, waiting]) (by rw [Caller.fetch, waiting]) ?_
    rcases woken with ⟨rfl, _⟩ | rfl <;> simp
  | retry found retrying => exact absent.retry careful found retrying
  | complete found fetch => exact absent.complete found fetch
  | fail => exact absent.fail
  | @upsert key value =>
    obtain ⟨gone, bounded, numbered, older, known⟩ := absent
    refine ⟨?_, bounded, numbered, older, known⟩
    intro other member
    obtain ⟨ne, listed⟩ := Finset.mem_erase.mp member
    exact (find_insert_of_ne _ ne).trans (gone other listed)
  | delete => exact absent.delete careful
  | @transactionComplete tx =>
    have sequence := (@PrefetchState.complete_keeps deletions.prefetching.state tx).2
    have kept : ∀ key keyState, (deletions.prefetching.state.processTransactionComplete
        tx).buffer.keyState.find key = some keyState →
        deletions.prefetching.state.buffer.keyState.find key = some keyState := by
      intro key keyState found
      rcases PrefetchState.evicted_or_kept tx key with ⟨_, evicted, _⟩ | ⟨_, same⟩
      · cases evicted.symm.trans found
      · exact same.symm.trans found
    refine ⟨?_, ?_, ?_, ?_, absent.known⟩
    · intro key member
      rcases PrefetchState.evicted_or_kept tx key with ⟨evicted, _⟩ | ⟨same, _⟩
      · exact evicted
      · exact same.trans (absent.gone key member)
    · exact fun key keyState number found same =>
        sequence ▸ absent.bounded key keyState number (kept key keyState found) same
    · exact fun id caller number found same =>
        sequence ▸ absent.numbered id caller number found same
    · exact fun id stale caller number keyState later found fetch listed =>
        absent.older id stale caller number keyState later found fetch (kept _ keyState listed)

/-- A deleted key stays absent until it is upserted or a fetch that was requested later
completes, and a deletion leaves the other values. -/
theorem deleted_key_absent (reached : Reachable step Careful Initial deletions) :
    (∀ key ∈ deletions.deleted,
      deletions.prefetching.state.buffer.getFromBuffer key = none) ∧
    ∀ key, Careful deletions (.delete key) →
      (deletions.prefetching.state.delete key).buffer.getFromBuffer key = none ∧
      ∀ other, other ≠ key → (deletions.prefetching.state.delete key).buffer.getFromBuffer other =
        deletions.prefetching.state.buffer.getFromBuffer other := by
  have absent : Absent deletions := by
    refine @Reachable.invariant _ _ step Careful Initial Absent ?_ ?_ _ reached
    · rintro _ rfl
      constructor <;> simp [PrefetchState.new, PrefetchingBuffer.new]
    · intro state next label absent careful taken
      exact absent.step careful taken
  refine ⟨absent.gone, fun key careful => ?_⟩
  have store := fun other => @PrefetchState.find_store_delete deletions.prefetching.state key other
  simp only [PrefetchingBuffer.getFromBuffer, store]
  grind [Careful]

/-- A loading key is deleted; its fetch comes too late. -/
theorem deleted_key_absent_loading : ∃ deletions, Reachable step Careful Initial deletions ∧
    [1] ∈ deletions.deleted ∧
    deletions.prefetching.state.buffer.getFromBuffer [1] = none := by
  obtain ⟨deletions, reached, passed⟩ :=
    @TransitionSystem.exists_reachable_of_run _ _ step Careful Initial _ ⟨⟨.new, ∅⟩, ∅, ∅⟩ rfl
      [.request 1 1 [1], .upsert [1] [2], .delete [1], .complete 1 (some [2])]
      (fun deletions => decide ([1] ∈ deletions.deleted)) (by decide +kernel)
  have deleted := of_decide_eq_true passed
  exact ⟨deletions, reached, deleted, (deleted_key_absent reached).1 [1] deleted⟩

/-- A key that no transaction requested is upserted and deleted, and keeps its value. -/
theorem deleted_key_kept : ∃ deletions, Reachable step (fun _ _ => True) Initial deletions ∧
    [1] ∈ deletions.deleted ∧
    deletions.prefetching.state.buffer.getFromBuffer [1] = some [2] := by
  obtain ⟨deletions, reached, passed⟩ :=
    @TransitionSystem.exists_reachable_of_run _ _ step (fun _ _ => True) Initial _
      ⟨⟨.new, ∅⟩, ∅, ∅⟩ rfl [.upsert [1] [2], .delete [1]]
      (fun deletions => decide ([1] ∈ deletions.deleted ∧
        deletions.prefetching.state.buffer.getFromBuffer [1] = some [2])) (by decide +kernel)
  exact ⟨deletions, reached, of_decide_eq_true passed⟩

end Deletions

end Sangria.RangeServer
