import Sangria.Lib.Release
import Sangria.Resolver.Links

/-!
# The worklist of `register_committed_transactions`

`Tracks` relates the loop variables to the state before the call.  While the
dependents of the popped transaction are iterated, those not reached yet are
`owed` a decrement.  When the stack is empty, the transactions found ready are
exactly the `Released` ones, listed with their blockers first.
-/

namespace Sangria.Resolver

open Release

variable {state : State} {waiting : Uuid → Prop}

namespace Worklist

def readyIds (work : Worklist) : List Uuid := work.newReadyToCommit.map (·.id)

def Done (ids : List Uuid) (work : Worklist) (id : Uuid) : Prop :=
  id ∈ ids ∨ id ∈ work.readyIds

structure Tracks (origin : State) (waiting : Uuid → Prop) (ids : List Uuid)
    (work : Worklist) (owed : List Uuid) : Prop where
  resolved : work.state.resolvedTransactions = origin.resolvedTransactions ∪ ids.toFinset
  named : ∀ id info, work.state.infoPerTransaction.find id = some info → info.id = id
  kept : ∀ id info, work.state.infoPerTransaction.find id = some info →
    ∃ old, origin.infoPerTransaction.find id = some old ∧
      info.participantRangesInfo = old.participantRangesInfo ∧ info.fake = old.fake
  present : ∀ id, work.state.infoPerTransaction.find id = none →
    origin.infoPerTransaction.find id = none
  counted : ∀ id, waiting id → id ∉ work.readyIds →
    ∃ info, work.state.infoPerTransaction.find id = some info ∧
      info.numDependencies = (work.state.blockers id).card + owed.count id ∧
      0 < info.numDependencies
  distinct : owed.Nodup
  owes : ∀ id ∈ owed, waiting id ∧ id ∉ work.readyIds
  shrinks : ∀ dependency id, work.state.Blocks dependency id → origin.Blocks dependency id
  removed : ∀ dependency id, origin.Blocks dependency id →
    work.state.Blocks dependency id ∨ Done ids work dependency
  stacked : ∀ id ∈ work.newResolvedDependencies, Done ids work id
  unvisited : ∀ dependency id, Done ids work dependency →
    work.state.Blocks dependency id → dependency ∈ work.newResolvedDependencies
  /-- A transaction that is ready has no blocker left. -/
  freed : ∀ dependency id, work.state.Blocks dependency id → id ∉ work.readyIds
  first : BlockersFirst origin.Blocks waiting (· ∈ ids) work.readyIds
  once : work.readyIds.Nodup
  cloned : ∀ info ∈ work.newReadyToCommit,
    ∃ old, origin.infoPerTransaction.find info.id = some old ∧
      info.participantRangesInfo = old.participantRangesInfo ∧ info.fake = old.fake

variable {origin : State} {waiting : Uuid → Prop} {ids : List Uuid}
variable {work : Worklist} {owed rest : List Uuid} {popped : Uuid}

/-- An entry changes, but for its name and what its transaction was submitted with. -/
theorem Tracks.entries_put {changed : Uuid} {info entry : TransactionInfo}
    (tracks : Tracks origin waiting ids work owed)
    (found : work.state.infoPerTransaction.find changed = some info) (name : entry.id = info.id)
    (participants : entry.participantRangesInfo = info.participantRangesInfo)
    (fake : entry.fake = info.fake) :
    (∀ id other, (work.state.put changed entry).infoPerTransaction.find id = some other →
      other.id = id ∧ ∃ old, origin.infoPerTransaction.find id = some old ∧
        other.participantRangesInfo = old.participantRangesInfo ∧ other.fake = old.fake) ∧
    ∀ id, (work.state.put changed entry).infoPerTransaction.find id = none →
      origin.infoPerTransaction.find id = none := by
  simp only [State.find_put]
  constructor
  · intro id other here
    split at here
    next same =>
      cases here
      rw [same, name, participants, fake]
      exact ⟨tracks.named changed info found, tracks.kept changed info found⟩
    next => exact ⟨tracks.named id other here, tracks.kept id other here⟩
  · intro id missing
    split at missing
    next => cases missing
    next => exact tracks.present id missing

theorem Tracks.release {dependent : Uuid}
    (tracks : Tracks origin waiting ids work (dependent :: owed)) :
    ∃ next, work.release dependent = some next ∧ Tracks origin waiting ids next owed ∧
      next.newResolvedDependencies.length ≤ work.newResolvedDependencies.length + 1 ∧
      next.state.infoPerTransaction.tally (fun _ info => info.dependents.card) =
        work.state.infoPerTransaction.tally (fun _ info => info.dependents.card) := by
  obtain ⟨waits, notReady⟩ := tracks.owes dependent List.mem_cons_self
  obtain ⟨info, found, count, positive⟩ := tracks.counted dependent waits notReady
  obtain ⟨notOwed, distinct⟩ := List.nodup_cons.mp tracks.distinct
  rw [List.count_cons_self, List.count_eq_zero.mpr notOwed] at count
  set decremented : TransactionInfo :=
    { info with numDependencies := info.numDependencies - 1 } with defined
  set state := work.state.put dependent decremented with defined'
  have edges (dep id : Uuid) :
      state.Blocks dep id ↔ work.state.Blocks dep id :=
    State.blocks_put_of_dependents found rfl
  have blockers (id : Uuid) : state.blockers id = work.state.blockers id :=
    State.blockers_congr fun dep => edges dep id
  have lookup (id : Uuid) : state.infoPerTransaction.find id =
      if id = dependent then some decremented else work.state.infoPerTransaction.find id :=
    State.find_put _ _ _ _
  have weight : state.infoPerTransaction.tally (fun _ info => info.dependents.card) =
      work.state.infoPerTransaction.tally (fun _ info => info.dependents.card) := by
    exact Nat.add_right_cancel
      (FiniteMap.tally_insert_of_find (fun _ info => info.dependents.card) decremented found)
  obtain ⟨entries, present⟩ :=
    @Tracks.entries_put _ _ _ _ _ _ _ decremented tracks found rfl rfl rfl
  -- counters of the transactions that are neither this one nor ready
  have counted (id : Uuid) (waits' : waiting id) (notReady' : id ∉ work.readyIds)
      (ne : id ≠ dependent) :
      ∃ entry, state.infoPerTransaction.find id = some entry ∧
        entry.numDependencies = (state.blockers id).card + owed.count id ∧
        0 < entry.numDependencies := by
    obtain ⟨entry, found', count', positive'⟩ := tracks.counted id waits' notReady'
    refine ⟨entry, by rw [lookup, if_neg ne]; exact found', ?_, positive'⟩
    rw [blockers, count', List.count_cons_of_ne (Ne.symm ne)]
  simp only [Worklist.release, found, if_neg (Nat.pos_iff_ne_zero.mp positive)]
  by_cases last : info.numDependencies - 1 = 0
  · have unblocked (dep : Uuid) : ¬ work.state.Blocks dep dependent := by
      intro blocks
      have : 0 < (work.state.blockers dependent).card :=
        Finset.card_pos.mpr ⟨dep, State.mem_blockers.mpr blocks⟩
      omega
    have ready : (⟨state, dependent :: work.newResolvedDependencies,
        work.newReadyToCommit ++ [decremented]⟩ : Worklist).readyIds =
        work.readyIds ++ [dependent] := by
      simp [readyIds, defined, tracks.named dependent info found]
    rw [if_pos last]
    refine ⟨_, rfl, ?_, by simp, weight⟩
    constructor
    case resolved => exact tracks.resolved
    case named => exact fun id entry here => (entries id entry here).1
    case kept => exact fun id entry here => (entries id entry here).2
    case present => exact present
    case distinct => exact distinct
    case counted =>
      intro id waits' notReady'
      rw [ready, List.mem_append, not_or, List.mem_singleton] at notReady'
      exact counted id waits' notReady'.1 notReady'.2
    case owes =>
      intro id mem
      obtain ⟨waits', notReady'⟩ := tracks.owes id (List.mem_cons_of_mem _ mem)
      refine ⟨waits', ?_⟩
      rw [ready, List.mem_append, not_or, List.mem_singleton]
      refine ⟨notReady', ?_⟩
      rintro rfl
      exact notOwed mem
    case shrinks =>
      exact fun dep id blocks => tracks.shrinks _ _ ((edges _ _).mp blocks)
    case removed =>
      intro dep id blocks
      rcases tracks.removed dep id blocks with blocks' | listed | done
      · exact .inl ((edges _ _).mpr blocks')
      · exact .inr (.inl listed)
      · exact .inr (.inr (by rw [ready]; exact List.mem_append_left _ done))
    case stacked =>
      intro id mem
      rcases List.mem_cons.mp mem with rfl | below
      · exact .inr (by rw [ready]; simp)
      · rcases tracks.stacked id below with listed | done
        · exact .inl listed
        · exact .inr (by rw [ready]; exact List.mem_append_left _ done)
    case unvisited =>
      intro dep id done blocks
      rw [Done, ready, List.mem_append, List.mem_singleton, ← or_assoc] at done
      rcases done with done | rfl
      · exact List.mem_cons_of_mem _
          (tracks.unvisited dep id done ((edges _ _).mp blocks))
      · exact List.mem_cons_self
    case freed =>
      intro dep id blocks
      rw [ready, List.mem_append, not_or, List.mem_singleton]
      refine ⟨tracks.freed _ _ ((edges _ _).mp blocks), ?_⟩
      rintro rfl
      exact unblocked dep ((edges _ _).mp blocks)
    case first =>
      rw [ready]
      refine tracks.first.append_singleton waits ?_
      intro dep blocks
      exact (tracks.removed dep dependent blocks).resolve_left (unblocked dep)
    case once =>
      rw [ready]
      exact List.nodup_append.mpr ⟨tracks.once, by simp, by
        rintro id mem other single rfl
        rw [List.mem_singleton] at single
        exact notReady (single ▸ mem)⟩
    case cloned =>
      intro entry mem
      rcases List.mem_append.mp mem with old | single
      · exact tracks.cloned entry old
      · rw [List.mem_singleton.mp single]
        rw [show decremented.id = dependent from tracks.named dependent info found]
        exact tracks.kept dependent info found
  · rw [if_neg last]
    refine ⟨_, rfl, ?_, by simp, weight⟩
    constructor
    case resolved => exact tracks.resolved
    case named => exact fun id entry here => (entries id entry here).1
    case kept => exact fun id entry here => (entries id entry here).2
    case present => exact present
    case distinct => exact distinct
    case counted =>
      intro id waits' notReady'
      by_cases same : id = dependent
      · subst same
        refine ⟨decremented, by rw [lookup, if_pos rfl], ?_, Nat.pos_of_ne_zero last⟩
        rw [blockers, List.count_eq_zero.mpr notOwed]
        exact Nat.sub_eq_of_eq_add count
      · exact counted id waits' notReady' same
    case owes => exact fun id mem => tracks.owes id (List.mem_cons_of_mem _ mem)
    case shrinks =>
      exact fun dep id blocks => tracks.shrinks _ _ ((edges _ _).mp blocks)
    case removed =>
      intro dep id blocks
      exact (tracks.removed dep id blocks).imp_left (edges _ _).mpr
    case stacked => exact tracks.stacked
    case unvisited =>
      exact fun dep id done blocks =>
        tracks.unvisited dep id done ((edges _ _).mp blocks)
    case freed => exact fun dep id blocks => tracks.freed _ _ ((edges _ _).mp blocks)
    case first => exact tracks.first
    case once => exact tracks.once
    case cloned => exact tracks.cloned

theorem Tracks.releaseAll (tracks : Tracks origin waiting ids work owed) :
    ∃ next, work.releaseAll owed = some next ∧ Tracks origin waiting ids next [] ∧
      next.newResolvedDependencies.length ≤
        work.newResolvedDependencies.length + owed.length ∧
      next.state.infoPerTransaction.tally (fun _ info => info.dependents.card) =
        work.state.infoPerTransaction.tally (fun _ info => info.dependents.card) := by
  induction owed generalizing work with
  | nil => exact ⟨work, rfl, tracks, by simp, rfl⟩
  | cons _ _ ih =>
    obtain ⟨middle, released, tracks', grows, weight⟩ := tracks.release
    obtain ⟨next, rest', tracks'', grows', weight'⟩ := ih tracks'
    refine ⟨next, by simp only [Worklist.releaseAll, released, rest'], tracks'', ?_, ?_⟩
    · rw [List.length_cons]
      omega
    · rw [weight', weight]

/-- Popping a transaction owes each of its dependents one decrement. -/
theorem Tracks.take {info : TransactionInfo} (tracks : Tracks origin waiting ids work [])
    (stack : work.newResolvedDependencies = popped :: rest)
    (found : work.state.infoPerTransaction.find popped = some info)
    (distinct : owed.Nodup) (enumerates : ∀ id, id ∈ owed ↔ id ∈ info.dependents)
    (blocked : ∀ dep id, origin.Blocks dep id → waiting id) :
    Tracks origin waiting ids
      ⟨work.state.put popped { info with dependents := ∅ }, rest, work.newReadyToCommit⟩
      owed := by
  have edges (dep id : Uuid) :
      (work.state.put popped { info with dependents := ∅ }).Blocks dep id ↔
        work.state.Blocks dep id ∧ dep ≠ popped := by
    rw [State.blocks_put]
    split
    next same => simp [same]
    next ne => simp [ne]
  have listed (id : Uuid) : id ∈ owed ↔ work.state.Blocks popped id := by
    rw [enumerates]
    simp [State.Blocks, found]
  have lookup (id : Uuid) :
      (work.state.put popped { info with dependents := ∅ }).infoPerTransaction.find id =
        if id = popped then some { info with dependents := ∅ }
        else work.state.infoPerTransaction.find id :=
    State.find_put _ _ _ _
  obtain ⟨entries, present⟩ :=
    @Tracks.entries_put _ _ _ _ _ _ _ { info with dependents := ∅ } tracks found rfl rfl rfl
  have done : Done ids work popped := tracks.stacked popped (by simp [stack])
  constructor
  case resolved => exact tracks.resolved
  case named => exact fun id entry here => (entries id entry here).1
  case kept => exact fun id entry here => (entries id entry here).2
  case present => exact present
  case counted =>
    intro id waits notReady
    obtain ⟨entry, before, count, positive⟩ := tracks.counted id waits notReady
    have after : ∃ entry',
        (work.state.put popped { info with dependents := ∅ }).infoPerTransaction.find id =
          some entry' ∧ entry'.numDependencies = entry.numDependencies := by
      rw [lookup]
      split
      next same =>
        rw [same, found] at before
        cases before
        exact ⟨_, rfl, rfl⟩
      next => exact ⟨entry, before, rfl⟩
    obtain ⟨entry', found', same⟩ := after
    refine ⟨entry', found', ?_, by rw [same]; exact positive⟩
    have fewer : (work.state.put popped { info with dependents := ∅ }).blockers id =
        (work.state.blockers id).erase popped := by
      ext dep
      simp [edges, and_comm]
    rw [same, count, fewer, List.count_nil]
    by_cases mem : id ∈ owed
    · have blocks : popped ∈ work.state.blockers id :=
        State.mem_blockers.mpr ((listed id).mp mem)
      rw [List.count_eq_one_of_mem distinct mem]
      exact (Finset.card_erase_add_one blocks).symm
    · rw [List.count_eq_zero.mpr mem, Finset.erase_eq_of_notMem]
      rw [State.mem_blockers, ← listed]
      exact mem
  case distinct => exact distinct
  case owes =>
    intro id mem
    have blocks := (listed id).mp mem
    exact ⟨blocked _ _ (tracks.shrinks _ _ blocks), tracks.freed _ _ blocks⟩
  case shrinks =>
    exact fun dep id blocks => tracks.shrinks _ _ ((edges _ _).mp blocks).1
  case removed =>
    intro dep id blocks
    by_cases same : dep = popped
    · exact .inr (same ▸ done)
    · exact (tracks.removed dep id blocks).imp_left
        fun blocks' => (edges _ _).mpr ⟨blocks', same⟩
  case stacked =>
    exact fun id mem => tracks.stacked id (by rw [stack]; exact .tail _ mem)
  case unvisited =>
    intro dep id done' blocks
    obtain ⟨blocks', ne⟩ := (edges _ _).mp blocks
    have := tracks.unvisited dep id done' blocks'
    rw [stack, List.mem_cons] at this
    exact this.resolve_left ne
  case freed => exact fun dep id blocks => tracks.freed _ _ ((edges _ _).mp blocks).1
  case first => exact tracks.first
  case once => exact tracks.once
  case cloned => exact tracks.cloned

theorem Tracks.skip (tracks : Tracks origin waiting ids work [])
    (stack : work.newResolvedDependencies = popped :: rest)
    (missing : work.state.infoPerTransaction.find popped = none) :
    Tracks origin waiting ids { work with newResolvedDependencies := rest } [] :=
  { tracks with
    stacked := fun id mem => tracks.stacked id (by rw [stack]; exact .tail _ mem)
    unvisited := by
      intro dep id done blocks
      have := tracks.unvisited dep id done blocks
      rw [stack, List.mem_cons] at this
      refine this.resolve_left ?_
      rintro rfl
      obtain ⟨info, found, -⟩ := blocks
      exact absurd (missing.symm.trans found) (by simp) }

theorem Tracks.visit (order : IterationOrder) (tracks : Tracks origin waiting ids work [])
    (stack : work.newResolvedDependencies = popped :: rest)
    (blocked : ∀ dep id, origin.Blocks dep id → waiting id) :
    ∃ next, visit order { work with newResolvedDependencies := rest } popped = some next ∧
      Tracks origin waiting ids next [] ∧ next.size < work.size := by
  simp only [Worklist.visit]
  cases found : work.state.infoPerTransaction.find popped with
  | none =>
    refine ⟨_, rfl, tracks.skip stack found, ?_⟩
    simp only [size, stack, List.length_cons]
    omega
  | some info =>
    have taken := tracks.take stack found (order.nodup popped info.dependents)
      (order.mem_list popped info.dependents) blocked
    obtain ⟨next, released, tracks', grows, weight⟩ := taken.releaseAll
    refine ⟨next, released, tracks', ?_⟩
    have owed : (order.list popped info.dependents).length = info.dependents.card := by
      rw [← List.toFinset_card_of_nodup (order.nodup popped info.dependents)]
      congr 1
      ext id
      simp [order.mem_list]
    have exchanged := FiniteMap.tally_insert_of_find (fun _ info => info.dependents.card)
      { info with dependents := ∅ } found
    simp only [State.put, Finset.card_empty, Nat.add_zero] at grows weight exchanged
    simp only [size, stack, List.length_cons, weight]
    omega

theorem Tracks.drain (order : IterationOrder) {iterations : Nat}
    (tracks : Tracks origin waiting ids work []) (enough : work.size ≤ iterations)
    (blocked : ∀ dep id, origin.Blocks dep id → waiting id) :
    ∃ finished, drain order iterations work = some finished ∧
      Tracks origin waiting ids finished [] ∧ finished.newResolvedDependencies = [] := by
  induction iterations generalizing work with
  | zero =>
    refine ⟨work, rfl, tracks, ?_⟩
    simp only [size] at enough
    exact List.length_eq_zero_iff.mp (by omega)
  | succ _ ih =>
    simp only [Worklist.drain]
    cases stack : work.newResolvedDependencies with
    | nil => exact ⟨work, rfl, tracks, stack⟩
    | cons =>
      obtain ⟨next, visited, tracks', smaller⟩ := tracks.visit order stack blocked
      simp only [visited]
      exact ih tracks' (by omega)

end Worklist

/-- What a call of `register_committed_transactions` does to the state, and
which transactions it returns as ready. -/
structure Registered (before : State) (waiting : Uuid → Prop) (ids : List Uuid)
    (after : State) (ready : List TransactionInfo) : Prop where
  resolved : after.resolvedTransactions = before.resolvedTransactions ∪ ids.toFinset
  edges : ∀ dependency id, after.Blocks dependency id ↔ before.Blocks dependency id ∧
    dependency ∉ ids ∧ dependency ∉ ready.map (·.id)
  kept : ∀ id info, after.infoPerTransaction.find id = some info →
    ∃ old, before.infoPerTransaction.find id = some old ∧
      info.participantRangesInfo = old.participantRangesInfo ∧ info.fake = old.fake
  present : ∀ id, after.infoPerTransaction.find id = none →
    before.infoPerTransaction.find id = none
  linked : Linked after fun id => waiting id ∧ id ∉ ready.map (·.id)
  first : BlockersFirst before.Blocks waiting (· ∈ ids) (ready.map (·.id))
  released : ∀ id, id ∈ ready.map (·.id) ↔ Released before.Blocks waiting (· ∈ ids) id
  once : (ready.map (·.id)).Nodup
  cloned : ∀ info ∈ ready, ∃ old, before.infoPerTransaction.find info.id = some old ∧
    info.participantRangesInfo = old.participantRangesInfo ∧ info.fake = old.fake

theorem Linked.tracks (linked : Linked state waiting) (ids : List Uuid) :
    Worklist.Tracks state waiting ids
      { state := { state with
          resolvedTransactions := state.resolvedTransactions ∪ ids.toFinset }
        newResolvedDependencies := ids.reverse
        newReadyToCommit := [] } [] where
  resolved := rfl
  named := linked.named
  kept := fun id info found => ⟨info, found, rfl, rfl⟩
  present := fun id missing => missing
  counted := by
    intro id waits _
    obtain ⟨info, found, count, positive⟩ := linked.counted id waits
    exact ⟨info, found, count, positive⟩
  distinct := List.nodup_nil
  owes := by simp
  shrinks := fun _ _ blocks => blocks
  removed := fun _ _ blocks => .inl blocks
  stacked := fun id mem => .inl (List.mem_reverse.mp mem)
  unvisited := by
    rintro dep id (listed | ready) _
    · exact List.mem_reverse.mpr listed
    · simp [Worklist.readyIds] at ready
  freed := by simp [Worklist.readyIds]
  first := BlockersFirst.nil
  once := List.nodup_nil
  cloned := by simp

/-- The call never fails, and finds exactly the transactions released by the
registered ones. -/
theorem Linked.registerCommittedTransactions
    (linked : Linked state waiting) (order : IterationOrder) (ids : List Uuid) :
    ∃ after ready, state.registerCommittedTransactions order ids = some (after, ready) ∧
      Registered state waiting ids after ready := by
  obtain ⟨finished, drained, tracks, empty⟩ :=
    (linked.tracks ids).drain order le_rfl linked.blocked
  refine ⟨finished.state, finished.newReadyToCommit, ?_, ?_⟩
  · simp only [State.registerCommittedTransactions, drained, Option.map_some]
  have edges (dep id : Uuid) : finished.state.Blocks dep id ↔
      state.Blocks dep id ∧ dep ∉ ids ∧ dep ∉ finished.readyIds := by
    constructor
    · intro blocks
      have notDone : ¬ finished.Done ids dep := by
        intro done
        have := tracks.unvisited _ _ done blocks
        simp [empty] at this
      exact ⟨tracks.shrinks _ _ blocks, not_or.mp notDone⟩
    · rintro ⟨blocks, notListed, notReady⟩
      exact (tracks.removed _ _ blocks).resolve_right (not_or.mpr ⟨notListed, notReady⟩)
  -- a waiting transaction whose blockers are done has a zero counter unless it is ready
  have closed (id : Uuid) (waits : waiting id)
      (unblocked : ∀ blocker, state.Blocks blocker id →
        blocker ∈ ids ∨ blocker ∈ finished.readyIds) : id ∈ finished.readyIds := by
    by_contra notReady
    obtain ⟨info, -, count, positive⟩ := tracks.counted id waits notReady
    rw [List.count_nil, Nat.add_zero] at count
    rw [count] at positive
    obtain ⟨blocker, mem⟩ := Finset.card_pos.mp positive
    obtain ⟨blocks, notListed, notReady'⟩ := (edges _ _).mp (State.mem_blockers.mp mem)
    exact (unblocked blocker blocks).elim notListed notReady'
  constructor
  case resolved => exact tracks.resolved
  case edges => exact edges
  case kept => exact tracks.kept
  case present => exact tracks.present
  case first => exact tracks.first
  case once => exact tracks.once
  case cloned => exact tracks.cloned
  case released =>
    exact fun id => ⟨Released.of_blockersFirst tracks.first, Released.mem_of_closed closed⟩
  case linked =>
    refine ⟨tracks.named, ?_, ?_, ?_⟩
    · rintro id ⟨waits, notReady⟩
      simpa using tracks.counted id waits notReady
    · intro dep id blocks
      exact ⟨linked.blocked _ _ (tracks.shrinks _ _ blocks), tracks.freed _ _ blocks⟩
    · intro dep done id blocks
      obtain ⟨before, notListed, -⟩ := (edges _ _).mp blocks
      rw [tracks.resolved, Finset.mem_union, List.mem_toFinset] at done
      exact linked.settled _ (done.resolve_right notListed) _ before

theorem Linked.registered {after : State} {order : IterationOrder}
    {ids : List Uuid} {ready : List TransactionInfo} (linked : Linked state waiting)
    (res : state.registerCommittedTransactions order ids = some (after, ready)) :
    Registered state waiting ids after ready := by
  obtain ⟨after', ready', res', registered⟩ :=
    linked.registerCommittedTransactions order ids
  cases res.symm.trans res'
  exact registered

end Sangria.Resolver
