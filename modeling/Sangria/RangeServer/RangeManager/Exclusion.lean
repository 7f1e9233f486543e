import Sangria.Lib.TransitionSystem
import Sangria.RangeServer.RangeManager.WaitingLine

/-!
# Only the owner's lock is released

`release` takes the lock from whoever holds it, and the check of the holder is
some sections earlier.  The check stays valid as long as no other handler of the
transaction gives the lock away in between.
-/

namespace Sangria.RangeServer

open FiniteMap
open TransitionSystem

/-- The transactions whose lock a handler in flight can give away. -/
def Handler.releasers : Handler → List Uuid
  | .get .. | .prepare _ _ (.returned _) | .abort _ (.returned _) | .commit _ _ (.returned _) => []
  | .prepare transaction _ _ | .abort transaction _ => [transaction]
  | .commit transactions _ _ => transactions

def Handler.releases : Handler → Bool
  | .prepare _ _ .releasing | .prepare _ _ (.softReleasing _) | .abort _ .releasing
  | .commit _ _ .releasing => true
  | _ => false

namespace RangeManager

/-- A handler of the transaction that can give its lock away is in flight. -/
def releasing (range : RangeManager) (transaction : Uuid) : Bool :=
  decide (∃ id ∈ range.handlers.keys,
    ((range.handlers.find id).any fun handler => decide (transaction ∈ handler.releasers)) = true)

/-- A `prepare`, `abort` or `commit` arrives when no other one for its
transactions is in flight. -/
def OneAtATime (range : RangeManager) : Label → Prop
  | .prepare _ transaction _ | .abort _ transaction => range.releasing transaction = false
  | .commit _ transactions _ => ∀ transaction ∈ transactions, range.releasing transaction = false
  | _ => True

instance (range : RangeManager) (label : Label) : Decidable (range.OneAtATime label) := by
  unfold OneAtATime
  split <;> infer_instance

/-- The transactions a request is about that can give their lock away. -/
def requested : Label → List Uuid
  | .prepare _ transaction _ | .abort _ transaction => [transaction]
  | .commit _ transactions _ => transactions
  | _ => []

theorem OneAtATime.requested {range : RangeManager} {label : Label}
    (alone : range.OneAtATime label) :
    ∀ transaction ∈ requested label, range.releasing transaction = false := by
  intro transaction mem
  cases label with
  | prepare | abort => exact List.mem_singleton.mp mem ▸ alone
  | commit => exact alone transaction mem
  | _ => cases mem

/-- Whoever is about to release the lock does so for its holder, and the lock
passes from a transaction only through its own handlers. -/
structure OwnersRelease (config : Configuration) (range : RangeManager) : Prop where
  holder : ∀ {id handler}, range.handlers.find id = some handler → handler.releases = true →
    ∃ transaction ∈ handler.releasers, range.lockTable.currentHolder = some transaction
  kept : ∀ {label next transaction}, range.step config label = some next →
    range.lockTable.currentHolder = some transaction →
    next.lockTable.currentHolder = some transaction ∨
      ∃ id handler, label = .run id ∧ range.handlers.find id = some handler ∧
        handler.releases = true ∧ transaction ∈ handler.releasers

theorem not_mem_releasers_of_releasing {range : RangeManager} {transaction : Uuid}
    (none : range.releasing transaction = false) {id : Nat} {handler : Handler}
    (found : range.handlers.find id = some handler) : transaction ∉ handler.releasers := by
  intro mem
  refine of_decide_eq_false none ⟨id, mem_keys.mpr ⟨handler, found⟩, ?_⟩
  rw [found, Option.any_some, decide_eq_true mem]

end RangeManager

/-! ## The invariant -/

def Handler.critical (signalled : Bool) : Handler → Bool
  | .prepare _ _ .waiting => signalled
  | .prepare _ _ .releasing | .prepare _ _ (.deciding _) | .prepare _ _ (.appending ..)
  | .prepare _ _ (.softReleasing _) | .abort _ .appending | .abort _ .flushing
  | .abort _ .releasing | .commit _ _ .releasing => true
  | _ => false

/-- The handler is not one of the transaction that is left out of account. -/
def Handler.Counts (ignored : Option Uuid) (handler : Handler) : Prop :=
  ∀ transaction ∈ handler.releasers, ignored ≠ some transaction

theorem Handler.counts_none (handler : Handler) : handler.Counts none := by
  intro transaction _ same
  cases same

/-- Handlers that rely on the lock are handlers of its holder; this is said of
all transactions, or of all but one. -/
structure Excluded (ignored : Option Uuid) (range : RangeManager) : Prop where
  lined : Lined range.lockTable range.handlers
  unique : ∀ {id id' handler handler' transaction}, range.handlers.find id = some handler →
    range.handlers.find id' = some handler' → ignored ≠ some transaction →
    transaction ∈ handler.releasers → transaction ∈ handler'.releasers → id = id'
  critical : ∀ {id handler}, range.handlers.find id = some handler → handler.Counts ignored →
    handler.critical (id ∈ range.lockTable.signalled) = true →
    ∃ transaction ∈ handler.releasers, range.lockTable.currentHolder = some transaction

theorem Handler.critical_of_signalled {handler : Handler} {signalled signalled' : Bool}
    (critical : handler.critical signalled' = true) :
    handler.critical signalled = true ∨
      signalled' = true ∧ ∃ transaction, handler.awaits = some transaction ∧
        handler.releasers = [transaction] := by
  cases handler with
  | prepare transaction _ stage =>
    cases stage with
    | waiting => exact .inr ⟨critical, transaction, rfl, rfl⟩
    | _ => exact .inl critical
  | get => exact .inl critical
  | abort _ stage | commit _ _ stage => cases stage <;> exact .inl critical

theorem Handler.critical_mono {handler : Handler} (critical : handler.critical false = true)
    (signalled : Bool) : handler.critical signalled = true := by
  rcases Handler.critical_of_signalled critical with before | woken
  · exact before
  · cases woken.1

theorem Handler.critical_of_releases {handler : Handler} (signalled : Bool)
    (releases : handler.releases = true) : handler.critical signalled = true := by
  unfold Handler.releases at releases
  split at releases
  iterate 4
    next => rfl
  next => cases releases

namespace Excluded

variable {config : Configuration} {ignored : Option Uuid} {range next : RangeManager} {id : Nat}
  {handler handler' : Handler}
variable {label : Label} {transaction : Uuid}

theorem loaded (storage : Records) : Excluded ignored (.loaded storage) := by
  have none : ∀ {id handler}, (RangeManager.loaded storage).handlers.find id ≠ some handler := by
    intro id handler found
    rw [RangeManager.loaded, find_empty] at found
    cases found
  exact ⟨lined_loaded storage, fun found => absurd found none, fun found => absurd found none⟩

/-- One handler changes and holds back no more transactions than before. -/
theorem change (excluded : Excluded ignored range) (lined : Lined next.lockTable next.handlers)
    (handlers : next.handlers = range.handlers.insert id handler')
    (apart : ∀ transaction ∈ handler'.releasers, ignored ≠ some transaction →
      ∀ other candidate, range.handlers.find other = some candidate →
      transaction ∈ candidate.releasers → other = id)
    (here : handler'.Counts ignored →
      handler'.critical (id ∈ next.lockTable.signalled) = true →
      ∃ transaction ∈ handler'.releasers, next.lockTable.currentHolder = some transaction)
    (there : ∀ other candidate, other ≠ id → range.handlers.find other = some candidate →
      candidate.Counts ignored → candidate.critical (other ∈ next.lockTable.signalled) = true →
      ∃ transaction ∈ candidate.releasers, next.lockTable.currentHolder = some transaction) :
    Excluded ignored next := by
  refine ⟨lined, ?_, ?_⟩
  · intro first second one two transaction foundOne foundTwo counted inOne inTwo
    rw [handlers, find_insert] at foundOne foundTwo
    split at foundOne
    next same =>
      split at foundTwo
      next same' => rw [same, same']
      next =>
        cases foundOne
        exact same.trans (apart transaction inOne counted second two foundTwo inTwo).symm
    next =>
      split at foundTwo
      next same =>
        cases foundTwo
        exact (apart transaction inTwo counted first one foundOne inOne).trans same.symm
      next => exact excluded.unique foundOne foundTwo counted inOne inTwo
  · intro other candidate found counts critical
    rw [handlers, find_insert] at found
    split at found
    next same =>
      cases found
      subst same
      exact here counts critical
    next ne => exact there other candidate ne found counts critical

theorem apart_of_found (excluded : Excluded ignored range)
    (found : range.handlers.find id = some handler)
    (fewer : ∀ transaction ∈ handler'.releasers, transaction ∈ handler.releasers) :
    ∀ transaction ∈ handler'.releasers, ignored ≠ some transaction → ∀ other candidate,
      range.handlers.find other = some candidate → transaction ∈ candidate.releasers →
      other = id :=
  fun transaction mem counted _ _ present inside =>
    excluded.unique present found counted inside (fewer transaction mem)

theorem put (excluded : Excluded ignored range) (lined : Lined next.lockTable next.handlers)
    (found : range.handlers.find id = some handler)
    (handlers : next.handlers = range.handlers.insert id handler')
    (holder : next.lockTable.currentHolder = range.lockTable.currentHolder)
    (signals : ∀ other, other ≠ id → other ∈ next.lockTable.signalled →
      other ∈ range.lockTable.signalled)
    (fewer : ∀ transaction ∈ handler'.releasers, transaction ∈ handler.releasers)
    (here : handler'.Counts ignored →
      handler'.critical (id ∈ next.lockTable.signalled) = true →
      ∃ transaction ∈ handler'.releasers, range.lockTable.currentHolder = some transaction) :
    Excluded ignored next := by
  refine excluded.change lined handlers (excluded.apart_of_found found fewer) ?_ ?_
  · rw [holder]
    exact here
  · intro other candidate ne present counts critical
    rw [holder]
    apply excluded.critical present counts
    rcases Handler.critical_of_signalled critical with before | ⟨signalled, _⟩
    · exact before
    · rw [signalled] at critical
      rw [decide_eq_true (signals other ne (of_decide_eq_true signalled))]
      exact critical

theorem proceed (excluded : Excluded ignored range) (lined : Lined next.lockTable next.handlers)
    (found : range.handlers.find id = some handler)
    (handlers : next.handlers = range.handlers.insert id handler')
    (table : next.lockTable = range.lockTable)
    (fewer : ∀ transaction ∈ handler'.releasers, transaction ∈ handler.releasers)
    (here : ∀ signalled, handler'.critical signalled = true →
      handler.critical signalled = true ∧ handler'.releasers = handler.releasers ∨
        ∃ transaction ∈ handler'.releasers, range.lockTable.currentHolder = some transaction) :
    Excluded ignored next := by
  refine excluded.put lined found handlers (by rw [table]) (fun _ _ => table ▸ fun inside => inside)
    fewer ?_
  intro counts critical
  rw [table] at critical
  rcases here _ critical with before | holds
  · unfold Handler.Counts at counts
    rw [before.2] at counts ⊢
    exact excluded.critical found counts before.1
  · exact holds

theorem quiet (excluded : Excluded ignored range)
    (lined : Lined (range.put id handler').lockTable (range.put id handler').handlers)
    (found : range.handlers.find id = some handler)
    (quiet : RangeManager.Quiet config range id label handler handler') :
    Excluded ignored (range.put id handler') := by
  have none : ∀ {handler}, ∀ transaction ∈ ([] : List Uuid),
      transaction ∈ Handler.releasers handler := by
    intro handler transaction mem
    cases mem
  cases quiet with
  | missTable | missRecord | missBuffer | recordMissing =>
    exact excluded.proceed lined found rfl rfl none fun _ critical => by cases critical
  | @verified transaction req holds =>
    have held := LockTable.currentHolder_of_isCurrentlyHolding holds
    refine excluded.proceed lined found rfl rfl ?_ ?_
    · split <;> exact fun _ inside => inside
    · intro _ _
      refine .inr ⟨transaction, ?_, held⟩
      split <;> exact List.mem_singleton_self transaction
  | lockLost | flushed | abortIdle =>
    exact excluded.proceed lined found rfl rfl none fun _ critical => by cases critical
  | decided | abortAppended | abortFlushed =>
    exact excluded.proceed lined found rfl rfl (fun _ inside => inside)
      fun _ _ => .inl ⟨rfl, rfl⟩
  | @chosen _ _ _ _ _ early =>
    cases early with
    | true =>
      exact excluded.proceed lined found rfl rfl (fun _ inside => inside)
        fun _ _ => .inl ⟨rfl, rfl⟩
    | false =>
      exact excluded.proceed lined found rfl rfl (fun _ inside => inside)
        fun _ critical => by cases critical
  | abortVerified holds =>
    have held := LockTable.currentHolder_of_isCurrentlyHolding holds
    exact excluded.proceed lined found rfl rfl (fun _ inside => inside)
      fun _ _ => .inr ⟨_, List.mem_singleton_self _, held⟩
  | appended | logged | notHolding =>
    exact excluded.proceed lined found rfl rfl (fun _ inside => inside)
      fun _ critical => by cases critical
  | collected =>
    split at lined
    next empty =>
      rw [if_pos empty]
      exact excluded.proceed lined found rfl rfl (fun _ inside => inside)
        fun _ critical => by cases critical
    next nonempty =>
      rw [if_neg nonempty]
      exact excluded.proceed lined found rfl rfl (fun _ inside => inside)
        fun _ critical => by cases critical
  | holding held mem =>
    exact excluded.proceed lined found rfl rfl (fun _ inside => inside)
      fun _ _ => .inr ⟨_, mem, held⟩

theorem arrivePrepare_releasers (config : Configuration) (transaction : Uuid)
    (req : PrepareRequest) :
    (∀ owner ∈ (Handler.prepare transaction req
      (RangeManager.arrivePrepare config req)).releasers, owner = transaction) ∧
    ∀ signalled, (Handler.prepare transaction req
      (RangeManager.arrivePrepare config req)).critical signalled = false := by
  have one : ∀ owner ∈ [transaction], owner = transaction :=
    fun owner mem => List.mem_singleton.mp mem
  have none : ∀ owner ∈ ([] : List Uuid), owner = transaction := by
    intro owner mem
    cases mem
  unfold RangeManager.arrivePrepare
  split
  next =>
    split
    next => split <;> exact ⟨one, fun _ => rfl⟩
    next => exact ⟨none, fun _ => rfl⟩
  next =>
    split
    next => exact ⟨one, fun _ => rfl⟩
    next => exact ⟨none, fun _ => rfl⟩

theorem fails (excluded : Excluded ignored range)
    (lined : Lined (range.put id handler').lockTable (range.put id handler').handlers)
    (found : range.handlers.find id = some handler)
    (fails : RangeManager.Fails handler handler') : Excluded ignored (range.put id handler') := by
  cases fails with
  | get | append | flush | abort | commit =>
    refine excluded.proceed lined found rfl rfl ?_ fun _ critical => by cases critical
    intro transaction mem
    cases mem

/-- A request arrives for transactions that have none in flight. -/
theorem arrive (excluded : Excluded ignored range)
    (lined : Lined (range.put id handler').lockTable (range.put id handler').handlers)
    (alone : ∀ transaction ∈ handler'.releasers, ignored ≠ some transaction →
      range.releasing transaction = false)
    (early : ∀ signalled, handler'.critical signalled = false) :
    Excluded ignored (range.put id handler') := by
  refine excluded.change lined rfl ?_ ?_ ?_
  · intro transaction mem counted other candidate found inside
    exact absurd inside
      (RangeManager.not_mem_releasers_of_releasing (alone transaction mem counted) found)
  · intro _ critical
    rw [early] at critical
    cases critical
  · intro other candidate _ found counts critical
    exact excluded.critical found counts critical

theorem acquire (excluded : Excluded ignored range) (found : range.handlers.find id = some handler)
    (table : next.lockTable = range.lockTable.acquire transaction id)
    (lined : Lined next.lockTable next.handlers)
    (handlers : next.handlers = range.handlers.insert id handler')
    (absent : id ∉ range.lockTable.signalled)
    (fewer : ∀ owner ∈ handler'.releasers, owner ∈ handler.releasers)
    (here : handler'.critical (id ∈ next.lockTable.signalled) = true →
      transaction ∈ handler'.releasers ∧ id ∈ next.lockTable.signalled) :
    Excluded ignored next := by
  refine excluded.change lined handlers (excluded.apart_of_found found fewer) ?_ ?_
  · intro _ critical
    obtain ⟨mem, signalled⟩ := here critical
    rw [table] at signalled ⊢
    exact ⟨transaction, mem,
      ((LockTable.mem_signalled_acquire signalled).resolve_left absent).2⟩
  · intro other candidate ne present counts critical
    have before : candidate.critical (other ∈ range.lockTable.signalled) = true := by
      rcases Handler.critical_of_signalled critical with before | ⟨signalled, _⟩
      · exact before
      · rw [signalled] at critical
        rw [table] at signalled
        rw [decide_eq_true ((LockTable.mem_signalled_acquire
          (of_decide_eq_true signalled)).resolve_right fun same => ne same.1)]
        exact critical
    obtain ⟨owner, mem, held⟩ := excluded.critical present counts before
    refine ⟨owner, mem, ?_⟩
    rw [table, LockTable.currentHolder_acquire, held]
    rfl

theorem release (excluded : Excluded ignored range) (mark : Option Bool)
    (found : range.handlers.find id = some handler) (counts : handler.Counts ignored)
    (releases : handler.releases = true)
    (table : next.lockTable = range.lockTable.release mark)
    (lined : Lined next.lockTable next.handlers)
    (handlers : next.handlers = range.handlers.insert id handler')
    (fewer : ∀ transaction ∈ handler'.releasers, transaction ∈ handler.releasers)
    (done : ∀ signalled, handler'.critical signalled = false) : Excluded ignored next := by
  obtain ⟨holder, mine, held⟩ :=
    excluded.critical found counts (Handler.critical_of_releases _ releases)
  refine excluded.change lined handlers (excluded.apart_of_found found fewer) ?_ ?_
  · intro _ critical
    rw [done] at critical
    cases critical
  · intro other candidate ne present counted critical
    by_cases before : candidate.critical (other ∈ range.lockTable.signalled) = true
    · -- Two handlers would rely on the lock.
      obtain ⟨owner, mem, same⟩ := excluded.critical present counted before
      cases held.symm.trans same
      exact absurd (excluded.unique present found (counts holder mine) mem mine) ne
    · obtain ⟨signalled, transaction, awaits, releasers⟩ :=
        (Handler.critical_of_signalled critical).resolve_left before
      have unsignalled : other ∉ range.lockTable.signalled := by
        intro inside
        rw [signalled] at critical
        rw [decide_eq_true inside] at before
        exact before critical
      rw [table] at signalled ⊢
      obtain ⟨req, queued, rfl, new⟩ := (LockTable.mem_signalled_release
        excluded.lined.unobserved (of_decide_eq_true signalled)).resolve_left unsignalled
      obtain ⟨_, waiter, waiting, waits⟩ := excluded.lined.queued req queued
      cases present.symm.trans waiting
      cases awaits.symm.trans waits
      exact ⟨req.transaction, releasers ▸ List.mem_singleton_self _, new⟩

theorem step (excluded : Excluded ignored range)
    (alone : ∀ transaction ∈ RangeManager.requested label, ignored ≠ some transaction →
      range.releasing transaction = false)
    (counts : ∀ {id handler}, label = .run id → range.handlers.find id = some handler →
      handler.releases = true → handler.Counts ignored)
    (taken : range.step config label = some next) : Excluded ignored next := by
  have moves := RangeManager.moves_of_step taken
  have lined := excluded.lined.moves moves
  have nobody : ∀ {handler}, ∀ transaction ∈ ([] : List Uuid),
      transaction ∈ Handler.releasers handler := by
    intro handler transaction mem
    cases mem
  cases moves with
  | arrivedGet =>
    exact excluded.arrive lined (fun _ mem => by cases mem) fun _ => rfl
  | @arrivedPrepare id transaction req =>
    obtain ⟨fewer, early⟩ := arrivePrepare_releasers config transaction req
    refine excluded.arrive lined ?_ early
    intro owner mem
    exact alone owner (fewer owner mem ▸ List.mem_singleton_self transaction)
  | arrivedAbort | arrivedCommit => exact excluded.arrive lined alone fun _ => rfl
  | quiet found quiet => exact excluded.quiet lined found quiet
  | failed found fails => exact excluded.fails lined found fails
  | lockedGet found =>
    exact excluded.acquire found rfl lined rfl
      (excluded.lined.absent_of_some found rfl).1 nobody fun critical => by cases critical
  | lockedPrepare found =>
    refine excluded.acquire found rfl lined rfl (excluded.lined.absent_of_some found rfl).1
      (fun _ inside => inside) ?_
    exact fun signalled => ⟨List.mem_singleton_self _, of_decide_eq_true signalled⟩
  | wokenGet found =>
    exact excluded.put lined found rfl rfl (fun _ _ inside => Finset.mem_of_mem_erase inside)
      nobody fun _ critical => by cases critical
  | wokenPrepare found signalled =>
    refine excluded.put lined found rfl rfl (fun _ _ inside => Finset.mem_of_mem_erase inside)
      (fun _ inside => inside) fun counts _ => ?_
    have holds := excluded.critical found counts (decide_eq_true signalled)
    exact holds
  | read found reads =>
    cases reads with
    | record | buffer | storage =>
      exact excluded.proceed lined found rfl rfl nobody fun _ critical => by cases critical
  | releasedPrepare found | releasedAbort found =>
    exact excluded.release none found (counts rfl found rfl) rfl rfl lined rfl nobody
      fun _ => rfl
  | saved found =>
    unfold RangeManager.save at lined ⊢
    simp only at lined ⊢
    split at lined
    next traditional =>
      rw [if_pos traditional]
      exact excluded.proceed lined found rfl rfl (fun _ inside => inside)
        fun _ _ => .inl ⟨rfl, rfl⟩
    next early =>
      rw [if_neg early]
      exact excluded.proceed lined found rfl rfl (fun _ inside => inside)
        fun _ _ => .inl ⟨rfl, rfl⟩
  | softReleased found =>
    exact excluded.release (some true) found (counts rfl found rfl) rfl rfl lined rfl
      (fun _ inside => inside) fun _ => rfl
  | releasedCommit found =>
    exact excluded.release none found (counts rfl found rfl) rfl rfl lined rfl
      (fun _ inside => inside) fun _ => rfl
  | stored found | updatedBuffer found | cleared found =>
    exact excluded.proceed lined found rfl rfl (fun _ inside => inside)
      fun _ critical => by cases critical
  | deleteRefused found | storeTimedOut found =>
    exact excluded.proceed lined found rfl rfl nobody fun _ critical => by cases critical
  | cleaned found =>
    exact excluded.put lined found rfl rfl (fun _ _ inside => inside) nobody
      fun _ critical => by cases critical
  | @delivered id _ found returned =>
    have kept : ∀ {other candidate},
        find (range.handlers.erase id) other = some candidate →
        range.handlers.find other = some candidate := by
      intro other candidate present
      rw [find_erase] at present
      split at present
      next => cases present
      next => exact present
    exact ⟨lined, fun first second => excluded.unique (kept first) (kept second),
      fun present => excluded.critical (kept present)⟩

theorem stepAlone (excluded : Excluded none range)
    (alone : range.OneAtATime label) (taken : range.step config label = some next) :
    Excluded none next :=
  excluded.step (fun transaction mem _ => alone.requested transaction mem)
    (fun _ _ _ => Handler.counts_none _) taken

theorem holder_kept (excluded : Excluded none range) (taken : range.step config label = some next)
    (held : range.lockTable.currentHolder = some transaction) :
    next.lockTable.currentHolder = some transaction ∨
      ∃ id handler, label = .run id ∧ range.handlers.find id = some handler ∧
        handler.releases = true ∧ transaction ∈ handler.releasers := by
  have mine : ∀ {id handler}, range.handlers.find id = some handler → handler.releases = true →
      transaction ∈ handler.releasers := by
    intro id handler found releases
    obtain ⟨owner, mem, same⟩ :=
      excluded.critical found (Handler.counts_none _) (Handler.critical_of_releases _ releases)
    cases held.symm.trans same
    exact mem
  cases RangeManager.moves_of_step taken with
  | lockedGet | lockedPrepare =>
    left
    change LockTable.currentHolder (LockTable.acquire ..) = _
    rw [LockTable.currentHolder_acquire, held]
    rfl
  | releasedPrepare found | softReleased found | releasedAbort found | releasedCommit found =>
    exact .inr ⟨_, _, rfl, found, rfl, mine found rfl⟩
  | saved =>
    left
    unfold RangeManager.save
    simp only
    split <;> exact held
  | _ => exact .inl held

end Excluded

namespace RangeManager

/-- Releases take the lock from their own transaction, in every run where the
requests that can release it come one at a time. -/
theorem ownersRelease_of_reachable (config : Configuration) {range : RangeManager}
    (reached : Reachable (step config) OneAtATime (fun start => ∃ storage, start = .loaded storage)
      range) : OwnersRelease config range := by
  have excluded : Excluded none range := by
    apply reached.invariant
    · intro start loaded
      obtain ⟨storage, rfl⟩ := loaded
      exact .loaded storage
    · exact fun _ _ _ excluded alone taken => excluded.stepAlone alone taken
  exact ⟨fun found releases =>
      excluded.critical found (Handler.counts_none _) (Handler.critical_of_releases _ releases),
    fun taken held => excluded.holder_kept taken held⟩

/-- A range whose lock is kept until the end of a transaction. -/
def lockingRange : Configuration := ⟨.traditional, .openClients, .all, 0⟩

def readOnce : List Label :=
  [.get 0 1 [7], .run 0, .run 0, .run 0, .run 0, .deliver 0]

/-- The abort under `id` is about to release the lock that `holder` has. -/
def abortReleases (id : Nat) (transaction holder : Uuid) (range : RangeManager) : Bool :=
  match range.handlers.find id with
  | some (.abort aborted .releasing) =>
    decide (aborted = transaction ∧ range.lockTable.currentHolder = some holder)
  | _ => false

theorem exists_of_abortReleases {id : Nat} {transaction holder : Uuid} {range : RangeManager}
    (passed : abortReleases id transaction holder range = true) :
    range.handlers.find id = some (.abort transaction .releasing) ∧
      range.lockTable.currentHolder = some holder := by
  unfold abortReleases at passed
  split at passed
  next found =>
    obtain ⟨rfl, held⟩ := of_decide_eq_true passed
    exact ⟨found, held⟩
  next => cases passed

/-- The abort of transaction 1 is sent twice: both have found it holding the
lock, the first one has released it to transaction 2, the second one takes it
from there. -/
theorem duplicated_abort_releases_other :
    ∃ range, Reachable (step lockingRange) (fun _ _ => True)
        (fun start => ∃ storage, start = .loaded storage) range ∧
      range.handlers.find 2 = some (.abort 1 .releasing) ∧
      range.lockTable.currentHolder = some 2 ∧ ¬ OwnersRelease lockingRange range := by
  obtain ⟨range, reached, passed⟩ := @exists_reachable_of_run _ _ (step lockingRange)
    (fun _ _ => True) (fun start => ∃ storage, start = .loaded storage) _
    (.loaded fun _ => none) ⟨_, rfl⟩
    (readOnce ++ [.abort 1 1, .run 1, .abort 2 1, .run 2, .run 1, .run 1, .run 2, .run 2,
      .get 3 2 [7], .run 3, .run 1])
    (abortReleases 2 1 2) (by decide +kernel)
  obtain ⟨found, held⟩ := exists_of_abortReleases passed
  refine ⟨range, reached, found, held, ?_⟩
  intro owners
  obtain ⟨transaction, mem, same⟩ := owners.holder found rfl
  rw [List.mem_singleton.mp mem, held] at same
  exact absurd same (by decide)

/-- One abort, with transaction 2 in line. -/
theorem ownersRelease_of_reachable_abort :
    ∃ range, Reachable (step lockingRange) OneAtATime
        (fun start => ∃ storage, start = .loaded storage) range ∧
      range.handlers.find 1 = some (.abort 1 .releasing) ∧
      range.lockTable.currentHolder = some 1 ∧ OwnersRelease lockingRange range := by
  obtain ⟨range, reached, passed⟩ := @exists_reachable_of_run _ _ (step lockingRange)
    OneAtATime (fun start => ∃ storage, start = .loaded storage) _
    (.loaded fun _ => none) ⟨_, rfl⟩
    (readOnce ++ [.get 3 2 [7], .run 3, .abort 1 1, .run 1, .run 1, .run 1])
    (abortReleases 1 1 1) (by decide +kernel)
  obtain ⟨found, held⟩ := exists_of_abortReleases passed
  exact ⟨range, reached, found, held, ownersRelease_of_reachable lockingRange reached⟩

end RangeManager

end Sangria.RangeServer
