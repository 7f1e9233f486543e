import Sangria.RangeServer.RangeManager.Sessions

/-!
# The lock belongs to whom it should

In every orderly run a transaction that has to hold the lock does.  In
particular at most one transaction does, and every release takes the lock from
the transaction of the handler that releases it.
-/

namespace Sangria.RangeServer

open FiniteMap

def PrepareStage.Fits (hasWrites : Bool) : PrepareStage → Prop
  | .releasing => hasWrites = false
  | .locking | .waiting | .deciding _ | .appending .. | .softReleasing _ | .flushing .. =>
    hasWrites = true
  | _ => True

def Handler.Placed (sessions : Uuid → Session) (id : Nat) : Handler → Prop
  | .get transaction _ _ => (sessions transaction).stage = .getting id
  | .prepare transaction request stage =>
    (sessions transaction).stage = .preparing id ∧
      request.hasReads = (sessions transaction).hasReads ∧ stage.Fits request.hasWrites
  | .abort .. => False
  | .commit transactions _ _ => transactions.Nodup ∧ ∀ transaction ∈ transactions,
      ∃ early, (sessions transaction).stage = .committing id early

def Handler.releasesBatch : Handler → Bool
  | .commit _ _ .releasing => true
  | _ => false

theorem Handler.ne_of_releasesBatch {handler : Handler} (other : handler.releasesBatch = false)
    {txs : List Uuid} {epoch : Nat} :
    handler ≠ .commit txs epoch .releasing := by
  intro same
  rw [same] at other
  cases other

structure Owned (service : Service) : Prop where
  placed : ∀ id handler, service.manager.handlers.find id = some handler →
    handler.Placed service.sessions id
  lined : Lined service.manager.lockTable service.manager.handlers
  holder : ∀ transaction, service.owns transaction = true →
    service.manager.lockTable.currentHolder = some transaction
  releasing : ∀ id transactions epoch,
    service.manager.handlers.find id = some (.commit transactions epoch .releasing) →
    ∃ transaction ∈ transactions, service.manager.lockTable.currentHolder = some transaction

/-! ## Handlers and sessions -/

section

variable {sessions sessions' : Uuid → Session} {id : Nat} {handler : Handler}
variable {tx : Uuid} {session : Session} {signalled : Bool}

theorem Handler.Placed.transfer (placed : handler.Placed sessions id)
    (same : ∀ tx, (sessions tx).stage.handler = some id →
      sessions' tx = sessions tx) : handler.Placed sessions' id := by
  cases handler with
  | get tx =>
    have here : (sessions tx).stage = .getting id := placed
    change (sessions' tx).stage = _
    rw [same tx (by rw [here]; rfl), here]
  | prepare tx =>
    obtain ⟨here, reads, fits⟩ := placed
    have unchanged := same tx (by rw [here]; rfl)
    exact ⟨by rw [unchanged, here], by rw [unchanged, reads], fits⟩
  | abort => exact placed
  | commit =>
    refine ⟨placed.1, ?_⟩
    intro tx mem
    obtain ⟨early, here⟩ := placed.2 tx mem
    exact ⟨early, by rw [same tx (by rw [here]; rfl), here]⟩

theorem Handler.Placed.stage_of_owns (placed : handler.Placed sessions id)
    (owns : handler.owns session signalled tx = true) :
    (sessions tx).stage.handler = some id := by
  cases handler with
  | get owner =>
    have here : (sessions owner).stage = .getting id := placed
    simp only [Handler.owns, Bool.and_eq_true, decide_eq_true_eq] at owns
    rw [← owns.1, here]
    rfl
  | prepare =>
    simp only [Handler.owns, Bool.and_eq_true, decide_eq_true_eq] at owns
    rw [← owns.1, placed.1]
    rfl
  | abort => cases placed
  | commit =>
    simp only [Handler.owns, Bool.and_eq_true, decide_eq_true_eq] at owns
    obtain ⟨early, here⟩ := placed.2 tx owns.1.1
    rw [here]
    rfl

theorem Handler.owns_of_awaits {owner : Uuid} (awaits : handler.awaits = some owner)
    (owns : handler.owns session signalled tx = true) :
    owner = tx ∧ signalled = true := by
  cases handler with
  | get _ _ stage =>
    cases stage <;> simp only [Handler.awaits, reduceCtorEq, Option.some.injEq] at awaits
    simp only [Handler.owns, GetStage.owns, Bool.and_eq_true, decide_eq_true_eq] at owns
    exact ⟨awaits ▸ owns.1, owns.2⟩
  | prepare _ _ stage =>
    cases stage <;> simp only [Handler.awaits, reduceCtorEq, Option.some.injEq] at awaits
    simp only [Handler.owns, PrepareStage.owns, Bool.and_eq_true, decide_eq_true_eq] at owns
    exact ⟨awaits ▸ owns.1, owns.2⟩
  | abort | commit => cases awaits

theorem Handler.owns_of_active {signalled' : Bool} (active : handler.awaits = none) :
    handler.owns session signalled tx = handler.owns session signalled' tx := by
  cases handler with
  | get _ _ stage | prepare _ _ stage =>
    cases stage with
    | waiting => cases active
    | returned res => cases res <;> rfl
    | _ => rfl
  | abort | commit => rfl

end

theorem Session.not_owns_of_busy {session : Session} {id : Nat}
    (busy : session.stage.handler = some id) : ¬ session.owns = true := by
  intro owns
  cases stage : session.stage <;> simp_all [Session.owns, SessionStage.handler]

namespace Service

variable {service : Service} {tx : Uuid} {id : Nat} {handler : Handler}

theorem owns_of_free (free : (service.sessions tx).stage.handler = none) :
    service.owns tx = (service.sessions tx).owns := by
  simp [owns, free]

theorem owns_of_find (busy : (service.sessions tx).stage.handler = some id)
    (found : service.manager.handlers.find id = some handler) :
    service.owns tx = handler.owns (service.sessions tx)
      (id ∈ service.manager.lockTable.signalled) tx := by
  simp [owns, busy, found]

theorem find_of_owns (busy : (service.sessions tx).stage.handler = some id)
    (owning : service.owns tx = true) :
    ∃ handler, service.manager.handlers.find id = some handler ∧
      handler.owns (service.sessions tx)
        (id ∈ service.manager.lockTable.signalled) tx = true := by
  cases found : service.manager.handlers.find id with
  | none => simp [owns, busy, found] at owning
  | some handler => exact ⟨handler, rfl, by rwa [owns_of_find busy found] at owning⟩

theorem owns_insert {manager : RangeManager} {handler' : Handler}
    (handlers : manager.handlers = service.manager.handlers.insert id handler')
    (owning : Service.owns ⟨manager, service.sessions⟩ tx = true) :
    (service.owns tx = true ∧ (service.sessions tx).stage.handler ≠ some id) ∨
      handler'.owns (service.sessions tx) (id ∈ manager.lockTable.signalled)
        tx = true ∨
      ∃ other candidate, other ≠ id ∧
        service.manager.handlers.find other = some candidate ∧
        candidate.awaits = some tx ∧ other ∈ manager.lockTable.signalled ∧
        other ∉ service.manager.lockTable.signalled := by
  cases busy : (service.sessions tx).stage.handler with
  | none =>
    have free := @owns_of_free ⟨manager, service.sessions⟩ tx busy
    exact .inl ⟨by rw [owns_of_free busy, ← owning, free], by simp⟩
  | some other =>
    obtain ⟨candidate, found, owns⟩ :=
      @find_of_owns ⟨manager, service.sessions⟩ tx other busy owning
    change manager.handlers.find other = _ at found
    rw [handlers, find_insert] at found
    split at found
    next same =>
      cases found
      subst same
      exact .inr (.inl owns)
    next ne =>
      have elsewhere : some other ≠ some id := fun same => ne (Option.some.inj same)
      rw [owns_of_find busy found]
      cases awaits : candidate.awaits with
      | none => exact .inl ⟨by rw [← owns, Handler.owns_of_active awaits], elsewhere⟩
      | some =>
        obtain ⟨rfl, signalled⟩ := Handler.owns_of_awaits awaits owns
        rw [decide_eq_true_eq] at signalled
        by_cases before : other ∈ service.manager.lockTable.signalled
        · refine .inl ⟨?_, elsewhere⟩
          rw [← owns]
          simp [before, signalled]
        · exact .inr (.inr ⟨other, candidate, ne, found, awaits, signalled, before⟩)

end Service

namespace Owned

variable {service : Service} {manager : RangeManager} {id : Nat} {handler handler' : Handler}
variable {tx : Uuid} {sessions : Uuid → Session} {config : Configuration} {label : Label}
  {stage : SessionStage} {txs : List Uuid}

theorem owns_of_handler (owned : Owned service) (tx : Uuid)
    (found : service.manager.handlers.find id = some handler)
    (owns : handler.owns (service.sessions tx)
      (id ∈ service.manager.lockTable.signalled) tx = true) :
    service.owns tx = true := by
  rwa [Service.owns_of_find ((owned.placed id handler found).stage_of_owns owns) found]

/-- A handler goes on.  What is left to show is that whoever has to hold the
lock now does, and that no release is under way in vain. -/
theorem insert (owned : Owned service)
    (handlers : manager.handlers = service.manager.handlers.insert id handler')
    (lined : Lined manager.lockTable manager.handlers)
    (placed : handler'.Placed service.sessions id)
    (holds : ∀ tx, (service.owns tx = true ∧
        (service.sessions tx).stage.handler ≠ some id) ∨
      handler'.owns (service.sessions tx) (id ∈ manager.lockTable.signalled)
        tx = true ∨
      (∃ other candidate, other ≠ id ∧
        service.manager.handlers.find other = some candidate ∧
        candidate.awaits = some tx ∧ other ∈ manager.lockTable.signalled ∧
        other ∉ service.manager.lockTable.signalled) →
      manager.lockTable.currentHolder = some tx)
    (releases : ∀ other txs epoch,
      other ≠ id ∧ service.manager.handlers.find other =
        some (.commit txs epoch .releasing) ∨
      handler' = .commit txs epoch .releasing →
      ∃ tx ∈ txs, manager.lockTable.currentHolder = some tx) :
    Owned ⟨manager, service.sessions⟩ where
  placed := by
    intro other candidate found
    rw [handlers, find_insert] at found
    split at found
    next same =>
      cases found
      exact same ▸ placed
    next => exact owned.placed other candidate found
  lined := lined
  holder := fun tx owning => holds tx (Service.owns_insert handlers owning)
  releasing := by
    intro other txs epoch found
    rw [handlers, find_insert] at found
    split at found
    next =>
      rw [Option.some.injEq] at found
      exact releases other txs epoch (.inr found)
    next ne => exact releases other txs epoch (.inl ⟨ne, found⟩)

theorem replace (owned : Owned service)
    (handlers : manager.handlers = service.manager.handlers.insert id handler')
    (lined : Lined manager.lockTable manager.handlers)
    (sameHolder : manager.lockTable.currentHolder = service.manager.lockTable.currentHolder)
    (sameSignals : ∀ other, other ≠ id → other ∈ manager.lockTable.signalled →
      other ∈ service.manager.lockTable.signalled)
    (placed : handler'.Placed service.sessions id)
    (holds : ∀ tx, handler'.owns (service.sessions tx)
      (id ∈ manager.lockTable.signalled) tx = true →
      service.manager.lockTable.currentHolder = some tx)
    (releases : ∀ txs epoch, handler' = .commit txs epoch .releasing →
      ∃ tx ∈ txs,
        service.manager.lockTable.currentHolder = some tx) :
    Owned ⟨manager, service.sessions⟩ := by
  refine owned.insert handlers lined placed ?_ ?_
  · intro tx owning
    rw [sameHolder]
    rcases owning with before | here | ⟨other, _, ne, _, _, signalled, unsignalled⟩
    · exact owned.holder tx before.1
    · exact holds tx here
    · exact absurd (sameSignals other ne signalled) unsignalled
  · intro other txs epoch releasing
    rw [sameHolder]
    rcases releasing with ⟨_, found⟩ | here
    · exact owned.releasing other txs epoch found
    · exact releases txs epoch here

theorem put (owned : Owned service)
    (found : service.manager.handlers.find id = some handler)
    (handlers : manager.handlers = service.manager.handlers.insert id handler')
    (sameTable : manager.lockTable = service.manager.lockTable)
    (active : handler.awaits = none)
    (placed : handler'.Placed service.sessions id)
    (kept : ∀ session signalled tx,
      handler'.owns session signalled tx = true →
      handler.owns session signalled tx = true)
    (releases : handler'.releasesBatch = false) :
    Owned ⟨manager, service.sessions⟩ := by
  refine owned.replace handlers ?_ (by rw [sameTable]) (fun _ _ => by simp [sameTable]) placed ?_
    (fun _ _ same => absurd same (Handler.ne_of_releasesBatch releases))
  · rw [sameTable, handlers]
    exact owned.lined.insert (owned.lined.absent_of_some found active) handler'
  · intro tx owns
    rw [sameTable] at owns
    exact owned.holder tx (owned.owns_of_handler tx found (kept _ _ _ owns))

theorem acquire (owned : Owned service)
    (found : service.manager.handlers.find id = some handler) (active : handler.awaits = none)
    (awaits : handler'.awaits = some tx)
    (placed : handler'.Placed service.sessions id) :
    Owned ⟨{ service.manager with
      lockTable := service.manager.lockTable.acquire tx id }.put id handler',
      service.sessions⟩ := by
  have absent := owned.lined.absent_of_some found active
  have kept (holder : Uuid) (held : service.manager.lockTable.currentHolder = some holder) :
      (service.manager.lockTable.acquire tx id).currentHolder = some holder := by
    rw [LockTable.currentHolder_acquire, held]
    rfl
  refine owned.insert rfl (owned.lined.acquire absent awaits) placed ?_ ?_
  · intro owner owning
    rcases owning with before | here | ⟨other, _, ne, _, _, signalled, unsignalled⟩
    · exact kept owner (owned.holder owner before.1)
    · obtain ⟨rfl, signalled⟩ := Handler.owns_of_awaits awaits here
      exact ((LockTable.mem_signalled_acquire (of_decide_eq_true signalled)).resolve_left
        absent.1).2
    · exact absurd ((LockTable.mem_signalled_acquire signalled).resolve_left unsignalled).1
        ne
  · intro other txs epoch releasing
    rcases releasing with ⟨_, releasing⟩ | here
    · obtain ⟨owner, mem, held⟩ := owned.releasing other txs epoch releasing
      exact ⟨owner, mem, kept owner held⟩
    · rw [here] at awaits
      cases awaits

theorem wake (owned : Owned service)
    (found : service.manager.handlers.find id = some handler)
    (signalled : id ∈ service.manager.lockTable.signalled)
    (handlers : manager = { service.manager with
      lockTable := service.manager.lockTable.receive id }.put id handler')
    (placed : handler'.Placed service.sessions id)
    (kept : ∀ session tx, handler'.owns session false tx = true →
      handler.owns session true tx = true)
    (releases : handler'.releasesBatch = false) :
    Owned ⟨manager, service.sessions⟩ := by
  subst handlers
  refine owned.replace rfl (owned.lined.receive signalled handler') rfl
    (fun _ _ kept => Finset.mem_of_mem_erase kept) placed ?_
    (fun _ _ same => absurd same (Handler.ne_of_releasesBatch releases))
  intro tx owns
  have received : decide (id ∈ (service.manager.lockTable.receive id).signalled) = false := by
    simp [LockTable.receive]
  change handler'.owns _ (decide (id ∈ (service.manager.lockTable.receive id).signalled)) _ =
    true at owns
  rw [received] at owns
  apply owned.holder
  apply owned.owns_of_handler tx found
  rw [decide_eq_true signalled]
  exact kept _ _ owns

theorem release (owned : Owned service) {actor : Uuid} (mark : Option Bool)
    (found : service.manager.handlers.find id = some handler) (active : handler.awaits = none)
    (held : service.manager.lockTable.currentHolder = some actor)
    (acting : (service.sessions actor).stage.handler = some id)
    (placed : handler'.Placed service.sessions id)
    (yields : ∀ tx signalled,
      handler'.owns (service.sessions tx) signalled tx = false)
    (releases : handler'.releasesBatch = false) :
    Owned ⟨{ service.manager with
      lockTable := service.manager.lockTable.release mark }.put id handler',
      service.sessions⟩ := by
  have absent := owned.lined.absent_of_some found active
  refine owned.insert rfl ((owned.lined.insert absent handler').release mark) placed ?_ ?_
  · intro owner owning
    rcases owning with before | here | ⟨other, candidate, ne, waiting, awaits, signalled,
      unsignalled⟩
    · -- The owner before was the actor, whose handler has yielded.
      have same := owned.holder owner before.1
      rw [held, Option.some.injEq] at same
      exact absurd (same ▸ acting) before.2
    · rw [yields] at here
      cases here
    · obtain ⟨req, queued, rfl, new⟩ := (LockTable.mem_signalled_release
        owned.lined.unobserved signalled).resolve_left unsignalled
      obtain ⟨_, waiter, found, waits⟩ := owned.lined.queued req queued
      rw [waiting, Option.some.injEq] at found
      rw [← found, awaits, Option.some.injEq] at waits
      rw [waits]
      exact new
  · intro other txs epoch releasing
    rcases releasing with ⟨ne, releasing⟩ | here
    · obtain ⟨owner, mem, same⟩ := owned.releasing other txs epoch releasing
      rw [held, Option.some.injEq] at same
      obtain ⟨early, stage⟩ := (owned.placed other _ releasing).2 owner mem
      rw [same, stage] at acting
      cases acting
      exact absurd rfl ne
    · exact absurd here (Handler.ne_of_releasesBatch releases)

/-- A request arrives from transactions that had none in flight. -/
theorem arrive (owned : Owned service) (unused : service.manager.handlers.find id = none)
    (changed : ∀ tx, sessions tx = service.sessions tx ∨
      (service.sessions tx).stage.handler = none ∧
        (sessions tx).stage.handler = some id)
    (placed : handler'.Placed sessions id)
    (kept : ∀ tx signalled,
      handler'.owns (sessions tx) signalled tx = true →
      (service.sessions tx).stage.handler = none ∧
        (service.sessions tx).owns = true)
    (releases : handler'.releasesBatch = false) :
    Owned ⟨service.manager.put id handler', sessions⟩ where
  placed := by
    intro other candidate found
    change find (service.manager.handlers.insert id handler') other = _ at found
    rw [find_insert] at found
    split at found
    next same =>
      cases found
      exact same ▸ placed
    next =>
      apply (owned.placed other candidate found).transfer
      intro tx busy
      rcases changed tx with same | ⟨free, _⟩
      · exact same
      · rw [free] at busy
        cases busy
  lined := owned.lined.insert (owned.lined.absent_of_none unused) handler'
  holder := by
    intro tx owning
    apply owned.holder
    cases busy : (sessions tx).stage.handler with
    | none =>
      have free := @Service.owns_of_free ⟨service.manager.put id handler', sessions⟩ _ busy
      rcases changed tx with same | ⟨_, other⟩
      · rw [same] at busy
        rw [Service.owns_of_free busy, ← owning, free]
        change _ = (sessions tx).owns
        rw [same]
      · rw [busy] at other
        cases other
    | some other =>
      obtain ⟨candidate, found, owns⟩ := @Service.find_of_owns
        ⟨service.manager.put id handler', sessions⟩ tx other busy owning
      change find (service.manager.handlers.insert id handler') other = _ at found
      rw [find_insert] at found
      split at found
      next =>
        cases found
        obtain ⟨free, owned⟩ := kept tx _ owns
        rwa [Service.owns_of_free free]
      next ne =>
        rcases changed tx with same | ⟨_, here⟩
        · change candidate.owns (sessions tx) _ tx = true at owns
          rw [same] at busy owns
          rwa [Service.owns_of_find busy found]
        · rw [busy, Option.some.injEq] at here
          exact absurd here ne
  releasing := by
    intro other txs epoch found
    change find (service.manager.handlers.insert id handler') other = _ at found
    rw [find_insert] at found
    split at found
    next =>
      rw [Option.some.injEq] at found
      exact absurd found (Handler.ne_of_releasesBatch releases)
    next => exact owned.releasing other txs epoch found

theorem deliver (owned : Owned service)
    (found : service.manager.handlers.find id = some handler) (active : handler.awaits = none)
    (changed : ∀ tx, sessions tx = service.sessions tx ∨
      (service.sessions tx).stage.handler = some id ∧
        (sessions tx).stage.handler = none)
    (kept : ∀ tx signalled, (service.sessions tx).stage.handler = some id →
      (sessions tx).owns = true →
      handler.owns (service.sessions tx) signalled tx = true) :
    Owned ⟨{ service.manager with handlers := service.manager.handlers.erase id }, sessions⟩ where
  placed := by
    intro other candidate present
    change find (service.manager.handlers.erase id) other = _ at present
    rw [find_erase] at present
    split at present
    next => cases present
    next ne =>
      apply (owned.placed other candidate present).transfer
      intro tx busy
      rcases changed tx with same | ⟨here, _⟩
      · exact same
      · rw [here, Option.some.injEq] at busy
        exact absurd busy.symm ne
  lined := owned.lined.erase (owned.lined.absent_of_some found active)
  holder := by
    intro tx owning
    apply owned.holder
    cases busy : (sessions tx).stage.handler with
    | none =>
      have free := @Service.owns_of_free ⟨{ service.manager with
        handlers := service.manager.handlers.erase id }, sessions⟩ _ busy
      rw [free] at owning
      change (sessions tx).owns = true at owning
      rcases changed tx with same | ⟨here, _⟩
      · rw [same] at busy owning
        rwa [Service.owns_of_free busy]
      · rw [Service.owns_of_find here found]
        exact kept tx _ here owning
    | some other =>
      obtain ⟨candidate, present, owns⟩ := @Service.find_of_owns
        ⟨{ service.manager with handlers := service.manager.handlers.erase id }, sessions⟩
        tx other busy owning
      change find (service.manager.handlers.erase id) other = _ at present
      rw [find_erase] at present
      split at present
      next => cases present
      next =>
        rcases changed tx with same | ⟨_, free⟩
        · change candidate.owns (sessions tx) _ tx = true at owns
          rw [same] at busy owns
          rwa [Service.owns_of_find busy present]
        · rw [busy] at free
          cases free
  releasing := by
    intro other txs epoch present
    change find (service.manager.handlers.erase id) other = _ at present
    rw [find_erase] at present
    split at present
    next => cases present
    next => exact owned.releasing other txs epoch present

theorem quiet (owned : Owned service) (found : service.manager.handlers.find id = some handler)
    (quiet : RangeManager.Quiet config service.manager id label handler handler') :
    Owned ⟨service.manager.put id handler', service.sessions⟩ := by
  have placed := owned.placed id handler found
  cases quiet with
  | missTable | missBuffer | decided | appended | logged =>
    exact owned.put found rfl rfl rfl placed (fun _ _ _ owns => owns) rfl
  | missRecord =>
    refine owned.put found rfl rfl rfl placed ?_ rfl
    intro session signalled tx owns
    simp [Handler.owns, GetStage.owns] at owns
  | @verified tx req holds =>
    have held := LockTable.currentHolder_of_isCurrentlyHolding holds
    refine owned.replace rfl (owned.lined.insert (owned.lined.absent_of_some found rfl) _) rfl
      (fun _ _ kept => kept) ⟨placed.1, placed.2.1, ?_⟩ ?_ (fun _ _ same => by cases same)
    · split
      next writes => exact writes
      next readOnly => exact Bool.eq_false_iff.mpr readOnly
    · intro owner owns
      simp only [Handler.owns, Bool.and_eq_true, decide_eq_true_eq] at owns
      rw [held, owns.1]
  | lockLost =>
    refine owned.put found rfl rfl rfl ⟨placed.1, placed.2.1, trivial⟩ ?_ rfl
    intro session signalled tx owns
    simp [Handler.owns, PrepareStage.owns] at owns
  | @chosen tx req key decisions deps early =>
    cases early <;>
      exact owned.put found rfl rfl rfl placed (fun _ _ _ owns => owns) rfl
  | flushed =>
    refine owned.put found rfl rfl rfl ⟨placed.1, placed.2.1, trivial⟩ ?_ rfl
    intro session signalled tx owns
    simp only [Handler.owns, PrepareStage.owns, Bool.and_eq_true] at owns ⊢
    exact ⟨owns.1, owns.2.2⟩
  | abortVerified | abortIdle | abortAppended | abortFlushed => cases placed
  | collected =>
    split <;>
      exact owned.put found rfl rfl rfl placed (fun _ _ _ owns => owns) rfl
  | recordMissing | notHolding =>
    refine owned.put found rfl rfl rfl placed ?_ rfl
    intro session signalled tx owns
    simp [Handler.owns, CommitStage.owns] at owns
  | @holding txs epoch holder held mem =>
    refine owned.replace rfl (owned.lined.insert (owned.lined.absent_of_some found rfl) _) rfl
      (fun _ _ kept => kept) placed ?_ ?_
    · intro tx owns
      exact owned.holder tx (owned.owns_of_handler tx found owns)
    · intro others epoch same
      cases same
      exact ⟨holder, mem, held⟩

theorem fails (owned : Owned service)
    (found : service.manager.handlers.find id = some handler)
    (fails : RangeManager.Fails handler handler') :
    Owned ⟨service.manager.put id handler', service.sessions⟩ := by
  have placed := owned.placed id handler found
  cases fails with
  | get =>
    refine owned.put found rfl rfl rfl placed ?_ rfl
    intro session signalled tx owns
    simp [Handler.owns, GetStage.owns] at owns
  | append | flush =>
    refine owned.put found rfl rfl rfl ⟨placed.1, placed.2.1, trivial⟩ ?_ rfl
    intro session signalled tx owns
    simp [Handler.owns, PrepareStage.owns] at owns
  | abort => cases placed
  | commit =>
    refine owned.put found rfl rfl rfl placed ?_ rfl
    intro session signalled tx owns
    simp [Handler.owns, CommitStage.owns] at owns

theorem arriveOne (owned : Owned service) (unused : service.manager.handlers.find id = none)
    (idle : (service.sessions tx).stage = .idle) (busy : stage.handler = some id)
    (placed : handler'.Placed (Function.update service.sessions tx
      { service.sessions tx with stage := stage }) id)
    (reads : ∀ session signalled owner, handler'.owns session signalled owner = true →
      owner = tx ∧ session.hasReads = true)
    (releases : handler'.releasesBatch = false) :
    Owned ⟨service.manager.put id handler', Function.update service.sessions tx
      { service.sessions tx with stage := stage }⟩ := by
  refine owned.arrive unused ?_ placed ?_ releases
  · intro other
    by_cases same : other = tx
    · subst same
      exact .inr ⟨by rw [idle]; rfl, by simpa using busy⟩
    · exact .inl (Function.update_of_ne same ..)
  · intro owner signalled owns
    obtain ⟨rfl, hasReads⟩ := reads _ _ _ owns
    rw [Function.update_self] at hasReads
    exact ⟨by rw [idle]; rfl, by simpa [Session.owns, idle] using hasReads⟩

theorem arriveCommit (owned : Owned service) {epoch : Nat}
    (unused : service.manager.handlers.find id = none) (once : txs.Nodup)
    (prepared : ∀ tx ∈ txs, ∃ early,
      (service.sessions tx).stage = .prepared early) :
    Owned ⟨service.manager.put id (.commit txs epoch .appending),
      service.sessionsAfter (.commit id txs epoch)⟩ := by
  have member {tx : Uuid} (mem : tx ∈ txs) :
      ∃ early, (service.sessions tx).stage = .prepared early ∧
        (service.sessionsAfter (.commit id txs epoch) tx).stage =
          .committing id early := by
    obtain ⟨early, stage⟩ := prepared tx mem
    exact ⟨early, stage, by simp [Service.sessionsAfter, mem, Service.committing, stage]⟩
  refine owned.arrive unused ?_ ⟨once, ?_⟩ ?_ rfl
  · intro other
    by_cases mem : other ∈ txs
    · obtain ⟨early, before, after⟩ := member mem
      exact .inr ⟨by rw [before]; rfl, by rw [after]; rfl⟩
    · exact .inl (if_neg mem)
  · intro tx mem
    obtain ⟨early, _, after⟩ := member mem
    exact ⟨early, after⟩
  · intro other signalled owns
    simp only [Handler.owns, Bool.and_eq_true, decide_eq_true_eq] at owns
    obtain ⟨early, before, after⟩ := member owns.1.1
    rw [after] at owns
    exact ⟨by rw [before]; rfl, by
      simpa [Session.owns, before, SessionStage.early] using owns.1.2⟩

theorem deliverOne (owned : Owned service) {session : Session}
    (found : service.manager.handlers.find id = some handler) (active : handler.awaits = none)
    (busy : (service.sessions tx).stage.handler = some id)
    (free : session.stage.handler = none)
    (kept : session.owns = true → ∀ signalled,
      handler.owns (service.sessions tx) signalled tx = true) :
    Owned ⟨{ service.manager with handlers := service.manager.handlers.erase id },
      Function.update service.sessions tx session⟩ := by
  refine owned.deliver found active ?_ ?_
  · intro other
    by_cases same : other = tx
    · subst same
      exact .inr ⟨busy, by simpa using free⟩
    · exact .inl (Function.update_of_ne same ..)
  · intro other signalled here owns
    by_cases same : other = tx
    · subst same
      rw [Function.update_self] at owns
      exact kept owns signalled
    · rw [Function.update_of_ne same] at owns
      exact absurd owns (Session.not_owns_of_busy here)

theorem deliverBatch (owned : Owned service)
    (found : service.manager.handlers.find id = some handler) (active : handler.awaits = none)
    (busy : ∀ tx ∈ txs,
      (service.sessions tx).stage.handler = some id)
    (free : stage.handler = none)
    (yields : ∀ session : Session, session.stage = stage → session.owns = false) :
    Owned ⟨{ service.manager with handlers := service.manager.handlers.erase id },
      fun tx => if tx ∈ txs then
        { service.sessions tx with stage := stage }
        else service.sessions tx⟩ := by
  refine owned.deliver found active ?_ ?_
  · intro other
    by_cases mem : other ∈ txs
    · exact .inr ⟨busy other mem, by rw [if_pos mem]; exact free⟩
    · exact .inl (if_neg mem)
  · intro other signalled here owns
    by_cases mem : other ∈ txs
    · rw [if_pos mem, yields _ rfl] at owns
      cases owns
    · rw [if_neg mem] at owns
      exact absurd owns (Session.not_owns_of_busy here)

theorem answered (owned : Owned service)
    (found : service.manager.handlers.find id = some handler)
    (returned : handler.isReturned = true) :
    Owned ⟨{ service.manager with handlers := service.manager.handlers.erase id },
      handler.answer service.sessions⟩ := by
  have placed := owned.placed id handler found
  cases handler with
  | get tx _ stage =>
    have busy : (service.sessions tx).stage.handler = some id := by
      rw [show (service.sessions tx).stage = .getting id from placed]
      rfl
    cases stage with
    | returned res =>
      cases res with
      | ok =>
        apply owned.deliverOne found rfl busy rfl
        intro _ signalled
        simp [Handler.owns, GetStage.owns]
      | error => exact owned.deliverOne found rfl busy rfl (fun owns => by cases owns)
    | _ => cases returned
  | prepare tx req stage =>
    have busy : (service.sessions tx).stage.handler = some id := by
      rw [placed.1]
      rfl
    cases stage with
    | returned res =>
      cases res with
      | ok =>
        cases writes : req.hasWrites with
        | true =>
          simp only [Handler.answer, writes, if_true]
          apply owned.deliverOne found rfl busy rfl
          intro owns signalled
          simpa [Handler.owns, PrepareStage.owns, writes, Session.owns] using owns
        | false =>
          simp only [Handler.answer, writes]
          exact owned.deliverOne found rfl busy rfl (fun owns => by cases owns)
      | error => exact owned.deliverOne found rfl busy rfl (fun owns => by cases owns)
    | _ => cases returned
  | abort => cases placed
  | commit txs _ stage =>
    have busy (tx : Uuid) (mem : tx ∈ txs) :
        (service.sessions tx).stage.handler = some id := by
      obtain ⟨early, here⟩ := placed.2 tx mem
      rw [here]
      rfl
    cases stage with
    | returned res =>
      cases res <;>
        exact owned.deliverBatch found rfl busy rfl (fun session here => by
          simp [Session.owns, here])
    | _ => cases returned

theorem step (owned : Owned service) {next : Service}
    (orderly : service.Orderly label) (taken : service.step config label = some next) :
    Owned next := by
  obtain ⟨manager, moved, rfl⟩ := Option.map_eq_some_iff.mp taken
  cases RangeManager.moves_of_step moved with
  | @arrivedGet id tx key unused =>
    refine owned.arriveOne unused orderly rfl (by simp [Handler.Placed]) ?_ rfl
    intro session signalled owner owns
    simp only [Handler.owns, Bool.and_eq_true, decide_eq_true_eq] at owns
    refine ⟨owns.1.symm, ?_⟩
    split at owns
    · exact owns.2
    · cases owns.2
  | @arrivedPrepare id tx req unused =>
    refine owned.arriveOne unused orderly.1 rfl ⟨by simp, by simpa using orderly.2, ?_⟩ ?_
      rfl
    · unfold RangeManager.arrivePrepare
      repeat' split
      all_goals trivial
    · intro session signalled owner owns
      simp only [Handler.owns, RangeManager.arrivePrepare, Bool.and_eq_true,
        decide_eq_true_eq] at owns
      refine ⟨owns.1.symm, ?_⟩
      have owning := owns.2
      split at owning
      · split at owning
        · split at owning <;> exact owning
        · cases owning
      · split at owning
        · exact owning
        · simp_all [PrepareStage.owns]
  | arrivedAbort => cases orderly
  | @arrivedCommit id txs epoch unused =>
    apply owned.arriveCommit unused orderly.1
    intro tx mem
    rcases orderly.2 tx mem with here | here
    · exact ⟨true, here⟩
    · exact ⟨false, here⟩
  | quiet found quiet =>
    have kept := owned.quiet found quiet
    cases quiet <;> exact kept
  | failed found fails => exact owned.fails found fails
  | @lockedGet id tx key found | @lockedPrepare id tx req found =>
    have placed := owned.placed id _ found
    exact owned.acquire found rfl rfl placed
  | @wokenGet id tx key found signalled =>
    have placed := owned.placed id _ found
    refine owned.wake found signalled rfl placed ?_ rfl
    intro session owner owns
    simp only [Handler.owns, Bool.and_eq_true] at owns
    simp only [Handler.owns, GetStage.owns, owns.1, Bool.and_self]
  | @wokenPrepare id tx req found signalled =>
    have placed := owned.placed id _ found
    refine owned.wake found signalled rfl placed ?_ rfl
    intro session owner owns
    simp only [Handler.owns, Bool.and_eq_true] at owns
    simp only [Handler.owns, PrepareStage.owns, owns.1, Bool.and_self]
  | @read id tx key stage val deps found source =>
    have placed := owned.placed id _ found
    cases source <;>
      exact owned.put found rfl rfl rfl placed (fun _ _ _ owns => owns) rfl
  | @releasedPrepare id tx req found =>
    obtain ⟨here, reads, readOnly⟩ := owned.placed id _ found
    have owning := owned.owns_of_handler tx found (by
      simp [Handler.owns, PrepareStage.owns])
    refine owned.release none found rfl (owned.holder _ owning) (by rw [here]; rfl)
      ⟨here, reads, trivial⟩ ?_ rfl
    intro other signalled
    simp [Handler.owns, PrepareStage.owns, show req.hasWrites = false from readOnly]
  | @saved id tx req decisions found complete =>
    have placed := owned.placed id _ found
    unfold RangeManager.save
    dsimp only
    split <;>
      exact owned.put found rfl rfl rfl placed (fun _ _ _ owns => owns) rfl
  | @softReleased id tx req deps found =>
    obtain ⟨here, reads, writes⟩ := owned.placed id _ found
    have owning := owned.owns_of_handler tx found (by
      simp [Handler.owns, PrepareStage.owns])
    refine owned.release (some true) found rfl (owned.holder _ owning) (by rw [here]; rfl)
      ⟨here, reads, writes⟩ ?_ rfl
    intro other signalled
    simp [Handler.owns, PrepareStage.owns]
  | releasedAbort found => cases owned.placed _ _ found
  | @stored id txs epoch records found
  | @updatedBuffer id key txs epoch records remaining change found
  | @cleared id txs epoch records remaining found finished =>
    have placed := owned.placed id _ found
    exact owned.put found rfl rfl rfl placed (fun _ _ _ owns => owns) rfl
  | @deleteRefused id txs epoch records found
  | @storeTimedOut id error txs epoch records found =>
    have placed := owned.placed id _ found
    refine owned.put found rfl rfl rfl placed ?_ rfl
    intro session signalled tx owns
    simp [Handler.owns, CommitStage.owns] at owns
  | @releasedCommit id txs epoch found =>
    have placed := owned.placed id _ found
    obtain ⟨holder, mem, held⟩ := owned.releasing id txs epoch found
    obtain ⟨early, here⟩ := placed.2 holder mem
    refine owned.release none found rfl held (by rw [here]; rfl) placed ?_ rfl
    intro other signalled
    simp [Handler.owns, CommitStage.owns]
  | @cleaned id txs epoch found =>
    have placed := owned.placed id _ found
    refine owned.replace rfl ((owned.lined.insert (owned.lined.absent_of_some found rfl)
      _).cleanSoftReleased txs) rfl (fun _ _ kept => kept) placed ?_ (fun _ _ same => by cases same)
    intro tx owns
    simp [Handler.owns, CommitStage.owns] at owns
  | @delivered id handler found returned =>
    have kept := owned.answered found returned
    simpa only [Service.sessionsAfter, found] using kept

end Owned

end Sangria.RangeServer
