import Sangria.RangeServer.RangeManager.Access

/-!
# A record is saved once

In an orderly run a transaction saves its record at a range at most once, in its
prepare, and the transactions in the table of pending commits have saved theirs.
-/

namespace Sangria.RangeServer

open FiniteMap

def PrepareStage.unsaved : PrepareStage → Bool
  | .verifying | .releasing | .locking | .waiting | .deciding _ => true
  | .appending .. | .softReleasing _ | .flushing .. | .returned _ => false

def Handler.unsaved (transaction : Uuid) : Handler → Bool
  | .get owner _ _ => decide (owner = transaction)
  | .prepare owner _ stage => decide (owner = transaction) && stage.unsaved
  | .abort .. | .commit .. => false

def RangeManager.Saved (range : RangeManager) (transaction : Uuid) : Prop :=
  ∃ record, Event.saved transaction record ∈ range.trace

structure Recording (service : Service) : Prop where
  handlers : ∀ id handler transaction, service.manager.handlers.find id = some handler →
    handler.unsaved transaction = true → ¬ service.manager.Saved transaction
  idle : ∀ transaction, (service.sessions transaction).stage = .idle →
    ¬ service.manager.Saved transaction
  table : ∀ key dependee,
    service.manager.pendingState.pendingCommitTable.find key = some dependee →
    service.manager.Saved dependee

theorem Handler.Goes.unsaved {config : Configuration} {handler handler' : Handler}
    (goes : handler.Goes config handler') {tx : Uuid}
    (before : handler'.unsaved tx = true) : handler.unsaved tx = true := by
  cases goes with
  | get | lock | wake | decide => exact before
  | verify =>
    obtain ⟨mine, _⟩ := (Bool.and_eq_true _ _).mp before
    exact (Bool.and_eq_true _ _).mpr ⟨mine, rfl⟩
  | choose =>
    obtain ⟨_, pending⟩ := (Bool.and_eq_true _ _).mp before
    split at pending <;> cases pending
  | give | release | save | soften | flush =>
    cases ((Bool.and_eq_true _ _).mp before).2
  | abort | commit => cases before

theorem Handler.concerns_of_unsaved {handler : Handler} {tx : Uuid}
    (unsaved : handler.unsaved tx = true) : handler.concerns tx = true := by
  cases handler with
  | get => exact unsaved
  | prepare => exact ((Bool.and_eq_true _ _).mp unsaved).1
  | abort | commit => cases unsaved

/-- A section saves a record and publishes its transaction, or it does neither. -/
theorem RangeManager.Moves.records {config : Configuration} {range next : RangeManager}
    {label : Label} (moves : RangeManager.Moves config range label next) :
    (∃ id tx req decisions deps,
      range.handlers.find id = some (.prepare tx req (.deciding decisions)) ∧
      next.handlers = range.handlers.insert id
        (.prepare tx req (.appending decisions deps)) ∧
      (∀ key dependee, next.pendingState.pendingCommitTable.find key = some dependee →
        range.pendingState.pendingCommitTable.find key = some dependee ∨
          dependee = tx) ∧
      next.trace = range.trace ++ [.saved tx req.changes]) ∨
    ((∀ key dependee, next.pendingState.pendingCommitTable.find key = some dependee →
        range.pendingState.pendingCommitTable.find key = some dependee) ∧
      ∀ tx record, Event.saved tx record ∈ next.trace ↔
        Event.saved tx record ∈ range.trace) := by
  have logged {event : Event} (other : ∀ tx record, event ≠ .saved tx record)
      (tx : Uuid) (record : Changes) :
      Event.saved tx record ∈ range.trace ++ [event] ↔
        Event.saved tx record ∈ range.trace := by
    rw [List.mem_append, List.mem_singleton]
    exact or_iff_left fun now => other tx record now.symm
  cases moves with
  | @saved id tx req decisions found complete =>
    left
    unfold RangeManager.save
    simp only
    split
    next =>
      exact ⟨id, tx, req, decisions, _, found, rfl, fun _ _ here => .inl here, rfl⟩
    next =>
      refine ⟨id, tx, req, decisions, _, found, rfl, ?_, rfl⟩
      intro key dependee published
      change find (RangeManager.publish ..) key = _ at published
      rw [find_publish] at published
      split at published
      next => exact .inr (Option.some.inj published).symm
      next => cases published
      next => exact .inl published
  | read | stored | deleteRefused | storeTimedOut =>
    refine .inr ⟨fun _ _ here => here, logged ?_⟩
    intro tx record same
    cases same
  | cleared =>
    refine .inr ⟨?_, fun _ _ => Iff.rfl⟩
    intro key dependee published
    change find (RangeManager.clear ..).pendingCommitTable key = _ at published
    simp only [RangeManager.clear] at published
    split at published
    next => exact published
    next =>
      rw [find_unpublish] at published
      obtain ⟨other, found, kept⟩ := Option.bind_eq_some_iff.mp published
      split at kept
      next => cases kept
      next =>
        cases kept
        exact found
  | _ => exact .inr ⟨fun _ _ here => here, fun _ _ => Iff.rfl⟩

namespace Recording

variable {config : Configuration} {service next : Service} {label : Label} {id : Nat}
  {handler handler' : Handler}
variable {manager : RangeManager} {tx : Uuid}

theorem loaded (storage : Records) : Recording (.loaded storage) where
  handlers := by
    intro id handler tx found
    cases (find_empty id).symm.trans found
  idle := by
    rintro tx _ ⟨record, saved⟩
    cases saved
  table := by
    intro key dependee found
    cases (find_empty key).symm.trans found

theorem change (recording : Recording service)
    (handlers : ∀ other candidate, next.manager.handlers.find other = some candidate →
      service.manager.handlers.find other = some candidate ∨
        ∀ tx, candidate.unsaved tx = true →
          ¬ service.manager.Saved tx)
    (sessions : ∀ tx, (next.sessions tx).stage = .idle →
      ¬ service.manager.Saved tx)
    (table : ∀ key dependee,
      next.manager.pendingState.pendingCommitTable.find key = some dependee →
      service.manager.pendingState.pendingCommitTable.find key = some dependee)
    (saved : ∀ tx,
      next.manager.Saved tx ↔ service.manager.Saved tx) :
    Recording next := by
  refine ⟨?_, ?_, ?_⟩
  · intro other candidate tx found unsaved
    rw [saved]
    rcases handlers other candidate found with before | fresh
    · exact recording.handlers other candidate tx before unsaved
    · exact fresh tx unsaved
  · intro tx free
    rw [saved]
    exact sessions tx free
  · intro key dependee found
    rw [saved]
    exact recording.table key dependee (table key dependee found)

theorem put (recording : Recording service) {sessions : Uuid → Session}
    (handlers : manager.handlers = service.manager.handlers.insert id handler')
    (fresh : ∀ tx, handler'.unsaved tx = true →
      ¬ service.manager.Saved tx)
    (free : ∀ tx, (sessions tx).stage = .idle →
      ¬ service.manager.Saved tx)
    (table : ∀ key dependee, manager.pendingState.pendingCommitTable.find key = some dependee →
      service.manager.pendingState.pendingCommitTable.find key = some dependee)
    (trace : ∀ tx record, Event.saved tx record ∈ manager.trace ↔
      Event.saved tx record ∈ service.manager.trace) :
    Recording ⟨manager, sessions⟩ := by
  refine recording.change ?_ free table fun tx => exists_congr (trace tx)
  intro other candidate found
  change find manager.handlers other = _ at found
  rw [handlers] at found
  rcases eq_or_find_of_insert found with ⟨_, rfl⟩ | ⟨_, before⟩
  · exact .inr fresh
  · exact .inl before

theorem saved (recording : Recording service) (owned : Owned service)
    {req : PrepareRequest} {decisions : HashMap Bytes Bool} {deps : Finset Uuid}
    (found : service.manager.handlers.find id =
      some (.prepare tx req (.deciding decisions)))
    (handlers : manager.handlers = service.manager.handlers.insert id
      (.prepare tx req (.appending decisions deps)))
    (table : ∀ key dependee, manager.pendingState.pendingCommitTable.find key = some dependee →
      service.manager.pendingState.pendingCommitTable.find key = some dependee ∨
        dependee = tx)
    (trace : manager.trace = service.manager.trace ++ [.saved tx req.changes]) :
    Recording ⟨manager, service.sessions⟩ := by
  have placed := owned.placed id _ found
  have earlier {other : Uuid} (saved : manager.Saved other) :
      service.manager.Saved other ∨ other = tx := by
    obtain ⟨record, saved⟩ := saved
    rw [trace] at saved
    rcases List.mem_append.mp saved with before | now
    · exact .inl ⟨record, before⟩
    · cases List.mem_singleton.mp now
      exact .inr rfl
  have kept {other : Uuid} (saved : service.manager.Saved other) : manager.Saved other := by
    obtain ⟨record, saved⟩ := saved
    exact ⟨record, trace ▸ List.mem_append_left _ saved⟩
  refine ⟨?_, ?_, ?_⟩
  · intro other candidate owner found' unsaved saved
    change find manager.handlers other = _ at found'
    rw [handlers] at found'
    rcases eq_or_find_of_insert found' with ⟨_, rfl⟩ | ⟨ne, before⟩
    · cases ((Bool.and_eq_true _ _).mp unsaved).2
    · rcases earlier saved with saved | rfl
      · exact recording.handlers other candidate owner before unsaved saved
      · have there := (owned.placed other candidate before).handler_of_concerns
          (Handler.concerns_of_unsaved unsaved)
        have here := placed.handler_of_concerns (decide_eq_true rfl)
        exact ne (Option.some.inj (there.symm.trans here))
  · intro other free saved
    rcases earlier saved with saved | rfl
    · exact recording.idle other free saved
    · cases placed.1.symm.trans free
  · intro key dependee published
    rcases table key dependee published with before | rfl
    · exact kept (recording.table key dependee before)
    · exact ⟨req.changes, trace ▸ List.mem_append_right _ (List.mem_singleton_self _)⟩

/-- A section that leaves the table as it is, or makes it smaller. -/
theorem goes (recording : Recording service)
    (found : service.manager.handlers.find id = some handler)
    (goes : handler.Goes config handler')
    (handlers : manager.handlers = service.manager.handlers.insert id handler')
    (table : ∀ key dependee, manager.pendingState.pendingCommitTable.find key = some dependee →
      service.manager.pendingState.pendingCommitTable.find key = some dependee)
    (trace : ∀ tx record, Event.saved tx record ∈ manager.trace ↔
      Event.saved tx record ∈ service.manager.trace) :
    Recording ⟨manager, service.sessions⟩ := by
  refine recording.put handlers ?_ recording.idle table trace
  intro tx unsaved
  exact recording.handlers id handler tx found (goes.unsaved unsaved)

theorem idle_of_update (recording : Recording service) {session : Session}
    (busy : session.stage = .idle → ¬ service.manager.Saved tx) (other : Uuid)
    (free : (Function.update service.sessions tx session other).stage = .idle) :
    ¬ service.manager.Saved other := by
  by_cases same : other = tx
  · subst same
    rw [Function.update_self] at free
    exact busy free
  · rw [Function.update_of_ne same] at free
    exact recording.idle other free

theorem answered (recording : Recording service)
    (found : service.manager.handlers.find id = some handler) (tx : Uuid)
    (free : (handler.answer service.sessions tx).stage = .idle) :
    ¬ service.manager.Saved tx := by
  cases handler with
  | get owner _ stage =>
    cases stage with
    | returned res =>
      cases res with
      | ok =>
        exact recording.idle_of_update
          (fun _ => recording.handlers id _ owner found (decide_eq_true rfl)) _ free
      | error =>
        refine recording.idle_of_update (fun failed => ?_) _ free
        cases failed
    | _ => exact recording.idle tx free
  | prepare _ _ stage =>
    cases stage with
    | returned res =>
      cases res with
      | ok =>
        refine recording.idle_of_update (fun prepared => ?_) _ free
        simp only at prepared
        split at prepared <;> cases prepared
      | error =>
        refine recording.idle_of_update (fun failed => ?_) _ free
        cases failed
    | _ => exact recording.idle tx free
  | abort => exact recording.idle tx free
  | commit _ _ stage =>
    cases stage with
    | returned res =>
      cases res with
      | ok | error =>
        simp only [Handler.answer] at free
        split at free
        next => cases free
        next => exact recording.idle tx free
    | _ => exact recording.idle tx free

theorem step (recording : Recording service) (owned : Owned service)
    (orderly : service.Orderly label) (taken : service.step config label = some next) :
    Recording next := by
  obtain ⟨manager, moved, rfl⟩ := Option.map_eq_some_iff.mp taken
  have moves := RangeManager.moves_of_step moved
  cases isLocal : label.isLocal with
  | true =>
    have sessions : service.sessionsAfter label = service.sessions := by
      cases label with
      | run | runOn | fail => rfl
      | _ => cases isLocal
    rw [sessions]
    rcases moves.records with ⟨id, tx, req, decisions, deps, found, handlers,
      table, trace⟩ | ⟨table, trace⟩
    · exact recording.saved owned found handlers table trace
    · obtain ⟨id, handler, handler', found, goes, handlers⟩ := moves.goes isLocal
      exact recording.goes found goes handlers table trace
  | false =>
    cases moves with
    | @arrivedGet number owner key =>
      have fresh := recording.idle owner orderly
      refine recording.put rfl ?_ ?_ (fun _ _ here => here) fun _ _ => Iff.rfl
      · intro tx unsaved
        obtain rfl := of_decide_eq_true unsaved
        exact fresh
      · exact recording.idle_of_update fun _ => fresh
    | @arrivedPrepare number owner req =>
      have fresh := recording.idle owner orderly.1
      refine recording.put rfl ?_ ?_ (fun _ _ here => here) fun _ _ => Iff.rfl
      · intro tx unsaved
        obtain rfl := of_decide_eq_true ((Bool.and_eq_true _ _).mp unsaved).1
        exact fresh
      · exact recording.idle_of_update fun _ => fresh
    | arrivedAbort => cases orderly
    | arrivedCommit =>
      refine recording.put rfl ?_ ?_ (fun _ _ here => here) fun _ _ => Iff.rfl
      · intro tx unsaved
        cases unsaved
      · intro tx free
        simp only [Service.sessionsAfter] at free
        split at free
        next =>
          simp only [Service.committing] at free
          split at free <;> cases free
        next => exact recording.idle tx free
    | @delivered number handler found returned =>
      refine recording.change ?_ ?_ (fun _ _ here => here) fun _ => Iff.rfl
      · intro other candidate here
        exact .inl (find_of_erase here).2
      · intro tx free
        simp only [Service.sessionsAfter, found] at free
        exact recording.answered found tx free
    | quiet _ quiet => cases quiet <;> cases isLocal
    | _ => cases isLocal

end Recording

end Sangria.RangeServer
