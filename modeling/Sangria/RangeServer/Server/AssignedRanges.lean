import Sangria.RangeServer.Server.LoadedRanges

/-!
# Loaded ranges are assigned

A range leaves the table when its unload is received, so a loaded range is
assigned or its unload is still to come.  This is lost for a call that checks the
assignment, and inserts a range manager after the unload.
-/

namespace Sangria.RangeServer

open FiniteMap
open TransitionSystem

namespace WardenHandler

variable {handler next : WardenHandler} {id : FullRangeId}

/-- The range is assigned, or its unload is still to be received. -/
def Covers (handler : WardenHandler) (id : FullRangeId) : Prop :=
  id ∈ handler.assignedRanges ∨ .unloadRange id ∈ handler.updates

instance (handler : WardenHandler) (id : FullRangeId) : Decidable (handler.Covers id) :=
  inferInstanceAs (Decidable (_ ∨ _))

theorem Covers.load (covers : handler.Covers id) (other : FullRangeId) :
    (handler.load other).Covers id := by
  rcases covers with assigned | sent
  · exact .inl (Finset.mem_insert_of_mem assigned)
  · right
    unfold WardenHandler.load
    simp only
    split
    next => exact sent
    next => exact List.mem_append_left _ sent

theorem Covers.unload (covers : handler.Covers id) (other : FullRangeId) :
    (handler.unload other).Covers id := by
  by_cases same : id = other
  · subst same
    right
    unfold WardenHandler.unload
    simp only
    split
    next => exact List.mem_append_right _ List.mem_cons_self
    next unassigned => exact covers.resolve_left unassigned
  · rcases covers with assigned | sent
    · exact .inl (Finset.mem_erase.mpr ⟨same, assigned⟩)
    · right
      unfold WardenHandler.unload
      simp only
      split
      next => exact List.mem_append_left _ sent
      next => exact sent

theorem Covers.foldl {change : WardenHandler → FullRangeId → WardenHandler}
    (kept : ∀ handler other, handler.Covers id → (change handler other).Covers id)
    (ids : List FullRangeId) (covers : handler.Covers id) :
    (ids.foldl change handler).Covers id := by
  induction ids generalizing handler with
  | nil => exact covers
  | cons first _ ih => exact ih (kept handler first covers)

/-- An update sends the unload of every range that it takes away. -/
theorem Covers.processWardenUpdate (covers : handler.Covers id) {update : AssignmentUpdate}
    (processed : handler.processWardenUpdate update = some next) : next.Covers id := by
  cases update with
  | fullAssignment range removed =>
    simp only [WardenHandler.processWardenUpdate] at processed
    split at processed
    next orders =>
      cases processed
      cases covers with
      | inr sent => exact .inr (List.mem_append_left _ (List.mem_append_left _ sent))
      | inl assigned =>
        by_cases kept : id ∈ range.toFinset
        · exact .inl kept
        · have gone : id ∈ removed :=
            orders.1.mem_iff.mpr (Finset.mem_sdiff.mpr ⟨assigned, kept⟩)
          exact .inr (List.mem_append_left _
            (List.mem_append_right _ (List.mem_map_of_mem gone)))
    next => cases processed
  | incrementalAssignment loads =>
    cases processed
    apply Covers.foldl fun _ other covers => Covers.unload covers other
    exact Covers.foldl (fun _ other covers => Covers.load covers other) loads covers

end WardenHandler

namespace LoadedRanges

variable {server next : LoadedRanges} {label : Label}
variable {id : FullRangeId} {call manager : Nat} {range : Uuid} {error : LoadError}

/-- The range is assigned, or it is going to be removed from the table. -/
def Covers (server : LoadedRanges) (id : FullRangeId) : Prop :=
  server.wardenHandler.Covers id ∨ server.updateLoop = .removing id

/-- A range is removed from the table only when no call is between its check of the
assignment and the table, unless the range is assigned again or another unload of it is
to come. -/
def RemovesSettled (server : LoadedRanges) : Label → Prop
  | .removeRange =>
    ∀ call ∈ server.calls.keys, ∀ found ∈ server.calls.find call,
      found.phase.locks = true → server.updateLoop = .removing found.id →
        server.wardenHandler.Covers found.id
  | _ => True

instance (server : LoadedRanges) (label : Label) : Decidable (server.RemovesSettled label) :=
  match label with
  | .removeRange => inferInstanceAs (Decidable (∀ call ∈ server.calls.keys, _))
  | .call .. | .lookUp .. | .isAssigned .. | .lockTable .. | .load .. | .takeResult ..
  | .cleanUp .. | .processWardenUpdate .. | .receiveUpdate .. | .unloadRange => isTrue trivial

structure Backed (server : LoadedRanges) : Prop where
  loaded : ∀ range manager, server.loadedRanges.find range = some manager →
    ∃ managed, server.managers.find manager = some managed ∧
      managed.rangeId.rangeId = range ∧ server.Covers managed.rangeId
  checked : ∀ call found, server.calls.find call = some found → found.phase.locks = true →
    server.Covers found.id

theorem Backed.new : Backed new := by
  refine ⟨?_, ?_⟩
  · intro range manager present
    cases present
  · intro call found present
    cases present

/-- The updates and the loop go on, and the table and the calls are as before. -/
theorem Backed.covered (backed : server.Backed)
    (covered : ∀ id, server.Covers id → next.Covers id)
    (loadedRanges : next.loadedRanges = server.loadedRanges)
    (managers : next.managers = server.managers) (calls : next.calls = server.calls) :
    next.Backed := by
  refine ⟨?_, ?_⟩
  · rw [loadedRanges, managers]
    intro range manager present
    obtain ⟨managed, known, named, covers⟩ := backed.loaded range manager present
    exact ⟨managed, known, named, covered _ covers⟩
  · rw [calls]
    intro call found present locks
    exact covered _ (backed.checked call found present locks)

theorem Backed.setPhase (backed : server.Backed)
    {phase : CallPhase} (covers : phase.locks = true → server.Covers id) :
    (server.setPhase call id phase).Backed := by
  refine ⟨backed.loaded, ?_⟩
  intro other found present
  rcases eq_or_find_of_insert present with ⟨rfl, rfl⟩ | old
  · exact covers
  · exact backed.checked other found old.2

theorem Backed.setLifecycle (backed : server.Backed) {managed : ManagedRange}
    {lifecycle : Lifecycle} (known : server.managers.find manager = some managed) :
    (server.setLifecycle manager managed lifecycle).Backed := by
  refine ⟨?_, backed.checked⟩
  intro range other present
  obtain ⟨found, held, named, covers⟩ := backed.loaded range other present
  by_cases same : other = manager
  · subst same
    rw [known] at held
    cases held
    exact ⟨{ managed with lifecycle := lifecycle }, find_insert_self _ _ _, named, covers⟩
  · exact ⟨found, (find_insert_of_ne _ same).trans held, named, covers⟩

theorem Backed.inserts (backed : server.Backed)
    (covers : server.Covers id) (unused : server.managers.find manager = none) :
    Backed
      { server.setPhase call id (.fresh manager) with
        loadedRanges := server.loadedRanges.insert id.rangeId manager
        managers := server.managers.insert manager ⟨id, .new⟩ } := by
  refine ⟨?_, ?_⟩
  · intro range other present
    rcases eq_or_find_of_insert present with ⟨rfl, rfl⟩ | old
    · exact ⟨⟨id, .new⟩, find_insert_self _ _ _, rfl, covers⟩
    · obtain ⟨managed, known, named, covered⟩ := backed.loaded range other old.2
      have ne : other ≠ manager := by
        rintro rfl
        rw [unused] at known
        cases known
      exact ⟨managed, (find_insert_of_ne _ ne).trans known, named, covered⟩
  · refine (backed.setPhase ?_).checked
    intro locks
    cases locks

theorem Backed.erases (backed : server.Backed)
    (kept : ∀ other manager, next.loadedRanges.find other = some manager →
      other ≠ range ∧ server.loadedRanges.find other = some manager)
    (managers : next.managers = server.managers)
    (covered : ∀ id, id.rangeId ≠ range → server.Covers id → next.Covers id)
    (checked : ∀ call found, next.calls.find call = some found → found.phase.locks = true →
      next.Covers found.id) : next.Backed := by
  refine ⟨?_, checked⟩
  rw [managers]
  intro other manager present
  obtain ⟨ne, old⟩ := kept other manager present
  obtain ⟨managed, known, rfl, covers⟩ := backed.loaded other manager old
  exact ⟨managed, known, rfl, covered _ ne covers⟩

theorem Backed.removes (backed : server.Backed)
    (settled : server.RemovesSettled .removeRange) (removing : server.updateLoop = .removing id)
    (kept : ∀ other manager, next.loadedRanges.find other = some manager →
      other ≠ id.rangeId ∧ server.loadedRanges.find other = some manager)
    (managers : next.managers = server.managers) (calls : next.calls = server.calls)
    (handler : next.wardenHandler = server.wardenHandler) : next.Backed := by
  refine backed.erases kept managers ?_ ?_
  · intro other ne covers
    rcases covers with covered | removed
    · left
      rw [handler]
      exact covered
    · rw [removing] at removed
      cases removed
      exact absurd rfl ne
  · intro call found present locks
    rw [calls] at present
    left
    rw [handler]
    rcases backed.checked call found present locks with covered | removed
    · exact covered
    · exact settled call (mem_keys.mpr ⟨_, present⟩) found present locks removed

theorem Backed.takes (backed : server.Backed)
    {phase : LoadPhase} (taken : server.takeResult call id manager phase = some next) :
    next.Backed := by
  unfold takeResult at taken
  split at taken
  next =>
    cases taken
    refine backed.setPhase ?_
    intro locks
    cases locks
  next =>
    cases taken
    refine backed.setPhase ?_
    intro locks
    cases locks
  next =>
    cases taken
    refine backed.setPhase ?_
    intro locks
    cases locks
  next => cases taken

theorem find_of_cleanUp
    (present : (server.cleanUp call id error).loadedRanges.find range = some manager) :
    server.loadedRanges.find range = some manager := by
  unfold cleanUp at present
  simp only at present
  split at present
  next => exact (find_of_erase present).2
  next => exact present

theorem Backed.cleans (backed : server.Backed) : (server.cleanUp call id error).Backed := by
  refine ⟨?_, ?_⟩
  · intro range manager present
    exact backed.loaded range manager (find_of_cleanUp present)
  · have returned : (server.setPhase call id (.returned (.error error))).Backed := by
      refine backed.setPhase ?_
      intro locks
      cases locks
    exact returned.checked

theorem Backed.step (server next : LoadedRanges) (label : Label) (backed : server.Backed)
    (settled : server.RemovesSettled label) (taken : server.step label = some next) :
    next.Backed := by
  cases moves_of_step taken with
  | calls | finds | misses | unassigned | reuses =>
    exact backed.setPhase fun locks => by cases locks
  | assigned _ assigned => exact backed.setPhase fun _ => .inl (.inl assigned)
  | inserts locking _ unused =>
    exact backed.inserts (backed.checked _ _ locking rfl) unused
  | loads _ _ known => exact backed.setLifecycle known
  | takes _ _ _ _ took => exact backed.takes took
  | cleans => exact backed.cleans
  | processes processed =>
    refine backed.covered ?_ rfl rfl rfl
    intro id covers
    rcases covers with covered | removing
    · exact .inl (covered.processWardenUpdate processed)
    · exact .inr removing
  | @spawns call id rest updates missing =>
    have called : (server.setPhase call id .looking).Backed :=
      backed.setPhase fun locks => by cases locks
    refine called.covered ?_ rfl rfl rfl
    intro other covers
    cases covers with
    | inr removing => exact .inr removing
    | inl covered =>
      left
      rcases covered with assigned | sent
      · exact .inl assigned
      · change _ ∈ server.wardenHandler.updates at sent
        rw [updates] at sent
        exact .inr ((List.mem_cons.mp sent).resolve_left (by simp))
  | @unloads call id rest receiving updates =>
    refine backed.covered ?_ rfl rfl rfl
    intro other covers
    cases covers with
    | inr removing =>
      rw [receiving] at removing
      cases removing
    | inl covered =>
      rcases covered with assigned | sent
      · exact .inl (.inl assigned)
      · rw [updates] at sent
        rcases List.mem_cons.mp sent with first | later
        · cases first
          exact .inr rfl
        · exact .inl (.inr later)
  | @removesNone id removing missing =>
    refine backed.removes settled removing ?_ rfl rfl rfl
    intro other manager present
    refine ⟨?_, present⟩
    rintro rfl
    rw [missing] at present
    cases present
  | removes removing =>
    exact backed.removes settled removing (fun _ _ present => find_of_erase present)
      rfl rfl rfl
  | unloaded unloading known =>
    refine (backed.setLifecycle known).covered ?_ rfl rfl rfl
    intro other covers
    rcases covers with covered | removing
    · exact .inl covered
    · change server.updateLoop = _ at removing
      rw [unloading] at removing
      cases removing

/-- All updates, spawned loads and requests have finished. -/
structure Quiescent (server : LoadedRanges) : Prop where
  updates : server.wardenHandler.updates = []
  updateLoop : server.updateLoop = .receiving
  calls : ∀ call ∈ server.calls.keys, ∀ found ∈ server.calls.find call,
    found.phase.finished = true

instance (server : LoadedRanges) : Decidable server.Quiescent :=
  decidable_of_iff (server.wardenHandler.updates = [] ∧ server.updateLoop = .receiving ∧
    ∀ call ∈ server.calls.keys, ∀ found ∈ server.calls.find call, found.phase.finished = true)
    ⟨fun quiet => ⟨quiet.1, quiet.2.1, quiet.2.2⟩,
      fun quiet => ⟨quiet.updates, quiet.updateLoop, quiet.calls⟩⟩

def LoadedAssigned (server : LoadedRanges) : Prop :=
  ∀ range manager, server.loadedRanges.find range = some manager →
    ∃ managed, server.managers.find manager = some managed ∧ managed.rangeId.rangeId = range ∧
      managed.rangeId ∈ server.wardenHandler.assignedRanges

/-- When everything has finished, the loaded ranges are assigned. -/
theorem loaded_assigned (reached : Reachable LoadedRanges.step RemovesSettled (· = new) server)
    (quiescent : server.Quiescent) : server.LoadedAssigned := by
  have backed : server.Backed := by
    refine reached.invariant ?_ Backed.step
    rintro _ rfl
    exact .new
  intro range manager present
  obtain ⟨managed, known, named, covers⟩ := backed.loaded range manager present
  refine ⟨managed, known, named, ?_⟩
  cases covers with
  | inr removing =>
    rw [quiescent.updateLoop] at removing
    cases removing
  | inl covered =>
    rcases covered with assigned | sent
    · exact assigned
    · rw [quiescent.updates] at sent
      cases sent

/-- A range is assigned and loaded, and another one takes its place. -/
def movedSchedule : List Label :=
  [.processWardenUpdate (.fullAssignment [exampleRange 1] [] [exampleRange 1]), .receiveUpdate 0,
    .lookUp 0, .isAssigned 0] ++ loadsFresh 0 0 ++
  [.call 1 (exampleRange 1), .lookUp 1, .load 1 .readState, .takeResult 1,
    .processWardenUpdate (.fullAssignment [exampleRange 2] [exampleRange 1] [exampleRange 2]),
    .receiveUpdate 2, .removeRange, .unloadRange, .receiveUpdate 2, .lookUp 2, .isAssigned 2] ++
  loadsFresh 2 1

theorem loaded_assigned_moved : ∃ server : LoadedRanges,
    Reachable LoadedRanges.step RemovesSettled (· = new) server ∧ server.Quiescent ∧
    server.loadedRanges.find 2 = some 1 ∧ server.LoadedAssigned := by
  obtain ⟨server, reached, passed⟩ := @exists_reachable_of_run _ _ LoadedRanges.step
    RemovesSettled (· = new) _ new rfl movedSchedule
    (fun server => decide (server.Quiescent ∧ server.loadedRanges.find 2 = some 1))
    (by decide +kernel)
  obtain ⟨quiescent, present⟩ := of_decide_eq_true passed
  exact ⟨server, reached, quiescent, present, loaded_assigned reached quiescent⟩

/-- A request checks the assignment before an update takes the range away, and inserts its
range manager after the unload. -/
def overtakenSchedule : List Label :=
  [.processWardenUpdate (.incrementalAssignment [exampleRange 1] []),
    .call 0 (exampleRange 1), .lookUp 0, .isAssigned 0,
    .processWardenUpdate (.fullAssignment [] [exampleRange 1] []),
    .receiveUpdate 1, .lookUp 1, .isAssigned 1, .cleanUp 1, .receiveUpdate 2, .removeRange] ++
  loadsFresh 0 0

theorem loaded_unassigned : ∃ server : LoadedRanges,
    Reachable LoadedRanges.step (fun _ _ => True) (· = new) server ∧ server.Quiescent ∧
      server.loadedRanges.find 1 = some 0 ∧ server.wardenHandler.assignedRanges = ∅ ∧
      ¬ server.LoadedAssigned := by
  obtain ⟨server, reached, passed⟩ := @exists_reachable_of_run _ _ LoadedRanges.step
    (fun _ _ => True) (· = new) _ new rfl overtakenSchedule
    (fun server => decide (server.Quiescent ∧ server.loadedRanges.find 1 = some 0 ∧
      server.wardenHandler.assignedRanges = ∅)) (by decide +kernel)
  obtain ⟨quiescent, present, none⟩ := of_decide_eq_true passed
  refine ⟨server, reached, quiescent, present, none, ?_⟩
  intro loadedAssigned
  obtain ⟨managed, _, _, assigned⟩ := loadedAssigned 1 0 present
  rw [none] at assigned
  exact Finset.notMem_empty _ assigned

end LoadedRanges

end Sangria.RangeServer
