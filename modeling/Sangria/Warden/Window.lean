import Mathlib.Data.Int.Interval
import Mathlib.Order.ConditionallyCompleteLattice.Finset
import Mathlib.Data.Int.ConditionallyCompleteOrder
import Sangria.Warden.Updates

/-!
# The cached versions

The versions that are cached are consecutive and end at the current one; each is
cached with the assignments it was published with.  `get_assignment_update` finds
the ranges of the version it is asked for, and labels them with the current one.
-/

namespace Sangria.Warden

open FiniteMap
open TransitionSystem

/-- A call of `get_assignment_update` that returned an update, with the current
version at that time. -/
structure Answered where
  server : HostIdentity
  version : Int
  current : Int
  update : FullAssignment

/-- The loop with what it has published and the updates it was asked for, the last
ones first. -/
structure Publishing where
  loop : AssignmentLoop
  published : List (Int × List RangeAssignment)
  answered : List Answered

namespace Publishing

inductive Label where
  | loop (label : AssignmentLoop.Label)
  | getAssignmentUpdate (server : HostIdentity) (version : Int) (fullUpdate : Bool)

def step (publishing : Publishing) : Label → Option Publishing
  | .loop label =>
    (publishing.loop.step label).map fun next =>
      { publishing with
        loop := next
        published :=
          match next.broadcasts label with
          | some version => (version, next.computation.assignments) :: publishing.published
          | none => publishing.published }
  | .getAssignmentUpdate server version fullUpdate =>
    (publishing.loop.computation.getAssignmentUpdate server version fullUpdate).map fun update =>
      { publishing with
        answered := ⟨server, version, publishing.loop.computation.currentVersion, update⟩ ::
          publishing.answered }

def Initial (publishing : Publishing) : Prop :=
  AssignmentLoop.Initial publishing.loop ∧ publishing.published = [] ∧ publishing.answered = []

end Publishing

/-! ## Eviction -/

namespace AssignmentComputation

variable {comp next : AssignmentComputation} {plan : Plan} {names : List String}

theorem find_of_evict {map : HashMap Int (List RangeAssignment)} {version : Int}
    {assignments : List RangeAssignment} (kept : (evict map).find version = some assignments) :
    map.find version = some assignments := by
  unfold evict at kept
  split at kept
  next =>
    split at kept
    next => exact (find_of_erase kept).2
    next => exact kept
  next => exact kept

theorem min_Icc {first last oldest : Int} (nonempty : first ≤ last)
    (least : (Finset.Icc first last).min = some oldest) : oldest = first := by
  have present := Finset.mem_of_min least
  have le := Finset.min_le_of_eq (Finset.mem_Icc.mpr ⟨le_rfl, nonempty⟩) least
  exact le_antisymm le (Finset.mem_Icc.mp present).1

/-- Of consecutive versions the newest `maxVersionsToKeep` are kept. -/
theorem keys_evict {map : HashMap Int (List RangeAssignment)} {last : Int} {count : Nat}
    (window : map.keys = Finset.Icc (last - count + 1) last)
    (bound : count ≤ maxVersionsToKeep + 1) :
    (evict map).keys = Finset.Icc (last - min count maxVersionsToKeep + 1) last := by
  have card : map.keys.card = count := by
    rw [window, Int.card_Icc]
    omega
  unfold evict
  rw [card]
  split
  next many =>
    have count_eq : count = maxVersionsToKeep + 1 := by omega
    split
    next oldest least =>
      rw [window] at least
      have first := min_Icc (by omega) least
      ext version
      rw [Finmap.keys_erase, window, Finset.mem_erase, Finset.mem_Icc, Finset.mem_Icc]
      omega
    next empty =>
      rw [Finset.min_eq_top.mp empty] at card
      simp at card
      omega
  next few => rw [window, min_eq_left (Nat.le_of_not_lt few)]

theorem keys_publish {count : Nat} (ran : comp.publish plan names = some next)
    (follows : plan.newVersion = comp.currentVersion + 1)
    (window : comp.rangeAssignments.keys =
      Finset.Icc (comp.currentVersion - count + 1) comp.currentVersion)
    (bound : count ≤ maxVersionsToKeep + 1) :
    next.rangeAssignments.keys = Finset.Icc
      (next.currentVersion - min (count + 1) (maxVersionsToKeep + 1) + 1) next.currentVersion := by
  rw [publish_eq ran]
  ext version
  have kept := congrArg (version ∈ ·) (keys_evict window bound)
  simp only [eq_iff_iff, Finset.mem_Icc] at kept
  simp only [mem_keys, find_insert, Finset.mem_Icc] at kept ⊢
  split
  next same =>
    simp only [Option.some.injEq, exists_eq', true_iff]
    omega
  next =>
    rw [kept]
    omega

end AssignmentComputation

/-! ## Steps of the loop -/

namespace AssignmentLoop

variable {loop next : AssignmentLoop} {label : Label}

theorem Sound.sameVersions (sound : Sound loop) (taken : loop.step label = some next)
    (silent : next.broadcasts label = none) :
    loop.computation.SameVersions next.computation := by
  cases sound.moves taken with
  | servers | unread | waited | planned | failed => exact ⟨rfl, rfl⟩
  | read _ ok =>
    obtain ⟨reported, _, rfl⟩ := AssignmentComputation.readBaseRanges_eq ok
    exact ⟨rfl, rfl⟩
  | published => cases silent

theorem Sound.publishes (sound : Sound loop) {version : Int}
    (taken : loop.step label = some next) (sends : next.broadcasts label = some version) :
    version = next.computation.currentVersion ∧ version = loop.computation.currentVersion + 1 ∧
      ∃ plan names, plan.newVersion = version ∧
        loop.computation.publish plan names = some next.computation := by
  unfold broadcasts at sends
  split at sends
  next =>
    obtain ⟨start, iteration, plan, persisting, ends⟩ := sound.ends taken
    have follows := (sound.awaited _ _ _ persisting).newVersion
    cases ends with
    | @published names comp ran =>
      have current : comp.currentVersion = plan.newVersion := by
        rw [AssignmentComputation.publish_eq ran]
      cases sends
      exact ⟨rfl, current.trans follows, plan, names, current.symm, ran⟩
  next => cases sends

end AssignmentLoop

/-! ## The window -/

namespace Publishing

variable {publishing next : Publishing}

def count (publishing : Publishing) : Nat :=
  min publishing.published.length (maxVersionsToKeep + 1)

structure Windowed (publishing : Publishing) : Prop where
  sound : publishing.loop.Sound
  numbered : ∀ (index : Nat) version assignments,
    publishing.published[index]? = some (version, assignments) →
      version = publishing.loop.computation.currentVersion - index
  window : publishing.loop.computation.rangeAssignments.keys =
    Finset.Icc (publishing.loop.computation.currentVersion - publishing.count + 1)
      publishing.loop.computation.currentVersion
  cached : ∀ version assignments,
    publishing.loop.computation.rangeAssignments.find version = some assignments →
      (version, assignments) ∈ publishing.published
  answers : ∀ answered ∈ publishing.answered,
    answered.current ≤ publishing.loop.computation.currentVersion ∧
      answered.update.version = answered.current ∧
      ∃ assignments, (answered.version, assignments) ∈ publishing.published ∧
        answered.update.range =
          AssignmentComputation.assignedRanges answered.server assignments
  ordered : (publishing.answered.map Answered.current).Pairwise (· ≥ ·)

theorem Windowed.initial (started : Initial publishing) : Windowed publishing := by
  obtain ⟨loop, published, answered⟩ := publishing
  obtain ⟨begun, rfl, rfl⟩ := started
  have sound := AssignmentLoop.Sound.initial begun
  obtain ⟨version, rfl⟩ := begun
  refine ⟨sound, ?_, ?_, ?_, ?_, .nil⟩
  · simp
  · simp [count, AssignmentComputation.new]
  · intro other assignments found
    cases found
  · simp

theorem Windowed.silent (windowed : Windowed publishing) {loop : AssignmentLoop}
    (sound : loop.Sound)
    (same : publishing.loop.computation.SameVersions loop.computation) :
    Windowed { publishing with loop := loop } := by
  obtain ⟨_, numbered, window, cached, answers, ordered⟩ := windowed
  obtain ⟨assignments, current⟩ := same
  rw [← current] at numbered window answers
  rw [← assignments] at window cached
  exact ⟨sound, numbered, window, cached, answers, ordered⟩

theorem Windowed.publishes (windowed : Windowed publishing) {loop : AssignmentLoop} {plan : Plan}
    {names : List String} (sound : loop.Sound)
    (follows : plan.newVersion = publishing.loop.computation.currentVersion + 1)
    (current : loop.computation.currentVersion = plan.newVersion)
    (ran : publishing.loop.computation.publish plan names = some loop.computation) :
    Windowed { publishing with
      loop := loop
      published := (plan.newVersion, loop.computation.assignments) :: publishing.published } where
  sound := sound
  numbered index version assignments found := by
    cases index with
    | zero =>
      cases found
      simp [current]
    | succ index =>
      have old := windowed.numbered index version assignments found
      simp only [current, follows]
      omega
  window := by
    refine (AssignmentComputation.keys_publish ran follows windowed.window
      (min_le_right _ _)).trans ?_
    simp only [count, List.length_cons]
    congr 2
    omega
  cached version assignments found := by
    have shown := AssignmentComputation.currentAssignments_of_publish ran
    simp only [AssignmentComputation.publish_eq ran] at found
    rcases eq_or_find_of_insert found with ⟨rfl, rfl⟩ | ⟨_, kept⟩
    · rw [AssignmentComputation.assignments, shown]
      exact List.mem_cons_self
    · exact List.mem_cons_of_mem _
        (windowed.cached version assignments (AssignmentComputation.find_of_evict kept))
  answers answered given := by
    obtain ⟨older, label, assignments, known, ranges⟩ := windowed.answers answered given
    refine ⟨?_, label, assignments, List.mem_cons_of_mem _ known, ranges⟩
    simp only [current, follows]
    omega
  ordered := windowed.ordered

theorem Windowed.answer (windowed : Windowed publishing) {server : HostIdentity} {version : Int}
    {fullUpdate : Bool} {update : FullAssignment}
    (found : publishing.loop.computation.getAssignmentUpdate server version fullUpdate =
      some update) :
    Windowed { publishing with
      answered := ⟨server, version, publishing.loop.computation.currentVersion, update⟩ ::
        publishing.answered } := by
  obtain ⟨sound, numbered, window, cached, answers, ordered⟩ := windowed
  refine ⟨sound, numbered, window, cached, ?_, ?_⟩
  · intro answered given
    rcases List.mem_cons.mp given with rfl | earlier
    · unfold AssignmentComputation.getAssignmentUpdate at found
      split at found
      next assignments known =>
        cases found
        exact ⟨le_rfl, rfl, assignments, cached version assignments known, rfl⟩
      next => cases found
    · exact answers answered earlier
  · refine List.pairwise_cons.mpr ⟨?_, ordered⟩
    intro current earlier
    obtain ⟨answered, given, rfl⟩ := List.mem_map.mp earlier
    exact (answers answered given).1

theorem Windowed.step (publishing next : Publishing) (label : Label)
    (windowed : Windowed publishing) (_ : True)
    (taken : publishing.step label = some next) : Windowed next := by
  cases label with
  | loop label =>
    obtain ⟨loop, moved, rfl⟩ := Option.map_eq_some_iff.mp taken
    have sound := windowed.sound.step moved
    cases sends : loop.broadcasts label with
    | none => exact windowed.silent sound (windowed.sound.sameVersions moved sends)
    | some version =>
      obtain ⟨current, follows, plan, names, rfl, ran⟩ :=
        windowed.sound.publishes moved sends
      exact windowed.publishes sound follows current.symm ran
  | getAssignmentUpdate server version fullUpdate =>
    obtain ⟨update, found, rfl⟩ := Option.map_eq_some_iff.mp taken
    exact windowed.answer found

theorem Windowed.of_reachable
    (reached : Reachable Publishing.step (fun _ _ => True) Initial publishing) :
    Windowed publishing :=
  reached.invariant (fun _ => Windowed.initial) Windowed.step

theorem Windowed.unique (windowed : Windowed publishing) {version : Int}
    {first second : List RangeAssignment} (one : (version, first) ∈ publishing.published)
    (two : (version, second) ∈ publishing.published) : first = second := by
  obtain ⟨index, here⟩ := List.mem_iff_getElem?.mp one
  obtain ⟨other, there⟩ := List.mem_iff_getElem?.mp two
  have same : index = other := by
    have numberedHere := windowed.numbered _ _ _ here
    have numberedThere := windowed.numbered _ _ _ there
    omega
  subst same
  rw [here] at there
  cases there
  rfl

theorem Windowed.find (windowed : Windowed publishing) {index : Nat} {version : Int}
    {assignments : List RangeAssignment} (recent : index < maxVersionsToKeep + 1)
    (known : publishing.published[index]? = some (version, assignments)) :
    publishing.loop.computation.rangeAssignments.find version = some assignments := by
  have within := (List.getElem?_eq_some_iff.mp known).1
  have present : version ∈ publishing.loop.computation.rangeAssignments.keys := by
    rw [windowed.window, Finset.mem_Icc, windowed.numbered _ _ _ known, count]
    omega
  obtain ⟨cached, found⟩ := mem_keys.mp present
  rw [found, windowed.unique (windowed.cached _ _ found) (List.mem_of_getElem? known)]

/-- The cached versions are consecutive and end at the current one, no lookup or
assertion fails, and the last versions are cached as they were published. -/
theorem versions_window (publishing : Publishing)
    (reached : Reachable step (fun _ _ => True) Initial publishing) :
    (publishing.published ≠ [] →
      ∃ count : Nat, 0 < count ∧ count ≤ maxVersionsToKeep + 1 ∧
        publishing.loop.computation.rangeAssignments.keys =
          Finset.Icc (publishing.loop.computation.currentVersion - count + 1)
            publishing.loop.computation.currentVersion ∧
        publishing.loop.computation.rangeAssignments.find
          publishing.loop.computation.currentVersion ≠ none) ∧
    publishing.loop.phase ≠ .panicked ∧
    (∀ start iteration plan, publishing.loop.phase = .persisting start iteration plan →
      plan.newVersion ∉
        (AssignmentComputation.evict publishing.loop.computation.rangeAssignments).keys) ∧
    ∀ index < maxVersionsToKeep, ∀ version assignments,
      publishing.published[index]? = some (version, assignments) →
        publishing.loop.computation.rangeAssignments.find version = some assignments := by
  have windowed := Windowed.of_reachable reached
  refine ⟨?_, windowed.sound.running, ?_, ?_⟩
  · intro some
    have positive : 0 < publishing.count :=
      lt_min (List.length_pos_iff.mpr some) (Nat.succ_pos _)
    refine ⟨publishing.count, positive, min_le_right _ _, windowed.window, ?_⟩
    have present : publishing.loop.computation.currentVersion ∈
        publishing.loop.computation.rangeAssignments.keys := by
      rw [windowed.window, Finset.mem_Icc]
      omega
    obtain ⟨assignments, found⟩ := mem_keys.mp present
    simp [found]
  · intro start iteration plan persisting used
    have known := AssignmentComputation.mem_keys_evict used
    rw [windowed.window, Finset.mem_Icc,
      (windowed.sound.awaited _ _ _ persisting).newVersion] at known
    omega
  · intro index recent version assignments known
    exact windowed.find (Nat.lt_succ_of_lt recent) known

/-- An update describes the version it was asked for exactly when that is the current
one, and the labels never decrease. -/
theorem describes_asked_iff (publishing : Publishing)
    (reached : Reachable step (fun _ _ => True) Initial publishing) :
    (∀ server version fullUpdate assignments,
      publishing.loop.computation.rangeAssignments.find version = some assignments →
      (version, assignments) ∈ publishing.published ∧
      (publishing.loop.computation.getAssignmentUpdate server version fullUpdate =
          some ⟨version, AssignmentComputation.assignedRanges server assignments⟩ ↔
        version = publishing.loop.computation.currentVersion)) ∧
    (∀ answered ∈ publishing.answered,
      ((∃ assignments, (answered.version, assignments) ∈ publishing.published ∧
          answered.update = ⟨answered.version,
            AssignmentComputation.assignedRanges answered.server assignments⟩) ↔
        answered.version = answered.current)) ∧
    (publishing.answered.map (·.update.version)).Pairwise (· ≥ ·) := by
  have windowed := Windowed.of_reachable reached
  refine ⟨?_, ?_, ?_⟩
  · intro server version fullUpdate assignments found
    refine ⟨windowed.cached version assignments found, ?_⟩
    simp only [AssignmentComputation.getAssignmentUpdate, found]
    grind
  · intro answered given
    obtain ⟨_, label, assignments, known, ranges⟩ := windowed.answers answered given
    constructor
    · rintro ⟨_, _, same⟩
      rw [← label, same]
    · intro asked
      refine ⟨assignments, known, ?_⟩
      rw [asked, ← label, ← ranges]
  · have same : publishing.answered.map (·.update.version) =
        publishing.answered.map Answered.current :=
      List.map_congr_left fun answered given => (windowed.answers answered given).2.1
    rw [same]
    exact windowed.ordered

def start : Publishing := ⟨⟨.new 0, ∅, .reading, []⟩, [], []⟩

/-- A range goes from one server to another, and the first one asks for a version. -/
def handedOver (version : Int) : List Label :=
  AssignmentLoop.handedOverSchedule.map .loop ++
    [.getAssignmentUpdate (AssignmentComputation.exampleServer "A") version true]

theorem versions_window_handedOver : ∃ publishing : Publishing,
    Reachable step (fun _ _ => True) Initial publishing ∧
    publishing.published.map Prod.fst = [2, 1] ∧
      publishing.loop.computation.rangeAssignments.find 2 ≠ none := by
  obtain ⟨publishing, reached, passed⟩ := @exists_reachable_of_run _ _ step (fun _ _ => True)
    Initial _ start ⟨⟨0, rfl⟩, rfl, rfl⟩ (handedOver 2)
    (fun publishing => decide (publishing.published.map Prod.fst = [2, 1] ∧
      publishing.loop.computation.currentVersion = 2)) (by decide +kernel)
  obtain ⟨versions, current⟩ := of_decide_eq_true passed
  have some : publishing.published ≠ [] := by
    intro none
    simp [none] at versions
  obtain ⟨_, _, _, _, found⟩ := (versions_window publishing reached).1 some
  exact ⟨publishing, reached, versions, current ▸ found⟩

theorem describes_asked_current : ∃ publishing : Publishing,
    Reachable step (fun _ _ => True) Initial publishing ∧ ∃ answered ∈ publishing.answered,
    answered.version = 2 ∧ ∃ assignments, (answered.version, assignments) ∈ publishing.published ∧
      answered.update = ⟨answered.version,
        AssignmentComputation.assignedRanges answered.server assignments⟩ := by
  obtain ⟨publishing, reached, passed⟩ := @exists_reachable_of_run _ _ step (fun _ _ => True)
    Initial _ start ⟨⟨0, rfl⟩, rfl, rfl⟩ (handedOver 2)
    (fun publishing => decide (∃ answered ∈ publishing.answered,
      answered.version = 2 ∧ answered.version = answered.current)) (by decide +kernel)
  obtain ⟨answered, given, two, asked⟩ := of_decide_eq_true passed
  exact ⟨publishing, reached, answered, given, two,
    ((describes_asked_iff publishing reached).2.1 answered given).mpr asked⟩

/-- The range that the server had in the first version is labelled with the second one,
in which it has none. -/
theorem labelled_with_current : ∃ publishing : Publishing,
    Reachable step (fun _ _ => True) Initial publishing ∧
      publishing.loop.computation.getAssignmentUpdate (AssignmentComputation.exampleServer "A") 1
        true = some ⟨2, [(AssignmentComputation.exampleRange 1).fullRangeId]⟩ ∧
      publishing.loop.computation.getAssignmentUpdate (AssignmentComputation.exampleServer "A") 2
        true = some ⟨2, []⟩ := by
  obtain ⟨publishing, reached, passed⟩ := @exists_reachable_of_run _ _ step (fun _ _ => True)
    Initial _ start ⟨⟨0, rfl⟩, rfl, rfl⟩ (handedOver 1)
    (fun publishing => decide (publishing.loop.computation.getAssignmentUpdate
        (AssignmentComputation.exampleServer "A") 1 true =
          some ⟨2, [(AssignmentComputation.exampleRange 1).fullRangeId]⟩ ∧
      publishing.loop.computation.getAssignmentUpdate (AssignmentComputation.exampleServer "A") 2
        true = some ⟨2, []⟩)) (by decide +kernel)
  exact ⟨publishing, reached, of_decide_eq_true passed⟩

end Publishing

end Sangria.Warden
