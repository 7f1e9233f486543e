import Sangria.Lib.Broadcast
import Sangria.Lib.TransitionSystem
import Sangria.RangeServer.RangeManager.Handlers

/-!
# Loading and unloading a range

The state of a `RangeManager` and its calls of `load`, `unload` and of the
handlers, cut where they take the lock of the state.  A handler holds the lock
for reading as long as it is served.  `load` gives the lock back while
`load_inner` runs, and other loads wait for its result on a broadcast channel.
What `load_inner` comes to is an input.
-/

namespace Sangria.RangeServer

open FiniteMap
open TransitionSystem
open Broadcast (Channel Receiver)

/-- `RangeIsNotLoaded`, or what `load_inner` returned. -/
inductive LoadError where
  | rangeIsNotLoaded
  | inner (error : Error)
  deriving DecidableEq

inductive LoadState where
  | notLoaded
  | loading
  | loaded
  | unloaded
  deriving DecidableEq

inductive LoadPhase where
  /-- The state was not `Loaded`; the lock is wanted for writing. -/
  | locking
  | waiting (receiver : Receiver)
  | loadingInner
  /-- `load_inner` has returned; the lock is wanted for writing. -/
  | writing (result : Except Error Unit)
  | returned (result : Except LoadError Unit)
  | panicked

def LoadPhase.isWaiting : LoadPhase → Bool
  | .waiting _ => true
  | _ => false

def LoadPhase.leads : LoadPhase → Bool
  | .loadingInner | .writing _ => true
  | _ => false

/-- A call of `load`; `late` if the range manager was unloaded before it. -/
structure LoadCall where
  late : Bool
  phase : LoadPhase

inductive RequestPhase where
  | serving
  | returned (served : Bool)
  deriving DecidableEq

structure RequestCall where
  late : Bool
  phase : RequestPhase
  deriving DecidableEq

structure Lifecycle where
  state : LoadState
  /-- The channel of the call that runs `load_inner`. -/
  sender : Channel (Except LoadError Unit)
  loads : HashMap Nat LoadCall
  requests : HashMap Nat RequestCall
  /-- The calls of `load_inner`. -/
  attempts : Nat
  outcome : Option (Except Error Unit)
  /-- The state was set to `Unloaded` at some time. -/
  retired : Bool

namespace Lifecycle

def new : Lifecycle := ⟨.notLoaded, ⟨1, []⟩, ∅, ∅, 0, none, false⟩

inductive Action where
  | readState
  | lockState
  | loadInner (result : Except Error Unit)
  | writeState
  | recv

inductive Label where
  | load (call : Nat) (action : Action)
  | unload
  | request (call : Nat)
  | respond (call : Nat)

def Unlocked (manager : Lifecycle) : Prop :=
  ∀ call ∈ manager.requests.keys, ∀ request ∈ manager.requests.find call,
    request.phase ≠ .serving

instance (manager : Lifecycle) : Decidable manager.Unlocked :=
  inferInstanceAs (Decidable (∀ call ∈ manager.requests.keys, _))

def Waited (manager : Lifecycle) : Prop :=
  ∃ call ∈ manager.loads.keys, ∃ load ∈ manager.loads.find call, load.phase.isWaiting = true

instance (manager : Lifecycle) : Decidable manager.Waited :=
  inferInstanceAs (Decidable (∃ call ∈ manager.loads.keys, _))

def isUnloaded (manager : Lifecycle) : Bool := manager.state = .unloaded

def setPhase (manager : Lifecycle) (call : Nat) (load : LoadCall) (phase : LoadPhase) :
    Lifecycle :=
  { manager with loads := manager.loads.insert call { load with phase := phase } }

def lockState (manager : Lifecycle) (call : Nat) (load : LoadCall) : Lifecycle :=
  match manager.state with
  | .loaded => manager.setPhase call load (.returned (.ok ()))
  | .loading => manager.setPhase call load (.waiting manager.sender.subscribe)
  | .notLoaded =>
    { manager.setPhase call load .loadingInner with
      state := .loading
      sender := ⟨1, []⟩
      attempts := manager.attempts + 1 }
  | .unloaded => manager.setPhase call load (.returned (.error .rangeIsNotLoaded))

/-- A send fails without a receiver.  The failure is ignored for a range that was
loaded, and unwrapped for an error. -/
def writeState (manager : Lifecycle) (call : Nat) (load : LoadCall) :
    Except Error Unit → Lifecycle
  | .error error =>
    { manager.setPhase call load
        (if manager.Waited then .returned (.error (.inner error)) else .panicked) with
      state := .unloaded
      sender :=
        if manager.Waited then manager.sender.send (.error (.inner error)) else manager.sender
      outcome := some (.error error)
      retired := true }
  | .ok () =>
    { manager.setPhase call load (.returned (.ok ())) with
      state := .loaded
      sender := if manager.Waited then manager.sender.send (.ok ()) else manager.sender
      outcome := some (.ok ()) }

def loadStep (manager : Lifecycle) (call : Nat) : Action → Option Lifecycle
  | .readState =>
    match manager.loads.find call with
    | some _ => none
    | none =>
      some { manager with
        loads := manager.loads.insert call ⟨manager.retired,
          if manager.state = .loaded then .returned (.ok ()) else .locking⟩ }
  | .lockState =>
    match manager.loads.find call with
    | some ⟨late, .locking⟩ =>
      if manager.Unlocked then some (manager.lockState call ⟨late, .locking⟩) else none
    | _ => none
  | .loadInner result =>
    match manager.loads.find call with
    | some ⟨late, .loadingInner⟩ =>
      some (manager.setPhase call ⟨late, .loadingInner⟩ (.writing result))
    | _ => none
  | .writeState =>
    match manager.loads.find call with
    | some ⟨late, .writing result⟩ =>
      if manager.Unlocked then
        some (manager.writeState call ⟨late, .writing result⟩ result)
      else none
    | _ => none
  | .recv =>
    match manager.loads.find call with
    | some ⟨late, .waiting receiver⟩ =>
      match manager.sender.recv receiver with
      | (.pending, _) => none
      | (.value result, _) =>
        some (manager.setPhase call ⟨late, .waiting receiver⟩ (.returned result))
      | (.lagged _, _) => some (manager.setPhase call ⟨late, .waiting receiver⟩ .panicked)
    | _ => none

def step (manager : Lifecycle) : Label → Option Lifecycle
  | .load call action => manager.loadStep call action
  | .unload =>
    if manager.Unlocked then some { manager with state := .unloaded, retired := true } else none
  | .request call =>
    match manager.requests.find call with
    | some _ => none
    | none =>
      some { manager with
        requests := manager.requests.insert call ⟨manager.retired,
          if manager.state = .loaded then .serving else .returned false⟩ }
  | .respond call =>
    match manager.requests.find call with
    | some ⟨late, .serving⟩ =>
      some { manager with
        requests := manager.requests.insert call ⟨late, .returned true⟩ }
    | _ => none

/-! ## The sections of a load -/

def announce : Except Error Unit → Except LoadError Unit
  | .ok () => .ok ()
  | .error error => .error (.inner error)

inductive LoadMoves (manager : Lifecycle) (call : Nat) : Lifecycle → Prop where
  | begins :
      manager.loads.find call = none →
      LoadMoves manager call { manager with
        loads := manager.loads.insert call ⟨manager.retired,
          if manager.state = .loaded then .returned (.ok ()) else .locking⟩ }
  | locks {late} :
      manager.loads.find call = some ⟨late, .locking⟩ →
      manager.Unlocked →
      LoadMoves manager call (manager.lockState call ⟨late, .locking⟩)
  | loads {late result} :
      manager.loads.find call = some ⟨late, .loadingInner⟩ →
      LoadMoves manager call (manager.setPhase call ⟨late, .loadingInner⟩ (.writing result))
  | writes {late result} :
      manager.loads.find call = some ⟨late, .writing result⟩ →
      manager.Unlocked →
      LoadMoves manager call (manager.writeState call ⟨late, .writing result⟩ result)
  | receives {late receiver result after} :
      manager.loads.find call = some ⟨late, .waiting receiver⟩ →
      manager.sender.recv receiver = (.value result, after) →
      LoadMoves manager call
        (manager.setPhase call ⟨late, .waiting receiver⟩ (.returned result))
  | lags {late receiver missed after} :
      manager.loads.find call = some ⟨late, .waiting receiver⟩ →
      manager.sender.recv receiver = (.lagged missed, after) →
      LoadMoves manager call (manager.setPhase call ⟨late, .waiting receiver⟩ .panicked)

variable {manager next : Lifecycle} {call other : Nat} {load : LoadCall}

theorem loadMoves_of_loadStep {action : Action}
    (taken : manager.loadStep call action = some next) : LoadMoves manager call next := by
  cases action with
  | readState =>
    simp only [loadStep] at taken
    split at taken
    next => cases taken
    next missing =>
      cases taken
      exact .begins missing
  | lockState =>
    simp only [loadStep] at taken
    split at taken
    next found =>
      split at taken
      next unlocked =>
        cases taken
        exact .locks found unlocked
      next => cases taken
    next => cases taken
  | loadInner =>
    simp only [loadStep] at taken
    split at taken
    next found =>
      cases taken
      exact .loads found
    next => cases taken
  | writeState =>
    simp only [loadStep] at taken
    split at taken
    next found =>
      split at taken
      next unlocked =>
        cases taken
        exact .writes found unlocked
      next => cases taken
    next => cases taken
  | recv =>
    simp only [loadStep] at taken
    split at taken
    next found =>
      split at taken
      next => cases taken
      next received =>
        cases taken
        exact .receives found received
      next lagged =>
        cases taken
        exact .lags found lagged
    next => cases taken

theorem waited_of_find {late : Bool} {receiver : Receiver}
    (found : manager.loads.find call = some ⟨late, .waiting receiver⟩) : manager.Waited :=
  ⟨call, mem_keys.mpr ⟨_, found⟩, _, found, rfl⟩

/-! ## One attempt -/

def Consistent (outcome : Option (Except Error Unit)) (sent : List (Except LoadError Unit)) :
    LoadPhase → Prop
  | .waiting receiver => receiver.next = 0 ∧ (outcome = none ∨ sent ≠ [])
  | .loadingInner | .writing _ => outcome = none
  | .returned (.ok ()) => outcome = some (.ok ())
  | .locking | .returned (.error _) | .panicked => True

/-- `load_inner` is called once at most, by one call, and all calls see what it came to. -/
structure Sound (manager : Lifecycle) : Prop where
  capacity : manager.sender.capacity = 1
  sent : manager.sender.sent = [] ∨
    ∃ outcome, manager.outcome = some outcome ∧ manager.sender.sent = [announce outcome]
  once : manager.attempts ≤ 1
  notLoaded : manager.state = .notLoaded → manager.attempts = 0
  unattempted : manager.attempts = 0 → manager.outcome = none ∧
    ∀ call load, manager.loads.find call = some load → load.phase.leads = false
  loading : manager.state = .loading → manager.outcome = none
  loaded : manager.state = .loaded → manager.outcome = some (.ok ())
  failed : ∀ error, manager.outcome = some (.error error) → manager.state = .unloaded
  leader : ∀ call other load load', manager.loads.find call = some load →
    manager.loads.find other = some load' → load.phase.leads = true → load'.phase.leads = true →
    call = other
  consistent : ∀ call load, manager.loads.find call = some load →
    Consistent manager.outcome manager.sender.sent load.phase

theorem Sound.new : Sound new := by
  refine ⟨rfl, .inl rfl, Nat.zero_le _, fun _ => rfl, fun _ => ⟨rfl, ?_⟩, ?_, ?_, ?_, ?_, ?_⟩
  · intro call load found
    cases found
  · intro loading
    cases loading
  · intro loaded
    cases loaded
  · intro error failed
    cases failed
  · intro call other load load' found
    cases found
  · intro call load found
    cases found

theorem Sound.sent_of_outcome (sound : manager.Sound) (undecided : manager.outcome = none) :
    manager.sender.sent = [] := by
  rcases sound.sent with nothing | ⟨outcome, decided, _⟩
  · exact nothing
  · rw [undecided] at decided
    cases decided

theorem Sound.setPhase (sound : manager.Sound) {phase : LoadPhase}
    (leads : phase.leads = true → load.phase.leads = true ∧ manager.loads.find call = some load)
    (consistent : Consistent manager.outcome manager.sender.sent phase) :
    (manager.setPhase call load phase).Sound := by
  refine ⟨sound.capacity, sound.sent, sound.once, sound.notLoaded, ?_, sound.loading, sound.loaded,
    sound.failed, ?_, ?_⟩
  · intro unattempted
    obtain ⟨undecided, none⟩ := sound.unattempted unattempted
    refine ⟨undecided, ?_⟩
    intro other found known
    rcases eq_or_find_of_insert known with ⟨rfl, rfl⟩ | old
    · rw [Bool.eq_false_iff]
      intro leading
      obtain ⟨before, known⟩ := leads leading
      rw [none _ load known] at before
      cases before
    · exact none other found old.2
  · -- A call leads after the step only if it did before.
    have before : ∀ other found, (manager.setPhase call load phase).loads.find other = some found →
        found.phase.leads = true →
        ∃ known, manager.loads.find other = some known ∧ known.phase.leads = true := by
      intro other found known leading
      rcases eq_or_find_of_insert known with ⟨rfl, rfl⟩ | old
      · exact ⟨load, (leads leading).2, (leads leading).1⟩
      · exact ⟨found, old.2, leading⟩
    intro first second load₁ load₂ known₁ known₂ leads₁ leads₂
    obtain ⟨old₁, found₁, led₁⟩ := before first load₁ known₁ leads₁
    obtain ⟨old₂, found₂, led₂⟩ := before second load₂ known₂ leads₂
    exact sound.leader first second old₁ old₂ found₁ found₂ led₁ led₂
  · intro other found known
    rcases eq_or_find_of_insert known with ⟨rfl, rfl⟩ | old
    · exact consistent
    · exact sound.consistent other found old.2

theorem Sound.lockState (sound : manager.Sound) : (manager.lockState call load).Sound := by
  unfold Lifecycle.lockState
  split
  next loaded =>
    refine sound.setPhase ?_ (sound.loaded loaded)
    intro leading
    cases leading
  next loading =>
    refine sound.setPhase ?_ ?_
    · intro leading
      cases leading
    · have undecided := sound.loading loading
      refine ⟨?_, .inl undecided⟩
      rw [Channel.subscribe, sound.sent_of_outcome undecided]
      rfl
  next notLoaded =>
    obtain ⟨undecided, none⟩ := sound.unattempted (sound.notLoaded notLoaded)
    refine ⟨rfl, .inl rfl, ?_, ?_, ?_, fun _ => undecided, ?_, ?_, ?_, ?_⟩
    · rw [sound.notLoaded notLoaded]
    · intro unloaded
      cases unloaded
    · intro unattempted
      cases unattempted
    · intro loaded
      cases loaded
    · intro error failed
      change manager.outcome = _ at failed
      rw [undecided] at failed
      cases failed
    · -- No call has led before.
      have only : ∀ other found,
          (manager.setPhase call load .loadingInner).loads.find other = some found →
          found.phase.leads = true → other = call := by
        intro other found known leading
        rcases eq_or_find_of_insert known with same | old
        · exact same.1
        · rw [none other found old.2] at leading
          cases leading
      intro first second load₁ load₂ known₁ known₂ leads₁ leads₂
      rw [only first load₁ known₁ leads₁, only second load₂ known₂ leads₂]
    · intro other found known
      rcases eq_or_find_of_insert known with ⟨rfl, rfl⟩ | old
      · exact undecided
      · have before := sound.consistent other found old.2
        rw [sound.sent_of_outcome undecided] at before
        exact before
  next =>
    refine sound.setPhase ?_ trivial
    intro leading
    cases leading

theorem Sound.consistent_of_decided (sound : manager.Sound) {late : Bool}
    {res : Except Error Unit}
    (leader : manager.loads.find call = some ⟨late, .writing res⟩) {found : LoadCall}
    (known : manager.loads.find other = some found) (ne : other ≠ call) :
    Consistent (some res)
      (if manager.Waited then manager.sender.send (announce res) else manager.sender).sent
      found.phase := by
  have undecided : manager.outcome = none := sound.consistent call _ leader
  have before := sound.consistent other found known
  obtain ⟨late', phase⟩ := found
  cases phase with
  | locking | panicked => trivial
  | waiting =>
    rw [if_pos (waited_of_find known)]
    exact ⟨before.1, .inr (List.append_ne_nil_of_right_ne_nil _ (List.cons_ne_nil _ _))⟩
  | loadingInner | writing =>
    exact absurd (sound.leader other call _ _ known leader rfl rfl) ne
  | returned res' =>
    cases res' with
    | error => trivial
    | ok =>
      change manager.outcome = _ at before
      rw [undecided] at before
      cases before

theorem Sound.decided (sound : manager.Sound) {late : Bool} {res : Except Error Unit}
    {phase : LoadPhase} (leader : manager.loads.find call = some ⟨late, .writing res⟩)
    (loads : next.loads = manager.loads.insert call ⟨late, phase⟩)
    (attempts : next.attempts = manager.attempts) (outcome : next.outcome = some res)
    (sender : next.sender =
      if manager.Waited then manager.sender.send (announce res) else manager.sender)
    (ends : phase.leads = false) (consistent : Consistent (some res) next.sender.sent phase)
    (loaded : next.state = .loaded → res = .ok ())
    (failed : ∀ error, res = .error error → next.state = .unloaded)
    (settled : next.state ≠ .notLoaded ∧ next.state ≠ .loading) : next.Sound := by
  have undecided : manager.outcome = none := sound.consistent call _ leader
  have attempted : manager.attempts ≠ 0 := by
    intro unattempted
    have leading := (sound.unattempted unattempted).2 call _ leader
    cases leading
  -- The call was the only one that led.
  have none : ∀ other found, next.loads.find other = some found → found.phase.leads = false := by
    intro other found known
    rw [loads] at known
    rcases eq_or_find_of_insert known with ⟨rfl, rfl⟩ | old
    · exact ends
    · rw [Bool.eq_false_iff]
      intro leading
      exact old.1 (sound.leader other call _ _ old.2 leader leading rfl)
  refine ⟨?_, ?_, ?_, ?_, ?_, ?_, ?_, ?_, ?_, ?_⟩
  · rw [sender]
    split <;> exact sound.capacity
  · rw [sender]
    split
    next =>
      right
      refine ⟨res, outcome, ?_⟩
      rw [Channel.send, sound.sent_of_outcome undecided]
      rfl
    next => exact .inl (sound.sent_of_outcome undecided)
  · rw [attempts]
    exact sound.once
  · intro notLoaded
    exact absurd notLoaded settled.1
  · intro unattempted
    rw [attempts] at unattempted
    exact absurd unattempted attempted
  · intro loading
    exact absurd loading settled.2
  · intro done
    rw [outcome, loaded done]
  · intro error decided
    rw [outcome] at decided
    exact failed error (Option.some.inj decided)
  · intro first second load₁ load₂ known₁ _ leads₁
    rw [none first load₁ known₁] at leads₁
    cases leads₁
  · intro other found known
    rw [loads] at known
    rw [outcome]
    rcases eq_or_find_of_insert known with ⟨rfl, rfl⟩ | old
    · exact consistent
    · rw [sender]
      exact sound.consistent_of_decided leader old.2 old.1

theorem Sound.writeState (sound : manager.Sound) {late : Bool} {res : Except Error Unit}
    (leader : manager.loads.find call = some ⟨late, .writing res⟩) :
    (manager.writeState call ⟨late, .writing res⟩ res).Sound := by
  cases res with
  | ok =>
    refine sound.decided leader rfl rfl rfl rfl rfl rfl (fun _ => rfl) ?_ ⟨?_, ?_⟩
    · intro error failed
      cases failed
    · intro notLoaded
      cases notLoaded
    · intro loading
      cases loading
  | error =>
    refine sound.decided leader rfl rfl rfl rfl ?_ ?_ ?_ (fun _ _ => rfl) ⟨?_, ?_⟩
    · split <;> rfl
    · split <;> trivial
    · intro loaded
      cases loaded
    · intro notLoaded
      cases notLoaded
    · intro loading
      cases loading

/-- A waiting call gets what the attempt came to, and is never too late for it. -/
theorem Sound.recv (sound : manager.Sound) {late : Bool} {receiver : Receiver}
    (found : manager.loads.find call = some ⟨late, .waiting receiver⟩) :
    (manager.outcome = none ∧ manager.sender.recv receiver = (.pending, receiver)) ∨
      ∃ outcome, manager.outcome = some outcome ∧
        manager.sender.recv receiver = (.value (announce outcome), ⟨1⟩) := by
  obtain ⟨position⟩ := receiver
  obtain ⟨rfl, decided⟩ := sound.consistent call _ found
  rcases sound.sent with nothing | ⟨outcome, known, sent⟩
  · left
    refine ⟨decided.resolve_right fun some => some nothing, ?_⟩
    simp [Channel.recv, Channel.unseen, nothing]
  · right
    refine ⟨outcome, known, ?_⟩
    simp [Channel.recv, Channel.unseen, sent, sound.capacity]

theorem Sound.not_lags (sound : manager.Sound) {late : Bool} {receiver after : Receiver}
    {missed : Nat} (found : manager.loads.find call = some ⟨late, .waiting receiver⟩) :
    manager.sender.recv receiver ≠ (.lagged missed, after) := by
  intro lagged
  rcases sound.recv found with pending | ⟨outcome, _, received⟩
  · rw [pending.2] at lagged
    cases lagged
  · rw [received] at lagged
    cases lagged

theorem Sound.outcome_of_recv (sound : manager.Sound) {late : Bool} {receiver after : Receiver}
    {res : Except LoadError Unit}
    (found : manager.loads.find call = some ⟨late, .waiting receiver⟩)
    (received : manager.sender.recv receiver = (.value res, after)) :
    ∃ outcome, manager.outcome = some outcome ∧ res = announce outcome := by
  rcases sound.recv found with pending | ⟨outcome, known, same⟩
  · rw [pending.2] at received
    cases received
  · rw [same] at received
    cases received
    exact ⟨outcome, known, rfl⟩

theorem Sound.loadMoves (sound : manager.Sound) (moves : LoadMoves manager call next) :
    next.Sound := by
  cases moves with
  | begins =>
    refine @Sound.setPhase _ call ⟨manager.retired, .locking⟩ sound _ ?_ ?_
    · split
      all_goals
        intro leading
        cases leading
    · split
      next loaded => exact sound.loaded loaded
      next => trivial
  | locks => exact sound.lockState
  | loads found =>
    refine sound.setPhase (fun _ => ⟨rfl, found⟩) ?_
    exact sound.consistent call _ found
  | writes found => exact sound.writeState found
  | receives found received =>
    obtain ⟨outcome, known, rfl⟩ := sound.outcome_of_recv found received
    refine sound.setPhase ?_ ?_
    · intro leading
      cases leading
    · cases outcome with
      | ok => exact known
      | error => trivial
  | lags found lagged => exact absurd lagged (sound.not_lags found)

theorem Sound.step (manager next : Lifecycle) (label : Label) (sound : manager.Sound)
    (taken : manager.step label = some next) : next.Sound := by
  cases label with
  | load => exact sound.loadMoves (loadMoves_of_loadStep taken)
  | unload =>
    simp only [Lifecycle.step] at taken
    split at taken
    next =>
      cases taken
      refine ⟨sound.capacity, sound.sent, sound.once, ?_, sound.unattempted, ?_, ?_,
        fun _ _ => rfl, sound.leader, sound.consistent⟩
      · intro notLoaded
        cases notLoaded
      · intro loading
        cases loading
      · intro loaded
        cases loaded
    next => cases taken
  | request =>
    simp only [Lifecycle.step] at taken
    split at taken
    next => cases taken
    next =>
      cases taken
      exact ⟨sound.capacity, sound.sent, sound.once, sound.notLoaded, sound.unattempted,
        sound.loading, sound.loaded, sound.failed, sound.leader, sound.consistent⟩
  | respond =>
    simp only [Lifecycle.step] at taken
    split at taken
    next =>
      cases taken
      exact ⟨sound.capacity, sound.sent, sound.once, sound.notLoaded, sound.unattempted,
        sound.loading, sound.loaded, sound.failed, sound.leader, sound.consistent⟩
    next => cases taken

/-! ## The unloaded state is final -/

/-- No unload takes the lock of the state while `load_inner` runs. -/
def AwaitsLoad (manager : Lifecycle) : Label → Prop
  | .unload => manager.state ≠ .loading
  | _ => True

instance (manager : Lifecycle) (label : Label) : Decidable (manager.AwaitsLoad label) :=
  match label with
  | .unload => inferInstanceAs (Decidable (_ ≠ _))
  | .load .. | .request .. | .respond .. => isTrue trivial

structure Final (manager : Lifecycle) : Prop where
  sound : manager.Sound
  leading : ∀ call load, manager.loads.find call = some load → load.phase.leads = true →
    manager.state = .loading
  retired : manager.retired = true → manager.state = .unloaded
  late : ∀ call load, manager.loads.find call = some load → load.late = true →
    manager.retired = true ∧
      (load.phase = .locking ∨ load.phase = .returned (.error .rangeIsNotLoaded))
  serving : ∀ call request, manager.requests.find call = some request →
    request.phase = .serving → manager.state = .loaded
  lateRequest : ∀ call request, manager.requests.find call = some request →
    request.late = true → request.phase = .returned false

theorem Final.new : Final new := by
  refine ⟨.new, ?_, ?_, ?_, ?_, ?_⟩
  · intro call load found
    cases found
  · intro retired
    cases retired
  · intro call load found
    cases found
  · intro call req found
    cases found
  · intro call req found
    cases found

theorem Final.late_eq_false (final : manager.Final)
    (found : manager.loads.find call = some load) (begun : load.phase ≠ .locking)
    (unrefused : load.phase ≠ .returned (.error .rangeIsNotLoaded)) : load.late = false := by
  rw [Bool.eq_false_iff]
  intro late
  rcases (final.late call load found late).2 with locking | refused
  · exact begun locking
  · exact unrefused refused

theorem Final.setPhase (final : manager.Final) {phase : LoadPhase}
    (sound : (manager.setPhase call load phase).Sound)
    (leading : phase.leads = true → manager.state = .loading)
    (late : load.late = true → manager.retired = true ∧
      (phase = .locking ∨ phase = .returned (.error .rangeIsNotLoaded))) :
    (manager.setPhase call load phase).Final := by
  refine ⟨sound, ?_, final.retired, ?_, final.serving, final.lateRequest⟩
  · intro other found known
    rcases eq_or_find_of_insert known with ⟨rfl, rfl⟩ | old
    · exact leading
    · exact final.leading other found old.2
  · intro other found known
    rcases eq_or_find_of_insert known with ⟨rfl, rfl⟩ | old
    · exact late
    · exact final.late other found old.2

theorem Final.lockState (final : manager.Final) {late : Bool}
    (found : manager.loads.find call = some ⟨late, .locking⟩) :
    (manager.lockState call ⟨late, .locking⟩).Final := by
  have sound : (manager.lockState call ⟨late, .locking⟩).Sound := final.sound.lockState
  have unloaded : late = true → manager.state = .unloaded := fun delayed =>
    final.retired (final.late call _ found delayed).1
  cases current : manager.state with
  | loaded | loading =>
    simp only [Lifecycle.lockState, current] at sound ⊢
    refine final.setPhase sound ?_ ?_
    · intro leads
      cases leads
    · intro delayed
      rw [unloaded delayed] at current
      cases current
  | notLoaded =>
    simp only [Lifecycle.lockState, current] at sound ⊢
    -- The state is not `Unloaded`: no call is late, and no request is served.
    have unretired : manager.retired ≠ true := by
      intro retired
      rw [final.retired retired] at current
      cases current
    refine ⟨sound, fun _ _ _ _ => rfl, ?_, ?_, ?_, final.lateRequest⟩
    · intro retired
      exact absurd retired unretired
    · intro other load known delayed
      rcases eq_or_find_of_insert known with ⟨rfl, rfl⟩ | old
      · rw [unloaded delayed] at current
        cases current
      · exact absurd (final.late other load old.2 delayed).1 unretired
    · intro other req known serving
      rw [final.serving other req known serving] at current
      cases current
  | unloaded =>
    simp only [Lifecycle.lockState, current] at sound ⊢
    refine final.setPhase sound ?_ ?_
    · intro leads
      cases leads
    · intro delayed
      exact ⟨(final.late call _ found delayed).1, .inr rfl⟩

theorem Final.decided (final : manager.Final) {late : Bool} {res : Except Error Unit}
    {phase : LoadPhase} (sound : next.Sound)
    (leader : manager.loads.find call = some ⟨late, .writing res⟩)
    (loads : next.loads = manager.loads.insert call ⟨late, phase⟩) (ends : phase.leads = false)
    (requests : next.requests = manager.requests)
    (retired : next.retired = true → manager.retired = true ∨ next.state = .unloaded) :
    next.Final := by
  have loading : manager.state = .loading := final.leading call _ leader rfl
  have unretired : manager.retired ≠ true := by
    intro retired
    rw [final.retired retired] at loading
    cases loading
  refine ⟨sound, ?_, ?_, ?_, ?_, ?_⟩
  · intro other load known leads
    rw [loads] at known
    rcases eq_or_find_of_insert known with ⟨rfl, rfl⟩ | old
    · rw [ends] at leads
      cases leads
    · exact absurd (final.sound.leader other call _ _ old.2 leader leads rfl) old.1
  · intro done
    exact (retired done).resolve_left unretired
  · intro other load known delayed
    rw [loads] at known
    rcases eq_or_find_of_insert known with ⟨rfl, rfl⟩ | old
    · exact absurd (final.late _ _ leader delayed).1 unretired
    · exact absurd (final.late other load old.2 delayed).1 unretired
  · intro other req known serving
    rw [requests] at known
    rw [final.serving other req known serving] at loading
    cases loading
  · rw [requests]
    exact final.lateRequest

theorem Final.loadMoves (final : manager.Final) (moves : LoadMoves manager call next) :
    next.Final := by
  have sound := final.sound.loadMoves moves
  cases moves with
  | begins =>
    refine @Final.setPhase _ call ⟨manager.retired, .locking⟩ final _ sound ?_ ?_
    · split
      all_goals
        intro leads
        cases leads
    · intro retired
      rw [if_neg (by rw [final.retired retired]; simp)]
      exact ⟨retired, .inl rfl⟩
  | locks found => exact final.lockState found
  | loads found =>
    refine final.setPhase sound (fun _ => final.leading call _ found rfl) ?_
    intro delayed
    have early := final.late_eq_false found (by simp) (by simp)
    rw [early] at delayed
    cases delayed
  | @writes late res found unlocked =>
    cases res with
    | ok => exact final.decided sound found rfl rfl rfl .inl
    | error =>
      refine final.decided sound found rfl ?_ rfl fun _ => .inr rfl
      split <;> rfl
  | receives found =>
    refine final.setPhase sound ?_ ?_
    · intro leads
      cases leads
    · intro delayed
      have early := final.late_eq_false found (by simp) (by simp)
      rw [early] at delayed
      cases delayed
  | lags found lagged => exact absurd lagged (final.sound.not_lags found)

theorem Final.step (manager next : Lifecycle) (label : Label) (final : manager.Final)
    (awaits : manager.AwaitsLoad label) (taken : manager.step label = some next) :
    next.Final := by
  have sound := final.sound.step _ _ _ taken
  cases label with
  | load => exact final.loadMoves (loadMoves_of_loadStep taken)
  | unload =>
    simp only [Lifecycle.step] at taken
    split at taken
    next unlocked =>
      cases taken
      refine ⟨sound, ?_, fun _ => rfl, ?_, ?_, final.lateRequest⟩
      · intro call load found leads
        exact absurd (final.leading call load found leads) awaits
      · intro call load found late
        exact ⟨rfl, (final.late call load found late).2⟩
      · intro call req found serving
        exact absurd serving (unlocked call (mem_keys.mpr ⟨_, found⟩) req found)
    next => cases taken
  | request =>
    simp only [Lifecycle.step] at taken
    split at taken
    next => cases taken
    next =>
      cases taken
      refine ⟨sound, final.leading, final.retired, final.late, ?_, ?_⟩
      · intro other req known serving
        rcases eq_or_find_of_insert known with ⟨rfl, rfl⟩ | old
        · split at serving
          next loaded => exact loaded
          next => cases serving
        · exact final.serving other req old.2 serving
      · intro other req known late
        rcases eq_or_find_of_insert known with ⟨rfl, rfl⟩ | old
        · rw [if_neg (by rw [final.retired late]; simp)]
        · exact final.lateRequest other req old.2 late
  | respond =>
    simp only [Lifecycle.step] at taken
    split at taken
    next found =>
      cases taken
      refine ⟨sound, final.leading, final.retired, final.late, ?_, ?_⟩
      · intro other req known serving
        rcases eq_or_find_of_insert known with ⟨rfl, rfl⟩ | old
        · cases serving
        · exact final.serving other req old.2 serving
      · intro other req known delayed
        rcases eq_or_find_of_insert known with ⟨rfl, rfl⟩ | old
        · cases final.lateRequest _ _ found delayed
        · exact final.lateRequest other req old.2 delayed
    next => cases taken

def Refused (manager : Lifecycle) (call : Nat) (load : LoadCall) : Prop :=
  load.phase = .returned (.error .rangeIsNotLoaded) ∨
    ∃ next, manager.step (.load call .lockState) = some next ∧
      next.loads.find call = some { load with phase := .returned (.error .rangeIsNotLoaded) }

structure StaysUnloaded (manager : Lifecycle) : Prop where
  state : manager.retired = true → manager.state = .unloaded
  loads : ∀ call load, manager.loads.find call = some load → load.late = true →
    manager.Refused call load
  idle : ∀ call request, manager.requests.find call = some request → manager.retired = true →
    request.phase ≠ .serving
  requests : ∀ call request, manager.requests.find call = some request → request.late = true →
    request.phase = .returned false
  once : manager.attempts ≤ 1

theorem Final.idle (final : manager.Final) {req : RequestCall}
    (found : manager.requests.find call = some req) (retired : manager.retired = true) :
    req.phase ≠ .serving := by
  intro serving
  have loaded := final.serving call req found serving
  rw [final.retired retired] at loaded
  cases loaded

theorem Final.refused (final : manager.Final)
    (found : manager.loads.find call = some load) (late : load.late = true) :
    manager.Refused call load := by
  obtain ⟨retired, phase⟩ := final.late call load found late
  cases phase with
  | inr refused => exact .inl refused
  | inl locking =>
    right
    obtain ⟨late', phase'⟩ := load
    subst locking
    have unlocked : manager.Unlocked := fun other _ req known => final.idle known retired
    refine ⟨manager.setPhase call ⟨late', .locking⟩ (.returned (.error .rangeIsNotLoaded)),
      ?_, find_insert_self _ _ _⟩
    simp only [Lifecycle.step, loadStep, found, if_pos unlocked, Lifecycle.lockState,
      final.retired retired]

/-- A range manager stays unloaded unless it is unloaded while it loads. -/
theorem stays_unloaded (reached : Reachable Lifecycle.step AwaitsLoad (· = new) manager) :
    manager.StaysUnloaded := by
  have final : manager.Final := by
    refine reached.invariant ?_ Final.step
    rintro _ rfl
    exact .new
  exact ⟨final.retired, fun _ _ => final.refused, fun _ _ => final.idle, final.lateRequest,
    final.sound.once⟩

/-- The range is unloaded after a request, then there are another load and another
request. -/
theorem stays_unloaded_served : ∃ manager : Lifecycle,
    Reachable Lifecycle.step AwaitsLoad (· = new) manager ∧
    manager.retired = true ∧ (∃ load, manager.loads.find 2 = some load ∧ load.late = true) ∧
      manager.requests.find 3 = some ⟨true, .returned false⟩ ∧ manager.StaysUnloaded := by
  obtain ⟨manager, reached, passed⟩ := @exists_reachable_of_run _ _ Lifecycle.step AwaitsLoad
    (· = new) _ new rfl
    [.load 0 .readState, .load 0 .lockState, .load 0 (.loadInner (.ok ())), .load 0 .writeState,
      .request 1, .respond 1, .unload, .load 2 .readState, .request 3, .load 2 .lockState]
    (fun manager => manager.retired && (manager.loads.find 2).any LoadCall.late &&
      decide (manager.requests.find 3 = some ⟨true, .returned false⟩)) (by decide +kernel)
  simp only [Bool.and_eq_true, decide_eq_true_eq, Option.any_eq_true] at passed
  exact ⟨manager, reached, passed.1.1, passed.1.2, passed.2, stays_unloaded reached⟩

/-- `load_inner` returns after the unload; the range is loaded again, for a load and for a
request that come later. -/
theorem unload_overwritten : ∃ manager : Lifecycle,
    Reachable Lifecycle.step (fun _ _ => True) (· = new) manager ∧ manager.retired = true ∧
      manager.state = .loaded ∧ manager.requests.find 2 = some ⟨true, .serving⟩ ∧
      ¬ manager.StaysUnloaded := by
  obtain ⟨manager, reached, passed⟩ := @exists_reachable_of_run _ _ Lifecycle.step
    (fun _ _ => True) (· = new) _ new rfl
    [.load 0 .readState, .load 0 .lockState, .unload, .load 0 (.loadInner (.ok ())),
      .load 0 .writeState, .load 1 .readState, .request 2]
    (fun manager => manager.retired && decide (manager.state = .loaded) &&
      decide (manager.requests.find 2 = some ⟨true, .serving⟩)) (by decide +kernel)
  simp only [Bool.and_eq_true, decide_eq_true_eq] at passed
  obtain ⟨⟨retired, loaded⟩, serving⟩ := passed
  refine ⟨manager, reached, retired, loaded, serving, ?_⟩
  intro stays
  have unloaded := stays.state retired
  rw [loaded] at unloaded
  cases unloaded

end Lifecycle

end Sangria.RangeServer
