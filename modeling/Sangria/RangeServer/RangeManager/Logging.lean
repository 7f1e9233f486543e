import Sangria.Lib.TransitionSystem
import Sangria.RangeServer.RangeManager.Moves
import Sangria.RangeServer.Wal.Acknowledgement

/-!
# The range manager over its log

A handler that appends gets a receiver and later waits for what its receiver
yields.  `Node` joins a range manager with the instances of its log: the calls of
the handlers become steps of the instance of this server.
-/

namespace Sangria.RangeServer

open FiniteMap
open TransitionSystem

inductive LogRecord where
  | prepare (transaction : Uuid) (request : PrepareRequest)
  | abort (transaction : Uuid)
  | commit (transactions : List Uuid) (epoch : Nat)

def Handler.content : Handler → Option (Wal.Entry × LogRecord)
  | .get .. => none
  | .prepare transaction request _ => some (.prepare, .prepare transaction request)
  | .abort transaction _ => some (.abort, .abort transaction)
  | .commit transactions epoch _ => some (.commit, .commit transactions epoch)

/-- What the next section of a handler does with the log. -/
inductive WalCall where
  | nothing
  | append (content : Wal.Entry × LogRecord)
  | receive

def Handler.walCall : Handler → WalCall
  | .prepare transaction request (.appending ..) =>
    .append (.prepare, .prepare transaction request)
  | .abort transaction .appending => .append (.abort, .abort transaction)
  | .commit transactions epoch .appending => .append (.commit, .commit transactions epoch)
  | .prepare _ _ (.flushing ..) | .abort _ .flushing | .commit _ _ .flushing => .receive
  | _ => .nothing

/-- The handler that a label runs, and whether its call fails. -/
def Label.running : Label → Option (Nat × Bool)
  | .run id | .runOn id _ => some (id, false)
  | .fail id _ _ => some (id, true)
  | _ => none

/-- `receivers` has the channel of each handler that has appended. -/
structure Node where
  range : RangeManager
  shared : Wal.SharedLog LogRecord
  receivers : HashMap Nat Nat

inductive NodeLabel where
  | range (label : Label)
  | wal (owner : Nat) (label : Wal.Label LogRecord)

namespace Node

variable (owner : Nat)

def answer (node : Node) (id : Nat) : Option (Except Wal.Error Unit) :=
  (node.receivers.find id).bind fun sender =>
    (node.shared.wals.find owner).bind fun wal => wal.completions.find sender

/-- A section of a handler; `append_entry` does not fail, and what a receiver
yields is unwrapped. -/
def stepHandler (node : Node) (range : RangeManager) (id : Nat) (failing : Bool) :
    WalCall → Option Node
  | .nothing => some { node with range := range }
  | .append content =>
    if failing then none
    else
      (node.shared.wals.find owner).bind fun wal =>
        (node.shared.step (owner, .append content.1 content.2)).map fun shared =>
          ⟨range, shared, node.receivers.insert id wal.appended.length⟩
  | .receive =>
    match node.answer owner id with
    | some (.ok ()) => if failing then none else some { node with range := range }
    | some (.error _) => if failing then some { node with range := range } else none
    | none => none

/-- The entries of the instance `owner` are appended by the handlers only. -/
def step (config : Configuration) (owner : Nat) (node : Node) : NodeLabel → Option Node
  | .range label =>
    (node.range.step config label).bind fun range =>
      match label.running with
      | none => some { node with range := range }
      | some (id, failing) =>
        (node.range.handlers.find id).bind fun handler =>
          node.stepHandler owner range id failing handler.walCall
  | .wal other label =>
    match label with
    | .append entryType data =>
      if other = owner then none
      else (node.shared.step (other, .append entryType data)).map fun shared =>
        { node with shared := shared }
    | label => (node.shared.step (other, label)).map fun shared => { node with shared := shared }

def Initial (node : Node) : Prop :=
  (∃ storage, node.range = .loaded storage) ∧ node.shared.Initial ∧ node.receivers = ∅

/-- The sections and statements of the log do not make a flush fail. -/
def FlushesSucceed (node : Node) : NodeLabel → Prop
  | .range _ => True
  | .wal other label => node.shared.FlushesSucceed (other, label)

instance (node : Node) (label : NodeLabel) : Decidable (node.FlushesSucceed label) := by
  unfold FlushesSucceed
  split <;> infer_instance

/-- The record is in the log: it was written by a flush that returned `Ok(())`. -/
def Logs (node : Node) (content : Wal.Entry × LogRecord) : Prop :=
  ∃ wal entry, node.shared.wals.find owner = some wal ∧ entry.content = content ∧
    Wal.Written owner node.shared.log wal entry

/-- What is promised about the log: callers are told what became of their
entries, and handlers that report success have logged their record. -/
structure Honest (node : Node) : Prop where
  acknowledged : ∀ {other wal}, node.shared.wals.find other = some wal →
    Wal.Acknowledged other node.shared.log wal
  prepared : ∀ {id transaction request result},
    node.range.handlers.find id = some (.prepare transaction request (.returned (.ok result))) →
    request.hasWrites = true → node.Logs owner (.prepare, .prepare transaction request)
  committed : ∀ {id transactions epoch},
    node.range.handlers.find id = some (.commit transactions epoch (.returned (.ok ()))) →
    node.Logs owner (.commit, .commit transactions epoch)

end Node

/-! ## The phases of a handler -/

/-- Whether a handler has appended its record, and was told that it is logged. -/
inductive Phase where
  | before
  | waiting
  | past
  deriving DecidableEq

def PrepareStage.phase (hasWrites : Bool) : PrepareStage → Phase
  | .softReleasing _ | .flushing .. => .waiting
  | .returned (.ok _) => if hasWrites then .past else .before
  | _ => .before

def CommitStage.phase : CommitStage → Phase
  | .appending | .returned (.error _) => .before
  | .flushing => .waiting
  | _ => .past

def Handler.phase : Handler → Phase
  | .get .. => .before
  | .prepare _ request stage => stage.phase request.hasWrites
  | .abort _ .flushing => .waiting
  | .abort .. => .before
  | .commit _ _ stage => stage.phase

/-- A participant releases the lock in `prepare` when it only reads. -/
def Handler.Consistent : Handler → Prop
  | .prepare _ request .releasing => request.hasWrites = false
  | _ => True

def WalCall.leads (call : WalCall) (failing : Bool) (phase phase' : Phase) : Prop :=
  match call with
  | .nothing => phase' = phase ∨ phase' = .before
  | .append _ => failing = false → phase' = .waiting
  | .receive => phase' = .before ∨ failing = false ∧ phase' = .past

theorem WalCall.leads_before (call : WalCall) (phase : Phase) : call.leads true phase .before := by
  cases call with
  | nothing => exact .inr rfl
  | append => exact fun success => by cases success
  | receive => exact .inl rfl

inductive HandlersStep (handlers : HashMap Nat Handler) (label : Label)
    (handlers' : HashMap Nat Handler) : Prop where
  | arrived {id : Nat} {handler : Handler} (idle : label.running = none)
      (after : handlers' = handlers.insert id handler) (consistent : handler.Consistent)
      (phase : handler.phase = .before)
  | ran {id : Nat} {failing : Bool} {handler handler' : Handler}
      (running : label.running = some (id, failing)) (found : handlers.find id = some handler)
      (after : handlers' = handlers.insert id handler') (consistent : handler'.Consistent)
      (same : handler'.content = handler.content)
      (leads : handler.walCall.leads failing handler.phase handler'.phase)
  | left {id : Nat} (idle : label.running = none) (after : handlers' = handlers.erase id)

namespace RangeManager

variable {config : Configuration} {range next : RangeManager} {label : Label}

theorem Quiet.handlersStep {id : Nat} {handler handler' : Handler}
    (found : range.handlers.find id = some handler)
    (quiet : Quiet config range id label handler handler') :
    HandlersStep range.handlers label (range.handlers.insert id handler') := by
  cases quiet with
  | missTable | missRecord | missBuffer =>
    exact .ran rfl found rfl trivial rfl (.inl rfl)
  | @verified tx req =>
    cases writes : req.hasWrites with
    | true => exact .ran rfl found rfl trivial rfl (.inl rfl)
    | false => exact .ran rfl found rfl writes rfl (.inl rfl)
  | lockLost | decided | abortVerified | abortIdle | abortFlushed | holding | notHolding =>
    exact .ran rfl found rfl trivial rfl (.inl rfl)
  | @chosen _ _ _ _ _ early =>
    cases early with
    | true | false => exact .ran rfl found rfl trivial rfl fun _ => rfl
  | @flushed tx req deps early =>
    refine .ran rfl found rfl trivial rfl ?_
    change (if req.hasWrites then Phase.past else .before) = .before ∨ _
    split
    next writes => exact .inr ⟨rfl, by simp [Handler.phase, PrepareStage.phase, writes]⟩
    next => exact .inl rfl
  | abortAppended | appended => exact .ran rfl found rfl trivial rfl fun _ => rfl
  | logged => exact .ran rfl found rfl trivial rfl (.inr ⟨rfl, rfl⟩)
  | @collected _ _ records =>
    by_cases empty : (allChanges records).keys = ∅
    · rw [if_pos empty]
      exact .ran rfl found rfl trivial rfl (.inl rfl)
    · rw [if_neg empty]
      exact .ran rfl found rfl trivial rfl (.inl rfl)
  | recordMissing => exact .ran rfl found rfl trivial rfl (.inr rfl)

theorem Fails.handlersStep {id : Nat} {error : Error} {effective : Bool}
    {handler handler' : Handler} (found : range.handlers.find id = some handler)
    (fails : Fails handler handler') :
    HandlersStep range.handlers (.fail id error effective)
      (range.handlers.insert id handler') := by
  cases fails with
  | get | append | flush | abort | commit =>
    exact .ran rfl found rfl trivial rfl (WalCall.leads_before _ _)

theorem arrivePrepare_spec (config : Configuration) (tx : Uuid)
    (req : PrepareRequest) :
    (Handler.prepare tx req (arrivePrepare config req)).Consistent ∧
      (Handler.prepare tx req (arrivePrepare config req)).phase = .before := by
  unfold arrivePrepare
  split
  next =>
    split
    next => split <;> exact ⟨trivial, rfl⟩
    next => exact ⟨trivial, rfl⟩
  next reads =>
    split
    next => exact ⟨trivial, rfl⟩
    next =>
      refine ⟨trivial, ?_⟩
      change (if req.hasWrites then Phase.past else .before) = .before
      rw [if_neg reads]

theorem Moves.handlersStep
    (consistent : ∀ {id handler}, range.handlers.find id = some handler → handler.Consistent)
    (moves : Moves config range label next) :
    HandlersStep range.handlers label next.handlers := by
  cases moves with
  | @arrivedGet id tx key unused =>
    split <;> exact .arrived rfl rfl trivial rfl
  | arrivedPrepare =>
    obtain ⟨consistent, phase⟩ := arrivePrepare_spec config _ _
    exact .arrived rfl rfl consistent phase
  | arrivedAbort | arrivedCommit => exact .arrived rfl rfl trivial rfl
  | quiet found quiet => exact quiet.handlersStep found
  | failed found fails => exact fails.handlersStep found
  | lockedGet found | lockedPrepare found | wokenPrepare found
  | updatedBuffer found | cleared found | releasedCommit found | cleaned found =>
    exact .ran rfl found rfl trivial rfl (.inl rfl)
  | wokenGet found =>
    split <;> exact .ran rfl found rfl trivial rfl (.inl rfl)
  | read found reads =>
    cases reads with
    | record | buffer | storage => exact .ran rfl found rfl trivial rfl (.inl rfl)
  | @releasedPrepare id tx req found =>
    have reads : req.hasWrites = false := consistent found
    refine .ran rfl found rfl trivial rfl (.inr ?_)
    change (if req.hasWrites then Phase.past else .before) = .before
    rw [reads]
    rfl
  | saved found =>
    unfold save
    simp only
    split <;> exact .ran rfl found rfl trivial rfl (.inl rfl)
  | softReleased found | releasedAbort found | stored found =>
    exact .ran rfl found rfl trivial rfl (.inl rfl)
  | deleteRefused found | storeTimedOut found => exact .ran rfl found rfl trivial rfl (.inr rfl)
  | delivered => exact .left rfl rfl

end RangeManager

/-! ## The invariant of a node -/

namespace Node

variable {config : Configuration} {owner : Nat} {node next : Node}
variable {id : Nat} {shared' : Wal.SharedLog LogRecord} {handler handler' : Handler}
  {label : Nat × Wal.Label LogRecord} {content : Wal.Entry × LogRecord}
  {wal : Wal.CassandraWal LogRecord} {range : RangeManager}

/-- The receiver of a handler belongs to an entry with its record. -/
def Receives (owner : Nat) (node : Node) (id : Nat) (content : Option (Wal.Entry × LogRecord)) :
    Prop :=
  ∃ sender wal entry, node.receivers.find id = some sender ∧
    node.shared.wals.find owner = some wal ∧ wal.appended[sender]? = some entry ∧
    content = some entry.content

structure Tracked (owner : Nat) (node : Node) : Prop where
  answered : node.shared.AllAnswered
  consistent : ∀ {id handler}, node.range.handlers.find id = some handler → handler.Consistent
  receives : ∀ {id handler}, node.range.handlers.find id = some handler →
    handler.phase ≠ .before → node.Receives owner id handler.content
  told : ∀ {id handler}, node.range.handlers.find id = some handler →
    handler.phase = .past → node.answer owner id = some (.ok ())

theorem Tracked.logs
    (tracked : Tracked owner node) (found : node.range.handlers.find id = some handler)
    (past : handler.phase = .past) (same : handler.content = some content) :
    node.Logs owner content := by
  have notBefore : handler.phase ≠ .before := by
    rw [past]
    decide
  obtain ⟨sender, wal, entry, receiver, present, appended, equal⟩ :=
    tracked.receives found notBefore
  have told := tracked.told found past
  rw [answer, receiver, Option.bind_some, present, Option.bind_some] at told
  obtain ⟨entry', appended', written⟩ := (tracked.answered _ _ present).acknowledged.written told
  cases appended.symm.trans appended'
  exact ⟨wal, entry, present, Option.some.inj (equal.symm.trans same), written⟩

theorem Tracked.honest (tracked : Tracked owner node) : node.Honest owner where
  acknowledged := fun present => (tracked.answered _ _ present).acknowledged
  prepared := by
    intro id tx req res found writes
    apply tracked.logs found _ rfl
    change (if req.hasWrites then Phase.past else .before) = .past
    rw [if_pos writes]
  committed := fun found => tracked.logs found rfl rfl

theorem Tracked.start (initial : node.Initial) : Tracked owner node := by
  obtain ⟨⟨storage, loaded⟩, shared, _⟩ := initial
  have none : ∀ {id handler}, node.range.handlers.find id ≠ some handler := by
    intro id handler found
    rw [loaded, RangeManager.loaded, find_empty] at found
    cases found
  exact ⟨Wal.SharedLog.allAnswered_of_initial shared, fun found => absurd found none,
    fun found => absurd found none, fun found => absurd found none⟩

theorem wal_kept {shared : Wal.SharedLog LogRecord} (taken : shared.step label = some shared')
    (present : shared.wals.find owner = some wal) :
    ∃ wal', shared'.wals.find owner = some wal' ∧ wal.appended <+: wal'.appended ∧
      ∀ sender, wal.completions.find sender = some (.ok ()) →
        wal'.completions.find sender = some (.ok ()) := by
  obtain ⟨other, label⟩ := label
  obtain ⟨before, after, found, moves, wals⟩ := Wal.SharedLog.moves_of_step taken
  rw [wals, find_insert]
  split
  next same =>
    cases same
    cases present.symm.trans found
    exact ⟨after, rfl, moves.kept⟩
  next => exact ⟨wal, present, List.prefix_rfl, fun _ sent => sent⟩

theorem Receives.stepWal {content : Option (Wal.Entry × LogRecord)}
    (receives : node.Receives owner id content)
    (taken : node.shared.step label = some shared') (shared : next.shared = shared')
    (receivers : next.receivers.find id = node.receivers.find id) :
    next.Receives owner id content := by
  obtain ⟨sender, wal, entry, receiver, present, appended, same⟩ := receives
  obtain ⟨wal', present', longer, _⟩ := wal_kept taken present
  obtain ⟨more, longer⟩ := longer
  refine ⟨sender, wal', entry, receivers.trans receiver, shared ▸ present', ?_, same⟩
  rw [← longer, List.getElem?_append_left (List.getElem?_eq_some_iff.mp appended).1]
  exact appended

theorem answer_stepWal (told : node.answer owner id = some (.ok ()))
    (taken : node.shared.step label = some shared') (shared : next.shared = shared')
    (receivers : next.receivers.find id = node.receivers.find id) :
    next.answer owner id = some (.ok ()) := by
  obtain ⟨sender, receiver, answered⟩ := Option.bind_eq_some_iff.mp told
  obtain ⟨wal, present, sent⟩ := Option.bind_eq_some_iff.mp answered
  obtain ⟨wal', present', _, kept⟩ := wal_kept taken present
  rw [answer, receivers, receiver, Option.bind_some, shared, present', Option.bind_some]
  exact kept sender sent

theorem Tracked.stepWal (tracked : Tracked owner node) (succeeds : node.shared.FlushesSucceed label)
    (taken : node.shared.step label = some shared') :
    Tracked owner { node with shared := shared' } :=
  ⟨tracked.answered.step succeeds taken, tracked.consistent,
    fun found notBefore => (tracked.receives found notBefore).stepWal taken rfl rfl,
    fun found past => answer_stepWal (tracked.told found past) taken rfl rfl⟩

theorem receives_append (present : node.shared.wals.find owner = some wal)
    (taken : node.shared.step (owner, .append content.1 content.2) = some shared')
    (shared : next.shared = shared')
    (receivers : next.receivers.find id = some wal.appended.length) :
    next.Receives owner id (some content) := by
  rw [Wal.SharedLog.step, present, Option.bind_some] at taken
  cases taken
  refine ⟨wal.appended.length, wal.appendEntry content.1 content.2, _, receivers,
    shared ▸ find_insert_self .., List.getElem?_concat_length, rfl⟩

theorem Tracked.others {receivers : HashMap Nat Nat}
    (tracked : Tracked owner node) (after : range.handlers = node.range.handlers.insert id handler')
    (kept : ∀ other, other ≠ id → receivers.find other = node.receivers.find other)
    (consistent : handler'.Consistent)
    (receives : handler'.phase ≠ .before →
      Receives owner ⟨range, node.shared, receivers⟩ id handler'.content)
    (told : handler'.phase = .past →
      answer owner ⟨range, node.shared, receivers⟩ id = some (.ok ())) :
    Tracked owner ⟨range, node.shared, receivers⟩ := by
  have elsewhere : ∀ {other handler}, range.handlers.find other = some handler →
      other = id ∧ handler = handler' ∨
        other ≠ id ∧ node.range.handlers.find other = some handler := by
    intro other handler found
    rw [after, find_insert] at found
    split at found
    next same =>
      cases found
      exact .inl ⟨same, rfl⟩
    next ne => exact .inr ⟨ne, found⟩
  refine ⟨tracked.answered, ?_, ?_, ?_⟩
  · intro other handler found
    rcases elsewhere found with here | there
    · exact here.2 ▸ consistent
    · exact tracked.consistent there.2
  · intro other handler found notBefore
    rcases elsewhere found with ⟨rfl, rfl⟩ | there
    · exact receives notBefore
    · obtain ⟨sender, wal, entry, receiver, rest⟩ := tracked.receives there.2 notBefore
      exact ⟨sender, wal, entry, (kept other there.1).trans receiver, rest⟩
  · intro other handler found past
    rcases elsewhere found with ⟨rfl, rfl⟩ | there
    · exact told past
    · have told := tracked.told there.2 past
      rw [answer] at told ⊢
      rw [kept other there.1]
      exact told

theorem flushesSucceed_append (shared : Wal.SharedLog LogRecord) (content : Wal.Entry × LogRecord) :
    shared.FlushesSucceed (owner, .append content.1 content.2) := by
  unfold Wal.SharedLog.FlushesSucceed
  cases shared.wals.find owner with
  | none | some => rfl

theorem Tracked.stepHandler {failing : Bool} (tracked : Tracked owner node)
    (found : node.range.handlers.find id = some handler)
    (after : range.handlers = node.range.handlers.insert id handler')
    (consistent : handler'.Consistent) (same : handler'.content = handler.content)
    (leads : handler.walCall.leads failing handler.phase handler'.phase)
    (calls : ∀ content, handler.walCall = .append content → handler.content = some content)
    (waits : handler.walCall = .receive → handler.phase = .waiting)
    (taken : node.stepHandler owner range id failing handler.walCall = some next) :
    Tracked owner next := by
  cases call : handler.walCall with
  | nothing =>
    rw [call] at leads taken
    cases taken
    refine tracked.others after (fun _ _ => rfl) consistent ?_ ?_
    · intro notBefore
      rcases leads with kept | before
      · exact same ▸ tracked.receives found (kept ▸ notBefore)
      · exact absurd before notBefore
    · intro past
      rcases leads with kept | before
      · exact tracked.told found (kept ▸ past)
      · cases past.symm.trans before
  | append content =>
    rw [call] at leads taken
    simp only [Node.stepHandler] at taken
    split at taken
    next => cases taken
    next succeeds =>
      obtain ⟨wal, present, ran⟩ := Option.bind_eq_some_iff.mp taken
      obtain ⟨shared', stepped, rfl⟩ := Option.map_eq_some_iff.mp ran
      have waiting := leads (Bool.eq_false_iff.mpr succeeds)
      have logged := tracked.stepWal (flushesSucceed_append node.shared content) stepped
      refine logged.others after ?_ consistent ?_ ?_
      · intro other ne
        rw [find_insert, if_neg ne]
      · intro _
        rw [same, calls content call]
        exact receives_append present stepped rfl (find_insert_self ..)
      · intro past
        cases past.symm.trans waiting
  | receive =>
    rw [call] at leads taken
    have notBefore : handler.phase ≠ .before := by
      rw [waits call]
      decide
    have receives := tracked.receives found notBefore
    rw [← same] at receives
    simp only [Node.stepHandler] at taken
    split at taken
    next told =>
      split at taken
      next => cases taken
      next =>
        cases taken
        exact tracked.others after (fun _ _ => rfl) consistent (fun _ => receives)
          fun _ => told
    next =>
      split at taken
      next failed =>
        cases taken
        have before : handler'.phase = .before := by
          rcases leads with before | past
          · exact before
          · rw [failed] at past
            cases past.1
        refine tracked.others after (fun _ _ => rfl) consistent (fun _ => receives) ?_
        intro past
        cases past.symm.trans before
      next => cases taken
    next => cases taken

theorem content_of_append
    (call : handler.walCall = .append content) : handler.content = some content := by
  unfold Handler.walCall at call
  split at call <;> cases call <;> rfl

theorem waiting_of_receive (call : handler.walCall = .receive) : handler.phase = .waiting := by
  unfold Handler.walCall at call
  split at call <;> cases call <;> rfl

theorem Tracked.stepRange {label : Label} (tracked : Tracked owner node)
    (taken : node.step config owner (.range label) = some next) : Tracked owner next := by
  obtain ⟨range, stepped, ran⟩ := Option.bind_eq_some_iff.mp taken
  have moves := RangeManager.moves_of_step stepped
  cases moves.handlersStep tracked.consistent with
  | arrived idle after consistent phase =>
    simp only [idle] at ran
    cases ran
    refine tracked.others after (fun _ _ => rfl) consistent ?_ ?_
    · exact fun notBefore => absurd phase notBefore
    · intro past
      cases past.symm.trans phase
  | ran running found after consistent same leads =>
    simp only [running, found, Option.bind_some] at ran
    exact tracked.stepHandler found after consistent same leads
      (fun _ => content_of_append) waiting_of_receive ran
  | @left id idle after =>
    simp only [idle] at ran
    cases ran
    have kept : ∀ {other handler}, range.handlers.find other = some handler →
        node.range.handlers.find other = some handler := by
      intro other handler found
      rw [after, find_erase] at found
      split at found
      next => cases found
      next => exact found
    exact ⟨tracked.answered, fun found => tracked.consistent (kept found),
      fun found => tracked.receives (kept found), fun found => tracked.told (kept found)⟩

theorem Tracked.step {label : NodeLabel} (tracked : Tracked owner node)
    (succeeds : node.FlushesSucceed label) (taken : node.step config owner label = some next) :
    Tracked owner next := by
  cases label with
  | range => exact tracked.stepRange taken
  | wal =>
    simp only [Node.step] at taken
    split at taken
    next =>
      split at taken
      next => cases taken
      next =>
        obtain ⟨shared', stepped, rfl⟩ := Option.map_eq_some_iff.mp taken
        exact tracked.stepWal succeeds stepped
    next =>
      obtain ⟨shared', stepped, rfl⟩ := Option.map_eq_some_iff.mp taken
      exact tracked.stepWal succeeds stepped

/-- Success is reported for logged records only, in every run whose flushes succeed. -/
theorem honest_of_reachable (config : Configuration) (owner : Nat) {node : Node}
    (reached : Reachable (step config owner) FlushesSucceed Initial node) :
    node.Honest owner := by
  have tracked : Tracked owner node := by
    apply reached.invariant
    · exact fun _ => Tracked.start
    · exact fun _ _ _ tracked succeeds taken => tracked.step succeeds taken
  exact tracked.honest

/-- A range that releases early, over one instance that is not yet synced. -/
def unsynced : Node :=
  ⟨.loaded fun _ => none, ⟨⟨none, ∅, []⟩, (∅ : HashMap Nat _).insert 0 .new⟩, ∅⟩

theorem initial_unsynced : unsynced.Initial := by
  refine ⟨⟨_, rfl⟩, ⟨rfl, ?_⟩, rfl⟩
  intro owner wal found
  simp only [unsynced, find_insert, find_empty] at found
  split at found
  next =>
    cases found
    rfl
  next => cases found

def pipelined : Configuration := ⟨.pipelined, .openClients, .all, 0⟩

def prepareOne : List NodeLabel :=
  [.range (.prepare 0 1 ⟨false, [([1], [2])], [], some 0, 0⟩), .range (.run 0), .range (.run 0),
    .range (.runOn 0 [1]), .range (.run 0), .range (.runOn 0 [1]), .range (.run 0)]

def preparedOne (node : Node) : Bool :=
  match node.range.handlers.find 0 with
  | some (.prepare _ request (.returned (.ok _))) => request.hasWrites
  | _ => false

theorem exists_of_preparedOne {node : Node} (prepared : node.preparedOne = true) :
    ∃ tx req res, req.hasWrites = true ∧
      node.range.handlers.find 0 =
        some (.prepare tx req (.returned (.ok res))) := by
  unfold preparedOne at prepared
  split at prepared
  next found => exact ⟨_, _, _, prepared, found⟩
  next => cases prepared

/-- The flush is refused, its caller is told that the record is logged, and
`prepare` reports success: no statement was executed. -/
theorem prepared_not_logged :
    ∃ node : Node, Reachable (step pipelined 0) (fun _ _ => True) Initial node ∧
      (∃ transaction request result, request.hasWrites = true ∧
        node.range.handlers.find 0 =
          some (.prepare transaction request (.returned (.ok result)))) ∧
      node.shared.log.history = [] ∧ ¬ node.Honest 0 := by
  obtain ⟨node, reached, passed⟩ := @exists_reachable_of_run _ _ (step pipelined 0)
    (fun _ _ => True) _ _ _ initial_unsynced
    (prepareOne ++ [.wal 0 (.flush 0), .wal 0 (.lock 0 []), .wal 0 (.run 0), .range (.run 0)])
    (fun node => node.preparedOne && decide (node.shared.log.history.length = 0))
    (by decide +kernel)
  rw [Bool.and_eq_true, decide_eq_true_eq, List.length_eq_zero_iff] at passed
  obtain ⟨transaction, request, result, writes, found⟩ := exists_of_preparedOne passed.1
  refine ⟨node, reached, ⟨transaction, request, result, writes, found⟩, passed.2, ?_⟩
  intro honest
  obtain ⟨wal, entry, _, _, _, _, _, _, _, _, _, _, inserted⟩ := honest.prepared found writes
  rw [passed.2] at inserted
  cases inserted

/-- The instance is synced before the flush takes its lock. -/
theorem honest_of_reachable_prepared :
    ∃ node : Node, Reachable (step pipelined 0) FlushesSucceed Initial node ∧
      node.preparedOne = true ∧ node.Honest 0 := by
  obtain ⟨node, reached, passed⟩ := @exists_reachable_of_run _ _ (step pipelined 0)
    FlushesSucceed _ _ _ initial_unsynced
    ([.wal 0 (.sync 1), .wal 0 (.run 1), .wal 0 (.run 1), .wal 0 (.run 1)] ++ prepareOne ++
      [.wal 0 (.flush 0), .wal 0 (.lock 0 [10]), .wal 0 (.run 0), .wal 0 (.run 0),
        .wal 0 (.run 0), .wal 0 (.run 0), .range (.run 0)])
    preparedOne (by decide +kernel)
  exact ⟨node, reached, passed, honest_of_reachable pipelined 0 reached⟩

end Node

end Sangria.RangeServer
