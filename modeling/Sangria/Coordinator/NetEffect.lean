import Sangria.Coordinator.Phases
import Sangria.Lib.TransitionSystem

/-!
# The net effect of the operations of a transaction

A participant keeps what was put and what was deleted in two sets.  Together
they are one map, from a key to the result of the last operation on it.  A read
looks into it first, and the prepare record of the range is built from it.  A
key stands here with the range that the assignment oracle finds for it.
-/

namespace Sangria.RangeServer.PrepareRequest

open FiniteMap

/-- The entries of the record, in the order of their insertion. -/
def entries (request : PrepareRequest) : List (Bytes × Option Bytes) :=
  request.puts.map (fun put => (put.1, some put.2)) ++ request.deletes.map fun key => (key, none)

theorem changes_eq_foldl (req : PrepareRequest) :
    req.changes =
      req.entries.foldl (fun changes entry => changes.insert entry.1 entry.2) (∅ : Changes) := by
  rw [changes, entries, List.foldl_append, List.foldl_map, List.foldl_map]

end Sangria.RangeServer.PrepareRequest

namespace Sangria.Coordinator

open FiniteMap

open RangeServer (Changes GetResult PrepareRequest)

namespace ParticipantRange

variable {participant : ParticipantRange}

/-- What the last operation on the key left, if it was put or deleted. -/
def effect (participant : ParticipantRange) (key : Bytes) : Option (Option Bytes) :=
  match participant.writeset.find key with
  | some val => some (some val)
  | none => if key ∈ participant.deleteset then some none else none

theorem effect_put (participant : ParticipantRange) (key val other : Bytes) :
    effect { participant with
      deleteset := participant.deleteset.erase key
      writeset := participant.writeset.insert key val } other =
        if other = key then some (some val) else participant.effect other := by
  by_cases same : other = key
  · subst same
    rw [if_pos rfl, effect, find_insert_self]
  · rw [if_neg same, effect, effect, find_insert_of_ne _ same]
    simp only [Finset.mem_erase, same, ne_eq, not_false_eq_true, true_and]

theorem effect_del (participant : ParticipantRange) (key other : Bytes) :
    effect { participant with
      writeset := participant.writeset.erase key
      deleteset := insert key participant.deleteset } other =
        if other = key then some none else participant.effect other := by
  by_cases same : other = key
  · subst same
    rw [if_pos rfl, effect, find_erase_self]
    exact if_pos (Finset.mem_insert_self _ _)
  · rw [if_neg same, effect, effect, find_erase_of_ne same]
    simp only [Finset.mem_insert, same, false_or]

theorem disjoint_put (disjoint : Disjoint participant.writeset.keys participant.deleteset)
    (key val : Bytes) :
    Disjoint (participant.writeset.insert key val).keys (participant.deleteset.erase key) := by
  rw [Finset.disjoint_left] at disjoint ⊢
  intro other written deleted
  obtain ⟨ne, deleted⟩ := Finset.mem_erase.mp deleted
  obtain ⟨found, present⟩ := mem_keys.mp written
  rw [find_insert_of_ne _ ne] at present
  exact disjoint (mem_keys.mpr ⟨found, present⟩) deleted

theorem disjoint_del (disjoint : Disjoint participant.writeset.keys participant.deleteset)
    (key : Bytes) :
    Disjoint (participant.writeset.erase key).keys (insert key participant.deleteset) := by
  rw [Finset.disjoint_left] at disjoint ⊢
  intro other written deleted
  obtain ⟨found, present⟩ := mem_keys.mp written
  obtain ⟨ne, present⟩ := find_of_erase present
  rcases Finset.mem_insert.mp deleted with same | deleted
  · exact ne same
  · exact disjoint (mem_keys.mpr ⟨found, present⟩) deleted

theorem mem_entries_iff (disjoint : Disjoint participant.writeset.keys participant.deleteset)
    {req : PrepareRequest} (asks : participant.Asks req) (key : Bytes)
    (value : Option Bytes) :
    (key, value) ∈ req.entries ↔ participant.effect key = some value := by
  rw [PrepareRequest.entries, List.mem_append, List.mem_map, List.mem_map, effect]
  cases written : participant.writeset.find key with
  | some val =>
    have kept : key ∉ req.deletes := by
      rw [asks.deletes]
      exact Finset.disjoint_left.mp disjoint (mem_keys.mpr ⟨val, written⟩)
    constructor
    · rintro (⟨⟨_, _⟩, listed, same⟩ | ⟨_, listed, same⟩)
      · cases same
        rw [← (asks.puts _ _).mp listed, written]
      · cases same
        exact absurd listed kept
    · intro same
      cases same
      exact .inl ⟨(key, val), (asks.puts key val).mpr written, rfl⟩
  | none =>
    constructor
    · rintro (⟨⟨_, _⟩, listed, same⟩ | ⟨_, listed, same⟩)
      · cases same
        cases written.symm.trans ((asks.puts _ _).mp listed)
      · cases same
        exact if_pos ((asks.deletes _).mp listed)
    · intro found
      simp only at found
      split at found
      next deleted =>
        cases found
        exact .inr ⟨key, (asks.deletes key).mpr deleted, rfl⟩
      next => cases found

/-- The record that a range builds from the request of a prepare, in whatever
order the sets were iterated. -/
theorem Asks.find_changes {req : PrepareRequest} (asks : participant.Asks req)
    (disjoint : Disjoint participant.writeset.keys participant.deleteset) (key : Bytes) :
    req.changes.find key = participant.effect key := by
  rw [PrepareRequest.changes_eq_foldl]
  exact find_foldl_insert_of_lists (mem_entries_iff disjoint asks) key

end ParticipantRange

def Label.write : Label → Option ((FullRangeId × Bytes) × Option Bytes)
  | .put (some range) key val => some ((range, key), some val)
  | .del (some range) key => some ((range, key), none)
  | _ => none

namespace Transaction

variable {tx next : Transaction} {label : Label}
variable {range : FullRangeId} {key : Bytes}

def SameWrites (transaction next : Transaction) : Prop :=
  ∀ range,
    (next.getParticipantRange range).writeset = (transaction.getParticipantRange range).writeset ∧
      (next.getParticipantRange range).deleteset =
        (transaction.getParticipantRange range).deleteset

theorem SameWrites.set {participant : ParticipantRange}
    (writeset : participant.writeset = (tx.getParticipantRange range).writeset)
    (deleteset : participant.deleteset = (tx.getParticipantRange range).deleteset) :
    SameWrites tx (tx.setParticipantRange range participant) := by
  intro other
  rw [getParticipantRange_set]
  split
  next same =>
    subst same
    exact ⟨writeset, deleteset⟩
  next => exact ⟨rfl, rfl⟩

theorem sameWrites_get (range : Option FullRangeId) (key : Bytes) :
    SameWrites tx (tx.get range key) := by
  unfold get
  split
  next => exact fun _ => ⟨rfl, rfl⟩
  next found _ =>
    have entered : SameWrites tx
        (tx.setParticipantRange found (tx.getParticipantRange found)) :=
      .set rfl rfl
    simp only
    split
    next => exact entered
    next =>
      split <;> exact entered

theorem sameWrites_receiveGet {reply : Reply GetResult} :
    SameWrites tx (tx.receiveGet range key reply) := by
  cases reply with
  | error | panicked => exact fun _ => ⟨rfl, rfl⟩
  | ok =>
    simp only [receiveGet]
    split <;> exact @SameWrites.set tx range _ rfl rfl

theorem sameWrites_of_step (taken : tx.step label = some next)
    (silent : tx.state = .running → label.write = none) :
    SameWrites tx next := by
  cases label with
  | get range key =>
    simp only [step] at taken
    split at taken
    next =>
      cases taken
      exact sameWrites_get range key
    next => cases taken
  | put =>
    simp only [step, put] at taken
    split at taken
    next =>
      cases taken
      split
      next => exact fun _ => ⟨rfl, rfl⟩
      next resolved =>
        obtain ⟨running, rfl⟩ := running_of_resolveFullRecordKey resolved
        cases silent running
    next => cases taken
  | del =>
    simp only [step, del] at taken
    split at taken
    next =>
      cases taken
      split
      next => exact fun _ => ⟨rfl, rfl⟩
      next resolved =>
        obtain ⟨running, rfl⟩ := running_of_resolveFullRecordKey resolved
        cases silent running
    next => cases taken
  | commit =>
    simp only [step, commit] at taken
    split at taken
    next =>
      cases taken
      split <;> exact fun _ => ⟨rfl, rfl⟩
    next => cases taken
  | abort =>
    simp only [step, abort] at taken
    split at taken
    next =>
      cases taken
      split
      next => exact fun _ => ⟨rfl, rfl⟩
      next =>
        split <;> exact fun _ => ⟨rfl, rfl⟩
    next => cases taken
  | gotten =>
    simp only [step] at taken
    split at taken
    next =>
      cases taken
      exact sameWrites_receiveGet
    next => cases taken
  | _ =>
    cases Moves.of_step taken with
    | access _ call => cases call
    | _ => exact fun _ => ⟨rfl, rfl⟩

theorem resolveFullRecordKey_of_running (running : tx.state = .running)
    (range : FullRangeId) : tx.resolveFullRecordKey (some range) = .ok range := by
  simp only [resolveFullRecordKey, checkStillRunning, running]

theorem get_of_effect (running : tx.state = .running) {val : Option Bytes}
    (written : (tx.getParticipantRange range).effect key = some val) :
    (tx.get (some range) key).stage = .returned (.value val) := by
  unfold ParticipantRange.effect at written
  simp only [get, resolveFullRecordKey_of_running running]
  cases found : (tx.getParticipantRange range).writeset.find key with
  | some put =>
    simp only [found] at written
    cases written
    rfl
  | none =>
    simp only [found] at written
    by_cases deleted : key ∈ (tx.getParticipantRange range).deleteset
    · rw [if_pos deleted] at written
      cases written
      simp only [if_pos deleted]
      rfl
    · rw [if_neg deleted] at written
      cases written

theorem get_of_no_effect (running : tx.state = .running)
    (unwritten : (tx.getParticipantRange range).effect key = none) :
    (tx.get (some range) key).stage = .getting range key := by
  unfold ParticipantRange.effect at unwritten
  simp only [get, resolveFullRecordKey_of_running running]
  cases found : (tx.getParticipantRange range).writeset.find key with
  | some put =>
    simp only [found] at unwritten
    cases unwritten
  | none =>
    simp only [found] at unwritten
    by_cases deleted : key ∈ (tx.getParticipantRange range).deleteset
    · rw [if_pos deleted] at unwritten
      cases unwritten
    · simp only [if_neg deleted]

theorem receiveGet_ok (tx : Transaction) (range : FullRangeId) (key : Bytes)
    (res : GetResult) :
    (tx.receiveGet range key (.ok res)).stage = .returned (.value res.val) ∨
      (tx.receiveGet range key (.ok res)).state = .aborted := by
  simp only [receiveGet]
  split
  next => exact .inr rfl
  next => exact .inl rfl

end Transaction

/-- A transaction, and an observer: what the last operation of the client on
each key left, for the keys that were put or deleted while it was running. -/
structure Client where
  transaction : Transaction
  written : HashMap (FullRangeId × Bytes) (Option Bytes)

namespace Client

variable {client : Client} {label : Label}

def observe (client : Client) (label : Label) : HashMap (FullRangeId × Bytes) (Option Bytes) :=
  match client.transaction.state, label.write with
  | .running, some (key, result) => client.written.insert key result
  | _, _ => client.written

def step (client : Client) (label : Label) : Option Client :=
  (client.transaction.step label).map fun next => ⟨next, client.observe label⟩

def Initial (client : Client) : Prop :=
  ∃ id strategy, client = ⟨.new id strategy, ∅⟩

structure Tracks (client : Client) : Prop where
  disjoint : ∀ range, Disjoint (client.transaction.getParticipantRange range).writeset.keys
    (client.transaction.getParticipantRange range).deleteset
  effect : ∀ range key, (client.transaction.getParticipantRange range).effect key =
    client.written.find (range, key)

theorem Tracks.initial (started : Initial client) : Tracks client := by
  obtain ⟨id, strategy, rfl⟩ := started
  exact ⟨
    fun range => Finset.disjoint_left.mpr fun _ listed => absurd listed (Finset.notMem_empty _),
    fun range key => rfl⟩

theorem Tracks.same (tracks : Tracks client) {next : Transaction}
    (same : client.transaction.SameWrites next) : Tracks ⟨next, client.written⟩ where
  disjoint := by
    intro range
    rw [(same range).1, (same range).2]
    exact tracks.disjoint range
  effect := by
    intro range key
    rw [← tracks.effect range key, ParticipantRange.effect, ParticipantRange.effect,
      (same range).1, (same range).2]

theorem Tracks.write (tracks : Tracks client) {range : FullRangeId} {key : Bytes}
    {res : Option Bytes} {participant : ParticipantRange} {response : Response}
    (disjoint : Disjoint participant.writeset.keys participant.deleteset)
    (effect : ∀ other, participant.effect other =
      if other = key then some res
      else (client.transaction.getParticipantRange range).effect other) :
    Tracks ⟨(client.transaction.setParticipantRange range participant).respond response,
      client.written.insert (range, key) res⟩ where
  disjoint := by
    intro other
    change Disjoint ((client.transaction.setParticipantRange range participant).getParticipantRange
      other).writeset.keys ((client.transaction.setParticipantRange range
        participant).getParticipantRange other).deleteset
    rw [Transaction.getParticipantRange_set]
    split
    next => exact disjoint
    next => exact tracks.disjoint other
  effect := by
    intro other read
    change ((client.transaction.setParticipantRange range participant).getParticipantRange
      other).effect read = _
    rw [Transaction.getParticipantRange_set, find_insert]
    by_cases here : other = range
    · subst here
      rw [if_pos rfl, effect, tracks.effect]
      simp only [Prod.mk.injEq, true_and]
    · rw [if_neg here, tracks.effect, if_neg]
      intro same
      exact here (congrArg Prod.fst same)

theorem observe_of_silent (silent : client.transaction.state = .running → label.write = none) :
    client.observe label = client.written := by
  unfold observe
  split
  next running written =>
    rw [silent running] at written
    cases written
  next => rfl

theorem Tracks.step (tracks : Tracks client) {next : Client}
    (taken : client.step label = some next) :
    Tracks next := by
  obtain ⟨tx, moved, rfl⟩ := Option.map_eq_some_iff.mp taken
  by_cases silent : client.transaction.state = .running → label.write = none
  · rw [observe_of_silent silent]
    exact tracks.same (Transaction.sameWrites_of_step moved silent)
  · obtain ⟨running, writes⟩ := Classical.not_imp.mp silent
    cases label with
    | put range key val =>
      cases range with
      | none => exact absurd rfl writes
      | some range =>
        simp only [Transaction.step] at moved
        split at moved
        next =>
          cases moved
          simp only [Transaction.put, Transaction.resolveFullRecordKey_of_running running,
            observe, running, Label.write]
          exact tracks.write (ParticipantRange.disjoint_put (tracks.disjoint range) key val)
            (ParticipantRange.effect_put _ key val)
        next => cases moved
    | del range key =>
      cases range with
      | none => exact absurd rfl writes
      | some range =>
        simp only [Transaction.step] at moved
        split at moved
        next =>
          cases moved
          simp only [Transaction.del, Transaction.resolveFullRecordKey_of_running running,
            observe, running, Label.write]
          exact tracks.write (ParticipantRange.disjoint_del (tracks.disjoint range) key)
            (ParticipantRange.effect_del _ key)
        next => cases moved
    | _ => exact absurd rfl writes

/-- The reads of a running transaction, and what its ranges are asked to
prepare, are the results of the last operations on the keys. -/
theorem net_effect
    (reached : TransitionSystem.Reachable step (fun _ _ => True) Initial client) :
    (client.transaction.state = .running → ∀ range key,
      match client.written.find (range, key) with
      | some val => (client.transaction.get (some range) key).stage = .returned (.value val)
      | none =>
        (client.transaction.get (some range) key).stage = .getting range key ∧
          ∀ result, ∃ next, (client.transaction.get (some range) key).step (.gotten (.ok result)) =
            some next ∧
              (next.stage = .returned (.value result.val) ∨ next.state = .aborted)) ∧
      (∀ range participant, client.transaction.participantRanges.find range = some participant →
        Disjoint participant.writeset.keys participant.deleteset) ∧
      ∀ range key,
        match client.transaction.participantRanges.find range with
        | some participant => ∀ request : PrepareRequest, participant.Asks request →
            request.changes.find key = client.written.find (range, key)
        | none => client.written.find (range, key) = none := by
  have tracks : Tracks client := reached.invariant (fun _ => Tracks.initial)
    fun _ _ _ tracks _ taken => tracks.step taken
  refine ⟨fun running range key => ?_, fun range participant found => ?_, fun range key => ?_⟩
  · have effect := tracks.effect range key
    cases written : client.written.find (range, key) with
    | some => exact Transaction.get_of_effect running (effect.trans written)
    | none =>
      have asking := Transaction.get_of_no_effect running (effect.trans written)
      refine ⟨asking, fun result => ⟨(client.transaction.get (some range) key).receiveGet range key
        (.ok result), ?_, Transaction.receiveGet_ok _ range key result⟩⟩
      simp only [Transaction.step, asking]
  · have disjoint := tracks.disjoint range
    rw [Transaction.getParticipantRange, found] at disjoint
    exact disjoint
  · have effect := tracks.effect range key
    have disjoint := tracks.disjoint range
    rw [Transaction.getParticipantRange] at effect disjoint
    cases found : client.transaction.participantRanges.find range with
    | some =>
      rw [found] at effect disjoint
      intro request asks
      rw [← effect]
      exact asks.find_changes disjoint key
    | none =>
      rw [found] at effect
      exact effect.symm

/-- One key is put and deleted, another one is put twice. -/
theorem net_effect_rewritten :
    ∃ client, TransitionSystem.Reachable step (fun _ _ => True) Initial client ∧
      (client.transaction.get (some ⟨⟨0⟩, 1⟩) [1]).stage = .returned (.value none) ∧
      (client.transaction.get (some ⟨⟨0⟩, 1⟩) [2]).stage = .returned (.value (some [4])) ∧
      (client.transaction.get (some ⟨⟨0⟩, 2⟩) [1]).stage = .getting ⟨⟨0⟩, 2⟩ [1] := by
  obtain ⟨client, reached, observed⟩ :=
    @TransitionSystem.exists_reachable_of_run _ _ step (fun _ _ => True) Initial _
      ⟨.new 1 .traditional, ∅⟩ ⟨1, .traditional, rfl⟩
      [.put (some ⟨⟨0⟩, 1⟩) [1] [3], .put (some ⟨⟨0⟩, 1⟩) [2] [3], .del (some ⟨⟨0⟩, 1⟩) [1],
        .put (some ⟨⟨0⟩, 1⟩) [2] [4]]
      (fun client => decide (client.transaction.state = .running ∧
        client.written.find (⟨⟨0⟩, 1⟩, [1]) = some none ∧
        client.written.find (⟨⟨0⟩, 1⟩, [2]) = some (some [4]) ∧
        client.written.find (⟨⟨0⟩, 2⟩, [1]) = none)) (by decide +kernel)
  obtain ⟨running, deleted, rewritten, unwritten⟩ := of_decide_eq_true observed
  have reads := (net_effect reached).1 running
  have first := reads ⟨⟨0⟩, 1⟩ [1]
  have second := reads ⟨⟨0⟩, 1⟩ [2]
  have third := reads ⟨⟨0⟩, 2⟩ [1]
  rw [deleted] at first
  rw [rewritten] at second
  rw [unwritten] at third
  exact ⟨client, reached, first, second, third.1⟩

end Client

end Sangria.Coordinator
