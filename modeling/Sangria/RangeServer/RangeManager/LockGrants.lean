import Sangria.Lib.TransitionSystem
import Sangria.RangeServer.RangeManager.LockTable

/-!
# The grants of the lock table

Any sequence of calls of a lock table, numbered in their order; a call that
returns a receiver is named by its number.  The trace records which receivers
are signalled by which call, and the table is compared with it.
-/

namespace Sangria.RangeServer

open TransitionSystem

inductive LockCall where
  | acquire (transaction : Uuid)
  | release (markAsViolatable : Option Bool)
  | maybeWaitForCurrentHolder (transaction : Uuid)
  | cleanSoftReleased (transactions : List Uuid)

/-- The sender of a receiver was used, in which call, and who holds the lock after it. -/
structure LockSignal where
  sender : Nat
  call : Nat
  holder : Option Uuid

structure LockTrace where
  table : LockTable
  calls : Nat
  acquires : List LockRequest
  /-- The acquires that were not granted at once. -/
  queued : List Nat
  /-- Those of them that were granted later, with the release. -/
  granted : List (Nat × Nat)
  /-- The calls that wait for a release, with whether there was a holder. -/
  waits : List (Nat × Bool)
  signals : List LockSignal
  releases : List Nat
  softReleases : List (Nat × Uuid)
  cleans : List (Nat × List Uuid)

namespace LockTable

variable {table : LockTable} {transaction : Uuid}

/-- The receivers that a call signals, in their order. -/
def sent (table : LockTable) (sender : Nat) : LockCall → List Nat
  | .acquire transaction =>
    if table.currentHolder = none ∨ table.currentHolder = some transaction then [sender] else []
  | .release _ =>
    table.waitingForRelease.map LockRequest.sender ++
      (table.waitingToAcquire.take 1).map LockRequest.sender
  | .maybeWaitForCurrentHolder _ => if table.currentHolder = none then [sender] else []
  | .cleanSoftReleased _ => []

def call (table : LockTable) (sender : Nat) : LockCall → LockTable
  | .acquire transaction => table.acquire transaction sender
  | .release markAsViolatable => table.release markAsViolatable
  | .maybeWaitForCurrentHolder transaction => table.maybeWaitForCurrentHolder transaction sender
  | .cleanSoftReleased transactions => table.cleanSoftReleased transactions

/-- A call puts messages into the channels of `sent` and into no others. -/
theorem signalled_call (table : LockTable) (sender : Nat) (label : LockCall) :
    (table.call sender label).signalled =
      table.signalled ∪ (table.sent sender label).toFinset := by
  cases label with
  | acquire transaction =>
    simp only [call, sent, acquire]
    cases held : table.currentHolder with
    | none => simp
    | some holder =>
      by_cases same : holder = transaction
      · simp [same]
      · simp [same]
  | release mark =>
    simp only [call, sent, release]
    cases waiting : table.waitingToAcquire with
    | nil => simp
    | cons request rest => simp
  | maybeWaitForCurrentHolder transaction =>
    simp only [call, sent, maybeWaitForCurrentHolder]
    cases held : table.currentHolder with
    | none => simp
    | some holder => simp
  | cleanSoftReleased transactions => simp [call, sent, cleanSoftReleased]

end LockTable

namespace LockTrace

variable {trace : LockTrace}

def new : LockTrace := ⟨.new, 0, [], [], [], [], [], [], [], []⟩

/-- The call is made, and its signals are recorded. -/
def record (trace : LockTrace) (label : LockCall) : LockTrace :=
  let table := trace.table.call trace.calls label
  { trace with
    table
    calls := trace.calls + 1
    signals := trace.signals ++
      (trace.table.sent trace.calls label).map fun sender =>
        ⟨sender, trace.calls, table.currentHolder⟩ }

def next (trace : LockTrace) (label : LockCall) : LockTrace :=
  let sent := trace.table.sent trace.calls label
  match label with
  | .acquire transaction =>
    { trace.record label with
      acquires := trace.acquires ++ [⟨transaction, trace.calls⟩]
      queued := if trace.calls ∈ sent then trace.queued else trace.queued ++ [trace.calls] }
  | .release markAsViolatable =>
    { trace.record label with
      granted := trace.granted ++
        (sent.filter fun sender => sender ∈ trace.queued).map fun sender => (trace.calls, sender)
      releases := trace.releases ++ [trace.calls]
      softReleases :=
        match markAsViolatable.getD false, trace.table.currentHolder with
        | true, some holder => trace.softReleases ++ [(trace.calls, holder)]
        | _, _ => trace.softReleases }
  | .maybeWaitForCurrentHolder _ =>
    { trace.record label with
      waits := trace.waits ++ [(trace.calls, trace.table.currentHolder.isSome)] }
  | .cleanSoftReleased transactions =>
    { trace.record label with cleans := trace.cleans ++ [(trace.calls, transactions)] }

def step (trace : LockTrace) (label : LockCall) : Option LockTrace := some (trace.next label)

/-- A receiver of `maybe_wait_for_current_holder`: it is signalled at once if there is no holder,
and otherwise by the first release. -/
structure WaitServed (trace : LockTrace) (wait : Nat × Bool) : Prop where
  atOnce : wait.2 = false → ∃ signal ∈ trace.signals, signal.sender = wait.1 ∧ signal.call = wait.1
  signalled : wait.2 = true → ∀ signal ∈ trace.signals, signal.sender = wait.1 →
    signal.call ∈ trace.releases ∧ wait.1 < signal.call ∧
      ∀ release ∈ trace.releases, wait.1 < release → signal.call ≤ release
  released : wait.2 = true → ∀ release ∈ trace.releases, wait.1 < release →
    ∃ signal ∈ trace.signals, signal.sender = wait.1

structure Serves (trace : LockTrace) : Prop where
  /-- The messages in the channels of the table are the recorded ones. -/
  signalled : trace.table.signalled = (trace.signals.map LockSignal.sender).toFinset
  idle : trace.table.currentHolder = none → trace.table.waitingToAcquire = []
  inOrder : trace.granted.map Prod.snd ++ trace.table.waitingToAcquire.map LockRequest.sender =
    trace.queued
  oneByOne : (trace.granted.map Prod.fst).Pairwise (· < ·)
  once : (trace.signals.map LockSignal.sender).Nodup
  acquires : ∀ request ∈ trace.acquires, request ∈ trace.table.waitingToAcquire ∨
    ∃ signal ∈ trace.signals, signal.sender = request.sender
  held : ∀ request ∈ trace.acquires, ∀ signal ∈ trace.signals, signal.sender = request.sender →
    signal.holder = some request.transaction
  waits : ∀ wait ∈ trace.waits, trace.WaitServed wait
  softReleased : ∀ transaction, transaction ∈ trace.table.softReleased ↔
    ∃ call, (call, transaction) ∈ trace.softReleases ∧
      ∀ clean ∈ trace.cleans, call < clean.1 → transaction ∉ clean.2

/-- What is known of the receivers that wait, besides. -/
structure Records (trace : LockTrace) : Prop where
  idle : trace.table.currentHolder = none →
    trace.table.waitingToAcquire = [] ∧ trace.table.waitingForRelease = []
  inOrder : trace.granted.map Prod.snd ++ trace.table.waitingToAcquire.map LockRequest.sender =
    trace.queued
  oneByOne : (trace.granted.map Prod.fst).Pairwise (· < ·)
  distinct : (trace.signals.map LockSignal.sender ++
    trace.table.waitingForRelease.map LockRequest.sender ++
    trace.table.waitingToAcquire.map LockRequest.sender).Nodup
  acquires : ∀ request ∈ trace.acquires, request.sender < trace.calls ∧
    (request ∈ trace.table.waitingToAcquire ∨
      ∃ signal ∈ trace.signals, signal.sender = request.sender)
  held : ∀ request ∈ trace.acquires, ∀ signal ∈ trace.signals, signal.sender = request.sender →
    signal.holder = some request.transaction
  asked : ∀ request ∈ trace.table.waitingToAcquire, request ∈ trace.acquires
  waits : ∀ wait ∈ trace.waits, wait.1 < trace.calls ∧ trace.WaitServed wait ∧
    (wait.2 = true → (∀ release ∈ trace.releases, release ≤ wait.1) →
      ∃ request ∈ trace.table.waitingForRelease, request.sender = wait.1)
  waiting : ∀ request ∈ trace.table.waitingForRelease, (request.sender, true) ∈ trace.waits ∧
    ∀ release ∈ trace.releases, release < request.sender
  unique : (∀ request ∈ trace.acquires, ∀ other ∈ trace.acquires,
    request.sender = other.sender → request = other) ∧
    ∀ request ∈ trace.acquires, ∀ wait ∈ trace.waits, request.sender ≠ wait.1
  sources : ∀ sender ∈ trace.queued, ∃ request ∈ trace.acquires, request.sender = sender
  signals : ∀ signal ∈ trace.signals, signal.sender < trace.calls
  times : (∀ grant ∈ trace.granted, grant.1 < trace.calls) ∧
    (∀ release ∈ trace.releases, release < trace.calls) ∧
    ∀ soft ∈ trace.softReleases, soft.1 < trace.calls
  cleaned : ∀ clean ∈ trace.cleans, clean.1 < trace.calls
  softReleased : ∀ transaction, transaction ∈ trace.table.softReleased ↔
    ∃ call, (call, transaction) ∈ trace.softReleases ∧
      ∀ clean ∈ trace.cleans, call < clean.1 → transaction ∉ clean.2

/-! ## The calls -/

theorem Records.below (records : Records trace) :
    ∀ sender ∈ trace.signals.map LockSignal.sender ++
      trace.table.waitingForRelease.map LockRequest.sender ++
      trace.table.waitingToAcquire.map LockRequest.sender, sender < trace.calls := by
  intro sender member
  simp only [List.mem_append, List.mem_map] at member
  rcases member with (⟨signal, member, rfl⟩ | ⟨req, member, rfl⟩) | ⟨req, member, rfl⟩
  · exact records.signals signal member
  · exact (records.waits _ (records.waiting req member).1).1
  · exact (records.acquires req (records.asked req member)).1

/-- A new receiver is put with those that were signalled or with those that wait. -/
theorem Records.distinct_insert (records : Records trace) {senders : List Nat}
    (permuted : senders.Perm (trace.calls :: (trace.signals.map LockSignal.sender ++
      trace.table.waitingForRelease.map LockRequest.sender ++
      trace.table.waitingToAcquire.map LockRequest.sender))) : senders.Nodup := by
  rw [permuted.nodup_iff, List.nodup_cons]
  exact ⟨fun member => (records.below _ member).false, records.distinct⟩

theorem WaitServed.keep {next : LockTrace} {wait : Nat × Bool} (served : trace.WaitServed wait)
    (releases : next.releases = trace.releases) {more : List LockSignal}
    (signals : next.signals = trace.signals ++ more)
    (others : ∀ signal ∈ more, signal.sender ≠ wait.1) : next.WaitServed wait := by
  refine ⟨?_, ?_, ?_⟩
  · intro free
    obtain ⟨signal, member, here⟩ := served.atOnce free
    exact ⟨signal, signals ▸ List.mem_append_left _ member, here⟩
  · intro busy signal member same
    rw [signals, List.mem_append] at member
    rcases member with before | new
    · exact releases ▸ served.signalled busy signal before same
    · exact absurd same (others signal new)
  · intro busy release member later
    obtain ⟨signal, member, here⟩ := served.released busy release (releases ▸ member) later
    exact ⟨signal, signals ▸ List.mem_append_left _ member, here⟩

/-- A request is granted at once. -/
theorem Records.grant (records : Records trace) (transaction : Uuid)
    (free : trace.table.currentHolder = none ∨ trace.table.currentHolder = some transaction) :
    Records (trace.next (.acquire transaction)) := by
  have acquired : trace.table.acquire transaction trace.calls =
      { trace.table with
        currentHolder := some transaction
        signalled := insert trace.calls trace.table.signalled } := by
    unfold LockTable.acquire
    rcases free with free | free <;> simp [free]
  have next : trace.next (.acquire transaction) =
      { trace with
        table := trace.table.acquire transaction trace.calls
        calls := trace.calls + 1
        acquires := trace.acquires ++ [⟨transaction, trace.calls⟩]
        signals := trace.signals ++ [⟨trace.calls, trace.calls, some transaction⟩] } := by
    simp [LockTrace.next, record, LockTable.sent, LockTable.call, free, acquired]
  rw [next, acquired]
  have acquires := records.acquires
  have signals := records.signals
  refine ⟨by simp, records.inOrder, records.oneByOne, ?_, ?_, ?_, ?_, ?_, records.waiting, ?_, ?_,
    ?_, ?_, ?_, records.softReleased⟩
  · refine records.distinct_insert ?_
    simp
  · intro req member
    rcases List.mem_append.mp member with before | new
    · obtain ⟨known, waiting | ⟨signal, sent, same⟩⟩ := acquires req before
      · exact ⟨known.trans (Nat.lt_succ_self _), .inl waiting⟩
      · exact ⟨known.trans (Nat.lt_succ_self _),
          .inr ⟨signal, List.mem_append_left _ sent, same⟩⟩
    · cases List.mem_singleton.mp new
      exact ⟨Nat.lt_succ_self _, .inr ⟨_, List.mem_append_right _ (List.mem_singleton_self _), rfl⟩⟩
  · have := records.held
    grind
  · have := records.asked
    grind
  · intro wait member
    obtain ⟨before, served, pending⟩ := records.waits wait member
    refine ⟨by simp only; omega, served.keep rfl rfl ?_, pending⟩
    simp only [List.mem_singleton, forall_eq]
    omega
  · have := records.unique
    have := records.waits
    grind
  · intro sender member
    obtain ⟨req, here, same⟩ := records.sources sender member
    exact ⟨req, List.mem_append_left _ here, same⟩
  · grind
  · have := records.times
    grind
  · have := records.cleaned
    grind

/-- A request is queued. -/
theorem Records.queue (records : Records trace) (transaction : Uuid) {holder : Uuid}
    (busy : trace.table.currentHolder = some holder) (ne : holder ≠ transaction) :
    Records (trace.next (.acquire transaction)) := by
  have next : trace.next (.acquire transaction) =
      { trace with
        table := { trace.table with
          waitingToAcquire := trace.table.waitingToAcquire ++ [⟨transaction, trace.calls⟩] }
        calls := trace.calls + 1
        acquires := trace.acquires ++ [⟨transaction, trace.calls⟩]
        queued := trace.queued ++ [trace.calls] } := by
    simp [LockTrace.next, record, LockTable.sent, LockTable.call, LockTable.acquire, busy, ne]
  rw [next]
  have acquires := records.acquires
  have signals := records.signals
  refine ⟨by simp [busy], ?_, records.oneByOne, ?_, ?_, ?_, ?_, ?_, records.waiting, ?_, ?_, ?_,
    ?_, ?_, records.softReleased⟩
  · simp [← records.inOrder]
  · refine records.distinct_insert ?_
    rw [List.map_append, ← List.append_assoc]
    exact List.perm_append_singleton _ _
  · grind
  · have := records.held
    grind
  · have := records.asked
    grind
  · intro wait member
    obtain ⟨before, served, pending⟩ := records.waits wait member
    exact ⟨before.trans (Nat.lt_succ_self _), ⟨served.1, served.2, served.3⟩, pending⟩
  · have := records.unique
    have := records.waits
    grind
  · intro sender member
    rcases List.mem_append.mp member with before | new
    · obtain ⟨req, here, same⟩ := records.sources sender before
      exact ⟨req, List.mem_append_left _ here, same⟩
    · cases List.mem_singleton.mp new
      exact ⟨_, List.mem_append_right _ (List.mem_singleton_self _), rfl⟩
  · exact fun signal member => (signals signal member).trans (Nat.lt_succ_self _)
  · have := records.times
    grind
  · have := records.cleaned
    grind

/-- Nobody holds the lock. -/
theorem Records.pass (records : Records trace) (transaction : Uuid)
    (free : trace.table.currentHolder = none) :
    Records (trace.next (.maybeWaitForCurrentHolder transaction)) := by
  have next : trace.next (.maybeWaitForCurrentHolder transaction) =
      { trace with
        table := { trace.table with signalled := insert trace.calls trace.table.signalled }
        calls := trace.calls + 1
        waits := trace.waits ++ [(trace.calls, false)]
        signals := trace.signals ++ [⟨trace.calls, trace.calls, none⟩] } := by
    simp [LockTrace.next, record, LockTable.sent, LockTable.call,
      LockTable.maybeWaitForCurrentHolder, free]
  rw [next]
  have acquires := records.acquires
  have signals := records.signals
  refine ⟨records.idle, records.inOrder, records.oneByOne, ?_, ?_, ?_, records.asked, ?_, ?_, ?_,
    records.sources, ?_, ?_, ?_, records.softReleased⟩
  · refine records.distinct_insert ?_
    simp
  · intro req member
    obtain ⟨known, waiting | ⟨signal, sent, same⟩⟩ := acquires req member
    · exact ⟨known.trans (Nat.lt_succ_self _), .inl waiting⟩
    · exact ⟨known.trans (Nat.lt_succ_self _),
        .inr ⟨signal, List.mem_append_left _ sent, same⟩⟩
  · have := records.held
    grind
  · intro wait member
    rcases List.mem_append.mp member with before | new
    · obtain ⟨known, served, pending⟩ := records.waits wait before
      refine ⟨known.trans (Nat.lt_succ_self _), served.keep rfl rfl ?_, pending⟩
      simp only [List.mem_singleton, forall_eq]
      omega
    · cases List.mem_singleton.mp new
      refine ⟨Nat.lt_succ_self _, ⟨?_, by simp, by simp⟩, by simp⟩
      exact fun _ => ⟨_, List.mem_append_right _ (List.mem_singleton_self _), rfl, rfl⟩
  · have := records.waiting
    grind
  · have := records.unique
    grind
  · grind
  · have := records.times
    grind
  · have := records.cleaned
    grind

/-- The receiver waits for the holder. -/
theorem Records.wait (records : Records trace) (transaction : Uuid) {holder : Uuid}
    (busy : trace.table.currentHolder = some holder) :
    Records (trace.next (.maybeWaitForCurrentHolder transaction)) := by
  have next : trace.next (.maybeWaitForCurrentHolder transaction) =
      { trace with
        table := { trace.table with
          waitingForRelease := trace.table.waitingForRelease ++ [⟨transaction, trace.calls⟩] }
        calls := trace.calls + 1
        waits := trace.waits ++ [(trace.calls, true)] } := by
    simp [LockTrace.next, record, LockTable.sent, LockTable.call,
      LockTable.maybeWaitForCurrentHolder, busy]
  rw [next]
  have acquires := records.acquires
  have signals := records.signals
  have released := records.times.2.1
  refine ⟨by simp [busy], records.inOrder, records.oneByOne, ?_, ?_, records.held, records.asked,
    ?_, ?_, ?_, records.sources, ?_, ?_, ?_, records.softReleased⟩
  · refine records.distinct_insert ?_
    rw [List.map_append, ← List.append_assoc]
    exact (List.perm_append_singleton _ _).append_right _
  · grind
  · intro wait member
    rcases List.mem_append.mp member with before | new
    · obtain ⟨known, served, pending⟩ := records.waits wait before
      refine ⟨known.trans (Nat.lt_succ_self _), ⟨served.1, served.2, served.3⟩, ?_⟩
      intro waits unreleased
      obtain ⟨req, here, same⟩ := pending waits unreleased
      exact ⟨req, List.mem_append_left _ here, same⟩
    · cases List.mem_singleton.mp new
      refine ⟨Nat.lt_succ_self _, ⟨by simp, ?_, ?_⟩, ?_⟩
      · exact fun _ signal member same => absurd same (signals signal member).ne
      · exact fun _ release member later => absurd later (released release member).not_gt
      · exact fun _ _ => ⟨_, List.mem_append_right _ (List.mem_singleton_self _), rfl⟩
  · have := records.waiting
    grind
  · have := records.unique
    grind
  · grind
  · have := records.times
    grind
  · have := records.cleaned
    grind

theorem Records.clean (records : Records trace) (txs : List Uuid) :
    Records (trace.next (.cleanSoftReleased txs)) := by
  have next : trace.next (.cleanSoftReleased txs) =
      { trace with
        table := trace.table.cleanSoftReleased txs
        calls := trace.calls + 1
        cleans := trace.cleans ++ [(trace.calls, txs)] } := by
    simp [LockTrace.next, record, LockTable.sent, LockTable.call]
  rw [next]
  have acquires := records.acquires
  have signals := records.signals
  have soft := records.times.2.2
  refine ⟨records.idle, records.inOrder, records.oneByOne, records.distinct, ?_, records.held,
    records.asked, ?_, records.waiting, records.unique, records.sources, ?_, ?_, ?_, ?_⟩
  · grind [LockTable.cleanSoftReleased]
  · intro wait member
    obtain ⟨known, served, pending⟩ := records.waits wait member
    exact ⟨known.trans (Nat.lt_succ_self _), ⟨served.1, served.2, served.3⟩, pending⟩
  · grind
  · have := records.times
    grind
  · have := records.cleaned
    grind
  · intro transaction
    rw [LockTable.cleanSoftReleased, Finset.mem_filter, records.softReleased]
    constructor
    · rintro ⟨⟨call, marked, kept⟩, unclean⟩
      refine ⟨call, marked, ?_⟩
      intro clean member later
      rcases List.mem_append.mp member with before | new
      · exact kept clean before later
      · cases List.mem_singleton.mp new
        exact unclean
    · rintro ⟨call, marked, kept⟩
      refine ⟨⟨call, marked, ?_⟩, ?_⟩
      · exact fun clean before => kept clean (List.mem_append_left _ before)
      · exact kept _ (List.mem_append_right _ (List.mem_singleton_self _)) (soft _ marked)

/-- The receivers of a release that were queued are the first in line. -/
theorem Records.granted_eq (records : Records trace) (mark : Option Bool) :
    (trace.table.sent trace.calls (.release mark)).filter (fun sender => sender ∈ trace.queued) =
      (trace.table.waitingToAcquire.take 1).map LockRequest.sender := by
  have asked : ∀ sender ∈ trace.queued, ∀ req ∈ trace.table.waitingForRelease,
      req.sender ≠ sender := by
    rintro sender queued req waiting rfl
    obtain ⟨acquire, known, same⟩ := records.sources _ queued
    exact records.unique.2 acquire known _ (records.waiting req waiting).1 same
  rw [LockTable.sent, List.filter_append, List.filter_eq_nil_iff.mpr, List.nil_append]
  · rw [List.filter_eq_self]
    intro sender member
    obtain ⟨req, first, rfl⟩ := List.mem_map.mp member
    rw [← records.inOrder, decide_eq_true_eq]
    exact List.mem_append_right _ (List.mem_map_of_mem (List.mem_of_mem_take first))
  · intro sender member
    obtain ⟨req, waiting, rfl⟩ := List.mem_map.mp member
    rw [decide_eq_true_eq]
    exact fun queued => asked _ queued req waiting rfl

theorem release_eq (table : LockTable) (mark : Option Bool) :
    (table.release mark).currentHolder = table.waitingToAcquire.head?.map LockRequest.transaction ∧
      (table.release mark).waitingForRelease = [] ∧
      (table.release mark).waitingToAcquire = table.waitingToAcquire.drop 1 := by
  unfold LockTable.release
  cases table.waitingToAcquire <;> simp

theorem Records.softReleased_release (records : Records trace) (mark : Option Bool)
    (transaction : Uuid) :
    transaction ∈ (trace.table.release mark).softReleased ↔
      ∃ call, (call, transaction) ∈ (trace.next (.release mark)).softReleases ∧
        ∀ clean ∈ trace.cleans, call < clean.1 → transaction ∉ clean.2 := by
  have known := records.softReleased transaction
  have cleaned := records.cleaned
  have marks : ∀ flag holder, mark.getD false = flag → trace.table.currentHolder = holder → (
      transaction ∈ (trace.table.release mark).softReleased ↔
        transaction ∈ trace.table.softReleased ∨ flag = true ∧ holder = some transaction) ∧
      ∀ call, (call, transaction) ∈ (trace.next (.release mark)).softReleases ↔
        (call, transaction) ∈ trace.softReleases ∨
          call = trace.calls ∧ flag = true ∧ holder = some transaction := by
    intro flag holder marked held
    unfold LockTable.release LockTrace.next
    simp only [marked, held]
    cases trace.table.waitingToAcquire <;> cases flag <;> cases holder <;>
      simp [or_comm, eq_comm]
  obtain ⟨softReleased, softReleases⟩ := marks _ _ rfl rfl
  rw [softReleased, known]
  constructor
  · rintro (⟨call, marked, kept⟩ | ⟨flag, holder⟩)
    · exact ⟨call, (softReleases call).mpr (.inl marked), kept⟩
    · refine ⟨trace.calls, (softReleases _).mpr (.inr ⟨rfl, flag, holder⟩), ?_⟩
      exact fun clean member later => absurd later (cleaned clean member).not_gt
  · rintro ⟨call, marked, kept⟩
    rcases (softReleases call).mp marked with before | ⟨_, flag, holder⟩
    · exact .inl ⟨call, before, kept⟩
    · exact .inr ⟨flag, holder⟩

theorem signals_release (trace : LockTrace) (mark : Option Bool) :
    (trace.next (.release mark)).signals = trace.signals ++
      (trace.table.waitingForRelease.map LockRequest.sender ++
        (trace.table.waitingToAcquire.take 1).map LockRequest.sender).map
          fun sender => ⟨sender, trace.calls, (trace.table.release mark).currentHolder⟩ := rfl

theorem Records.of_signals_release (records : Records trace) {mark : Option Bool}
    {signal : LockSignal} (member : signal ∈ (trace.next (.release mark)).signals) :
    signal ∈ trace.signals ∨ signal.call = trace.calls ∧
      signal.holder = (trace.table.release mark).currentHolder ∧
      ((∃ req ∈ trace.table.waitingForRelease, req.sender = signal.sender) ∨
        ∃ req ∈ trace.table.waitingToAcquire.take 1,
          req ∈ trace.acquires ∧ req.sender = signal.sender) := by
  rw [signals_release, List.mem_append] at member
  rcases member with before | new
  · exact .inl before
  · obtain ⟨sender, listed, rfl⟩ := List.mem_map.mp new
    refine .inr ⟨rfl, rfl, ?_⟩
    rcases List.mem_append.mp listed with waits | first
    · exact .inl (List.mem_map.mp waits)
    · obtain ⟨req, first, same⟩ := List.mem_map.mp first
      exact .inr ⟨req, first, records.asked req (List.mem_of_mem_take first), same⟩

/-- The release is the first one for the receivers that wait for it. -/
theorem Records.waitServed_release (records : Records trace) (mark : Option Bool)
    {wait : Nat × Bool} (member : wait ∈ trace.waits) :
    (trace.next (.release mark)).WaitServed wait := by
  obtain ⟨known, served, pending⟩ := records.waits wait member
  refine ⟨?_, ?_, ?_⟩
  · intro free
    obtain ⟨signal, before, here⟩ := served.atOnce free
    exact ⟨signal, List.mem_append_left _ before, here⟩
  · intro busy signal here same
    rcases records.of_signals_release here with
      before | ⟨now, _, ⟨req, waits, same'⟩ | ⟨other, _, asked, same'⟩⟩
    · obtain ⟨listed, later, least⟩ := served.signalled busy signal before same
      refine ⟨List.mem_append_left _ listed, later, ?_⟩
      intro release listed' later'
      rcases List.mem_append.mp listed' with old | new
      · exact least release old later'
      · cases List.mem_singleton.mp new
        exact (records.times.2.1 _ listed).le
    · refine ⟨now ▸ List.mem_append_right _ (List.mem_singleton_self _), now ▸ known, ?_⟩
      intro release listed later
      rcases List.mem_append.mp listed with old | new
      · have := (records.waiting req waits).2 release old
        omega
      · cases List.mem_singleton.mp new
        exact now.le
    · exact absurd (same'.trans same) (records.unique.2 other asked wait member)
  · intro busy release listed later
    by_cases old : ∃ release ∈ trace.releases, wait.1 < release
    · obtain ⟨release, listed, later⟩ := old
      obtain ⟨signal, before, same⟩ := served.released busy release listed later
      exact ⟨signal, List.mem_append_left _ before, same⟩
    · push Not at old
      obtain ⟨req, waits, same⟩ := pending busy old
      refine ⟨⟨req.sender, trace.calls, (trace.table.release mark).currentHolder⟩, ?_, same⟩
      rw [signals_release]
      refine List.mem_append_right _ (List.mem_map_of_mem ?_)
      exact List.mem_append_left _ (List.mem_map_of_mem waits)

theorem Records.release (records : Records trace) (mark : Option Bool) :
    Records (trace.next (.release mark)) := by
  obtain ⟨holder, none, tail⟩ := release_eq trace.table mark
  have soft : ∀ soft ∈ (trace.next (.release mark)).softReleases, soft.1 < trace.calls + 1 := by
    have := records.times.2.2
    intro soft member
    simp only [LockTrace.next] at member
    split at member
    next => grind
    next => exact (this soft member).trans (Nat.lt_succ_self _)
  have below := records.below
  have unique := records.unique
  generalize first : trace.table.waitingToAcquire.take 1 = head
  have line : trace.table.waitingToAcquire = head ++ trace.table.waitingToAcquire.drop 1 := by
    rw [← first, List.take_append_drop]
  have short : head.length ≤ 1 := by simp [← first]
  have leads : ∀ req ∈ head,
      (trace.table.release mark).currentHolder = some req.transaction := by
    intro req member
    rw [holder]
    rw [← first] at member
    cases waiting : trace.table.waitingToAcquire with
    | nil => simp [waiting] at member
    | cons =>
      rw [waiting, List.take_succ_cons, List.take_zero, List.mem_singleton] at member
      simp [member]
  have sent : (trace.next (.release mark)).signals = trace.signals ++
      (trace.table.waitingForRelease.map LockRequest.sender ++ head.map LockRequest.sender).map
        fun sender => ⟨sender, trace.calls, (trace.table.release mark).currentHolder⟩ := by
    rw [← first]
    rfl
  have granted : (trace.next (.release mark)).granted = trace.granted ++
      (head.map LockRequest.sender).map fun sender => (trace.calls, sender) := by
    rw [← first, ← records.granted_eq mark]
    rfl
  refine ⟨?_, ?_, ?_, ?_, ?_, ?_, ?_, ?_, ?_, unique, records.sources, ?_, ?_, ?_,
    records.softReleased_release mark⟩
  · intro free
    change (trace.table.release mark).waitingToAcquire = [] ∧ _
    rw [show (trace.table.release mark).currentHolder = Option.none from free] at holder
    refine ⟨?_, none⟩
    rw [tail, List.head?_eq_none_iff.mp (Option.map_eq_none_iff.mp holder.symm)]
    rfl
  · change _ ++ (trace.table.release mark).waitingToAcquire.map _ = trace.queued
    have order := records.inOrder
    rw [line] at order
    rw [granted, tail]
    simpa [Function.comp_def] using order
  · rw [granted, List.map_append, List.pairwise_append]
    refine ⟨records.oneByOne, ?_, ?_⟩
    · match head, short with
      | [], _ => simp
      | [_], _ => simp
    · have := records.times.1
      simp only [List.mem_map]
      rintro _ ⟨grant, member, rfl⟩ _ ⟨_, ⟨_, _, rfl⟩, rfl⟩
      exact this grant member
  · change (_ ++ (trace.table.release mark).waitingForRelease.map _ ++
      (trace.table.release mark).waitingToAcquire.map _).Nodup
    have distinct := records.distinct
    rw [line] at distinct
    rw [sent, none, tail]
    simpa [Function.comp_def] using distinct
  · intro req member
    obtain ⟨known, waiting | ⟨signal, before, same⟩⟩ := records.acquires req member
    · refine ⟨known.trans (Nat.lt_succ_self _), ?_⟩
      rw [line, List.mem_append] at waiting
      rcases waiting with granted | waits
      · refine .inr ⟨⟨req.sender, trace.calls, (trace.table.release mark).currentHolder⟩, ?_, rfl⟩
        rw [sent]
        refine List.mem_append_right _ (List.mem_map_of_mem ?_)
        exact List.mem_append_right _ (List.mem_map_of_mem granted)
      · exact .inl (tail ▸ waits)
    · exact ⟨known.trans (Nat.lt_succ_self _),
        .inr ⟨signal, sent ▸ List.mem_append_left _ before, same⟩⟩
  · intro req member signal here same
    rcases records.of_signals_release here with
      before | ⟨_, held, ⟨wait, waits, same'⟩ | ⟨other, head, asked, same'⟩⟩
    · exact records.held req member signal before same
    · exact absurd (same.symm.trans same'.symm)
        (unique.2 req member _ (records.waiting wait waits).1)
    · cases unique.1 _ asked _ member (same'.trans same)
      exact held.trans (leads _ (first ▸ head))
  · intro req member
    change req ∈ (trace.table.release mark).waitingToAcquire at member
    rw [tail] at member
    exact records.asked req (List.mem_of_mem_drop member)
  · intro wait member
    obtain ⟨known, _⟩ := records.waits wait member
    refine ⟨known.trans (Nat.lt_succ_self _), records.waitServed_release mark member, ?_⟩
    intro _ unreleased
    have := unreleased trace.calls (List.mem_append_right _ (List.mem_singleton_self _))
    omega
  · intro req member
    change req ∈ (trace.table.release mark).waitingForRelease at member
    rw [none] at member
    cases member
  · intro signal member
    rcases records.of_signals_release member with
      before | ⟨_, _, ⟨req, waits, same⟩ | ⟨other, _, asked, same⟩⟩
    · exact (records.signals signal before).trans (Nat.lt_succ_self _)
    · rw [← same]
      exact ((records.waits _ (records.waiting req waits).1).1).trans (Nat.lt_succ_self _)
    · rw [← same]
      exact (records.acquires other asked).1.trans (Nat.lt_succ_self _)
  · refine ⟨?_, ?_, soft⟩
    · intro grant member
      rw [granted, List.mem_append] at member
      rcases member with old | new
      · exact (records.times.1 grant old).trans (Nat.lt_succ_self _)
      · obtain ⟨_, _, rfl⟩ := List.mem_map.mp new
        exact Nat.lt_succ_self _
    · have := records.times.2.1
      intro release member
      rcases List.mem_append.mp member with old | new
      · exact (this release old).trans (Nat.lt_succ_self _)
      · cases List.mem_singleton.mp new
        exact Nat.lt_succ_self _
  · exact fun clean member => (records.cleaned clean member).trans (Nat.lt_succ_self _)

theorem Records.step (records : Records trace) (label : LockCall) : Records (trace.next label) := by
  cases label with
  | acquire transaction =>
    by_cases free : trace.table.currentHolder = none ∨ trace.table.currentHolder = some transaction
    · exact records.grant transaction free
    · cases busy : trace.table.currentHolder with
      | none => exact absurd (.inl busy) free
      | some holder =>
        refine records.queue transaction busy ?_
        rintro rfl
        exact free (.inr busy)
  | release mark => exact records.release mark
  | maybeWaitForCurrentHolder transaction =>
    cases busy : trace.table.currentHolder with
    | none => exact records.pass transaction busy
    | some => exact records.wait transaction busy
  | cleanSoftReleased txs => exact records.clean txs

theorem records_of_reachable (reached : Reachable step (fun _ _ => True) (· = new) trace) :
    Records trace := by
  refine @Reachable.invariant _ _ LockTrace.step _ _ Records ?_ ?_ _ reached
  · rintro trace rfl
    refine ⟨fun _ => ⟨rfl, rfl⟩, rfl, .nil, .nil, ?_, ?_, ?_, ?_, ?_, ?_, ?_, ?_, ?_, ?_, ?_⟩
    all_goals simp [new, LockTable.new]
  · rintro trace next label records - taken
    cases taken
    exact records.step label

theorem signalled_of_reachable (reached : Reachable step (fun _ _ => True) (· = new) trace) :
    trace.table.signalled = (trace.signals.map LockSignal.sender).toFinset := by
  refine @Reachable.invariant _ _ LockTrace.step _ _
    (fun trace => trace.table.signalled = (trace.signals.map LockSignal.sender).toFinset) ?_ ?_ _
    reached
  · rintro trace rfl
    rfl
  · rintro trace next label same - taken
    cases taken
    have recorded : (trace.next label).table = trace.table.call trace.calls label ∧
        (trace.next label).signals.map LockSignal.sender =
          trace.signals.map LockSignal.sender ++ trace.table.sent trace.calls label := by
      cases label <;> simp [LockTrace.next, record, Function.comp_def]
    rw [recorded.1, recorded.2, LockTable.signalled_call, same, List.toFinset_append]

/-- Requests that have to wait are granted in the order of their arrival, one by each release,
and every receiver is signalled once, when its time has come. -/
theorem requests_granted_in_order (reached : Reachable step (fun _ _ => True) (· = new) trace) :
    Serves trace ∧ ∀ mark, (trace.next (.release mark)).granted =
      trace.granted ++ (trace.table.waitingToAcquire.take 1).map
        fun request => (trace.calls, request.sender) := by
  have records := records_of_reachable reached
  refine ⟨⟨signalled_of_reachable reached, fun free => (records.idle free).1, records.inOrder,
    records.oneByOne, ?_, ?_, records.held, fun wait member => (records.waits wait member).2.1,
    records.softReleased⟩, ?_⟩
  · exact List.Nodup.of_append_left (List.Nodup.of_append_left records.distinct)
  · exact fun request member => (records.acquires request member).2
  · intro mark
    change trace.granted ++ List.map _ _ = _
    rw [records.granted_eq mark, List.map_map]
    rfl

/-- Two requests queue behind the holder, and the first one is granted by its soft release. -/
theorem requests_granted_in_order_two : ∃ trace : LockTrace,
    Reachable step (fun _ _ => True) (· = new) trace ∧
      (trace.queued = [1, 2] ∧ trace.granted = [(4, 1)]) ∧ Serves trace := by
  obtain ⟨trace, reached, passed⟩ := @exists_reachable_of_run _ _ LockTrace.step
    (fun _ _ => True) (· = new) (fun _ _ => isTrue trivial) new rfl
    [.acquire ⟨1⟩, .acquire ⟨2⟩, .acquire ⟨3⟩, .maybeWaitForCurrentHolder ⟨2⟩, .release (some true)]
    (fun trace => decide (trace.queued = [1, 2] ∧ trace.granted = [(4, 1)])) (by decide +kernel)
  exact ⟨trace, reached, of_decide_eq_true passed, (requests_granted_in_order reached).1⟩

end LockTrace

end Sangria.RangeServer
