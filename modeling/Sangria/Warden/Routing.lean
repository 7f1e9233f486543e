import Sangria.RangeServer.Storage.Leases
import Sangria.Universe.Keyspaces
import Sangria.Warden.Assignment

/-!
# Routing and ownership

The coordinator takes the bounds of a range as they are.  The warden takes an
empty bound for an unbounded end, and the range servers enforce what the warden
stored.  Both agree on the lower bound, as no key is below the empty one.
-/

namespace Sangria.Warden

open Universe (CreateKeyspaceRequest KeyspaceInfo Storage createKeyspace keyRangeFrom)

def decodeBound (bound : Bytes) : Option Bytes :=
  if bound = [] then none else some bound

/-- The ranges that `read_base_ranges` builds from the listed keyspaces. -/
def reportedBaseRanges (keyspaces : List KeyspaceInfo) : List RangeInfo :=
  keyspaces.flatMap fun info => info.baseKeyRanges.map fun range =>
    { keyspaceId := info.keyspaceId
      id := range.baseRangeUuid
      keyRange :=
        ⟨decodeBound range.lowerBoundInclusive, decodeBound range.upperBoundExclusive⟩ }

/-- The row of `atomix.range_leases` that `insert_new_ranges` writes. -/
def insertedLease (range : RangeInfo) : RangeLeases.CqlRangeLease where
  epochLease := ⟨0, 0⟩
  keyRange := range.keyRange
  leaderSequenceNumber := 0

/-- The ranges of a keyspace to which the oracle routes a key. -/
def routedRanges (info : KeyspaceInfo) (key : Bytes) : List FullRangeId :=
  (info.baseKeyRanges.filter fun range => (keyRangeFrom range).includes key).map fun range =>
    ⟨info.keyspaceId, range.baseRangeUuid⟩

/-- The ranges of a keyspace whose range server accepts a key. -/
def owningRanges (reported : KeyspaceInfo) (key : Bytes) : List FullRangeId :=
  ((reportedBaseRanges [reported]).filter fun range =>
    (insertedLease range).keyRange.includes key).map fun range => ⟨range.keyspaceId, range.id⟩

theorem includes_decoded (range : Universe.KeyRange) (key : Bytes)
    (bounded : range.upperBoundExclusive ≠ []) :
    KeyRange.includes
        ⟨decodeBound range.lowerBoundInclusive, decodeBound range.upperBoundExclusive⟩ key =
      (keyRangeFrom range).includes key := by
  unfold KeyRange.includes decodeBound keyRangeFrom
  rw [if_neg bounded]
  by_cases empty : range.lowerBoundInclusive = []
  · simp [empty]
  · simp [empty]

theorem owningRanges_eq (info : KeyspaceInfo) (key : Bytes) :
    owningRanges info key = (info.baseKeyRanges.filter fun range => KeyRange.includes
      ⟨decodeBound range.lowerBoundInclusive, decodeBound range.upperBoundExclusive⟩ key).map
        fun range => ⟨info.keyspaceId, range.baseRangeUuid⟩ := by
  unfold owningRanges reportedBaseRanges
  rw [List.flatMap_singleton, List.filter_map, List.map_map]
  rfl

/-- A range without an upper bound owns its lower bound, which is not routed to it. -/
theorem routedRanges_eq_iff (info : KeyspaceInfo) :
    (∀ key, routedRanges info key = owningRanges info key) ↔
      ∀ range ∈ info.baseKeyRanges, range.upperBoundExclusive ≠ [] := by
  constructor
  · intro agrees range mem unbounded
    have same := agrees range.lowerBoundInclusive
    rw [owningRanges_eq, routedRanges] at same
    have fewer := List.monotone_filter_right info.baseKeyRanges
      (p := fun other => (keyRangeFrom other).includes range.lowerBoundInclusive)
      (q := fun other => KeyRange.includes ⟨decodeBound other.lowerBoundInclusive,
        decodeBound other.upperBoundExclusive⟩ range.lowerBoundInclusive) (by
        intro other routed
        by_cases empty : other.upperBoundExclusive = []
        · simp [keyRangeFrom, KeyRange.includes, empty] at routed
        · rw [includes_decoded other _ empty]
          exact routed)
    have owned := fewer.eq_of_length (by simpa using congrArg List.length same)
    have listed : range ∈ info.baseKeyRanges.filter fun other =>
        (keyRangeFrom other).includes range.lowerBoundInclusive := by
      rw [owned, List.mem_filter]
      refine ⟨mem, ?_⟩
      by_cases empty : range.lowerBoundInclusive = []
      · simp [KeyRange.includes, decodeBound, unbounded, empty]
      · simp [KeyRange.includes, decodeBound, unbounded, empty]
    simp [keyRangeFrom, KeyRange.includes, unbounded] at listed
  · intro bounded key
    rw [owningRanges_eq, routedRanges]
    congr 1
    apply List.filter_congr
    intro range mem
    exact (includes_decoded range key (bounded range mem)).symm

/-- Every key is routed to the ranges that own it exactly when ranges were requested, all of
them with an upper bound. -/
theorem routing_agrees_with_ownership {storage next : Storage} {request : CreateKeyspaceRequest}
    {keyspaceId : KeyspaceId} {newV4 : Nat → Uuid}
    (created : createKeyspace storage request keyspaceId newV4 = .ok next)
    {region : Option Region} {reported : KeyspaceInfo}
    (listed : reported ∈ next.listKeyspaces region) (same : reported.keyspace = request.keyspace) :
    (∃ info, next.getKeyspaceInfo request.keyspace = some info ∧
      ∀ key, routedRanges info key = owningRanges reported key) ↔
    request.baseKeyRanges ≠ [] ∧
      ∀ range ∈ request.baseKeyRanges, range.upperBoundExclusive ≠ [] := by
  obtain ⟨info, ranges, found, only⟩ := Universe.baseKeyRanges_of_createKeyspace created
  rw [← Universe.bounded_requestedRanges_iff request.baseKeyRanges newV4, ← ranges,
    ← routedRanges_eq_iff, only region reported listed same, found]
  simp

def exampleRequest (baseKeyRanges : List Universe.KeyRangeRequest) : CreateKeyspaceRequest :=
  ⟨⟨"namespace", "name"⟩, some ⟨some ⟨none, "region"⟩, "zone"⟩, baseKeyRanges⟩

def exampleInfo (baseKeyRanges : List Universe.KeyRange) : KeyspaceInfo :=
  ⟨⟨0⟩, ⟨"namespace", "name"⟩, some ⟨some ⟨none, "region"⟩, "zone"⟩, baseKeyRanges⟩

/-- In a keyspace that was created without ranges no key is routed to its range. -/
theorem default_range_not_routed :
    ∃ (storage next : Storage) (request : CreateKeyspaceRequest) (keyspaceId : KeyspaceId)
      (newV4 : Nat → Uuid) (region : Option Region) (reported info : KeyspaceInfo),
      request.baseKeyRanges = [] ∧
      createKeyspace storage request keyspaceId newV4 = .ok next ∧
      reported ∈ next.listKeyspaces region ∧ reported.keyspace = request.keyspace ∧
      next.getKeyspaceInfo request.keyspace = some info ∧
      ∀ key, routedRanges info key = [] ∧ owningRanges reported key = [⟨keyspaceId, newV4 0⟩] := by
  refine ⟨⟨[]⟩, _, exampleRequest [], ⟨0⟩, fun _ => 1, some ⟨none, "region"⟩,
    exampleInfo [⟨1, [], []⟩], exampleInfo [⟨1, [], []⟩], rfl, rfl, ?_, rfl, ?_, ?_⟩
  · decide +kernel
  · decide +kernel
  · intro key
    refine ⟨?_, rfl⟩
    simp [routedRanges, exampleInfo, keyRangeFrom, KeyRange.includes]

theorem routing_agrees_with_ownership_bounded :
    ∃ (next : Storage) (info : KeyspaceInfo),
      createKeyspace ⟨[]⟩ (exampleRequest [⟨[], [9]⟩]) ⟨0⟩ (fun _ => 1) = .ok next ∧
      next.getKeyspaceInfo ⟨"namespace", "name"⟩ = some info ∧
      routedRanges info [5] = owningRanges (exampleInfo [⟨1, [], [9]⟩]) [5] := by
  obtain ⟨info, found, agrees⟩ := (routing_agrees_with_ownership
    (show createKeyspace ⟨[]⟩ (exampleRequest [⟨[], [9]⟩]) ⟨0⟩ (fun _ => 1) = .ok _ from rfl)
    (show exampleInfo [⟨1, [], [9]⟩] ∈ Storage.listKeyspaces _ (some ⟨none, "region"⟩) by
      decide +kernel) rfl).mpr (by decide)
  exact ⟨_, info, rfl, found, agrees [5]⟩

end Sangria.Warden
