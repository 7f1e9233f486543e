import Sangria.Universe.Keyspaces

/-!
# The range assignment oracle

`full_range_id_of_key` keeps two caches whose keys are concatenated texts.  The
range of a key is looked up under the namespace, the name and the key, and it is
stored under the key alone.
-/

namespace Sangria.Coordinator

open Universe (KeyspaceInfo Storage keyRangeFrom)

def hexEncode (bytes : Bytes) : String :=
  String.ofList (bytes.flatMap fun byte =>
    [Nat.digitChar (byte.toNat / 16), Nat.digitChar (byte.toNat % 16)])

structure RangeAssignmentOracle where
  keyToFullRangeId : HashMap String FullRangeId
  keyspaceToKeyspaceInfo : HashMap String KeyspaceInfo

structure ResolveCall where
  keyspace : Keyspace
  key : Bytes
  deriving DecidableEq

namespace ResolveCall

def keyspaceInfoCacheKey (call : ResolveCall) : String :=
  call.keyspace.nameSpace ++ call.keyspace.name

def keyToFullRangeIdCacheKey (call : ResolveCall) : String :=
  call.keyspace.nameSpace ++ call.keyspace.name ++ hexEncode call.key

end ResolveCall

def findFullRangeId (info : KeyspaceInfo) (key : Bytes) : Option FullRangeId :=
  (info.baseKeyRanges.find? fun range => (keyRangeFrom range).includes key).map fun range =>
    ⟨info.keyspaceId, range.baseRangeUuid⟩

namespace RangeAssignmentOracle

def new : RangeAssignmentOracle := ⟨∅, ∅⟩

/-- The info in the cache, after the universe was asked if there was none; the
answer of the universe is unwrapped. -/
def keyspaceInfo (storage : Storage) (oracle : RangeAssignmentOracle) (call : ResolveCall) :
    Option (KeyspaceInfo × RangeAssignmentOracle) :=
  match oracle.keyspaceToKeyspaceInfo.find call.keyspaceInfoCacheKey with
  | some info => some (info, oracle)
  | none =>
    match storage.getKeyspaceInfo call.keyspace with
    | none => none
    | some info =>
      some (info, { oracle with
        keyspaceToKeyspaceInfo :=
          oracle.keyspaceToKeyspaceInfo.insert call.keyspaceInfoCacheKey info })

def fullRangeIdOfKey (storage : Storage) (oracle : RangeAssignmentOracle) (call : ResolveCall) :
    Option (Option FullRangeId × RangeAssignmentOracle) :=
  match oracle.keyToFullRangeId.find call.keyToFullRangeIdCacheKey with
  | some fullRangeId => some (some fullRangeId, oracle)
  | none =>
    match keyspaceInfo storage oracle call with
    | none => none
    | some (info, oracle) =>
      match findFullRangeId info call.key with
      | none => some (none, oracle)
      | some fullRangeId =>
        some (some fullRangeId, { oracle with
          keyToFullRangeId :=
            oracle.keyToFullRangeId.insert (hexEncode call.key) fullRangeId })

def resolveAll (storage : Storage) : RangeAssignmentOracle → List ResolveCall →
    Option (List (Option FullRangeId))
  | _, [] => some []
  | oracle, call :: rest =>
    match oracle.fullRangeIdOfKey storage call with
    | none => none
    | some (result, next) => (next.resolveAll storage rest).map (result :: ·)

end RangeAssignmentOracle

/-- The resolution without caches: the first range of that very keyspace that
includes the key. -/
def resolveUncached (storage : Storage) (call : ResolveCall) : Option (Option FullRangeId) :=
  (storage.getKeyspaceInfo call.keyspace).map fun info => findFullRangeId info call.key

namespace ResolveCall

/-- The cache keys of a call are not taken for those of an earlier one. -/
structure Distinguished (earlier later : ResolveCall) : Prop where
  keyspaces : earlier.keyspaceInfoCacheKey = later.keyspaceInfoCacheKey →
    earlier.keyspace = later.keyspace
  keys : hexEncode earlier.key = later.keyToFullRangeIdCacheKey → earlier = later

instance (earlier later : ResolveCall) : Decidable (earlier.Distinguished later) :=
  decidable_of_iff
    ((earlier.keyspaceInfoCacheKey = later.keyspaceInfoCacheKey →
        earlier.keyspace = later.keyspace) ∧
      (hexEncode earlier.key = later.keyToFullRangeIdCacheKey → earlier = later))
    ⟨fun both => ⟨both.1, both.2⟩, fun distinguished => ⟨distinguished.keyspaces,
      distinguished.keys⟩⟩

end ResolveCall

namespace RangeAssignmentOracle

variable {storage : Storage} {oracle next : RangeAssignmentOracle} {served : List ResolveCall}
  {call : ResolveCall}

/-- What is in the caches was resolved for an earlier call. -/
structure Caches (storage : Storage) (oracle : RangeAssignmentOracle)
    (served : List ResolveCall) : Prop where
  infos : ∀ text info, oracle.keyspaceToKeyspaceInfo.find text = some info →
    ∃ call ∈ served, call.keyspaceInfoCacheKey = text ∧
      storage.getKeyspaceInfo call.keyspace = some info
  ids : ∀ text fullRangeId, oracle.keyToFullRangeId.find text = some fullRangeId →
    ∃ call ∈ served, hexEncode call.key = text ∧
      resolveUncached storage call = some (some fullRangeId)

theorem Caches.new (storage : Storage) : Caches storage new [] := by
  refine ⟨?_, ?_⟩
  · intro text info found
    simp [RangeAssignmentOracle.new] at found
  · intro text fullRangeId found
    simp [RangeAssignmentOracle.new] at found

theorem Caches.cons (caches : Caches storage oracle served) (call : ResolveCall) :
    Caches storage oracle (call :: served) := by
  refine ⟨?_, ?_⟩
  · intro text info found
    obtain ⟨earlier, mem, matching⟩ := caches.infos text info found
    exact ⟨earlier, List.mem_cons_of_mem _ mem, matching⟩
  · intro text fullRangeId found
    obtain ⟨earlier, mem, matching⟩ := caches.ids text fullRangeId found
    exact ⟨earlier, List.mem_cons_of_mem _ mem, matching⟩

theorem Caches.keyspaceInfo (caches : Caches storage oracle served)
    (distinguished : ∀ earlier ∈ served, earlier.Distinguished call) :
    (keyspaceInfo storage oracle call = none ∧ storage.getKeyspaceInfo call.keyspace = none) ∨
    ∃ info next, keyspaceInfo storage oracle call = some (info, next) ∧
      storage.getKeyspaceInfo call.keyspace = some info ∧
      Caches storage next (call :: served) := by
  unfold RangeAssignmentOracle.keyspaceInfo
  split
  next info found =>
    obtain ⟨earlier, mem, matching, stored⟩ := caches.infos _ _ found
    rw [(distinguished earlier mem).keyspaces matching] at stored
    exact .inr ⟨info, oracle, rfl, stored, caches.cons call⟩
  next =>
    split
    next missing => exact .inl ⟨rfl, missing⟩
    next info stored =>
      refine .inr ⟨info, _, rfl, stored, ?_, (caches.cons call).ids⟩
      intro text other found
      rw [FiniteMap.find_insert] at found
      split at found
      next same =>
        cases found
        exact ⟨call, List.mem_cons_self, same.symm, stored⟩
      next => exact (caches.cons call).infos text other found

theorem Caches.fullRangeIdOfKey (caches : Caches storage oracle served) (call : ResolveCall)
    (distinguished : ∀ earlier ∈ served, earlier.Distinguished call) :
    (fullRangeIdOfKey storage oracle call = none ∧ resolveUncached storage call = none) ∨
    ∃ res next, fullRangeIdOfKey storage oracle call = some (res, next) ∧
      resolveUncached storage call = some res ∧ Caches storage next (call :: served) := by
  unfold RangeAssignmentOracle.fullRangeIdOfKey
  split
  next found =>
    obtain ⟨earlier, mem, matching, resolved⟩ := caches.ids _ _ found
    rw [(distinguished earlier mem).keys matching] at resolved
    exact .inr ⟨_, oracle, rfl, resolved, caches.cons call⟩
  next =>
    rcases caches.keyspaceInfo distinguished with missing | ⟨info, next, cached, stored, kept⟩
    · rw [missing.1]
      exact .inl ⟨rfl, by rw [resolveUncached, missing.2]; rfl⟩
    · have resolved : resolveUncached storage call = some (findFullRangeId info call.key) := by
        rw [resolveUncached, stored]
        rfl
      rw [cached, resolved]
      right
      simp only
      split
      next none => exact ⟨_, next, rfl, congrArg some none, kept⟩
      next found =>
        refine ⟨_, _, rfl, congrArg some found, kept.infos, ?_⟩
        intro text other inserted
        rw [FiniteMap.find_insert] at inserted
        split at inserted
        next same =>
          cases inserted
          exact ⟨call, List.mem_cons_self, same.symm, resolved.trans (congrArg some found)⟩
        next => exact kept.ids text other inserted

theorem Caches.resolveAll {calls : List ResolveCall} (caches : Caches storage oracle served)
    (before : ∀ earlier ∈ served, ∀ call ∈ calls, earlier.Distinguished call)
    (distinguished : calls.Pairwise ResolveCall.Distinguished) :
    oracle.resolveAll storage calls = calls.mapM (resolveUncached storage) := by
  induction calls generalizing oracle served with
  | nil => rfl
  | cons call rest ih =>
    rw [List.pairwise_cons] at distinguished
    rw [RangeAssignmentOracle.resolveAll, List.mapM_cons]
    have first := caches.fullRangeIdOfKey call fun earlier mem =>
      before earlier mem call List.mem_cons_self
    rcases first with panics | ⟨res, next, ran, resolved, kept⟩
    · rw [panics.1, panics.2]
      rfl
    · rw [ran, resolved]
      simp only
      rw [ih kept _ distinguished.2]
      · cases rest.mapM (resolveUncached storage) with
        | none | some => rfl
      · intro earlier mem later isLater
        rcases List.mem_cons.mp mem with same | old
        · exact same ▸ distinguished.1 later isLater
        · exact before earlier old later (List.mem_cons_of_mem _ isLater)

/-- Every call is answered as without caches when no two calls share a cache key. -/
theorem resolveAll_eq_uncached {storage : Storage} {calls : List ResolveCall}
    (distinguished : calls.Pairwise ResolveCall.Distinguished) :
    new.resolveAll storage calls = calls.mapM (resolveUncached storage) := by
  apply (Caches.new storage).resolveAll
  · intro earlier mem
    cases mem
  · exact distinguished

def exampleStorage (first second : Keyspace) : Storage :=
  ⟨[⟨⟨1⟩, first, ⟨none, "zone"⟩, [⟨1, none, some [9]⟩]⟩,
    ⟨⟨2⟩, second, ⟨none, "zone"⟩, [⟨2, none, some [9]⟩]⟩]⟩

/-- A call is answered with the range of another keyspace: by the cached info of a
keyspace with the same concatenated name, or by the cached range of another key. -/
theorem resolves_to_other_keyspace :
    (∃ storage calls, new.resolveAll storage calls ≠ calls.mapM (resolveUncached storage)) ∧
    new.resolveAll (exampleStorage ⟨"a", "b"⟩ ⟨"ab", ""⟩)
        [⟨⟨"a", "b"⟩, [5]⟩, ⟨⟨"ab", ""⟩, [5]⟩] =
      some [some ⟨⟨1⟩, 1⟩, some ⟨⟨1⟩, 1⟩] ∧
    new.resolveAll (exampleStorage ⟨"a", "b"⟩ ⟨"0", "5"⟩)
        [⟨⟨"a", "b"⟩, [5]⟩, ⟨⟨"0", "5"⟩, []⟩] =
      some [some ⟨⟨1⟩, 1⟩, some ⟨⟨1⟩, 1⟩] := by
  refine ⟨⟨exampleStorage ⟨"a", "b"⟩ ⟨"ab", ""⟩,
    [⟨⟨"a", "b"⟩, [5]⟩, ⟨⟨"ab", ""⟩, [5]⟩], ?_⟩, ?_, ?_⟩
  · decide +kernel
  · decide +kernel
  · decide +kernel

theorem resolveAll_eq_uncached_twoKeyspaces :
    new.resolveAll (exampleStorage ⟨"a", "x"⟩ ⟨"a", "y"⟩)
        [⟨⟨"a", "x"⟩, [5]⟩, ⟨⟨"a", "y"⟩, [5]⟩, ⟨⟨"a", "x"⟩, [5]⟩] =
      [⟨⟨"a", "x"⟩, [5]⟩, ⟨⟨"a", "y"⟩, [5]⟩, ⟨⟨"a", "x"⟩, [5]⟩].mapM
        (resolveUncached (exampleStorage ⟨"a", "x"⟩ ⟨"a", "y"⟩)) :=
  resolveAll_eq_uncached (by decide +kernel)

end RangeAssignmentOracle

end Sangria.Coordinator
