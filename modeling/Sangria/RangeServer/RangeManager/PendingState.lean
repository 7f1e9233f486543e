import Sangria.RangeServer.RangeManager.Moves

/-!
# Lookups in the pending state

What the maps that a prepare and a commit compute have under a key.
-/

namespace Sangria.RangeServer

open FiniteMap

variable {records : HashMap Uuid Changes} {txs : List Uuid}
  {collected : List (Uuid × Changes)} {key : Bytes}

/-! ## The maps of a batch -/

/-- What the records of a batch write to a key, in the order of the batch. -/
def writesOf (key : Bytes) (records : List (Uuid × Changes)) : List (Uuid × Option Bytes) :=
  records.filterMap fun entry => (entry.2.find key).map fun value => (entry.1, value)

theorem find_lastTxPerKey (records : List (Uuid × Changes)) (key : Bytes) :
    (RangeManager.lastTxPerKey records).find key =
      (writesOf key records).getLast?.map Prod.fst := by
  induction records using List.reverseRecOn with
  | nil => simp [RangeManager.lastTxPerKey, writesOf]
  | append_singleton _ entry ih =>
    simp only [RangeManager.lastTxPerKey, List.foldl_append, List.foldl_cons, List.foldl_nil]
      at ih ⊢
    rw [find_union, find_filterMap, ih, writesOf, writesOf,
      List.filterMap_append, List.getLast?_append]
    cases written : entry.2.find key with
    | none | some => simp [written]

theorem mem_of_collectRecords
    (found : RangeManager.collectRecords records txs = some collected) :
    ∀ entry ∈ collected, entry.1 ∈ txs := by
  induction txs generalizing collected with
  | nil =>
    simp only [RangeManager.collectRecords, Option.some.injEq] at found
    subst found
    intro entry mem
    cases mem
  | cons _ _ ih =>
    simp only [RangeManager.collectRecords] at found
    split at found
    next there =>
      cases found
      intro entry mem
      cases mem with
      | head => exact List.mem_cons_self
      | tail _ behind => exact List.mem_cons_of_mem _ (ih there entry behind)
    next => cases found

/-- The last transaction of a batch that writes a key decides what becomes of it. -/
theorem find_allChanges (records : List (Uuid × Changes)) (key : Bytes) :
    (RangeManager.allChanges records).find key =
      (records.filterMap fun entry => entry.2.find key).getLast? := by
  induction records using List.reverseRecOn with
  | nil => simp [RangeManager.allChanges]
  | append_singleton earlier entry ih =>
    rw [RangeManager.allChanges, List.foldl_append, List.foldl_cons, List.foldl_nil, find_union,
      List.filterMap_append, List.getLast?_append]
    change (entry.2.find key).or ((RangeManager.allChanges earlier).find key) = _
    rw [ih]
    cases written : entry.2.find key <;> simp [written]

theorem mem_of_find_lastTxPerKey {records : List (Uuid × Changes)} {tx : Uuid}
    (last : (RangeManager.lastTxPerKey records).find key = some tx) :
    ∃ entry ∈ records, entry.1 = tx := by
  rw [find_lastTxPerKey] at last
  obtain ⟨written, final, rfl⟩ := Option.map_eq_some_iff.mp last
  obtain ⟨entry, mem, found⟩ :=
    List.mem_filterMap.mp (List.mem_of_getLast? final)
  obtain ⟨value, _, rfl⟩ := Option.map_eq_some_iff.mp found
  exact ⟨entry, mem, rfl⟩

/-! ## The pending state -/

theorem find_publish (table : HashMap Bytes Uuid) (decisions : HashMap Bytes Bool)
    (tx : Uuid) (key : Bytes) :
    (RangeManager.publish table decisions tx).find key =
      match decisions.find key with
      | some true => some tx
      | some false => none
      | none => table.find key := by
  rw [RangeManager.publish, find_union, find_filterMap,
    find_filterMap]
  cases decided : decisions.find key with
  | none =>
    have absent : key ∉ decisions := find_eq_none.mp decided
    cases table.find key <;> simp [absent]
  | some early =>
    have present : key ∈ decisions := mem_iff.mpr ⟨early, decided⟩
    cases early <;> cases table.find key <;> simp [present]

theorem mem_collect {table : HashMap Bytes Uuid} {decisions : HashMap Bytes Bool}
    {dep : Uuid} :
    dep ∈ RangeManager.collect table decisions ↔
      ∃ key ∈ decisions.keys, table.find key = some dep := by
  simp [RangeManager.collect]

theorem find_unpublish (table last : HashMap Bytes Uuid) (key : Bytes) :
    (RangeManager.unpublish table last).find key =
      (table.find key).bind fun dependee =>
        if last.find key = some dependee then none else some dependee :=
  find_filterMap ..

theorem find_cleared (config : Configuration) (pending : PendingState)
    (txs : List Uuid) (records : List (Uuid × Changes)) (tx : Uuid) :
    (RangeManager.clear config pending txs records).pendingPrepareRecords.find
      tx = if tx ∈ txs then none
        else pending.pendingPrepareRecords.find tx := by
  rw [RangeManager.clear, find_filterMap]
  cases pending.pendingPrepareRecords.find tx with
  | none | some => simp

end Sangria.RangeServer
