import Mathlib.Algebra.Order.Ring.Nat
import Sangria.RangeServer.Cache.MemTableDB

/-!
# The ring of memtables

Going backwards from the mutable memtable there are the frozen ones and then the
flushed ones.  The epochs of a frozen memtable lie before those of the memtables
after it, so a `clear` takes the frozen ones from the far end.
-/

namespace Sangria.RangeServer

instance : Std.Total MemTableEntry.Le := ⟨by
  intro first second
  unfold MemTableEntry.Le
  rcases Std.lt_trichotomy first.key second.key with less | same | greater
  · exact .inl (.inl less)
  · rcases Nat.le_total second.epoch first.epoch with later | earlier
    · exact .inl (.inr ⟨same, later⟩)
    · exact .inr (.inr ⟨same.symm, earlier⟩)
  · exact .inr (.inl greater)⟩

instance : IsTrans MemTableEntry MemTableEntry.Le := ⟨by
  rintro first second third (less | ⟨same, later⟩) (less' | ⟨same', later'⟩)
  · exact .inl (List.lt_trans less less')
  · exact .inl (same' ▸ less)
  · exact .inl (same ▸ less')
  · exact .inr ⟨same.trans same', later'.trans later⟩⟩

namespace MemTableDB

open TransitionSystem

variable {db next : MemTableDB} {entry : MemTableEntry} {epoch index frozen distance : Nat}

/-- The epochs of its entries, in the order of the list. -/
structure Bounded (table : MemTable) : Prop where
  sorted : table.entries.Pairwise MemTableEntry.Le
  epochs : ∀ entry ∈ table.entries, table.oldestEpoch ≤ entry.epoch ∧
    entry.epoch ≤ table.latestEpoch
  spans : table.oldestEpoch ≤ table.latestEpoch

structure Ring (db : MemTableDB) (frozen : Nat) : Prop where
  bound : db.mutMemtableIdx < db.cacheOptions.numWriteBuffers
  inside : frozen < db.cacheOptions.numWriteBuffers
  mutable : db.current.status = .mutable
  immutable : ∀ distance, 0 < distance → distance ≤ frozen →
    (db.memtables (db.back distance)).status = .immutable
  flushed : ∀ distance, frozen < distance → distance < db.cacheOptions.numWriteBuffers →
    (db.memtables (db.back distance)).status = .flushed ∧
      (db.memtables (db.back distance)).entries = [] ∧
      (db.memtables (db.back distance)).sizeInBytes = 0
  bounded : ∀ distance ≤ frozen, Bounded (db.memtables (db.back distance))
  ordered : ∀ distance < frozen, (db.memtables (db.back (distance + 1))).latestEpoch ≤
    (db.memtables (db.back distance)).oldestEpoch
  stale : ∀ distance < db.cacheOptions.numWriteBuffers,
    (db.memtables (db.back distance)).latestEpoch ≤ db.latestEpoch

/-- The write epochs do not decrease. -/
def Rises (db : MemTableDB) (label : Call) : Prop :=
  ∀ entry ∈ label.entry?, db.latestEpoch ≤ entry.epoch

instance (db : MemTableDB) (label : Call) : Decidable (db.Rises label) :=
  inferInstanceAs (Decidable (∀ entry ∈ label.entry?, _))

theorem Bounded.insert {table : MemTable} (bounded : Bounded table)
    (later : table.oldestEpoch ≤ entry.epoch) : Bounded (table.insert entry) := by
  refine ⟨bounded.sorted.orderedInsert _ _, ?_, ?_⟩
  · intro other member
    rcases (List.mem_orderedInsert _).mp member with rfl | before
    · exact ⟨later, Nat.le_max_right _ _⟩
    · obtain ⟨lower, upper⟩ := bounded.epochs other before
      exact ⟨lower, upper.trans (Nat.le_max_left _ _)⟩
  · exact bounded.spans.trans (Nat.le_max_left _ _)

theorem Ring.new {cacheOptions : CacheOptions} (some : 0 < cacheOptions.numWriteBuffers) :
    Ring (new cacheOptions) 0 := by
  have zero : ∀ distance, ((MemTableDB.new cacheOptions).memtables
      ((MemTableDB.new cacheOptions).back distance)).latestEpoch = 0 := by
    intro distance
    simp only [MemTableDB.new]
    split <;> rfl
  refine ⟨some, some, rfl, by omega, ?_, ?_, by omega, fun distance _ => (zero distance).le⟩
  · intro distance positive inside
    have ne : (MemTableDB.new cacheOptions).back distance ≠ 0 := by
      intro same
      have := (@back_inj (MemTableDB.new cacheOptions) some _ 0 inside some).mp
        (same.trans (@back_zero (MemTableDB.new cacheOptions) some).symm)
      omega
    simp only [MemTableDB.new] at ne ⊢
    rw [if_neg ne]
    exact ⟨rfl, rfl, rfl⟩
  · intro distance _
    simp only [MemTableDB.new]
    split <;> exact ⟨.nil, by simp [MemTable.new], le_rfl⟩

theorem Ring.registered (ring : Ring db frozen) : Ring db.registerGcCallback frozen :=
  ⟨ring.bound, ring.inside, ring.mutable, ring.immutable, ring.flushed, ring.bounded,
    ring.ordered, ring.stale⟩

/-! ## Writes -/

theorem update_back (bound : db.mutMemtableIdx < db.cacheOptions.numWriteBuffers)
    (inside : distance < db.cacheOptions.numWriteBuffers) (memtables : Nat → MemTable)
    (table : MemTable) :
    Function.update memtables db.mutMemtableIdx table (db.back distance) =
      if distance = 0 then table else memtables (db.back distance) := by
  rw [Function.update_apply]
  refine if_congr ?_ rfl rfl
  rw [← back_zero bound]
  exact back_inj bound inside (by omega)

theorem insert_back (bound : db.mutMemtableIdx < db.cacheOptions.numWriteBuffers)
    (inside : distance < db.cacheOptions.numWriteBuffers) (entry : MemTableEntry) :
    (db.insert entry).memtables (db.back distance) =
      if distance = 0 then db.current.insert entry else db.memtables (db.back distance) :=
  update_back bound inside _ _

theorem Ring.current_eq (ring : Ring db frozen) : db.memtables (db.back 0) = db.current := by
  rw [back_zero ring.bound]
  rfl

theorem Ring.oldest_le (ring : Ring db frozen) (rises : db.latestEpoch ≤ entry.epoch) :
    db.current.oldestEpoch ≤ entry.epoch := by
  have spans := (ring.bounded 0 (by omega)).spans
  have stale := ring.stale 0 (by have := ring.bound; omega)
  rw [ring.current_eq] at spans stale
  omega

theorem Ring.insert (ring : Ring db frozen) (rises : db.latestEpoch ≤ entry.epoch) :
    Ring (db.insert entry) frozen := by
  have inside := ring.inside
  have later := ring.oldest_le rises
  have tables : ∀ distance < db.cacheOptions.numWriteBuffers,
      (db.insert entry).memtables ((db.insert entry).back distance) = _ :=
    fun distance inside => insert_back ring.bound inside entry
  refine ⟨ring.bound, inside, ?_, ?_, ?_, ?_, ?_, ?_⟩
  · rw [current, ← @back_zero (db.insert entry) ring.bound, tables 0 (by omega)]
    exact ring.mutable
  · intro distance positive within
    rw [tables distance (by omega), if_neg (by omega)]
    exact ring.immutable distance positive within
  · intro distance beyond within
    rw [tables distance within, if_neg (by omega)]
    exact ring.flushed distance beyond within
  · intro distance within
    rw [tables distance (by omega)]
    split
    next => exact Bounded.insert (ring.current_eq ▸ ring.bounded 0 (by omega)) later
    next => exact ring.bounded distance within
  · intro distance within
    have ordered := ring.ordered distance within
    rw [tables _ (by omega), tables _ (by omega), if_neg (by omega)]
    split
    next first =>
      subst first
      rw [ring.current_eq] at ordered
      exact ordered
    next => exact ordered
  · intro distance within
    have stale := ring.stale distance within
    rw [tables distance within]
    split
    next first =>
      subst first
      rw [ring.current_eq] at stale
      exact Nat.max_le.mpr ⟨stale.trans rises, le_rfl⟩
    next => exact stale.trans rises

theorem switch_memtables (ne : db.nextIdx ≠ db.mutMemtableIdx) (epoch index : Nat) :
    (db.switch epoch).memtables index =
      if index = db.nextIdx then
        { db.memtables db.nextIdx with status := .mutable, oldestEpoch := epoch }
      else if index = db.mutMemtableIdx then { db.current with status := .immutable }
      else db.memtables index := by
  unfold switch current
  simp only [Function.update_apply, if_neg ne, if_neg ne.symm, if_true]
  split
  next => rfl
  next => rfl

theorem Ring.nextIdx_ne (ring : Ring db frozen)
    (free : (db.memtables db.nextIdx).status = .flushed) : db.nextIdx ≠ db.mutMemtableIdx := by
  intro same
  rw [same] at free
  cases ring.mutable.symm.trans free

/-- Only the last memtable of the ring can be the next one. -/
theorem Ring.inside_of_free (ring : Ring db frozen)
    (free : (db.memtables db.nextIdx).status = .flushed) :
    frozen + 1 < db.cacheOptions.numWriteBuffers := by
  have inside := ring.inside
  by_contra last
  have same : frozen = db.cacheOptions.numWriteBuffers - 1 := by omega
  rw [← back_last ring.bound, ← same] at free
  by_cases first : frozen = 0
  · rw [first, ring.current_eq] at free
    cases ring.mutable.symm.trans free
  · cases (ring.immutable frozen (by omega) le_rfl).symm.trans free

theorem Ring.switch_back (ring : Ring db frozen)
    (free : (db.memtables db.nextIdx).status = .flushed) (entry : MemTableEntry)
    (inside : distance + 1 < db.cacheOptions.numWriteBuffers) :
    ((db.switch entry.epoch).insert entry).memtables
        (((db.switch entry.epoch).insert entry).back (distance + 1)) =
      if distance = 0 then { db.current with status := .immutable }
      else db.memtables (db.back distance) := by
  have ne : db.back distance ≠ db.nextIdx := by
    rw [← back_last ring.bound, ne_eq, back_inj ring.bound (by omega) (by omega)]
    omega
  rw [@back_succ_of_next db ((db.switch entry.epoch).insert entry) ring.bound rfl rfl _ inside]
  unfold MemTableDB.insert
  simp only [show (db.switch entry.epoch).mutMemtableIdx = db.nextIdx from rfl]
  rw [Function.update_of_ne ne, switch_memtables (ring.nextIdx_ne free), if_neg ne]
  refine if_congr ?_ rfl rfl
  rw [← back_zero ring.bound]
  exact back_inj ring.bound (by omega) (by omega)

theorem Ring.switch_current (ring : Ring db frozen)
    (free : (db.memtables db.nextIdx).status = .flushed) (epoch : Nat) :
    (db.switch epoch).current =
      { db.memtables db.nextIdx with status := .mutable, oldestEpoch := epoch } := by
  exact (switch_memtables (ring.nextIdx_ne free) epoch db.nextIdx).trans (if_pos rfl)

theorem Ring.switch (ring : Ring db frozen)
    (free : (db.memtables db.nextIdx).status = .flushed)
    (rises : db.latestEpoch ≤ entry.epoch) :
    Ring ((db.switch entry.epoch).insert entry) (frozen + 1) := by
  have inside := ring.inside_of_free free
  have bound : db.nextIdx < db.cacheOptions.numWriteBuffers := Nat.mod_lt _ (by omega)
  have emptied := ring.flushed (db.cacheOptions.numWriteBuffers - 1) (by omega) (by omega)
  have stale := ring.stale (db.cacheOptions.numWriteBuffers - 1) (by omega)
  rw [back_last ring.bound] at emptied stale
  generalize written : (db.switch entry.epoch).insert entry = next
  have zero : next.memtables (next.back 0) =
      { db.memtables db.nextIdx with status := .mutable, oldestEpoch := entry.epoch }.insert
        entry := by
    subst written
    rw [back_zero bound, ← ring.switch_current free]
    exact Function.update_self ..
  have succ : ∀ distance, distance + 1 < db.cacheOptions.numWriteBuffers →
      next.memtables (next.back (distance + 1)) =
        if distance = 0 then { db.current with status := .immutable }
        else db.memtables (db.back distance) := by
    intro distance within
    subst written
    exact ring.switch_back free entry within
  have options : next.cacheOptions = db.cacheOptions := written ▸ rfl
  have moved : next.mutMemtableIdx < next.cacheOptions.numWriteBuffers := written ▸ bound
  have latest : next.latestEpoch = entry.epoch := written ▸ rfl
  have front : (next.memtables (next.back 0)).oldestEpoch = entry.epoch := by rw [zero]; rfl
  have peak : (next.memtables (next.back 0)).latestEpoch = entry.epoch := by
    rw [zero]
    exact Nat.max_eq_right (stale.trans rises)
  have behind : ∀ distance, distance + 1 < db.cacheOptions.numWriteBuffers →
      (next.memtables (next.back (distance + 1))).latestEpoch =
          (db.memtables (db.back distance)).latestEpoch ∧
        (next.memtables (next.back (distance + 1))).oldestEpoch =
          (db.memtables (db.back distance)).oldestEpoch ∧
        (next.memtables (next.back (distance + 1))).entries =
          (db.memtables (db.back distance)).entries := by
    intro distance within
    rw [succ distance within]
    split
    next first =>
      subst first
      rw [ring.current_eq]
      exact ⟨rfl, rfl, rfl⟩
    next => exact ⟨rfl, rfl, rfl⟩
  refine ⟨moved, options ▸ inside, ?_, ?_, ?_, ?_, ?_, ?_⟩
  · rw [current, ← back_zero moved, zero]
    rfl
  · intro distance positive within
    obtain ⟨distance, rfl⟩ := Nat.exists_eq_add_of_le' positive
    rw [succ distance (by omega)]
    split
    next => rfl
    next later => exact ring.immutable distance (by omega) (by omega)
  · intro distance beyond within
    obtain ⟨distance, rfl⟩ := Nat.exists_eq_add_of_le' (Nat.one_le_of_lt beyond)
    rw [options] at within
    rw [succ distance within, if_neg (by omega)]
    exact ring.flushed distance (by omega) (by omega)
  · intro distance within
    cases distance with
    | zero =>
      rw [zero]
      refine ⟨?_, ?_, ?_⟩
      · simp [MemTable.insert, emptied.2.1]
      · simp [MemTable.insert, emptied.2.1]
      · exact Nat.le_max_right _ _
    | succ distance =>
      obtain ⟨same, same', same''⟩ := behind distance (by omega)
      have bounded := ring.bounded distance (by omega)
      exact ⟨same'' ▸ bounded.sorted, same ▸ same' ▸ same'' ▸ bounded.epochs,
        same ▸ same' ▸ bounded.spans⟩
  · intro distance within
    rw [(behind distance (by omega)).1]
    cases distance with
    | zero => exact front ▸ (ring.stale 0 (by omega)).trans rises
    | succ distance =>
      rw [(behind distance (by omega)).2.1]
      exact ring.ordered distance (by omega)
  · intro distance within
    rw [latest]
    cases distance with
    | zero => exact peak.le
    | succ distance =>
      rw [options] at within
      rw [(behind distance (by omega)).1]
      exact (ring.stale distance (by omega)).trans rises

/-! ## Clearing -/

theorem Ring.latestEpoch_le (ring : Ring db frozen) {first second : Nat} (before : first ≤ second)
    (inside : second ≤ frozen) : (db.memtables (db.back second)).latestEpoch ≤
      (db.memtables (db.back first)).latestEpoch := by
  induction second, before using Nat.le_induction with
  | base => exact le_rfl
  | succ second _ ih =>
    calc (db.memtables (db.back (second + 1))).latestEpoch
        ≤ (db.memtables (db.back second)).oldestEpoch := ring.ordered second (by omega)
      _ ≤ (db.memtables (db.back second)).latestEpoch := (ring.bounded second (by omega)).spans
      _ ≤ _ := ih (by omega)

/-- The memtables that a `clear` flushes are the last frozen ones. -/
theorem Ring.clear (ring : Ring db frozen) (cleared : db.clear epoch = some next) :
    ∃ kept ≤ frozen, Ring next kept ∧
      ∀ distance, 0 < distance → distance ≤ frozen →
        (kept < distance ↔ (db.memtables (db.back distance)).latestEpoch ≤ epoch) := by
  obtain ⟨bound, memtables, rfl, tables⟩ := clear_eq cleared
  have inside := ring.inside
  let late := fun distance => epoch < (db.memtables (db.back distance)).latestEpoch
  have lower : ∀ distance, Nat.findGreatest late frozen < distance → distance ≤ frozen →
      (db.memtables (db.back distance)).latestEpoch ≤ epoch :=
    fun distance beyond within =>
      not_lt.mp (@Nat.findGreatest_is_greatest distance late _ frozen beyond within)
  have upper : ∀ distance, 0 < distance → distance ≤ Nat.findGreatest late frozen →
      epoch < (db.memtables (db.back distance)).latestEpoch := by
    intro distance positive within
    have last : late (Nat.findGreatest late frozen) :=
      Nat.findGreatest_of_ne_zero rfl (by omega)
    exact last.trans_le (ring.latestEpoch_le within (Nat.findGreatest_le _))
  have le := @Nat.findGreatest_le late _ frozen
  generalize Nat.findGreatest late frozen = kept at lower upper le
  have same : ∀ distance ≤ kept,
      memtables (db.back distance) = db.memtables (db.back distance) := by
    intro distance within
    rw [tables distance (by omega)]
    split
    next => rfl
    next later =>
      refine if_neg ?_
      intro flushes
      exact absurd flushes.2 (not_le.mpr (upper distance (by omega) within))
  have epochs : ∀ distance < db.cacheOptions.numWriteBuffers,
      (memtables (db.back distance)).latestEpoch =
        (db.memtables (db.back distance)).latestEpoch := by
    intro distance within
    rw [tables distance within, MemTable.flush]
    split
    next => rfl
    next => split <;> rfl
  refine ⟨kept, le, ⟨bound, le.trans_lt inside, ?_, ?_, ?_, ?_, ?_, ?_⟩, ?_⟩
  · have front := same 0 (by omega)
    rw [ring.current_eq, back_zero bound] at front
    exact (congrArg MemTable.status front).trans ring.mutable
  · intro distance positive within
    exact (congrArg MemTable.status (same distance within)).trans
      (ring.immutable distance positive (by omega))
  · intro distance beyond within
    change (memtables (db.back distance)).status = _ ∧ (memtables (db.back distance)).entries = _ ∧
      (memtables (db.back distance)).sizeInBytes = _
    rw [tables distance within, if_neg (by omega), MemTable.flush]
    split
    next => exact ⟨rfl, rfl, rfl⟩
    next stays =>
      by_cases within' : distance ≤ frozen
      · exact absurd ⟨ring.immutable distance (by omega) within', lower distance beyond within'⟩
          stays
      · exact ring.flushed distance (by omega) within
  · intro distance within
    change Bounded (memtables (db.back distance))
    rw [same distance within]
    exact ring.bounded distance (by omega)
  · intro distance within
    change (memtables (db.back (distance + 1))).latestEpoch ≤
      (memtables (db.back distance)).oldestEpoch
    rw [same _ (by omega), same _ (by omega)]
    exact ring.ordered distance (by omega)
  · intro distance within
    exact (epochs distance within).le.trans (ring.stale distance within)
  · intro distance positive within
    constructor
    · exact fun beyond => lower distance beyond within
    · intro early
      by_contra within'
      exact absurd early (not_le.mpr (upper distance positive (by omega)))

theorem Ring.call (ring : Ring db frozen) {label : Call} (rises : db.Rises label)
    {res : CacheResult} {called : Option Nat}
    (called' : db.call label = some (next, res, called)) : ∃ frozen, Ring next frozen := by
  cases known : label.entry? with
  | some entry =>
    have later := rises entry known
    cases (writes_of_call known called').2 with
    | full => exact ⟨frozen, ring⟩
    | switches _ free => exact ⟨frozen + 1, ring.switch free later⟩
    | stays => exact ⟨frozen, ring.insert later⟩
  | none =>
    cases label with
    | upsert | delete => cases known
    | clear epoch =>
      obtain ⟨cleared, taken, same⟩ := Option.map_eq_some_iff.mp called'
      cases same
      obtain ⟨kept, _, ring', _⟩ := ring.clear taken
      exact ⟨kept, ring'⟩

theorem exists_ring (reached : Reachable step Rises Initial db) : ∃ frozen, Ring db frozen := by
  refine @Reachable.invariant _ _ step Rises Initial (fun db => ∃ frozen, Ring db frozen) ?_ ?_ _
    reached
  · rintro db ⟨cacheOptions, some, rfl | rfl⟩
    · exact ⟨0, .new some⟩
    · exact ⟨0, (Ring.new some).registered⟩
  · intro db next label ring rises taken
    obtain ⟨frozen, ring⟩ := ring
    obtain ⟨⟨written, res, called⟩, called', rfl⟩ := Option.map_eq_some_iff.mp taken
    exact ring.call rises called'

/-- One mutable memtable, then the frozen ones and then the flushed ones. -/
structure InOrder (db : MemTableDB) (frozen : Nat) : Prop where
  inside : frozen < db.cacheOptions.numWriteBuffers
  mutable : (db.memtables (db.back 0)).status = .mutable
  immutable : ∀ distance, 0 < distance → distance ≤ frozen →
    (db.memtables (db.back distance)).status = .immutable
  flushed : ∀ distance, frozen < distance → distance < db.cacheOptions.numWriteBuffers →
    (db.memtables (db.back distance)).status = .flushed
  latestEpoch : ∀ distance < frozen, (db.memtables (db.back (distance + 1))).latestEpoch ≤
    (db.memtables (db.back distance)).latestEpoch
  emptied : ∀ index < db.cacheOptions.numWriteBuffers, (db.memtables index).status = .flushed →
    (db.memtables index).entries = [] ∧ (db.memtables index).sizeInBytes = 0

/-- Every call succeeds or leaves everything as it was; no assertion fails. -/
structure Answers (db : MemTableDB) : Prop where
  calls : ∀ label, ∃ next result called, db.call label = some (next, result, called) ∧
    (result = .cacheIsFull → next = db)
  gets : ∀ key epoch, db.get key epoch ≠ none

theorem Ring.inOrder (ring : Ring db frozen) : InOrder db frozen := by
  refine ⟨ring.inside, ring.current_eq ▸ ring.mutable, ring.immutable, ?_, ?_, ?_⟩
  · exact fun distance beyond within => (ring.flushed distance beyond within).1
  · exact fun distance within => ring.latestEpoch_le (by omega) within
  · intro index inside flushed
    obtain ⟨distance, within, rfl⟩ := exists_back ring.bound inside
    by_cases beyond : frozen < distance
    · exact (ring.flushed distance beyond within).2
    · by_cases first : distance = 0
      · rw [first, ring.current_eq, ring.mutable] at flushed
        cases flushed
      · cases (ring.immutable distance (by omega) (by omega)).symm.trans flushed

theorem Ring.answers (ring : Ring db frozen) : Answers db := by
  constructor
  · intro label
    obtain ⟨next, res, called, taken⟩ := exists_call ⟨ring.bound, ring.mutable⟩ label
    refine ⟨next, res, called, taken, ?_⟩
    rintro rfl
    cases known : label.entry? with
    | some =>
      cases (writes_of_call known taken).2 with
      | full => rfl
    | none =>
      cases label with
      | upsert | delete => cases known
      | clear =>
        obtain ⟨_, _, same⟩ := Option.map_eq_some_iff.mp taken
        cases same
  · intro key epoch
    unfold get
    rw [if_pos ring.bound]
    split
    next => split <;> simp
    next => simp

theorem ring_in_order (reached : Reachable step Rises Initial db) :
    (∃ frozen, InOrder db frozen) ∧ Answers db := by
  obtain ⟨frozen, ring⟩ := exists_ring reached
  exact ⟨⟨frozen, ring.inOrder⟩, ring.answers⟩

/-- Two memtables of one entry each. -/
def smallOptions : CacheOptions := ⟨2, 10⟩

/-- Both memtables are filled, and the first one is cleared. -/
theorem ring_in_order_small : ∃ db : MemTableDB, Reachable step Rises Initial db ∧
    ((db.memtables 0).status = .flushed ∧ db.mutMemtableIdx = 1) ∧
    (∃ frozen, InOrder db frozen) ∧ Answers db := by
  obtain ⟨db, reached, passed⟩ := @exists_reachable_of_run _ _ step Rises Initial _
    (new smallOptions) ⟨smallOptions, by decide, .inl rfl⟩
    [.upsert [] [] 1, .upsert [] [] 2, .delete [] 3, .clear 1]
    (fun db => decide ((db.memtables 0).status = .flushed ∧ db.mutMemtableIdx = 1))
    (by decide +kernel)
  exact ⟨db, reached, of_decide_eq_true passed, ring_in_order reached⟩

/-! ## Sizes -/

structure Accounts (cacheOptions : CacheOptions) (table : MemTable) : Prop where
  size_eq : table.sizeInBytes = (table.entries.map MemTableEntry.size).sum
  le : table.sizeInBytes ≤ cacheOptions.writeBufferSize

/-- An entry that does not fit in a memtable finds none to switch to. -/
def Refused (db : MemTableDB) (label : Call) : Prop :=
  ∀ entry ∈ label.entry?, db.cacheOptions.writeBufferSize < entry.size →
    (db.memtables db.nextIdx).status ≠ .flushed

instance (db : MemTableDB) (label : Call) : Decidable (db.Refused label) :=
  inferInstanceAs (Decidable (∀ entry ∈ label.entry?, _ → _))

structure Sized (db : MemTableDB) : Prop where
  asserted : db.Asserted
  accounts : ∀ index, Accounts db.cacheOptions (db.memtables index)
  emptied : ∀ index, (db.memtables index).status = .flushed → (db.memtables index).sizeInBytes = 0

theorem Accounts.insert {cacheOptions : CacheOptions} {table : MemTable}
    (accounts : Accounts cacheOptions table)
    (fits : table.sizeInBytes + entry.size ≤ cacheOptions.writeBufferSize) :
    Accounts cacheOptions (table.insert entry) := by
  refine ⟨?_, fits⟩
  have permuted := ((List.perm_orderedInsert MemTableEntry.Le entry table.entries).map
    MemTableEntry.size).sum_eq
  rw [List.map_cons, List.sum_cons] at permuted
  rw [MemTable.insert, permuted, ← accounts.size_eq, Nat.add_comm]

theorem Sized.new {cacheOptions : CacheOptions} (some : 0 < cacheOptions.numWriteBuffers) :
    Sized (new cacheOptions) := by
  refine ⟨⟨some, rfl⟩, ?_, ?_⟩
  all_goals
    intro index
    simp only [MemTableDB.new]
    split
    next => first | exact ⟨rfl, Nat.zero_le _⟩ | exact fun _ => rfl
    next => first | exact ⟨rfl, Nat.zero_le _⟩ | exact fun _ => rfl

theorem Sized.insert (sized : Sized db)
    (fits : db.current.sizeInBytes + entry.size ≤ db.cacheOptions.writeBufferSize) :
    Sized (db.insert entry) := by
  have accounts := (sized.accounts db.mutMemtableIdx).insert fits
  have mutable : (db.current.insert entry).status = .mutable := sized.asserted.2
  refine ⟨⟨sized.asserted.1, ?_⟩, ?_, ?_⟩
  · exact (congrArg MemTable.status (Function.update_self ..)).trans mutable
  · intro index
    simp only [MemTableDB.insert, Function.update_apply]
    split
    next => exact accounts
    next => exact sized.accounts index
  · intro index
    simp only [MemTableDB.insert, Function.update_apply]
    split
    next =>
      intro flushed
      cases mutable.symm.trans flushed
    next => exact sized.emptied index

theorem Sized.switch (sized : Sized db)
    (free : (db.memtables db.nextIdx).status = .flushed) (epoch : Nat) :
    Sized (db.switch epoch) := by
  have ne : db.nextIdx ≠ db.mutMemtableIdx := by
    intro same
    rw [same] at free
    cases sized.asserted.2.symm.trans free
  have tables := fun index => switch_memtables ne epoch index
  refine ⟨⟨Nat.mod_lt _ (Nat.zero_lt_of_lt sized.asserted.1), ?_⟩, ?_, ?_⟩
  · rw [current, tables]
    exact congrArg MemTable.status (if_pos rfl)
  · intro index
    rw [tables]
    split
    next => exact ⟨(sized.accounts db.nextIdx).size_eq, (sized.accounts db.nextIdx).le⟩
    next =>
      split
      next => exact ⟨(sized.accounts db.mutMemtableIdx).size_eq, (sized.accounts _).le⟩
      next => exact sized.accounts index
  · intro index
    rw [tables]
    split
    next => simp
    next =>
      split
      next => simp
      next => exact sized.emptied index

theorem Accounts.flush {cacheOptions : CacheOptions} {table : MemTable}
    (accounts : Accounts cacheOptions table) (epoch : Nat) :
    Accounts cacheOptions (table.flush epoch) := by
  unfold MemTable.flush
  split
  next => exact ⟨rfl, Nat.zero_le _⟩
  next => exact accounts

theorem Sized.clear (sized : Sized db) (cleared : db.clear epoch = some next) : Sized next := by
  unfold MemTableDB.clear at cleared
  rw [if_pos sized.asserted.1] at cleared
  have front := flushAll_apply epoch db.memtables
    ((List.range' 1 (db.cacheOptions.numWriteBuffers - 1)).map db.back)
  cases cleared
  refine ⟨⟨sized.asserted.1, ?_⟩, ?_, ?_⟩
  · dsimp only [current]
    rw [front]
    split
    next => simp [MemTable.flush, show (db.memtables _).status = _ from sized.asserted.2]
    next => exact sized.asserted.2
  · intro index
    dsimp only
    rw [front]
    split
    next => exact (sized.accounts index).flush epoch
    next => exact sized.accounts index
  · intro index
    dsimp only
    rw [front]
    split
    next =>
      unfold MemTable.flush
      split
      next => exact fun _ => rfl
      next => exact sized.emptied index
    next => exact sized.emptied index

theorem Sized.current_switch (sized : Sized db)
    (free : (db.memtables db.nextIdx).status = .flushed) (epoch : Nat) :
    (db.switch epoch).current.sizeInBytes = 0 := by
  have ne : db.nextIdx ≠ db.mutMemtableIdx := by
    intro same
    rw [same] at free
    cases sized.asserted.2.symm.trans free
  rw [current, switch_memtables ne]
  exact (congrArg MemTable.sizeInBytes (if_pos rfl)).trans (sized.emptied _ free)

theorem Sized.call (sized : Sized db) {label : Call} (refused : db.Refused label)
    {res : CacheResult} {called : Option Nat}
    (called' : db.call label = some (next, res, called)) : Sized next := by
  cases known : label.entry? with
  | some entry =>
    cases (writes_of_call known called').2 with
    | full => exact sized
    | switches _ free =>
      refine (sized.switch free entry.epoch).insert ?_
      rw [sized.current_switch free, Nat.zero_add]
      by_contra oversized
      exact refused entry known (not_le.mp oversized) free
    | stays fits => exact sized.insert (not_lt.mp (of_decide_eq_false fits))
  | none =>
    cases label with
    | upsert | delete => cases known
    | clear epoch =>
      obtain ⟨cleared, taken, same⟩ := Option.map_eq_some_iff.mp called'
      cases same
      exact sized.clear taken

theorem sized_of_reachable (reached : Reachable step Refused Initial db) : Sized db := by
  refine @Reachable.invariant _ _ step Refused Initial Sized ?_ ?_ _ reached
  · rintro db ⟨cacheOptions, some, rfl | rfl⟩
    · exact .new some
    · exact ⟨(Sized.new some).asserted, (Sized.new some).accounts, (Sized.new some).emptied⟩
  · intro db next label sized refused taken
    obtain ⟨⟨written, res, called⟩, called', rfl⟩ := Option.map_eq_some_iff.mp taken
    exact sized.call refused called'

/-- The sizes are right while every entry that is too big is refused, and exactly then the
next one is. -/
theorem sizes_accounted (reached : Reachable step Refused Initial db) :
    (∀ index, Accounts db.cacheOptions (db.memtables index)) ∧
      ∀ label entry, label.entry? = some entry →
        db.cacheOptions.writeBufferSize < entry.size →
        ∃ next result called, db.call label = some (next, result, called) ∧
          (result = .cacheIsFull ∧ next = db ↔ db.Refused label) := by
  have sized := sized_of_reachable reached
  refine ⟨sized.accounts, ?_⟩
  intro label entry known oversized
  obtain ⟨next, result, called, taken⟩ := exists_call sized.asserted label
  refine ⟨next, result, called, taken, ?_⟩
  have same : ∀ other ∈ label.entry?, other = entry :=
    fun other here => Option.some.inj (here.symm.trans known)
  cases (writes_of_call known taken).2 with
  | full _ taken' =>
    refine iff_of_true ⟨rfl, rfl⟩ ?_
    exact fun _ _ _ => taken'
  | switches _ free =>
    refine iff_of_false (by simp) ?_
    exact fun refused => refused entry known oversized free
  | stays fits =>
    have := of_decide_eq_false fits
    omega

/-- Both memtables are full, and an entry that fits in none of them is refused. -/
theorem sizes_accounted_switched : ∃ db : MemTableDB, Reachable step Refused Initial db ∧
    ((db.memtables 0).sizeInBytes = 10 ∧ (db.memtables 1).sizeInBytes = 10) ∧
    (∀ index, Accounts db.cacheOptions (db.memtables index)) ∧
    ∃ next called, db.call (.upsert [1, 2] [] 1) = some (next, .cacheIsFull, called) ∧
      next = db := by
  obtain ⟨db, reached, passed⟩ := @exists_reachable_of_run _ _ step Refused Initial _ (new ⟨2, 10⟩)
    ⟨⟨2, 10⟩, by decide, .inl rfl⟩ [.upsert [1] [] 1, .upsert [2] [] 1]
    (fun db => decide (((db.memtables 0).sizeInBytes = 10 ∧ (db.memtables 1).sizeInBytes = 10) ∧
      db.cacheOptions.writeBufferSize = 10 ∧ db.Refused (.upsert [1, 2] [] 1)))
    (by decide +kernel)
  obtain ⟨full, limit, refused⟩ := of_decide_eq_true passed
  obtain ⟨accounts, refuses⟩ := sizes_accounted reached
  obtain ⟨next, result, called, taken, answered⟩ :=
    refuses (.upsert [1, 2] [] 1) ⟨[1, 2], [], 1, false⟩ rfl (by rw [limit]; decide)
  obtain ⟨rfl, rfl⟩ := answered.mpr refused
  exact ⟨_, reached, full, accounts, _, called, taken, rfl⟩

/-- An entry that is too big for a memtable goes to the next one. -/
theorem oversized_entry_written : ∃ next : MemTableDB, ∃ called,
    (new ⟨2, 1⟩).call (.upsert [] [] 1) = some (next, .ok, called) ∧
      (next.memtables 1).sizeInBytes = 9 := by
  refine ⟨_, _, rfl, ?_⟩
  decide +kernel

/-! ## Garbage collection by callback -/

/-- A call of a client that reacts to the callback by a `clear` with the epoch it was given. -/
def react (db : MemTableDB) (label : Call) : Option (MemTableDB × CacheResult × Option Nat) :=
  match db.call label with
  | none => none
  | some (next, result, none) => some (next, result, none)
  | some (next, result, some epoch) =>
    (next.clear epoch).map fun cleared => (cleared, result, some epoch)

def reactStep (db : MemTableDB) (label : Call) : Option MemTableDB :=
  (db.react label).map Prod.fst

/-- What is known of the writes: their epochs do not decrease, and each of them fits. -/
def Fits (db : MemTableDB) (label : Call) : Prop :=
  db.Rises label ∧ ∀ entry ∈ label.entry?, entry.size ≤ db.cacheOptions.writeBufferSize

/-- The memtable that a write freezes holds no later epoch than the next one, when that was
mutable last. -/
def Covered (db : MemTableDB) (label : Call) : Prop :=
  ∀ entry ∈ label.entry?, db.overflows entry = true →
    db.current.latestEpoch ≤ (db.memtables db.nextIdx).latestEpoch

instance (db : MemTableDB) (label : Call) : Decidable (db.Fits label ∧ db.Covered label) :=
  inferInstanceAs (Decidable ((_ ∧ ∀ entry ∈ label.entry?, _) ∧ ∀ entry ∈ label.entry?, _ → _))

def InitialRegistered (db : MemTableDB) : Prop :=
  ∃ cacheOptions, 2 ≤ cacheOptions.numWriteBuffers ∧ db = (new cacheOptions).registerGcCallback

structure Collected (db : MemTableDB) : Prop where
  ring : Ring db 0
  several : 2 ≤ db.cacheOptions.numWriteBuffers
  registered : db.gcCallback = true

theorem Collected.free (collected : Collected db) :
    (db.memtables db.nextIdx).status = .flushed := by
  have several := collected.several
  rw [← back_last collected.ring.bound]
  exact (collected.ring.flushed _ (by omega) (by omega)).1

/-- The callback is given the epoch of the memtable that is reused. -/
theorem Collected.writes (collected : Collected db) {label : Call}
    (known : label.entry? = some entry)
    {res : CacheResult} {called : Option Nat}
    (taken : db.call label = some (next, res, called)) :
    res = .ok ∧ (db.overflows entry = false ∧ next = db.insert entry ∧ called = none ∨
      db.overflows entry = true ∧ next = (db.switch entry.epoch).insert entry ∧
        called = some (db.memtables db.nextIdx).latestEpoch) := by
  cases (writes_of_call known taken).2 with
  | full _ taken' => exact absurd collected.free taken'
  | switches overflows free =>
    refine ⟨rfl, .inr ⟨overflows, rfl, ?_⟩⟩
    rw [if_pos collected.registered, collected.ring.switch_current free]
  | stays fits => exact ⟨rfl, .inl ⟨fits, rfl, rfl⟩⟩

theorem Collected.frozen_eq (collected : Collected db) (entry : MemTableEntry) :
    ((db.switch entry.epoch).insert entry).back 1 = db.mutMemtableIdx ∧
      (((db.switch entry.epoch).insert entry).memtables
        (((db.switch entry.epoch).insert entry).back 1)).latestEpoch = db.current.latestEpoch := by
  have several := collected.several
  rw [@Ring.switch_back db 0 0 collected.ring collected.free entry (by omega), if_pos rfl]
  refine ⟨?_, rfl⟩
  rw [@back_succ_of_next db ((db.switch entry.epoch).insert entry) collected.ring.bound rfl rfl 0
    (by omega), back_zero collected.ring.bound]

/-- The `clear` of the callback flushes the frozen memtable if it is given an epoch that
covers it. -/
theorem Collected.flushes_iff (collected : Collected db) (rises : db.latestEpoch ≤ entry.epoch)
    {cleared : MemTableDB}
    (taken : ((db.switch entry.epoch).insert entry).clear epoch = some cleared) :
    ((cleared.memtables db.mutMemtableIdx).status = .flushed ↔
        db.current.latestEpoch ≤ epoch) ∧
      (db.current.latestEpoch ≤ epoch → Ring cleared 0) := by
  obtain ⟨kept, le, ring, flushes⟩ :=
    (collected.ring.switch collected.free rises).clear taken
  obtain ⟨_, memtables, rfl, _⟩ := clear_eq taken
  have flushes := flushes 1 (by omega) (by omega)
  obtain ⟨place, latest⟩ := collected.frozen_eq entry
  rw [latest] at flushes
  rw [← flushes]
  constructor
  · rw [← place]
    constructor
    · intro flushed
      by_contra within
      cases (ring.immutable 1 (by omega) (by omega)).symm.trans flushed
    · exact fun beyond => (ring.flushed 1 beyond
        ((collected.ring.switch collected.free rises).inside)).1
  · intro beyond
    obtain rfl : kept = 0 := by omega
    exact ring

theorem collected_of_reachable
    (reached : Reachable reactStep (fun db label => db.Fits label ∧ db.Covered label)
      InitialRegistered db) : Collected db := by
  refine @Reachable.invariant _ _ reactStep _ InitialRegistered Collected ?_ ?_ _ reached
  · rintro db ⟨cacheOptions, several, rfl⟩
    exact ⟨(Ring.new (by omega)).registered, several, rfl⟩
  · rintro db next label collected ⟨⟨rises, _⟩, covered⟩ taken
    obtain ⟨⟨reacted, res, called⟩, reacts, rfl⟩ := Option.map_eq_some_iff.mp taken
    unfold react at reacts
    cases known : label.entry? with
    | none =>
      cases label with
      | upsert | delete => cases known
      | clear epoch =>
        simp only [MemTableDB.call] at reacts
        cases cleared : db.clear epoch with
        | none =>
          rw [cleared] at reacts
          cases reacts
        | some cleared' =>
          rw [cleared] at reacts
          cases reacts
          obtain ⟨kept, le, ring, _⟩ := collected.ring.clear cleared
          obtain rfl : kept = 0 := by omega
          obtain ⟨_, _, rfl, _⟩ := clear_eq cleared
          exact ⟨ring, collected.several, collected.registered⟩
    | some entry =>
      have later := rises entry known
      split at reacts
      next => cases reacts
      next _ _ ran =>
        cases reacts
        obtain ⟨-, ⟨_, rfl, _⟩ | ⟨_, _, gone⟩⟩ := collected.writes known ran
        · exact ⟨collected.ring.insert later, collected.several, collected.registered⟩
        · cases gone
      next _ _ epoch ran =>
        obtain ⟨cleared, clears, same⟩ := Option.map_eq_some_iff.mp reacts
        cases same
        obtain ⟨-, ⟨_, _, gone⟩ | ⟨overflows, rfl, given⟩⟩ := collected.writes known ran
        · cases gone
        · cases given
          have ring := (collected.flushes_iff later clears).2 (covered entry known overflows)
          obtain ⟨_, _, rfl, _⟩ := clear_eq clears
          exact ⟨ring, collected.several, collected.registered⟩

/-- No write finds the cache full, and the `clear` of the callback flushes the memtable that
was frozen exactly if the next one has seen its epochs. -/
theorem callback_collects
    (reached : Reachable reactStep (fun db label => db.Fits label ∧ db.Covered label)
      InitialRegistered db) {label : Call} (known : label.entry? = some entry)
    (fits : db.Fits label) :
    ∃ next called, db.call label = some (next, .ok, called) ∧
      ∀ epoch, called = some epoch → ∃ cleared, next.clear epoch = some cleared ∧
        ((cleared.memtables db.mutMemtableIdx).status = .flushed ↔ db.Covered label) := by
  have collected := collected_of_reachable reached
  obtain ⟨next, result, called, taken⟩ :=
    exists_call ⟨collected.ring.bound, collected.ring.mutable⟩ label
  obtain ⟨rfl, wrote⟩ := collected.writes known taken
  refine ⟨next, called, taken, ?_⟩
  rintro epoch rfl
  obtain ⟨_, _, gone⟩ | ⟨overflows, rfl, given⟩ := wrote
  · cases gone
  · cases given
    obtain ⟨cleared, _, _, clears⟩ := exists_call
      ⟨(collected.ring.switch collected.free (fits.1 entry known)).bound,
        (collected.ring.switch collected.free (fits.1 entry known)).mutable⟩
      (.clear (db.memtables db.nextIdx).latestEpoch)
    obtain ⟨cleared, clears, _⟩ := Option.map_eq_some_iff.mp clears
    refine ⟨cleared, clears, (collected.flushes_iff (fits.1 entry known) clears).1.trans ?_⟩
    constructor
    · rintro covers other here -
      cases here.symm.trans known
      exact covers
    · exact fun covered => covered entry known overflows

/-- All writes are of epoch 0. -/
theorem callback_collects_zero : ∃ db : MemTableDB,
    Reachable reactStep (fun db label => db.Fits label ∧ db.Covered label) InitialRegistered db ∧
      db.mutMemtableIdx = 1 ∧ ∃ next called,
        db.call (.upsert [] [] 0) = some (next, .ok, called) ∧
        ∀ epoch, called = some epoch → ∃ cleared, next.clear epoch = some cleared ∧
          ((cleared.memtables db.mutMemtableIdx).status = .flushed ↔
            db.Covered (.upsert [] [] 0)) := by
  obtain ⟨db, reached, passed⟩ := @exists_reachable_of_run _ _ reactStep
    (fun db label => db.Fits label ∧ db.Covered label) InitialRegistered _
    (new smallOptions).registerGcCallback ⟨smallOptions, by decide, rfl⟩
    [.upsert [] [] 0, .upsert [] [] 0]
    (fun db => decide (db.mutMemtableIdx = 1 ∧ db.Fits (.upsert [] [] 0) ∧
      db.Covered (.upsert [] [] 0))) (by decide +kernel)
  obtain ⟨moved, fits, _⟩ := of_decide_eq_true passed
  exact ⟨db, reached, moved, callback_collects reached rfl fits⟩

/-- The second write freezes the first memtable, the callback is given epoch 0, and the third
write finds the cache full. -/
theorem callback_given_stale_epoch : ∃ db : MemTableDB,
    Reachable reactStep (fun db label => db.Fits label) InitialRegistered db ∧
      db.Fits (.upsert [] [] 1) ∧ (db.memtables 0).status = .immutable ∧
      ∃ next called, db.call (.upsert [] [] 1) = some (next, .cacheIsFull, called) := by
  obtain ⟨db, reached, passed⟩ := @exists_reachable_of_run _ _ reactStep
    (fun db label => db.Fits label) InitialRegistered
    (fun db label => inferInstanceAs (Decidable (_ ∧ ∀ entry ∈ label.entry?, _)))
    (new smallOptions).registerGcCallback ⟨smallOptions, by decide, rfl⟩
    [.upsert [] [] 1, .upsert [] [] 1]
    (fun db => decide ((∀ entry ∈ Call.entry? (.upsert [] [] 1), db.latestEpoch ≤ entry.epoch) ∧
      (∀ entry ∈ Call.entry? (.upsert [] [] 1), entry.size ≤ db.cacheOptions.writeBufferSize) ∧
      (db.memtables 0).status = .immutable ∧
      (db.call (.upsert [] [] 1)).map (fun written => written.2.1) = some .cacheIsFull))
    (by decide +kernel)
  obtain ⟨rises, fits, frozen, full⟩ := of_decide_eq_true passed
  obtain ⟨⟨next, result, called⟩, taken, rfl⟩ := Option.map_eq_some_iff.mp full
  exact ⟨db, reached, ⟨rises, fits⟩, frozen, next, called, taken⟩

end MemTableDB

end Sangria.RangeServer
