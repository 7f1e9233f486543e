import Sangria.RangeServer.Cache.Ring

/-!
# Point-in-time reads of the cache

The writes are recorded with the memtable they went to, until that is cleared.
The loop of `get` goes backwards in time, so the first memtable with a version
that is old enough has the latest one of them.
-/

namespace Sangria.RangeServer

namespace MemTableDB

open TransitionSystem

variable {db next : MemTableDB} {entry start : MemTableEntry} {frozen distance : Nat}

/-! ## One memtable -/

/-- A version of the key that is old enough. -/
def Matches (start entry : MemTableEntry) : Prop :=
  entry.key = start.key ∧ entry.epoch ≤ start.epoch

theorem matches_of_le (le : start.Le entry) (same : entry.key = start.key) :
    Matches start entry := by
  rcases le with less | ⟨_, older⟩
  · exact absurd (same ▸ less) (List.lt_irrefl _)
  · exact ⟨same, older⟩

theorem find?_least {entries : List MemTableEntry} (sorted : entries.Pairwise MemTableEntry.Le)
    {found other : MemTableEntry} (here : entries.find? (fun entry => start.Le entry) = some found)
    (member : other ∈ entries) (above : start.Le other) : found = other ∨ found.Le other := by
  induction entries with
  | nil => cases member
  | cons first rest ih =>
    obtain ⟨least, sorted⟩ := List.pairwise_cons.mp sorted
    rw [List.find?_cons] at here
    split at here
    next =>
      cases here
      rcases List.mem_cons.mp member with rfl | later
      · exact .inl rfl
      · exact .inr (least other later)
    next below =>
      rcases List.mem_cons.mp member with rfl | later
      · exact absurd above (of_decide_eq_false below)
      · exact ih sorted here later

theorem mem_of_lowerBound {table : MemTable} {found : MemTableEntry}
    (here : table.lowerBound start = some found) : start.Le found ∧ found ∈ table.entries :=
  ⟨by simpa using List.find?_some here, List.mem_of_find?_eq_some here⟩

/-- A memtable with a version that is old enough returns the latest one of them. -/
theorem lowerBound_of_matches {table : MemTable} (bounded : Bounded table)
    (member : entry ∈ table.entries) (older : Matches start entry) :
    ∃ found, table.lowerBound start = some found ∧ found ∈ table.entries ∧
      Matches start found ∧ entry.epoch ≤ found.epoch := by
  have above : start.Le entry := .inr ⟨older.1.symm, older.2⟩
  cases here : table.lowerBound start with
  | none => exact absurd (decide_eq_true above) (List.find?_eq_none.mp here entry member)
  | some found =>
    obtain ⟨above', member'⟩ := mem_of_lowerBound here
    refine ⟨found, rfl, member', ?_⟩
    rcases find?_least bounded.sorted here member above with rfl | least
    · exact ⟨older, le_rfl⟩
    · rcases least with less | ⟨same, later⟩
      · rcases above' with less' | ⟨same', _⟩
        · exact absurd (List.lt_trans less' (older.1 ▸ less)) (List.lt_irrefl _)
        · exact absurd (same' ▸ older.1 ▸ less) (List.lt_irrefl _)
      · exact ⟨matches_of_le above' (same.trans older.1), later⟩

/-! ## The loop over the memtables -/

/-- What the loop returns: the latest version in the first memtable that has one. -/
structure Latest (db : MemTableDB) (start : MemTableEntry) (first : Nat)
    (found : MemTableEntry) (distance : Nat) : Prop where
  after : first ≤ distance
  member : found ∈ (db.memtables (db.back distance)).entries
  older : Matches start found
  latest : ∀ entry ∈ (db.memtables (db.back distance)).entries, Matches start entry →
    entry.epoch ≤ found.epoch
  none : ∀ earlier, first ≤ earlier → earlier < distance →
    ∀ entry ∈ (db.memtables (db.back earlier)).entries, ¬ Matches start entry

/-- The result of the loop from the memtable at `first` on. -/
def Scanned (db : MemTableDB) (frozen : Nat) (start : MemTableEntry) (first : Nat) :
    Option MemTableEntry → Prop
  | some found => ∃ distance ≤ frozen, Latest db start first found distance
  | none => ∀ distance, first ≤ distance → distance ≤ frozen →
      ∀ entry ∈ (db.memtables (db.back distance)).entries, ¬ Matches start entry

theorem Scanned.earlier {first : Nat} {res : Option MemTableEntry}
    (scanned : Scanned db frozen start (first + 1) res)
    (without : ∀ entry ∈ (db.memtables (db.back first)).entries, ¬ Matches start entry) :
    Scanned db frozen start first res := by
  cases res with
  | some found =>
    obtain ⟨distance, within, latest⟩ := scanned
    refine ⟨distance, within, by have := latest.after; omega, latest.member, latest.older,
      latest.latest, ?_⟩
    intro earlier after before
    by_cases same : earlier = first
    · exact same ▸ without
    · exact latest.none earlier (by omega) before
  | none =>
    intro distance after within
    by_cases same : distance = first
    · exact same ▸ without
    · exact scanned distance (by omega) within

theorem Ring.scan_spec (ring : Ring db frozen) (start : MemTableEntry) (count : Nat) :
    ∀ first, first + count = db.cacheOptions.numWriteBuffers →
      Scanned db frozen start first (db.scan start (List.range' first count)) := by
  have inside := ring.inside
  induction count with
  | zero =>
    intro first all distance after within
    omega
  | succ count ih =>
    intro first all
    have goesOn := (ih (first + 1) (by omega)).earlier
    rw [List.range'_succ, scan]
    by_cases within : first ≤ frozen
    · have bounded := ring.bounded first within
      rw [if_neg]
      · split
        next =>
          split
          next found here =>
            split
            next same =>
              obtain ⟨above, member⟩ := mem_of_lowerBound here
              refine ⟨first, within, le_rfl, member, matches_of_le above same, ?_, by omega⟩
              intro entry member' older
              obtain ⟨found', here', _, _, later⟩ := lowerBound_of_matches bounded member' older
              cases here.symm.trans here'
              exact later
            next ne =>
              refine goesOn ?_
              intro entry member older
              obtain ⟨found', here', _, older', _⟩ := lowerBound_of_matches bounded member older
              cases here.symm.trans here'
              exact ne older'.1
          next here =>
            refine goesOn ?_
            intro entry member older
            obtain ⟨found', here', _⟩ := lowerBound_of_matches bounded member older
            cases here.symm.trans here'
        next recent =>
          refine goesOn ?_
          intro entry member older
          have := (bounded.epochs entry member).1
          exact recent (this.trans older.2)
      · by_cases front : first = 0
        · rw [front, ring.current_eq, ring.mutable]
          simp
        · rw [ring.immutable first (by omega) within]
          simp
    · rw [if_pos (ring.flushed first (by omega) (by omega)).1]
      intro distance after within'
      omega

/-- The versions of the memtables further back are older. -/
theorem Ring.epoch_le (ring : Ring db frozen) {further : Nat} (before : distance < further)
    (within : further ≤ frozen) {older : MemTableEntry}
    (member : entry ∈ (db.memtables (db.back distance)).entries)
    (member' : older ∈ (db.memtables (db.back further)).entries) : older.epoch ≤ entry.epoch := by
  calc older.epoch
      ≤ (db.memtables (db.back further)).latestEpoch :=
        ((ring.bounded further within).epochs older member').2
    _ ≤ (db.memtables (db.back (distance + 1))).latestEpoch :=
        ring.latestEpoch_le before within
    _ ≤ (db.memtables (db.back distance)).oldestEpoch := ring.ordered distance (by omega)
    _ ≤ entry.epoch := ((ring.bounded distance (by omega)).epochs entry member).1

theorem Ring.exists_distance (ring : Ring db frozen) {index : Nat}
    (inside : index < db.cacheOptions.numWriteBuffers)
    (member : entry ∈ (db.memtables index).entries) :
    ∃ distance ≤ frozen, db.back distance = index := by
  obtain ⟨distance, within, rfl⟩ := exists_back ring.bound inside
  refine ⟨distance, ?_, rfl⟩
  by_contra beyond
  rw [(ring.flushed distance (by omega) within).2.1] at member
  cases member

/-- The loop finds the latest of the versions that are old enough, wherever they are. -/
theorem Ring.scan_eq (ring : Ring db frozen) (start : MemTableEntry) :
    match db.scan start (List.range db.cacheOptions.numWriteBuffers) with
    | some found => Matches start found ∧
        (∃ index < db.cacheOptions.numWriteBuffers, found ∈ (db.memtables index).entries) ∧
        ∀ index < db.cacheOptions.numWriteBuffers, ∀ entry ∈ (db.memtables index).entries,
          Matches start entry → entry.epoch ≤ found.epoch
    | none => ∀ index < db.cacheOptions.numWriteBuffers, ∀ entry ∈ (db.memtables index).entries,
        ¬ Matches start entry := by
  have spec := ring.scan_spec start db.cacheOptions.numWriteBuffers 0 (Nat.zero_add _)
  rw [List.range_eq_range']
  split
  next found here =>
    rw [here] at spec
    obtain ⟨distance, within, latest⟩ := spec
    refine ⟨latest.older, ⟨_, back_lt ring.bound distance, latest.member⟩, ?_⟩
    intro index inside entry member older
    obtain ⟨other, within', rfl⟩ := ring.exists_distance inside member
    rcases lt_trichotomy other distance with before | rfl | after
    · exact absurd older (latest.none other (by omega) before entry member)
    · exact latest.latest entry member older
    · exact ring.epoch_le after within' latest.member member
  next here =>
    rw [here] at spec
    intro index inside entry member
    obtain ⟨distance, within, rfl⟩ := ring.exists_distance inside member
    exact spec distance (by omega) within entry member

end MemTableDB

/-! ## The recorded writes -/

/-- The cache with all writes that were called for, and those that were made to a memtable that
was not cleared since. -/
structure RecordedCache where
  db : MemTableDB
  issued : List (Bytes × Nat)
  writes : List (Nat × MemTableEntry)

namespace RecordedCache

open TransitionSystem MemTableDB

variable {cache next : RecordedCache}

def step (cache : RecordedCache) (label : Call) : Option RecordedCache :=
  match cache.db.call label with
  | none => none
  | some (db, result, _) =>
    match label.entry? with
    | some entry =>
      some
        { db
          issued := (entry.key, entry.epoch) :: cache.issued
          writes :=
            if result = .ok then (db.mutMemtableIdx, entry) :: cache.writes else cache.writes }
    | none =>
      some
        { cache with
          db
          writes := cache.writes.filter fun write => (db.memtables write.1).status ≠ .flushed }

def Initial (cache : RecordedCache) : Prop :=
  cache.db.Initial ∧ cache.issued = [] ∧ cache.writes = []

/-- The write epochs never decrease, and they increase for each key. -/
def Ordered (cache : RecordedCache) (label : Call) : Prop :=
  ∀ entry ∈ label.entry?, ∀ write ∈ cache.issued,
    write.2 ≤ entry.epoch ∧ (write.1 = entry.key → write.2 < entry.epoch)

instance (cache : RecordedCache) (label : Call) : Decidable (cache.Ordered label) :=
  inferInstanceAs (Decidable (∀ entry ∈ label.entry?, ∀ write ∈ cache.issued, _))

structure Tells (cache : RecordedCache) : Prop where
  ring : ∃ frozen, Ring cache.db frozen
  latest : ∀ epoch, (∀ write ∈ cache.issued, write.2 ≤ epoch) → cache.db.latestEpoch ≤ epoch
  inside : ∀ write ∈ cache.writes, write.1 < cache.db.cacheOptions.numWriteBuffers
  live : ∀ index < cache.db.cacheOptions.numWriteBuffers, ∀ entry,
    entry ∈ (cache.db.memtables index).entries ↔ (index, entry) ∈ cache.writes
  issued : ∀ write ∈ cache.writes, (write.2.key, write.2.epoch) ∈ cache.issued
  distinct : ∀ write ∈ cache.writes, ∀ other ∈ cache.writes, write.2.key = other.2.key →
    write.2.epoch = other.2.epoch → write = other

theorem Tells.initial (started : cache.Initial) : Tells cache := by
  obtain ⟨db, issued, writes⟩ := cache
  obtain ⟨⟨cacheOptions, some, new⟩, rfl, rfl⟩ := started
  have empty : ∀ index, (db.memtables index).entries = [] ∧ db.latestEpoch = 0 := by
    intro index
    rcases new with rfl | rfl
    all_goals
      refine ⟨?_, rfl⟩
      simp only [MemTableDB.registerGcCallback, MemTableDB.new]
      split <;> rfl
  refine ⟨?_, fun _ _ => by simp [(empty 0).2], by simp, by simp [empty], by simp, by simp⟩
  rcases new with rfl | rfl
  · exact ⟨0, .new some⟩
  · exact ⟨0, (Ring.new some).registered⟩

/-- A write that was made goes to the memtable that is mutable afterwards. -/
theorem entries_of_writes {db written : MemTableDB} {entry : MemTableEntry} {frozen : Nat}
    {called : Option Nat} (ring : Ring db frozen) (writes : db.Writes entry written .ok called)
    {index : Nat} (inside : index < db.cacheOptions.numWriteBuffers) (other : MemTableEntry) :
    other ∈ (written.memtables index).entries ↔
      (index = written.mutMemtableIdx ∧ other = entry) ∨ other ∈ (db.memtables index).entries := by
  have inserts (opened : MemTableDB)
      (same : (opened.memtables index).entries = (db.memtables index).entries) :
      other ∈ ((opened.insert entry).memtables index).entries ↔
        (index = opened.mutMemtableIdx ∧ other = entry) ∨ other ∈ (db.memtables index).entries := by
    simp only [MemTableDB.insert, Function.update_apply]
    split
    next here =>
      subst here
      rw [MemTable.insert, List.mem_orderedInsert, MemTableDB.current, same]
      simp
    next ne => simp [ne, same]
  cases writes with
  | switches _ free =>
    refine inserts _ ?_
    rw [switch_memtables (ring.nextIdx_ne free)]
    split
    next here => rw [here]
    next =>
      split
      next here => rw [here, MemTableDB.current]
      next => rfl
  | stays => exact inserts db rfl

theorem cacheOptions_of_writes {db written : MemTableDB} {entry : MemTableEntry}
    {res : CacheResult} {called : Option Nat} (writes : db.Writes entry written res called) :
    written.cacheOptions = db.cacheOptions ∧ (res = .ok → written.latestEpoch = entry.epoch) := by
  cases writes with
  | full => exact ⟨rfl, by simp⟩
  | switches | stays => exact ⟨rfl, fun _ => rfl⟩

theorem Tells.write (tells : Tells cache) {label : Call} {entry : MemTableEntry}
    (ordered : cache.Ordered label) (known : label.entry? = some entry) {db : MemTableDB}
    {called : Option Nat} (taken : cache.db.call label = some (db, .ok, called)) :
    Tells ⟨db, (entry.key, entry.epoch) :: cache.issued,
      (db.mutMemtableIdx, entry) :: cache.writes⟩ := by
  obtain ⟨frozen, ring⟩ := tells.ring
  have ordered := ordered entry known
  have rises : cache.db.Rises label := by
    intro other here
    cases here.symm.trans known
    exact tells.latest entry.epoch fun write issued => (ordered write issued).1
  have writes := (writes_of_call known taken).2
  obtain ⟨options, latest⟩ := cacheOptions_of_writes writes
  obtain ⟨frozen', ring'⟩ := ring.call rises taken
  have fresh : ∀ write ∈ cache.writes, write.2.key = entry.key → write.2.epoch ≠ entry.epoch :=
    fun write member same => ((ordered _ (tells.issued write member)).2 same).ne
  refine ⟨⟨frozen', ring'⟩, ?_, ?_, ?_, ?_, ?_⟩
  · intro epoch bounds
    rw [latest rfl]
    exact bounds _ List.mem_cons_self
  · intro write member
    rcases List.mem_cons.mp member with rfl | before
    · exact ring'.bound
    · exact options ▸ tells.inside write before
  · intro index inside other
    rw [options] at inside
    rw [entries_of_writes ring writes inside, tells.live index inside, List.mem_cons, Prod.mk.injEq]
  · intro write member
    rcases List.mem_cons.mp member with rfl | before
    · exact List.mem_cons_self
    · exact List.mem_cons_of_mem _ (tells.issued write before)
  · intro write member other member' key epoch
    rcases List.mem_cons.mp member with rfl | before <;>
      rcases List.mem_cons.mp member' with rfl | before'
    · rfl
    · exact absurd epoch.symm (fresh other before' key.symm)
    · exact absurd epoch (fresh write before key)
    · exact tells.distinct write before other before' key epoch

theorem Tells.clear (tells : Tells cache) {epoch : Nat} {db : MemTableDB}
    (cleared : cache.db.clear epoch = some db) :
    Tells { cache with
      db
      writes := cache.writes.filter fun write => (db.memtables write.1).status ≠ .flushed } := by
  obtain ⟨frozen, ring⟩ := tells.ring
  obtain ⟨kept, le, ring', _⟩ := ring.clear cleared
  obtain ⟨bound, memtables, rfl, tables⟩ := clear_eq cleared
  have kept_iff : ∀ index < cache.db.cacheOptions.numWriteBuffers,
      (memtables index).entries =
        if (memtables index).status = .flushed then [] else (cache.db.memtables index).entries := by
    intro index inside
    obtain ⟨distance, within, rfl⟩ := exists_back bound inside
    by_cases flushed : (memtables (cache.db.back distance)).status = .flushed
    · rw [if_pos flushed]
      exact (ring'.inOrder.emptied _ inside flushed).1
    · rw [if_neg flushed]
      rw [tables distance within] at flushed ⊢
      split
      next => rfl
      next later =>
        rw [if_neg later] at flushed
        unfold MemTable.flush at flushed ⊢
        split
        next flushes => simp [flushes] at flushed
        next => rfl
  refine ⟨⟨kept, ring'⟩, tells.latest, ?_, ?_, ?_, ?_⟩
  · exact fun write member => tells.inside write (List.mem_of_mem_filter member)
  · intro index inside entry
    change entry ∈ (memtables index).entries ↔ _
    rw [kept_iff index inside, List.mem_filter, ← tells.live index inside]
    split
    next flushed => simp [flushed]
    next unflushed => simp [unflushed]
  · exact fun write member => tells.issued write (List.mem_of_mem_filter member)
  · intro write member other member'
    exact tells.distinct write (List.mem_of_mem_filter member) other
      (List.mem_of_mem_filter member')

theorem Tells.step {label : Call} (tells : Tells cache) (ordered : cache.Ordered label)
    (taken : cache.step label = some next) : Tells next := by
  unfold RecordedCache.step at taken
  split at taken
  next => cases taken
  next db res called ran =>
    split at taken
    next entry known =>
      cases taken
      cases res with
      | ok => exact tells.write ordered known ran
      | cacheIsFull =>
        cases (writes_of_call known ran).2 with
        | full =>
          refine ⟨tells.ring, ?_, tells.inside, tells.live, ?_, tells.distinct⟩
          · exact fun epoch bounds =>
              tells.latest epoch fun write issued => bounds write (List.mem_cons_of_mem _ issued)
          · exact fun write member => List.mem_cons_of_mem _ (tells.issued write member)
    next known =>
      cases taken
      cases label with
      | upsert | delete => cases known
      | clear epoch =>
        obtain ⟨cleared, clears, same⟩ := Option.map_eq_some_iff.mp ran
        cases same
        exact tells.clear clears

/-- A live write to the key that is not after the epoch. -/
def Visible (cache : RecordedCache) (key : Bytes) (epoch : Nat) (write : Nat × MemTableEntry) :
    Prop :=
  write ∈ cache.writes ∧ write.2.key = key ∧ write.2.epoch ≤ epoch

theorem Tells.visible_iff (tells : Tells cache) (key : Bytes) (epoch : Option Nat)
    (write : Nat × MemTableEntry) (member : write ∈ cache.writes) :
    cache.Visible key (epoch.getD cache.db.latestEpoch) write ↔
      Matches ⟨key, [], cache.db.epochInternal epoch, false⟩ write.2 := by
  obtain ⟨frozen, ring⟩ := tells.ring
  have inside := tells.inside write member
  have listed := (tells.live _ inside write.2).mpr member
  obtain ⟨distance, within, same⟩ := ring.exists_distance inside listed
  rw [← same] at listed
  have bounds := ((ring.bounded distance within).epochs _ listed).2
  have stale := ring.stale distance (by have := ring.inside; omega)
  simp only [Visible, Matches, member, true_and]
  refine and_congr_right fun _ => ?_
  cases epoch with
  | none => rfl
  | some epoch =>
    simp only [epochInternal, Option.getD_some]
    omega

theorem reads_latest (reached : Reachable step Ordered Initial cache) (key : Bytes)
    (epoch : Option Nat) :
    (∀ write, cache.Visible key (epoch.getD cache.db.latestEpoch) write →
      (∀ other, cache.Visible key (epoch.getD cache.db.latestEpoch) other →
        other.2.epoch ≤ write.2.epoch) →
      cache.db.get key epoch =
        some (if write.2.deleted then (none, epoch.getD 0)
          else (some write.2.val, write.2.epoch))) ∧
    ((∀ write, ¬ cache.Visible key (epoch.getD cache.db.latestEpoch) write) →
      cache.db.get key epoch = some (none, epoch.getD 0)) := by
  have tells : Tells cache := by
    refine @Reachable.invariant _ _ step Ordered Initial Tells ?_ ?_ _ reached
    · exact fun cache started => .initial started
    · exact fun cache next label tells ordered taken => tells.step ordered taken
  obtain ⟨frozen, ring⟩ := tells.ring
  have scanned := ring.scan_eq ⟨key, [], cache.db.epochInternal epoch, false⟩
  unfold MemTableDB.get
  rw [if_pos ring.bound]
  have older : ∀ write, cache.Visible key (epoch.getD cache.db.latestEpoch) write →
      write.2 ∈ (cache.db.memtables write.1).entries ∧
        Matches ⟨key, [], cache.db.epochInternal epoch, false⟩ write.2 := by
    intro write visible
    exact ⟨(tells.live _ (tells.inside write visible.1) write.2).mpr visible.1,
      (tells.visible_iff key epoch write visible.1).mp visible⟩
  cases here : cache.db.scan ⟨key, [], cache.db.epochInternal epoch, false⟩
      (List.range cache.db.cacheOptions.numWriteBuffers) with
  | none =>
    rw [here] at scanned
    refine ⟨?_, fun _ => rfl⟩
    intro write visible _
    obtain ⟨listed, matched⟩ := older write visible
    exact absurd matched (scanned _ (tells.inside write visible.1) _ listed)
  | some found =>
    rw [here] at scanned
    obtain ⟨matched, ⟨index, inside, member⟩, best⟩ := scanned
    have member' := (tells.live index inside found).mp member
    have visible' := (tells.visible_iff key epoch (index, found) member').mpr matched
    refine ⟨?_, fun nothing => absurd visible' (nothing _)⟩
    intro write visible latest
    obtain ⟨listed, matched'⟩ := older write visible
    have same : (index, found) = write := by
      refine tells.distinct _ member' _ visible.1 (matched.1.trans visible.2.1.symm) ?_
      exact Nat.le_antisymm (latest _ visible')
        (best _ (tells.inside write visible.1) _ listed matched')
    cases same
    dsimp only
    split <;> rfl

/-- Two versions of a key in two memtables, the first one of which is cleared. -/
theorem reads_latest_cleared : ∃ cache : RecordedCache,
    Reachable step Ordered Initial cache ∧ cache.db.get [1] (some 2) = some (some [7], 2) ∧
      cache.db.get [1] (some 1) = some (none, 1) := by
  obtain ⟨cache, reached, passed⟩ := @exists_reachable_of_run _ _ step Ordered Initial _
    ⟨.new ⟨2, 11⟩, [], []⟩ ⟨⟨⟨2, 11⟩, by decide, .inl rfl⟩, rfl, rfl⟩
    [.upsert [1] [] 1, .upsert [1] [7] 2, .clear 1]
    (fun cache => decide (cache.writes = [(1, ⟨[1], [7], 2, false⟩)])) (by decide +kernel)
  have writes := of_decide_eq_true passed
  refine ⟨cache, reached, ?_, ?_⟩
  · refine (reads_latest reached [1] (some 2)).1 (1, ⟨[1], [7], 2, false⟩) ?_ ?_
    · exact ⟨by simp [writes], rfl, le_rfl⟩
    · rintro other ⟨member, _⟩
      simp only [writes, List.mem_singleton] at member
      exact member ▸ le_rfl
  · refine (reads_latest reached [1] (some 1)).2 ?_
    rintro write ⟨member, _, older⟩
    simp only [writes, List.mem_singleton] at member
    subst member
    simp at older

end RecordedCache

end Sangria.RangeServer
