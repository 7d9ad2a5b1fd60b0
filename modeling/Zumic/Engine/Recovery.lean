/- Recovery from the latest snapshot and the log (`recovery.rs`), over whole histories of changes,
snapshots and compactions, and the fall back of `RecoveryStrategy::Auto`. -/

import Zumic.Engine.Snapshot

namespace Zumic.Engine

open Lib Lib.ByteString
open InPersistentStore (replayEntry get_foldl_replayEntry)

inductive RecoveryStrategy where
  | aofOnly
  | snapshotPlusIncremental
  | auto
  deriving DecidableEq

/-- A manager that has been initialized. Its compaction manager may hold an index of its own,
which is not the one that is recovered. -/
structure RecoveryManager where
  recoveryStrategy : RecoveryStrategy
  config : CompactionConfig
  ownIndex : Option (ShardedIndex Bytes)

namespace RecoveryManager

def recoverFromAofOnly (logFile : Option Bytes) (index : ShardedIndex Bytes) :
    Except RecoveryError Unit × ShardedIndex Bytes :=
  match logFile with
  | none => (.ok (), index)
  | some file =>
      match AofLog.openLog file .log with
      | .error err => (.error (.aof err), index)
      | .ok log =>
          match log.replay replayEntry index with
          | .ok index => (.ok (), index)
          | .error err => (.error (.aof err), index)

/-- Loads the latest snapshot into the index of the compaction manager and replays the whole log. -/
def recoverFromSnapshotPlusAof (m : RecoveryManager) (dir : SnapshotDir) (logFile : Option Bytes)
    (index : ShardedIndex Bytes) : Except RecoveryError Unit × ShardedIndex Bytes :=
  match findLatestSnapshot m.config dir with
  | none => recoverFromAofOnly logFile index
  | some file =>
      match m.ownIndex with
      | none =>
          match loadSnapshot file index with
          | (.ok (), index) => recoverFromAofOnly logFile index
          | (.error err, index) => (.error err, index)
      | some own =>
          match loadSnapshot file own with
          | (.ok (), _) => recoverFromAofOnly logFile index
          | (.error err, _) => (.error err, index)

def recover (m : RecoveryManager) (dir : SnapshotDir) (logFile : Option Bytes)
    (index : ShardedIndex Bytes) : Except RecoveryError Unit × ShardedIndex Bytes :=
  match m.recoveryStrategy with
  | .aofOnly => recoverFromAofOnly logFile index
  | .snapshotPlusIncremental => m.recoverFromSnapshotPlusAof dir logFile index
  | .auto =>
      match m.recoverFromSnapshotPlusAof dir logFile index with
      | (.ok (), index) => (.ok (), index)
      | (.error _, index) => recoverFromAofOnly logFile index

end RecoveryManager

/-- A store with its files. A compaction puts a new file under the path of the log; the open log
goes on writing to the old one, which no path leads to. -/
structure LiveStore where
  index : ShardedIndex Bytes
  logFile : Bytes
  orphan : Option Bytes
  snapshots : SnapshotDir

inductive StoreEvent where
  | op (e : AofEntry)
  | snapshot (order : IterationOrder (Bytes × Bytes)) (timestamp : Nat)
  | compact (order : IterationOrder (Bytes × Bytes))
  | reopen

namespace LiveStore

def new (numShards : Nat) (positive : 0 < numShards) (hasher : Bytes → UInt64) : LiveStore where
  index := ShardedIndex.new numShards positive hasher
  logFile := magic
  orphan := none
  snapshots := []

def step (config : CompactionConfig) (s : LiveStore) : StoreEvent → LiveStore
  | .op e =>
      { s with
        index := replayEntry s.index e
        logFile := if s.orphan.isSome then s.logFile else s.logFile ++ record e
        orphan := s.orphan.map fun file => file ++ record e }
  | .snapshot order timestamp =>
      { s with snapshots := createSnapshot order config timestamp s.index s.snapshots }
  | .compact order =>
      { s with logFile := performCompaction order s.index, orphan := some (s.orphan.getD s.logFile) }
  | .reopen => { s with orphan := none }

/-- The data that a snapshot holds. -/
def snapshotData (file : Bytes) : Bytes → Option Bytes :=
  (loadSnapshot file (ShardedIndex.new 1 Nat.one_pos fun _ => 0)).2.get

/-- Steps that recovery copes with: nothing is changed after a compaction, and no compaction drops
the removal of a key that the latest snapshot still holds. Sizes survive the casts of the formats. -/
def Safe (config : CompactionConfig) (s : LiveStore) : StoreEvent → Prop
  | .op e => s.logFile.take 4 = magic ∧ Loggable e
  | .snapshot _ _ => s.index.entries.length < 2 ^ 64
  | .compact _ => ∀ file, findLatestSnapshot config s.snapshots = some file →
      ∀ k, snapshotData file k ≠ none → s.index.get k ≠ none
  | .reopen => True

/-- The states of the histories whose steps are all safe. -/
inductive Reached (config : CompactionConfig) : LiveStore → Prop
  | new (numShards : Nat) (positive : 0 < numShards) (hasher : Bytes → UInt64) :
      Reached config (new numShards positive hasher)
  | step {s : LiveStore} (before : Reached config s) (event : StoreEvent)
      (safe : Safe config s event) : Reached config (s.step config event)

/-- Recovery into an empty index gives the live data, with every strategy. -/
def Recovers (config : CompactionConfig) (s : LiveStore) : Prop :=
  ∀ (m : RecoveryManager) (target : ShardedIndex Bytes), m.config = config →
    (target.get = fun _ => none) →
    ∃ recovered, m.recover s.snapshots (some s.logFile) target = (.ok (), recovered) ∧
      recovered.get = s.index.get

/-- A snapshot file all of whose keys have a property. -/
def SnapshotOf (P : Bytes → Prop) (file : Bytes) : Prop :=
  ∃ (order : IterationOrder (Bytes × Bytes)) (timestamp : Nat) (index : ShardedIndex Bytes),
    file = snapshotFile order timestamp index ∧ index.Placed ∧ Storable index ∧
      ∀ k, index.get k ≠ none → P k

/-- The whole history is in the log, and snapshots hold only keys that it names. -/
structure Whole (s : LiveStore) (ops : List AofEntry) : Prop where
  file : s.logFile = AofFormat.aof2.fileOf ops
  attached : s.orphan = none
  loggable : ∀ e ∈ ops, Loggable e
  live : s.index.get = Journal.replay ops fun _ => none
  named : ∀ e ∈ s.snapshots, SnapshotOf (fun k => ∃ e ∈ ops, e.key = k) e.2

/-- The log is the data of the index, and the latest snapshot holds only keys of it. -/
structure Compacted (config : CompactionConfig) (s : LiveStore) (l : List (Bytes × Bytes)) :
    Prop where
  file : s.logFile = AofFormat.aof1.fileOf (l.map fun e => .set e.1 e.2)
  distinct : (Assoc.keys l).Nodup
  live : Assoc.get l = s.index.get
  latest : ∀ file, findLatestSnapshot config s.snapshots = some file →
    SnapshotOf (fun k => s.index.get k ≠ none) file

structure Inv (config : CompactionConfig) (s : LiveStore) : Prop where
  placed : s.index.Placed
  small : ∀ k v, s.index.get k = some v → k.length < 2 ^ 32 ∧ v.length < 2 ^ 32
  distinct : (Assoc.keys s.snapshots).Nodup
  log : (∃ ops, Whole s ops) ∨ ∃ l, Compacted config s l

end LiveStore

section

variable {m : RecoveryManager} {dir : SnapshotDir} {P : Bytes → Prop}

theorem recoverFromAofOnly_fileOf (format : AofFormat) {ops : List AofEntry}
    (loggable : ∀ e ∈ ops, Loggable e) (index : ShardedIndex Bytes) :
    RecoveryManager.recoverFromAofOnly (some (format.fileOf ops)) index =
      (.ok (), ops.foldl replayEntry index) := by
  have opened : AofLog.openLog (format.fileOf ops) .log = .ok ⟨format.fileOf ops, .log⟩ :=
    AofLog.openLog_header format _ .log
  simp only [RecoveryManager.recoverFromAofOnly, opened,
    AofLog.replay_fileOf format replayEntry .log loggable]

theorem SnapshotOf.load {file : Bytes} (snapshot : LiveStore.SnapshotOf P file)
    (target : ShardedIndex Bytes) :
    ∃ (held : Bytes → Option Bytes) (loaded : ShardedIndex Bytes),
      loadSnapshot file target = (.ok (), loaded) ∧
      (loaded.get = fun k => (held k).or (target.get k)) ∧ ∀ k, held k ≠ none → P k := by
  obtain ⟨order, timestamp, index, rfl, placed, storable, keys⟩ := snapshot
  obtain ⟨loaded, run, data⟩ := @loadSnapshot_snapshotFile order index placed storable timestamp target
  exact ⟨index.get, loaded, run, data, keys⟩

/-- Every strategy replays the log over an index that holds nothing but keys of the snapshot. -/
theorem recover_cases {logFile : Bytes} {target : ShardedIndex Bytes}
    (snapshots : ∀ file, findLatestSnapshot m.config dir = some file →
      LiveStore.SnapshotOf P file)
    (empty : target.get = fun _ => none)
    (replays : ∀ index : ShardedIndex Bytes, ∃ recovered,
      RecoveryManager.recoverFromAofOnly (some logFile) index = (.ok (), recovered)) :
    ∃ index : ShardedIndex Bytes, (∀ k, index.get k ≠ none → P k) ∧
      m.recover dir (some logFile) target =
        RecoveryManager.recoverFromAofOnly (some logFile) index := by
  have bare : ∀ k, target.get k ≠ none → P k := fun k held => absurd (congrFun empty k) held
  have combined : ∃ index : ShardedIndex Bytes, (∀ k, index.get k ≠ none → P k) ∧
      m.recoverFromSnapshotPlusAof dir (some logFile) target =
        RecoveryManager.recoverFromAofOnly (some logFile) index := by
    rw [RecoveryManager.recoverFromSnapshotPlusAof]
    cases latest : findLatestSnapshot m.config dir with
    | none => exact ⟨target, bare, rfl⟩
    | some file =>
        cases own : m.ownIndex with
        | none =>
            obtain ⟨held, loaded, run, data, keys⟩ := SnapshotOf.load (snapshots file latest) target
            refine ⟨loaded, fun k there => keys k ?_, by simp only [run]⟩
            simpa [data, empty] using there
        | some index =>
            obtain ⟨held, loaded, run, -⟩ := SnapshotOf.load (snapshots file latest) index
            exact ⟨target, bare, by simp only [run]⟩
  obtain ⟨index, keys, run⟩ := combined
  rw [RecoveryManager.recover]
  cases m.recoveryStrategy with
  | aofOnly => exact ⟨target, bare, rfl⟩
  | snapshotPlusIncremental => exact ⟨index, keys, run⟩
  | auto =>
      obtain ⟨recovered, done⟩ := replays index
      refine ⟨index, keys, ?_⟩
      simp only [run, done]

end

namespace LiveStore

variable {config : CompactionConfig} {s : LiveStore}

theorem Whole.recovers {ops : List AofEntry} (whole : Whole s ops) : Recovers config s := by
  rintro m target rfl empty
  have latest : ∀ file, findLatestSnapshot m.config s.snapshots = some file →
      SnapshotOf (fun k => ∃ e ∈ ops, e.key = k) file := by
    intro file found
    obtain ⟨t, member⟩ := mem_of_findLatestSnapshot found
    exact whole.named _ member
  have replays := recoverFromAofOnly_fileOf .aof2 whole.loggable
  rw [← whole.file] at replays
  obtain ⟨index, keys, run⟩ := recover_cases latest empty fun index => ⟨_, replays index⟩
  refine ⟨_, run.trans (replays index), ?_⟩
  -- The log settles every key that the snapshot may hold.
  rw [get_foldl_replayEntry, whole.live]
  apply Journal.replay_congr
  intro k unnamed
  by_contra held
  obtain ⟨e, member, same⟩ := keys k held
  exact unnamed e member same

theorem Compacted.loggable {l : List (Bytes × Bytes)} (compacted : Compacted config s l)
    (small : ∀ k v, s.index.get k = some v → k.length < 2 ^ 32 ∧ v.length < 2 ^ 32) :
    ∀ e ∈ l.map fun e => Journal.Entry.set e.1 e.2, Loggable e := by
  intro e member
  obtain ⟨p, among, rfl⟩ := List.mem_map.mp member
  have read := Assoc.get_of_mem compacted.distinct among
  rw [compacted.live] at read
  exact small p.1 p.2 read

theorem Compacted.recovers {l : List (Bytes × Bytes)} (compacted : Compacted config s l)
    (small : ∀ k v, s.index.get k = some v → k.length < 2 ^ 32 ∧ v.length < 2 ^ 32) :
    Recovers config s := by
  rintro m target rfl empty
  have replays := recoverFromAofOnly_fileOf .aof1 (compacted.loggable small)
  rw [← compacted.file] at replays
  obtain ⟨index, keys, run⟩ := recover_cases compacted.latest empty fun index => ⟨_, replays index⟩
  refine ⟨_, run.trans (replays index), ?_⟩
  rw [get_foldl_replayEntry, Journal.replay_sets compacted.distinct, compacted.live]
  funext k
  cases live : s.index.get k with
  | some v => rfl
  | none =>
      rw [Option.none_or]
      by_contra held
      exact keys k held live

theorem Inv.recovers (inv : Inv config s) : Recovers config s := by
  rcases inv.log with ⟨ops, whole⟩ | ⟨l, compacted⟩
  · exact whole.recovers
  · exact compacted.recovers inv.small

theorem SnapshotOf.mono {P Q : Bytes → Prop} (weaker : ∀ k, P k → Q k) {file : Bytes}
    (snapshot : SnapshotOf P file) : SnapshotOf Q file := by
  obtain ⟨order, timestamp, index, shape, placed, storable, keys⟩ := snapshot
  exact ⟨order, timestamp, index, shape, placed, storable, fun k held => weaker k (keys k held)⟩

theorem snapshotData_snapshotFile {order : IterationOrder (Bytes × Bytes)}
    {index : ShardedIndex Bytes} (placed : index.Placed) (storable : Storable index)
    (timestamp : Nat) : snapshotData (snapshotFile order timestamp index) = index.get := by
  obtain ⟨loaded, run, data⟩ := @loadSnapshot_snapshotFile order index placed storable timestamp
    (ShardedIndex.new 1 Nat.one_pos fun _ => 0)
  rw [snapshotData, run, data, ShardedIndex.get_new]
  simp

theorem SnapshotOf.data {P Q : Bytes → Prop} {file : Bytes} (snapshot : SnapshotOf P file)
    (held : ∀ k, snapshotData file k ≠ none → Q k) : SnapshotOf Q file := by
  obtain ⟨order, timestamp, index, rfl, placed, storable, -⟩ := snapshot
  rw [snapshotData_snapshotFile placed storable] at held
  exact ⟨order, timestamp, index, rfl, placed, storable, held⟩

theorem inv_new (numShards : Nat) (positive : 0 < numShards) (hasher : Bytes → UInt64) :
    Inv config (new numShards positive hasher) := by
  have none' : (new numShards positive hasher).index.get = fun _ => none :=
    ShardedIndex.get_new numShards positive hasher
  refine ⟨ShardedIndex.placed_new numShards positive hasher, ?_, List.nodup_nil, Or.inl ⟨[], rfl, rfl, ?_, none', ?_⟩⟩
  · intro k v read
    rw [none'] at read
    cases read
  · exact fun e member => absurd member List.not_mem_nil
  · exact fun e member => absurd member List.not_mem_nil

theorem get_replayEntry (index : ShardedIndex Bytes) (e : AofEntry) :
    (replayEntry index e).get = e.apply index.get :=
  get_foldl_replayEntry [e] index

theorem inv_op (inv : Inv config s) {e : AofEntry} (header : s.logFile.take 4 = magic)
    (loggable : Loggable e) : Inv config (s.step config (.op e)) := by
  obtain ⟨placed, small, distinct, log⟩ := inv
  rcases log with ⟨ops, file, attached, loggables, live, named⟩ | ⟨l, file, -⟩
  · refine ⟨?_, ?_, distinct, Or.inl ⟨ops ++ [e], ?_, ?_, ?_, ?_, ?_⟩⟩
    · cases e with
      | set key value => exact placed.insert key value
      | del key => exact placed.remove key
    · intro k v read
      rw [step, get_replayEntry] at read
      by_cases same : e.key = k
      · subst same
        cases e with
        | set key value =>
            rw [Journal.Entry.apply, Journal.Entry.key, Function.update_self] at read
            obtain rfl := Option.some.inj read
            exact loggable
        | del key =>
            rw [Journal.Entry.apply, Journal.Entry.key, Function.update_self] at read
            cases read
      · rw [Journal.Entry.apply_of_ne same] at read
        exact small k v read
    · simp [step, attached, file, AofFormat.fileOf, AofFormat.recordOf]
    · simp [step, attached]
    · intro e' member
      rcases List.mem_append.mp member with old | new
      · exact loggables e' old
      · exact List.mem_singleton.mp new ▸ loggable
    · rw [step, get_replayEntry, live, Journal.replay_append]
      rfl
    · intro snapshot member
      apply SnapshotOf.mono _ (named snapshot member)
      rintro k ⟨e', among, same⟩
      exact ⟨e', List.mem_append_left _ among, same⟩
  · have front : s.logFile.take 4 = legacyMagic := by
      rw [file]
      exact List.take_left' rfl
    rw [front] at header
    exact absurd header (by decide)

theorem inv_snapshot (inv : Inv config s) (order : IterationOrder (Bytes × Bytes))
    (timestamp : Nat) (count : s.index.entries.length < 2 ^ 64) :
    Inv config (s.step config (.snapshot order timestamp)) := by
  obtain ⟨placed, small, distinct, log⟩ := inv
  have storable : Storable s.index := by
    refine ⟨count, fun e member => ?_⟩
    have read := Assoc.get_of_mem placed.nodup_entries member
    rw [placed.get_entries] at read
    exact small e.1 e.2 read
  have fresh : ∀ P : Bytes → Prop, (∀ k, s.index.get k ≠ none → P k) →
      SnapshotOf P (snapshotFile order timestamp s.index) :=
    fun P keys => ⟨order, timestamp, s.index, rfl, placed, storable, keys⟩
  refine ⟨placed, small, nodup_createSnapshot distinct, ?_⟩
  rcases log with ⟨ops, file, attached, loggables, live, named⟩ | ⟨l, file, keys, live, latest⟩
  · refine Or.inl ⟨ops, file, attached, loggables, live, fun e member => ?_⟩
    rcases mem_createSnapshot member with new | old
    · rw [new]
      apply fresh
      intro k held
      by_contra unnamed
      rw [live] at held
      apply held
      exact Journal.replay_of_unnamed _ fun e among same => unnamed ⟨e, among, same⟩
    · exact named e old
  · refine Or.inr ⟨l, file, keys, live, fun found latest' => ?_⟩
    rcases findLatestSnapshot_createSnapshot distinct latest' with rfl | old
    · exact fresh _ fun k held => held
    · exact latest found old

theorem inv_compact (inv : Inv config s) (order : IterationOrder (Bytes × Bytes))
    (safe : ∀ file, findLatestSnapshot config s.snapshots = some file →
      ∀ k, snapshotData file k ≠ none → s.index.get k ≠ none) :
    Inv config (s.step config (.compact order)) := by
  obtain ⟨placed, small, distinct, log⟩ := inv
  obtain ⟨-, keys, live⟩ := @listed_data order s.index placed
  refine ⟨placed, small, distinct, Or.inr ⟨_, rfl, keys, live, fun file found => ?_⟩⟩
  rcases log with ⟨ops, whole⟩ | ⟨l, compacted⟩
  · obtain ⟨t, member⟩ := mem_of_findLatestSnapshot found
    exact SnapshotOf.data (whole.named _ member) (safe file found)
  · exact compacted.latest file found

theorem inv_reopen (inv : Inv config s) : Inv config (s.step config .reopen) := by
  obtain ⟨placed, small, distinct, log⟩ := inv
  refine ⟨placed, small, distinct, ?_⟩
  rcases log with ⟨ops, file, -, loggables, live, named⟩ | ⟨l, file, keys, live, latest⟩
  · exact Or.inl ⟨ops, file, rfl, loggables, live, named⟩
  · exact Or.inr ⟨l, file, keys, live, latest⟩

theorem Inv.step (inv : Inv config s) {event : StoreEvent} (safe : Safe config s event) :
    Inv config (s.step config event) := by
  cases event with
  | op e => exact inv_op inv safe.1 safe.2
  | snapshot order timestamp => exact inv_snapshot inv order timestamp safe
  | compact order => exact inv_compact inv order safe
  | reopen => exact inv_reopen inv

theorem Reached.inv (reached : Reached config s) : Inv config s := by
  induction reached with
  | new numShards positive hasher => exact inv_new numShards positive hasher
  | step before event safe ih => exact ih.step safe

/-- In every state of every history of safe steps, recovery gives the live data. -/
theorem recovers_of_reached (reached : Reached config s) : Recovers config s :=
  reached.inv.recovers

/-- A hash table that lists its entries as they came. -/
def asInserted : IterationOrder (Bytes × Bytes) := ⟨id, fun _ => List.Perm.refl _⟩

def threeSnapshots : CompactionConfig := ⟨true, 3⟩

/-- A key set and kept in a snapshot. -/
def kept : LiveStore :=
  ((new 1 Nat.one_pos fun _ => 0).step threeSnapshots (.op (.set [107] [1]))).step threeSnapshots
    (.snapshot asInserted 5)

theorem latest_kept {file : Bytes}
    (found : findLatestSnapshot threeSnapshots kept.snapshots = some file) :
    file = snapshotFile asInserted 5 kept.index := by
  obtain ⟨t, member⟩ := mem_of_findLatestSnapshot found
  have member' : (t, file) ∈ createSnapshot asInserted threeSnapshots 5 kept.index [] := member
  rcases mem_createSnapshot member' with same | none'
  · exact same
  · cases none'

/-- The key is set anew, and the log compacted between two snapshots. -/
theorem recovers_of_reached_kept :
    Recovers threeSnapshots (((kept.step threeSnapshots (.op (.set [107] [2]))).step threeSnapshots
      (.compact asInserted)).step threeSnapshots (.snapshot asInserted 6)) := by
  apply recovers_of_reached
  have one : ∀ v, ((ShardedIndex.new 1 Nat.one_pos fun _ => 0).insert [107] v :
      ShardedIndex Bytes).entries.length < 2 ^ 64 := fun _ => show 1 < 2 ^ 64 by decide
  refine Reached.step (Reached.step (Reached.step (Reached.step (Reached.step
    (Reached.new 1 Nat.one_pos fun _ => 0) (.op (.set [107] [1])) ⟨rfl, by decide⟩)
    (.snapshot asInserted 5) (one [1])) (.op (.set [107] [2])) ⟨rfl, by decide⟩)
    (.compact asInserted) ?_) (.snapshot asInserted 6) (one [2])
  intro file found k held
  obtain rfl := latest_kept found
  have placed : kept.index.Placed := (ShardedIndex.placed_new 1 Nat.one_pos _).insert _ _
  have storable : Storable kept.index := ⟨by decide, by decide⟩
  rw [snapshotData_snapshotFile placed storable] at held
  have before : kept.index.get = Function.update (fun _ => none) [107] (some [1]) := by
    rw [← ShardedIndex.get_new 1 Nat.one_pos fun _ => 0]
    exact ShardedIndex.get_insert _ _ _
  have here : k = [107] := by
    by_contra other
    rw [before, Function.update_of_ne other] at held
    exact held rfl
  subst here
  decide

/-- A key that is removed between a snapshot and a compaction comes back. -/
theorem recovers_removed_key :
    ((kept.step threeSnapshots (.op (.del [107]))).step threeSnapshots
      (.compact asInserted)).index.get [107] = none ∧
    ¬ Recovers threeSnapshots ((kept.step threeSnapshots (.op (.del [107]))).step threeSnapshots
      (.compact asInserted)) := by
  refine ⟨by decide, fun all => ?_⟩
  obtain ⟨recovered, run, same⟩ := all ⟨.auto, threeSnapshots, none⟩
    (ShardedIndex.new 1 Nat.one_pos fun _ => 0) rfl (ShardedIndex.get_new 1 Nat.one_pos _)
  have latest : findLatestSnapshot threeSnapshots kept.snapshots =
      some (snapshotFile asInserted 5 kept.index) := by
    simp [findLatestSnapshot, threeSnapshots, kept, step, new, createSnapshot, cleanupOldSnapshots,
      Assoc.insert]
  have value : (RecoveryManager.recover ⟨.auto, threeSnapshots, none⟩ kept.snapshots
      (some (performCompaction asInserted (ShardedIndex.new 1 Nat.one_pos fun _ => 0)))
      (ShardedIndex.new 1 Nat.one_pos fun _ => 0)).2.get [107] = some [1] := by
    simp only [RecoveryManager.recover, RecoveryManager.recoverFromSnapshotPlusAof, latest]
    decide +kernel
  have read := congrArg (fun r => r.2.get [107]) run
  rw [same] at read
  exact absurd (value.symm.trans read) (by decide)

end LiveStore

/-- Up to `n` entries, as far as they are whole. -/
def intactFrom : Nat → Bytes → List (Bytes × Bytes)
  | 0, _ => []
  | n + 1, b =>
      match readSnapshotEntry b with
      | .ok (e, rest) => e :: intactFrom n rest
      | .error _ => []

/-- The entries of a snapshot before the place where it breaks. -/
def intactEntries (file : Bytes) : List (Bytes × Bytes) :=
  match snapshotHeader file with
  | .ok (keyCount, rest) => intactFrom keyCount rest
  | .error _ => []

theorem loadEntries_snd (n : Nat) (b : Bytes) (index : ShardedIndex Bytes) :
    (loadEntries n b index).2 = (intactFrom n b).foldl (fun index e => index.insert e.1 e.2) index := by
  induction n generalizing b index with
  | zero => rfl
  | succ n ih =>
      rw [loadEntries, intactFrom]
      cases read : readSnapshotEntry b with
      | ok r => exact ih r.2 _
      | error err => rfl

theorem loadSnapshot_snd (file : Bytes) (index : ShardedIndex Bytes) :
    (loadSnapshot file index).2.get =
      Journal.replay ((intactEntries file).map fun e => .set e.1 e.2) index.get := by
  rw [← get_foldl_replayEntry, ← foldl_insert_eq, loadSnapshot, intactEntries]
  cases read : snapshotHeader file with
  | ok r => rw [loadEntries_snd]
  | error err => rfl

section

variable {m : RecoveryManager} {dir : SnapshotDir} {file : Bytes} {format : AofFormat}
variable {ops : List AofEntry}

theorem recover_auto (auto : m.recoveryStrategy = .auto)
    (latest : findLatestSnapshot m.config dir = some file) (loggable : ∀ e ∈ ops, Loggable e)
    (target : ShardedIndex Bytes)
    (fails : ∀ index, m.recoverFromSnapshotPlusAof dir (some (format.fileOf ops)) target ≠
      (.ok (), index)) :
    m.recover dir (some (format.fileOf ops)) target =
      (.ok (), ops.foldl replayEntry
        (if m.ownIndex.isSome then target else (loadSnapshot file target).2)) := by
  rw [RecoveryManager.recover, auto]
  simp only [RecoveryManager.recoverFromSnapshotPlusAof, latest] at fails ⊢
  cases own : m.ownIndex with
  | none =>
      rw [own] at fails
      rcases found : loadSnapshot file target with ⟨outcome, loaded⟩
      cases outcome with
      | ok u =>
          simp only [found, recoverFromAofOnly_fileOf format loggable] at fails
          exact absurd rfl (fails _)
      | error err => simp [recoverFromAofOnly_fileOf format loggable]
  | some index =>
      rw [own] at fails
      rcases found : loadSnapshot file index with ⟨outcome, loaded⟩
      cases outcome with
      | ok u =>
          simp only [found, recoverFromAofOnly_fileOf format loggable] at fails
          exact absurd rfl (fails _)
      | error err => simp [found, recoverFromAofOnly_fileOf format loggable]

/-- The log alone gives what the fall back gives exactly when it names every key that was loaded
before the snapshot broke, or when the snapshot was loaded into another index. -/
theorem fallback_iff (m : RecoveryManager) (dir : SnapshotDir) (file : Bytes) (format : AofFormat)
    (ops : List AofEntry) (target : ShardedIndex Bytes) (auto : m.recoveryStrategy = .auto)
    (latest : findLatestSnapshot m.config dir = some file) (loggable : ∀ e ∈ ops, Loggable e)
    (empty : target.get = fun _ => none)
    (fails : ∀ index, m.recoverFromSnapshotPlusAof dir (some (format.fileOf ops)) target ≠
      (.ok (), index)) :
    (∃ fallback alone, m.recover dir (some (format.fileOf ops)) target = (.ok (), fallback) ∧
      RecoveryManager.recover { m with recoveryStrategy := .aofOnly } dir
        (some (format.fileOf ops)) target = (.ok (), alone) ∧ fallback.get = alone.get) ↔
      m.ownIndex.isSome = true ∨ ∀ e ∈ intactEntries file, ∃ op ∈ ops, op.key = e.1 := by
  have start := recover_auto auto latest loggable target fails
  have alone : RecoveryManager.recover { m with recoveryStrategy := .aofOnly } dir
      (some (format.fileOf ops)) target = (.ok (), ops.foldl replayEntry target) :=
    recoverFromAofOnly_fileOf format loggable target
  rw [start, alone]
  have same : (∃ fallback alone, (Except.ok (), ops.foldl replayEntry
      (if m.ownIndex.isSome then target else (loadSnapshot file target).2)) =
        ((.ok (), fallback) : Except RecoveryError Unit × ShardedIndex Bytes) ∧
      (Except.ok (), ops.foldl replayEntry target) =
        ((.ok (), alone) : Except RecoveryError Unit × ShardedIndex Bytes) ∧
      fallback.get = alone.get) ↔
      Journal.replay ops (if m.ownIndex.isSome then target else (loadSnapshot file target).2).get =
        Journal.replay ops target.get := by
    rw [← get_foldl_replayEntry, ← get_foldl_replayEntry]
    exact ⟨fun ⟨_, _, first, second, same⟩ => by
      obtain ⟨-, rfl⟩ := Prod.mk.inj first
      obtain ⟨-, rfl⟩ := Prod.mk.inj second
      exact same, fun same => ⟨_, _, rfl, rfl, same⟩⟩
  rw [same]
  by_cases own : m.ownIndex.isSome = true
  · rw [if_pos own]
    exact ⟨fun _ => Or.inl own, fun _ => rfl⟩
  · rw [if_neg own, loadSnapshot_snd, empty]
    constructor
    · refine fun settled => Or.inr fun e member => ?_
      by_contra unnamed
      have bare : ∀ op ∈ ops, op.key ≠ e.1 := fun op among here => unnamed ⟨op, among, here⟩
      have here := congrFun settled e.1
      rw [Journal.replay_of_unnamed _ bare, Journal.replay_of_unnamed _ bare] at here
      have held := Journal.isSome_replay_sets (m := fun _ => none)
        (Or.inr (List.mem_map_of_mem (f := Prod.fst) member))
      rw [here] at held
      cases held
    · intro named
      apply Journal.replay_congr
      intro k unnamed
      apply Journal.replay_of_unnamed
      intro op member here
      obtain ⟨e, among, rfl⟩ := List.mem_map.mp member
      obtain ⟨op, listed, same⟩ := (named.resolve_left own) e among
      exact unnamed op listed (same.trans here)

/-- A snapshot of two entries that breaks after the first. -/
def brokenSnapshot : Bytes :=
  snapshotMagic ++ (beBytes 8 5 ++ (beBytes 8 2 ++ snapshotEntry ([107], [1])))

/-- The log sets the one key that the broken snapshot holds. -/
theorem fallback_iff_named :
    ∃ fallback alone, RecoveryManager.recover ⟨.auto, LiveStore.threeSnapshots, none⟩
        [(5, brokenSnapshot)] (some (AofFormat.aof2.fileOf [.set [107] [2]]))
        (ShardedIndex.new 1 Nat.one_pos fun _ => 0) = (.ok (), fallback) ∧
      RecoveryManager.recover ⟨.aofOnly, LiveStore.threeSnapshots, none⟩
        [(5, brokenSnapshot)] (some (AofFormat.aof2.fileOf [.set [107] [2]]))
        (ShardedIndex.new 1 Nat.one_pos fun _ => 0) = (.ok (), alone) ∧
      fallback.get = alone.get := by
  have latest : findLatestSnapshot LiveStore.threeSnapshots [(5, brokenSnapshot)] =
      some brokenSnapshot := by
    simp [findLatestSnapshot, LiveStore.threeSnapshots]
  refine (fallback_iff ⟨.auto, LiveStore.threeSnapshots, none⟩ [(5, brokenSnapshot)]
    brokenSnapshot .aof2 [.set [107] [2]] (ShardedIndex.new 1 Nat.one_pos fun _ => 0) rfl latest
    (by decide) (ShardedIndex.get_new 1 Nat.one_pos _) (fun index run => ?_)).mpr
    (Or.inr (by decide))
  simp only [RecoveryManager.recoverFromSnapshotPlusAof, latest] at run
  have breaks : (loadSnapshot brokenSnapshot
      (ShardedIndex.new 1 Nat.one_pos fun _ => 0)).1.toBool = false := by decide +kernel
  rcases found : loadSnapshot brokenSnapshot (ShardedIndex.new 1 Nat.one_pos fun _ => 0)
    with ⟨outcome, loaded⟩
  rw [found] at breaks run
  cases outcome with
  | ok u => cases breaks
  | error err => cases run

/-- The log does not mention the key that was loaded before the snapshot broke. -/
theorem fallback_leftover :
    (RecoveryManager.recoverFromSnapshotPlusAof ⟨.auto, LiveStore.threeSnapshots, none⟩
      [(5, brokenSnapshot)] (some (AofFormat.aof2.fileOf []))
      (ShardedIndex.new 1 Nat.one_pos fun _ => 0)).1.toBool = false ∧
    (RecoveryManager.recover ⟨.auto, LiveStore.threeSnapshots, none⟩ [(5, brokenSnapshot)]
      (some (AofFormat.aof2.fileOf [])) (ShardedIndex.new 1 Nat.one_pos fun _ => 0)).2.get [107] =
        some [1] ∧
    (RecoveryManager.recover ⟨.aofOnly, LiveStore.threeSnapshots, none⟩ [(5, brokenSnapshot)]
      (some (AofFormat.aof2.fileOf [])) (ShardedIndex.new 1 Nat.one_pos fun _ => 0)).2.get [107] =
        none := by
  have latest : findLatestSnapshot LiveStore.threeSnapshots [(5, brokenSnapshot)] =
      some brokenSnapshot := by
    simp [findLatestSnapshot, LiveStore.threeSnapshots]
  simp only [RecoveryManager.recover, RecoveryManager.recoverFromSnapshotPlusAof, latest]
  refine ⟨?_, ?_, ?_⟩
  · decide +kernel
  · decide +kernel
  · decide +kernel

end

end Zumic.Engine
