/- Snapshots of the index and compaction of the log (`compaction.rs`). -/

import Zumic.Engine.Persistent
import Zumic.Engine.Reopen

namespace Zumic.Engine

open Lib Lib.ByteString Lib.Reader

inductive RecoveryError where
  | io (message : String)
  | invalidData (message : String)
  | aof (error : AofError)

structure CompactionConfig where
  enableSnapshots : Bool
  snapshotRetentionCount : Nat

/-- The snapshots of a directory, each under the second in its name. -/
abbrev SnapshotDir := List (Nat × Bytes)

def snapshotMagic : Bytes := bytesOf "SNAP"

section

variable (order : IterationOrder (Bytes × Bytes))

/-- All data of the shards in one hash table. -/
def collectData (index : ShardedIndex Bytes) : List (Bytes × Bytes) :=
  index.entries.foldl (fun data e => Assoc.insert data e.1 e.2) []

def snapshotEntry (e : Bytes × Bytes) : Bytes := lengthPrefixed e.1 ++ lengthPrefixed e.2

def snapshotFile (timestamp : Nat) (index : ShardedIndex Bytes) : Bytes :=
  snapshotMagic ++ (beBytes 8 timestamp ++ (beBytes 8 index.entries.length ++
    (order.order (collectData index)).flatMap snapshotEntry))

/-- The newest snapshots stay. -/
def cleanupOldSnapshots (config : CompactionConfig) (dir : SnapshotDir) : SnapshotDir :=
  if config.enableSnapshots then
    (dir.mergeSort fun a b => decide (b.1 ≤ a.1)).take config.snapshotRetentionCount
  else dir

/-- The directory after `create_snapshot`. A snapshot of the same second is replaced. -/
def createSnapshot (config : CompactionConfig) (timestamp : Nat) (index : ShardedIndex Bytes)
    (dir : SnapshotDir) : SnapshotDir :=
  cleanupOldSnapshots config (Assoc.insert dir timestamp (snapshotFile order timestamp index))

/-- The file that takes the place of the log: its data as operations of the old format. -/
def performCompaction (index : ShardedIndex Bytes) : Bytes :=
  AofFormat.aof1.fileOf ((order.order (collectData index)).map fun e => .set e.1 e.2)

end

def findLatestSnapshot (config : CompactionConfig) (dir : SnapshotDir) : Option Bytes :=
  if config.enableSnapshots then
    (dir.mergeSort fun a b => decide (a.1 ≤ b.1)).getLast?.map Prod.snd
  else none

def fillError : RecoveryError := .io "failed to fill whole buffer"

def readWord (size : Nat) : Reader RecoveryError Nat := do
  let b ← Reader.take size fillError
  pure (beNat b)

def readSnapshotEntry : Reader RecoveryError (Bytes × Bytes) := do
  let keyLen ← readWord 4
  let key ← Reader.take keyLen fillError
  let valueLen ← readWord 4
  let value ← Reader.take valueLen fillError
  pure (key, value)

/-- Inserts the entries of a snapshot one by one, up to the first that is cut. -/
def loadEntries : Nat → Bytes → ShardedIndex Bytes →
    Except RecoveryError Unit × ShardedIndex Bytes
  | 0, _, index => (.ok (), index)
  | n + 1, b, index =>
      match readSnapshotEntry b with
      | .ok (e, rest) => loadEntries n rest (index.insert e.1 e.2)
      | .error err => (.error err, index)

def snapshotHeader : Reader RecoveryError Nat := do
  let magic ← Reader.take 4 fillError
  if magic ≠ snapshotMagic then throw (.invalidData "Invalid snapshot magic")
  else
    let _ ← readWord 8
    readWord 8

def loadSnapshot (file : Bytes) (index : ShardedIndex Bytes) :
    Except RecoveryError Unit × ShardedIndex Bytes :=
  match snapshotHeader file with
  | .ok (keyCount, rest) => loadEntries keyCount rest index
  | .error err => (.error err, index)

/-- An index whose sizes survive the casts of the file formats. -/
structure Storable (index : ShardedIndex Bytes) : Prop where
  count : index.entries.length < 2 ^ 64
  lengths : ∀ e ∈ index.entries, e.1.length < 2 ^ 32 ∧ e.2.length < 2 ^ 32

section

variable {order : IterationOrder (Bytes × Bytes)} {index : ShardedIndex Bytes}

theorem collectData_eq (placed : index.Placed) : collectData index = index.entries := by
  rw [collectData, Assoc.foldl_insert (by simpa using placed.nodup_entries), List.nil_append]

theorem listed_data (placed : index.Placed) :
    (order.order (collectData index)).Perm index.entries ∧
      (Assoc.keys (order.order (collectData index))).Nodup ∧
      Assoc.get (order.order (collectData index)) = index.get := by
  have perm : (order.order (collectData index)).Perm index.entries := by
    have listed := order.perm (collectData index)
    rwa [collectData_eq placed] at listed ⊢
  have distinct : (Assoc.keys (order.order (collectData index))).Nodup :=
    (perm.map Prod.fst).nodup_iff.mpr placed.nodup_entries
  refine ⟨perm, distinct, ?_⟩
  rw [← placed.get_entries]
  funext k
  exact Assoc.get_of_perm perm distinct k

end

theorem reads_readWord (size n : Nat) :
    Reads (readWord size) (beBytes size n) (n % 256 ^ size) := by
  rw [← beNat_beBytes]
  exact Reads.bind_pure (reads_take_of_length (length_beBytes size n))

theorem reads_readWord_of_lt {size n : Nat} (fits : n < 256 ^ size) :
    Reads (readWord size) (beBytes size n) n := by
  have read := reads_readWord size n
  rwa [Nat.mod_eq_of_lt fits] at read

theorem reads_readSnapshotEntry {e : Bytes × Bytes} (key : e.1.length < 2 ^ 32)
    (value : e.2.length < 2 ^ 32) : Reads readSnapshotEntry (snapshotEntry e) e := by
  intro t
  have shape : snapshotEntry e ++ t =
      beBytes 4 e.1.length ++ (e.1 ++ (beBytes 4 e.2.length ++ (e.2 ++ t))) := by
    simp [snapshotEntry, lengthPrefixed]
  rw [shape, readSnapshotEntry, bind_of_ok (reads_readWord_of_lt (by omega) _),
    bind_of_ok (reads_take _ e.1 _), bind_of_ok (reads_readWord_of_lt (by omega) _),
    bind_of_ok (reads_take _ e.2 _)]
  rfl

theorem loadEntries_entries {l : List (Bytes × Bytes)}
    (lengths : ∀ e ∈ l, e.1.length < 2 ^ 32 ∧ e.2.length < 2 ^ 32) (index : ShardedIndex Bytes) :
    loadEntries l.length (l.flatMap snapshotEntry) index =
      (.ok (), l.foldl (fun index e => index.insert e.1 e.2) index) := by
  induction l generalizing index with
  | nil => rfl
  | cons e l ih =>
      obtain ⟨key, value⟩ := lengths e List.mem_cons_self
      rw [List.length_cons, List.flatMap_cons, loadEntries,
        reads_readSnapshotEntry key value (l.flatMap snapshotEntry)]
      exact ih (fun e' member => lengths e' (List.mem_cons_of_mem _ member)) _

theorem foldl_insert_eq (l : List (Bytes × Bytes)) (index : ShardedIndex Bytes) :
    l.foldl (fun index e => index.insert e.1 e.2) index =
      (l.map fun e => Journal.Entry.set e.1 e.2).foldl InPersistentStore.replayEntry index := by
  rw [List.foldl_map]
  rfl

theorem loadSnapshot_snapshotFile {order : IterationOrder (Bytes × Bytes)}
    {index : ShardedIndex Bytes} (placed : index.Placed) (storable : Storable index)
    (timestamp : Nat) (target : ShardedIndex Bytes) :
    ∃ loaded, loadSnapshot (snapshotFile order timestamp index) target = (.ok (), loaded) ∧
      loaded.get = fun k => (index.get k).or (target.get k) := by
  obtain ⟨perm, distinct, same⟩ := @listed_data order index placed
  have count : index.entries.length = (order.order (collectData index)).length := perm.length_eq.symm
  have header : snapshotHeader (snapshotFile order timestamp index) =
      .ok (index.entries.length, (order.order (collectData index)).flatMap snapshotEntry) := by
    have magicSize : snapshotMagic.length = 4 := rfl
    have field : index.entries.length < 256 ^ 8 := storable.count
    rw [snapshotFile, snapshotHeader, bind_of_ok (reads_take_of_length magicSize _),
      if_neg (by simp), bind_of_ok (reads_readWord 8 timestamp _)]
    exact reads_readWord_of_lt field _
  have lengths : ∀ e ∈ order.order (collectData index), e.1.length < 2 ^ 32 ∧ e.2.length < 2 ^ 32 :=
    fun e member => storable.lengths e (perm.mem_iff.mp member)
  have loaded : loadSnapshot (snapshotFile order timestamp index) target = (.ok (),
      (order.order (collectData index)).foldl (fun index e => index.insert e.1 e.2) target) := by
    rw [loadSnapshot, header]
    simp only [count]
    exact loadEntries_entries lengths target
  refine ⟨_, loaded, ?_⟩
  rw [foldl_insert_eq, InPersistentStore.get_foldl_replayEntry, Journal.replay_sets distinct, same]

section

variable {config : CompactionConfig} {dir : SnapshotDir}

theorem getLast_greatest {l : List (Nat × Bytes)} {e : Nat × Bytes}
    (sorted : l.Pairwise fun a b => a.1 ≤ b.1) (last : l.getLast? = some e) :
    ∀ e' ∈ l, e'.1 ≤ e.1 := by
  obtain ⟨front, rfl⟩ := List.getLast?_eq_some_iff.mp last
  intro e' member
  rcases List.mem_append.mp member with early | final
  · exact (List.pairwise_append.mp sorted).2.2 e' early e List.mem_cons_self
  · rw [List.mem_singleton.mp final]

theorem findLatestSnapshot_spec (enabled : config.enableSnapshots = true) (file : Bytes)
    (latest : findLatestSnapshot config dir = some file) :
    ∃ t, (t, file) ∈ dir ∧ ∀ e ∈ dir, e.1 ≤ t := by
  rw [findLatestSnapshot, if_pos enabled] at latest
  obtain ⟨e, last, rfl⟩ := Option.map_eq_some_iff.mp latest
  have sorted := @List.pairwise_mergeSort _ (fun a b : Nat × Bytes => decide (a.1 ≤ b.1))
    (fun a b c first second => by simp only [decide_eq_true_eq] at *; omega)
    (fun a b => by simp only [Bool.or_eq_true, decide_eq_true_eq]; omega) dir
  simp only [decide_eq_true_eq] at sorted
  refine ⟨e.1, List.mem_mergeSort.mp (List.mem_of_getLast? last), fun e' member => ?_⟩
  exact getLast_greatest sorted last e' (List.mem_mergeSort.mpr member)

theorem exists_latest (enabled : config.enableSnapshots = true) {t : Nat} {file : Bytes}
    (distinct : (Assoc.keys dir).Nodup) (member : (t, file) ∈ dir) (greatest : ∀ e ∈ dir, e.1 ≤ t) :
    findLatestSnapshot config dir = some file := by
  cases latest : findLatestSnapshot config dir with
  | none =>
      rw [findLatestSnapshot, if_pos enabled, Option.map_eq_none_iff, List.getLast?_eq_none_iff]
        at latest
      have perm := List.mergeSort_perm dir fun a b => decide (a.1 ≤ b.1)
      rw [latest] at perm
      rw [← perm.nil_eq] at member
      cases member
  | some file' =>
      obtain ⟨t', member', greatest'⟩ := findLatestSnapshot_spec enabled file' latest
      have first := greatest _ member'
      have second := greatest' _ member
      obtain rfl : t' = t := by
        simp only at first second
        omega
      have one := Assoc.get_of_mem distinct member
      have other := Assoc.get_of_mem distinct member'
      rw [← other, one]

theorem cleanup_subset {e : Nat × Bytes} (member : e ∈ cleanupOldSnapshots config dir) :
    e ∈ dir := by
  rw [cleanupOldSnapshots] at member
  split at member
  · exact List.mem_mergeSort.mp (List.mem_of_mem_take member)
  · exact member

theorem cleanup_greatest (enabled : config.enableSnapshots = true) {e : Nat × Bytes}
    (member : e ∈ cleanupOldSnapshots config dir)
    (greatest : ∀ e' ∈ cleanupOldSnapshots config dir, e'.1 ≤ e.1) : ∀ e' ∈ dir, e'.1 ≤ e.1 := by
  have sorted := @List.pairwise_mergeSort _ (fun a b : Nat × Bytes => decide (b.1 ≤ a.1))
    (fun a b c first second => by simp only [decide_eq_true_eq] at *; omega)
    (fun a b => by simp only [Bool.or_eq_true, decide_eq_true_eq]; omega) dir
  have perm := List.mergeSort_perm dir fun a b : Nat × Bytes => decide (b.1 ≤ a.1)
  simp only [decide_eq_true_eq] at sorted
  rw [cleanupOldSnapshots, if_pos enabled] at member greatest
  intro e' member'
  have listed := perm.mem_iff.mpr member'
  generalize dir.mergeSort (fun a b => decide (b.1 ≤ a.1)) = l at *
  cases l with
  | nil => cases listed
  | cons first l =>
      cases kept : config.snapshotRetentionCount with
      | zero =>
          rw [kept] at member
          cases member
      | succ n =>
          rw [kept] at greatest
          have top := greatest first List.mem_cons_self
          rcases List.mem_cons.mp listed with rfl | later
          · exact top
          · exact ((List.pairwise_cons.mp sorted).1 e' later).trans top

variable {order : IterationOrder (Bytes × Bytes)} {timestamp : Nat} {index : ShardedIndex Bytes}

theorem nodup_createSnapshot (distinct : (Assoc.keys dir).Nodup) :
    (Assoc.keys (createSnapshot order config timestamp index dir)).Nodup := by
  have inserted := Assoc.nodup_keys_insert distinct timestamp (snapshotFile order timestamp index)
  rw [createSnapshot, cleanupOldSnapshots]
  split
  · have perm := List.mergeSort_perm (Assoc.insert dir timestamp (snapshotFile order timestamp index))
      fun a b => decide (b.1 ≤ a.1)
    exact ((List.take_sublist _ _).map Prod.fst).nodup ((perm.map Prod.fst).nodup_iff.mpr inserted)
  · exact inserted

theorem mem_createSnapshot {e : Nat × Bytes}
    (member : e ∈ createSnapshot order config timestamp index dir) :
    e.2 = snapshotFile order timestamp index ∨ e ∈ dir := by
  rcases Assoc.mem_insert (cleanup_subset member) with rfl | old
  · exact Or.inl rfl
  · exact Or.inr old

/-- The latest snapshot is the new one or the one that was the latest before. -/
theorem findLatestSnapshot_createSnapshot (distinct : (Assoc.keys dir).Nodup) {file : Bytes}
    (latest : findLatestSnapshot config (createSnapshot order config timestamp index dir) =
      some file) :
    file = snapshotFile order timestamp index ∨ findLatestSnapshot config dir = some file := by
  cases enabled : config.enableSnapshots with
  | false =>
      rw [findLatestSnapshot, enabled] at latest
      cases latest
  | true =>
      obtain ⟨t, member, greatest⟩ := findLatestSnapshot_spec enabled file latest
      have all := cleanup_greatest enabled member greatest
      rcases mem_createSnapshot member with new | old
      · exact Or.inl new
      · refine Or.inr (exists_latest enabled distinct old fun e among => ?_)
        have named : e.1 ∈ Assoc.keys
            (Assoc.insert dir timestamp (snapshotFile order timestamp index)) :=
          Assoc.mem_keys_insert.mpr (Or.inr (List.mem_map_of_mem among))
        obtain ⟨e', among', same⟩ := List.mem_map.mp named
        rw [← same]
        exact all e' among'

theorem mem_of_findLatestSnapshot {file : Bytes} (latest : findLatestSnapshot config dir = some file) :
    ∃ t, (t, file) ∈ dir := by
  cases enabled : config.enableSnapshots with
  | false =>
      rw [findLatestSnapshot, enabled] at latest
      cases latest
  | true =>
      obtain ⟨t, member, -⟩ := findLatestSnapshot_spec enabled file latest
      exact ⟨t, member⟩

end

end Zumic.Engine
