/- The persistent store with its shard metrics: every write of a shard keeps a key counter by hand
(`persistent.rs`, `sharding.rs`). -/

import Zumic.Engine.Durability

namespace Zumic.Engine

open Database Lib Lib.ByteString Zdb

/-- A shard with metrics enabled. A map has fewer than `2 ^ 64` keys, so that its counter can leave
its range only downwards; `wrapped` records that it did. -/
structure Shard where
  data : List (Bytes × Bytes)
  keyCount : Nat
  wrapped : Bool

namespace Shard

def new : Shard := ⟨[], 0, false⟩

def fetchAdd (shard : Shard) (n : Nat) : Shard := { shard with keyCount := shard.keyCount + n }

def fetchSub (shard : Shard) (n : Nat) : Shard :=
  if n ≤ shard.keyCount then { shard with keyCount := shard.keyCount - n }
  else { shard with keyCount := shard.keyCount + 2 ^ 64 - n, wrapped := true }

def incrementKeyCount (shard : Shard) : Shard := shard.fetchAdd 1

def decrementKeyCount (shard : Shard) : Shard := shard.fetchSub 1

def containsKey (shard : Shard) (key : Bytes) : Bool := (Assoc.get shard.data key).isSome

/-- `data.insert`, the metrics aside. -/
def insertData (shard : Shard) (key value : Bytes) : Shard :=
  { shard with data := Assoc.insert shard.data key value }

/-- `data.remove`, the metrics aside. -/
def removeData (shard : Shard) (key : Bytes) : Shard :=
  { shard with data := Assoc.erase shard.data key }

/-- Inserts and counts a key that was not there. -/
def insert (shard : Shard) (key value : Bytes) : Shard :=
  let wasNew := !shard.containsKey key
  let shard := shard.insertData key value
  if wasNew then shard.incrementKeyCount else shard

/-- Removes and discounts a key that was there. -/
def remove (shard : Shard) (key : Bytes) : Shard :=
  if shard.containsKey key then (shard.removeData key).decrementKeyCount else shard

/-- The section of `rename` when both keys are in this shard. -/
def rename (shard : Shard) (src dst value : Bytes) : Shard :=
  let shard := shard.removeData src
  let toWasNew := !shard.containsKey dst
  let shard := (shard.insertData dst value).decrementKeyCount
  if toWasNew then shard.incrementKeyCount else shard

/-- The section of `renamenx` when both keys are in this shard: one key goes, one comes. -/
def renamenx (shard : Shard) (src dst value : Bytes) : Shard :=
  (shard.removeData src).insertData dst value

/-- The section of `mset`: its keys in this shard, counted at the end. -/
def insertAll (shard : Shard) (entries : List (Bytes × Bytes)) : Shard :=
  let (shard, newKeys) := entries.foldl (fun (shard, newKeys) e =>
    (shard.insertData e.1 e.2, if shard.containsKey e.1 then newKeys else newKeys + 1))
    (shard, 0)
  if 0 < newKeys then shard.fetchAdd newKeys else shard

def clear (shard : Shard) : Shard :=
  Shard.fetchSub { shard with data := [] } shard.data.length

end Shard

structure MeteredStore where
  shards : List Shard
  hasher : Bytes → UInt64
  positive : 0 < shards.length
  aof : AofLog

namespace MeteredStore

/-- The index without its metrics. -/
def index (s : MeteredStore) : ShardedIndex Bytes where
  shards := s.shards.map Shard.data
  hasher := s.hasher
  positive := by
    rw [List.length_map]
    exact s.positive

/-- The store without its metrics. -/
def plain (s : MeteredStore) : InPersistentStore := ⟨s.index, s.aof⟩

def shardForKey (s : MeteredStore) (key : Bytes) : Nat := s.index.shardForKey key

/-- `shard.write` on the shard with the given number. -/
def writeShard (s : MeteredStore) (i : Nat) (f : Shard → Shard) : MeteredStore where
  shards := s.shards.modify i f
  hasher := s.hasher
  positive := by
    rw [List.length_modify]
    exact s.positive
  aof := s.aof

def write (s : MeteredStore) (key : Bytes) (f : Shard → Shard) : MeteredStore :=
  s.writeShard (s.shardForKey key) f

/-- Writes every shard once. -/
def writeEach (s : MeteredStore) (f : Nat → Shard → Shard) : MeteredStore where
  shards := s.shards.mapIdx f
  hasher := s.hasher
  positive := by
    rw [List.length_mapIdx]
    exact s.positive
  aof := s.aof

def log (s : MeteredStore) (f : AofLog → AofLog) : MeteredStore := { s with aof := f s.aof }

/-- The value of a key, read in its shard. -/
def lookup (s : MeteredStore) (key : Bytes) : Option Bytes := s.index.get key

def replayEntry (s : MeteredStore) : AofEntry → MeteredStore
  | .set key value => s.write key fun shard => shard.insert key value
  | .del key => s.write key fun shard => shard.remove key

def ofShards (config : PersistentStoreConfig) (aof : AofLog) : MeteredStore where
  shards := List.replicate config.numShards Shard.new
  hasher := config.hasher
  positive := by
    rw [List.length_replicate]
    exact config.positive
  aof := aof

def new (config : PersistentStoreConfig) (file : Bytes) : Except AofError MeteredStore := do
  let aof ← AofLog.openLog file config.corruptionPolicy
  aof.replay replayEntry (ofShards config aof)

section

variable (rt : Runtime)

def set (key : Sds) (value : Value) : StoreM MeteredStore Unit := fun s =>
  let val := toBytes rt.zstd value
  let s := s.log fun aof => aof.appendSet key val
  (.ok (), s.write key fun shard => shard.insert key val)

def del (key : Sds) : StoreM MeteredStore Bool := fun s =>
  let existed := (s.lookup key).isSome
  let s := s.write key fun shard => shard.remove key
  if existed then (.ok true, s.log fun aof => aof.appendDel key) else (.ok false, s)

/-- The keys are grouped by shard. Every shard is written once, so that the order of the groups
does not show. -/
def mset (order : IterationOrder (Bytes × Bytes)) (entries : List (Sds × Value)) :
    StoreM MeteredStore Unit := fun s =>
  let lookup := entries.foldl (fun m e => Assoc.insert m e.1 (toBytes rt.zstd e.2)) []
  let found := entries.filterMap fun e => (Assoc.get lookup e.1).map fun value => (e.1, value)
  let s := s.log fun aof => (order.order lookup).foldl (fun aof e => aof.appendSet e.1 e.2) aof
  (.ok (), s.writeEach fun i shard =>
    shard.insertAll (found.filter fun e => s.shardForKey e.1 = i))

def logMove (src dst value : Bytes) (aof : AofLog) : AofLog :=
  (aof.appendDel src).appendSet dst value

def rename (src dst : Sds) : StoreM MeteredStore Unit := fun s =>
  match s.lookup src with
  | none => (.error .keyNotFound, s)
  | some value =>
      if s.shardForKey src = s.shardForKey dst then
        let s := s.write src fun shard => shard.rename src dst value
        (.ok (), s.log (logMove src dst value))
      else
        let s := s.write src fun shard => (shard.removeData src).decrementKeyCount
        let s := s.write dst fun shard => shard.insert dst value
        (.ok (), s.log (logMove src dst value))

def renamenx (src dst : Sds) : StoreM MeteredStore Bool := fun s =>
  match s.lookup src with
  | none => (.error .keyNotFound, s)
  | some value =>
      if (s.lookup dst).isSome then (.ok false, s)
      else if s.shardForKey src = s.shardForKey dst then
        let s := s.write src fun shard => shard.renamenx src dst value
        (.ok true, s.log (logMove src dst value))
      else
        let s := s.write src fun shard => (shard.removeData src).decrementKeyCount
        let s := s.write dst fun shard => shard.insert dst value
        (.ok true, s.log (logMove src dst value))

def flushdb : StoreM MeteredStore Unit := fun s =>
  (.ok (), s.writeEach fun _ shard => shard.clear)

def geoAdd (key : Sds) (lon lat : F64) (member : Sds) : StoreM MeteredStore Bool := fun s =>
  let result : Except StoreError (Bytes × Bool) := do
    let points ← InPersistentStore.storedPoints rt s.plain key
    let name ← InPersistentStore.asStr rt member
    let existed := (Assoc.get points name).isSome
    pure (InPersistentStore.encodePoints rt (InPersistentStore.addPoint points name lon lat),
      !existed)
  match result with
  | .ok (buf, added) =>
      let s := s.write key fun shard => shard.insert key buf
      (.ok added, s.log fun aof => aof.appendSet key buf)
  | .error e => (.error e, s)

/-- A key that is there is written without a look at the metrics, a new one is counted. -/
def sadd (key : Sds) (added : List Sds) : StoreM MeteredStore Nat := fun s =>
  match InPersistentStore.storedSet rt "SADD" s.plain key with
  | .error e => (.error e, s)
  | .ok (some members) =>
      let (members, count) := addMembers members added
      let buf := InPersistentStore.encodeSet rt members
      let s := s.write key fun shard => shard.insertData key buf
      (.ok count, s.log fun aof => aof.appendSet key buf)
  | .ok none =>
      let (members, count) := addMembers [] added
      let buf := InPersistentStore.encodeSet rt members
      let s := s.write key fun shard => (shard.insertData key buf).incrementKeyCount
      (.ok count, s.log fun aof => aof.appendSet key buf)

/-- The sections of `srem` and `spop` after the set was reduced. -/
def keep (s : MeteredStore) (key : Sds) (members : List Sds) : MeteredStore :=
  if members = [] then
    (s.write key fun shard => shard.remove key).log fun aof => aof.appendDel key
  else
    let buf := InPersistentStore.encodeSet rt members
    (s.write key fun shard => shard.insertData key buf).log fun aof => aof.appendSet key buf

def srem (key : Sds) (removed : List Sds) : StoreM MeteredStore Nat := fun s =>
  match InPersistentStore.storedSet rt "SREM" s.plain key with
  | .error e => (.error e, s)
  | .ok none => (.ok 0, s)
  | .ok (some members) =>
      let (members, count) := removeMembers members removed
      (.ok count, keep rt s key members)

def spop (rng : Rng) (key : Sds) (count : Int64) : StoreM MeteredStore (List Sds) := fun s =>
  match InPersistentStore.storedSet rt "SPOP" s.plain key with
  | .error e => (.error e, s)
  | .ok none => (.ok [], s)
  | .ok (some members) =>
      let (out, members, _) := popMembers (popCount count) members rng
      (.ok out, keep rt s key members)

/-- The sum of the counters of all shards. -/
def dbsize (s : MeteredStore) : Nat := (s.shards.map Shard.keyCount).sum

/-- The store after a call, whatever the call returned. -/
def step (s : MeteredStore) : InPersistentStore.Call → MeteredStore
  | .set key value => (set rt key value s).2
  | .del key => (del key s).2
  | .mset order entries => (mset rt order entries s).2
  | .rename src dst => (rename src dst s).2
  | .renamenx src dst => (renamenx src dst s).2
  | .sadd key members => (sadd rt key members s).2
  | .srem key members => (srem rt key members s).2
  | .spop rng key count => (spop rt rng key count s).2
  | .geoAdd key lon lat member => (geoAdd rt key lon lat member s).2
  | .flushdb => (flushdb s).2

def run (s : MeteredStore) (calls : List InPersistentStore.Call) : MeteredStore :=
  calls.foldl (step rt) s

end

end MeteredStore

end Zumic.Engine
