/- The persistent store (`persistent.rs`): a sharded index whose changes are logged, and the values
it gives back. -/

import Zumic.Engine.Aof
import Zumic.Engine.Sharding
import Zumic.Engine.Storage
import Zumic.Zdb.RoundTrip
import Zumic.Zdb.Streaming

namespace Zumic.Engine

open Database Lib Lib.ByteString Lib.Utf8 Zdb

/-- What the store takes from libraries: the block compressor, how deep the value decoder may
nest, and the texts of errors that are not modelled. -/
structure Runtime where
  zstd : Zstd
  depth : Nat
  decodeText : ZdbError → Str
  utf8Text : Bytes → Str

/-- The parts of the configuration that the index and the log are built from. The seed of the
hasher is drawn anew by every store. -/
structure PersistentStoreConfig where
  numShards : Nat
  positive : 0 < numShards
  hasher : Bytes → UInt64
  corruptionPolicy : CorruptionPolicy

structure InPersistentStore where
  index : ShardedIndex Bytes
  aof : AofLog

/-- A hash table lists its entries in an order of its own. -/
structure IterationOrder (α : Type) where
  order : List α → List α
  perm : ∀ l, (order l).Perm l

namespace InPersistentStore

/-- The callback of `replay_aof`. -/
def replayEntry (index : ShardedIndex Bytes) : AofEntry → ShardedIndex Bytes
  | .set key value => index.insert key value
  | .del key => index.remove key

theorem get_foldl_replayEntry (entries : List AofEntry) (index : ShardedIndex Bytes) :
    (entries.foldl replayEntry index).get = Journal.replay entries index.get := by
  induction entries generalizing index with
  | nil => rfl
  | cons e entries ih =>
      rw [List.foldl_cons, ih, Journal.replay_cons]
      cases e with
      | set k v => rw [replayEntry, ShardedIndex.get_insert, Journal.Entry.apply]
      | del k => rw [replayEntry, ShardedIndex.get_remove, Journal.Entry.apply]

/-- Opens the log and rebuilds the index from it. -/
def new (config : PersistentStoreConfig) (file : Bytes) : Except AofError InPersistentStore := do
  let aof ← AofLog.openLog file config.corruptionPolicy
  let index ← aof.replay replayEntry
    (ShardedIndex.new config.numShards config.positive config.hasher)
  pure ⟨index, aof⟩

/-- Inserts in the index and logs the new value. -/
def put (s : InPersistentStore) (key value : Bytes) : InPersistentStore :=
  ⟨s.index.insert key value, s.aof.appendSet key value⟩

/-- Removes from the index and logs the removal. -/
def drop (s : InPersistentStore) (key : Bytes) : InPersistentStore :=
  ⟨s.index.remove key, s.aof.appendDel key⟩

/-- Moves a value to another key. One shard or two are locked for it; the changes are the same. -/
def move (s : InPersistentStore) (src dst value : Bytes) : InPersistentStore :=
  ⟨(s.index.remove src).insert dst value, (s.aof.appendDel src).appendSet dst value⟩

section

variable (rt : Runtime)

def fromBytes (b : Bytes) : Except StoreError Value :=
  (Zdb.fromBytes rt.zstd rt.depth b).mapError fun e => .serdeError (rt.decodeText e)

def set (key : Sds) (value : Value) : StoreM InPersistentStore Unit := fun s =>
  (.ok (), s.put key (toBytes rt.zstd value))

def get (key : Sds) : StoreRead InPersistentStore (Option Value) := fun s =>
  match s.index.get key with
  | some b => (fromBytes rt b).map some
  | none => .ok none

def del (key : Sds) : StoreM InPersistentStore Bool := fun s =>
  if (s.index.get key).isSome then (.ok true, s.drop key) else (.ok false, s)

/-- Logs every key once, in the order of a hash table, then writes the keys shard by shard. -/
def mset (order : IterationOrder (Bytes × Bytes)) (entries : List (Sds × Value)) :
    StoreM InPersistentStore Unit := fun s =>
  let lookup := entries.foldl (fun m e => Assoc.insert m e.1 (toBytes rt.zstd e.2)) []
  let aof := (order.order lookup).foldl (fun aof e => aof.appendSet e.1 e.2) s.aof
  let index := entries.foldl (fun index e =>
    match Assoc.get lookup e.1 with
    | some value => index.insert e.1 value
    | none => index) s.index
  (.ok (), ⟨index, aof⟩)

/-- Reads shard by shard, in the order of the shards, and puts every value at the place of its
key. -/
def mget (keys : List Sds) : StoreRead InPersistentStore (List (Option Value)) := fun s =>
  let shardIds := (keys.map s.index.shardForKey).dedup.mergeSort (fun a b => decide (a ≤ b))
  shardIds.foldlM (fun result shardId => do
    let items := keys.zipIdx.filter fun e => s.index.shardForKey e.1 = shardId
    let values ← items.mapM fun e => get rt e.1 s
    pure ((items.zip values).foldl (fun result e => result.set e.1.2 e.2) result))
    (List.replicate keys.length none)

def rename (src dst : Sds) : StoreM InPersistentStore Unit := fun s =>
  match s.index.get src with
  | some value => (.ok (), s.move src dst value)
  | none => (.error .keyNotFound, s)

def renamenx (src dst : Sds) : StoreM InPersistentStore Bool := fun s =>
  match s.index.get src with
  | none => (.error .keyNotFound, s)
  | some value =>
      if (s.index.get dst).isSome then (.ok false, s) else (.ok true, s.move src dst value)

/-- Clears the index. -/
def flushdb : StoreM InPersistentStore Unit := fun s => (.ok (), { s with index := s.index.clear })

/-- The points of a geographic set by the name of their member. -/
abbrev GeoPoints := List (Str × GeoPoint)

def validateCoords (lon lat : F64) : Bool :=
  let within (bound : Int) (f : F64) : Bool :=
    !f.isNaN && (F64.ofInt (-bound)).orderKey ≤ f.orderKey && f.orderKey ≤ (F64.ofInt bound).orderKey
  within 180 lon && within 90 lat

def addPoint (points : GeoPoints) (member : Str) (lon lat : F64) : GeoPoints :=
  if validateCoords lon lat then Assoc.insert points member ⟨lon, lat⟩ else points

def asStr (b : Sds) : Except StoreError Str :=
  match Str.fromUtf8 b with
  | some s => .ok s
  | none => .error (.utf8 (rt.utf8Text b))

/-- The records of a stored geographic set, up to the first one that cannot be read. Every record
takes a byte, so the length of the stream bounds the loop. -/
def readPoints (version : FormatVersion) : Nat → Bytes → GeoPoints → Except StoreError GeoPoints
  | 0, _, points => .ok points
  | fuel + 1, b, points =>
      match streamNext version rt.zstd rt.depth b with
      | .ok (some (member, .array [.float lon, .float lat]), rest) => do
          let member ← asStr rt member
          readPoints version fuel rest (addPoint points member lon lat)
      | .ok (some _, rest) => readPoints version fuel rest points
      | _ => .ok points

def storedPoints (s : InPersistentStore) (key : Sds) : Except StoreError GeoPoints :=
  match s.index.get key with
  | none => .ok []
  | some raw =>
      match streamHeader raw with
      | .error e => .error (.io (rt.decodeText e))
      | .ok (version, rest) => readPoints rt version raw.length rest []

def encodePoints (points : GeoPoints) : Bytes :=
  let sorted := points.mergeSort fun a b => decide (a.1.bytes ≤ b.1.bytes)
  writeStream rt.zstd (sorted.map fun e => (e.1.bytes, .array [.float e.2.lon, .float e.2.lat]))

def geoAdd (key : Sds) (lon lat : F64) (member : Sds) : StoreM InPersistentStore Bool := fun s =>
  let result : Except StoreError (Bytes × Bool) := do
    let points ← storedPoints rt s key
    let name ← asStr rt member
    let existed := (Assoc.get points name).isSome
    pure (encodePoints rt (addPoint points name lon lat), !existed)
  match result with
  | .ok (buf, added) => (.ok added, s.put key buf)
  | .error e => (.error e, s)

/-- The hash set stored under a key. -/
def storedSet (command : String) (s : InPersistentStore) (key : Sds) :
    Except StoreError (Option (List Sds)) :=
  match s.index.get key with
  | none => .ok none
  | some raw => do
      match ← fromBytes rt raw with
      | .set members => pure (some members)
      | _ => throw (.wrongType (Str.lit (command ++ ": key is not a set")))

def encodeSet (members : List Sds) : Bytes := toBytes rt.zstd (.set members)

def sadd (key : Sds) (added : List Sds) : StoreM InPersistentStore Nat := fun s =>
  match storedSet rt "SADD" s key with
  | .ok stored =>
      let (members, count) := addMembers (stored.getD []) added
      (.ok count, s.put key (encodeSet rt members))
  | .error e => (.error e, s)

/-- The store after a hash set was reduced: an empty one goes with its key. -/
def keep (s : InPersistentStore) (key : Sds) (members : List Sds) : InPersistentStore :=
  if members = [] then s.drop key else s.put key (encodeSet rt members)

def srem (key : Sds) (removed : List Sds) : StoreM InPersistentStore Nat := fun s =>
  match storedSet rt "SREM" s key with
  | .ok none => (.ok 0, s)
  | .ok (some members) =>
      let (members, count) := removeMembers members removed
      (.ok count, keep rt s key members)
  | .error e => (.error e, s)

def spop (rng : Rng) (key : Sds) (count : Int64) : StoreM InPersistentStore (List Sds) := fun s =>
  match storedSet rt "SPOP" s key with
  | .ok none => (.ok [], s)
  | .ok (some members) =>
      let (out, members, _) := popMembers (popCount count) members rng
      (.ok out, keep rt s key members)
  | .error e => (.error e, s)

def smembers (key : Sds) : StoreRead InPersistentStore (List Sds) := fun s =>
  (storedSet rt "SMEMBERS" s key).map fun stored => stored.getD []

def scard (key : Sds) : StoreRead InPersistentStore Nat := fun s =>
  (storedSet rt "SCARD" s key).map fun stored => (stored.getD []).length

def sismember (key member : Sds) : StoreRead InPersistentStore Bool := fun s =>
  (storedSet rt "SISMEMBER" s key).map fun stored => decide (member ∈ stored.getD [])

end

end InPersistentStore

end Zumic.Engine

namespace Zumic.Engine.InPersistentStore

open Database Lib Lib.ByteString Lib.Utf8 Zdb

variable {rt : Runtime}

theorem get_set (lossless : rt.zstd.Lossless) {v : Value} (sound : Sound v)
    (block : (rt.zstd.compress (writeValueInner .v3 v)).length ≤ maxCompressedSize)
    (enough : (writeValueInner .v3 v).length < rt.depth) (key : Sds) (s : InPersistentStore) :
    (∀ w, reread v = some w → get rt key (set rt key v s).2 = .ok (some w)) ∧
      (reread v = none → ∃ e, get rt key (set rt key v s).2 = .error e) := by
  have modern : FormatVersion.v3 ≠ .legacy := by decide
  obtain ⟨reads, fails⟩ := reads_writeValueVersioned lossless modern sound block enough
  have stored : (set rt key v s).2.index.get key = some (toBytes rt.zstd v) := by
    rw [set, put, ShardedIndex.get_insert]
    exact Function.update_self key _ _
  have got : get rt key (set rt key v s).2 = (fromBytes rt (toBytes rt.zstd v)).map some := by
    rw [get, stored]
  constructor
  · intro w image
    have read := reads w image []
    rw [List.append_nil] at read
    rw [got, fromBytes, Zdb.fromBytes, toBytes, FormatVersion.current, read]
    rfl
  · intro image
    obtain ⟨e, read⟩ := fails image []
    rw [List.append_nil] at read
    rw [got, fromBytes, Zdb.fromBytes, toBytes, FormatVersion.current, read]
    exact ⟨_, rfl⟩

/-- A value that was set is read back as itself exactly when all its nodes are storable. -/
theorem get_set_same_iff (lossless : rt.zstd.Lossless) {v : Value} (sound : Sound v)
    (block : (rt.zstd.compress (writeValueInner .v3 v)).length ≤ maxCompressedSize)
    (enough : (writeValueInner .v3 v).length < rt.depth) (key : Sds) (s : InPersistentStore) :
    (∃ w, get rt key (set rt key v s).2 = .ok (some w) ∧ Same (denseForm v) w) ↔
      v.all storableNode = true := by
  obtain ⟨reads, fails⟩ := get_set lossless sound block enough key s
  rw [← reread_same_iff sound.halves]
  constructor
  · rintro ⟨w, got, same⟩
    cases image : reread v with
    | none =>
        obtain ⟨e, refused⟩ := fails image
        rw [refused] at got
        cases got
    | some w' =>
        rw [reads w' image] at got
        obtain rfl : w' = w := Option.some.inj (Except.ok.inj got)
        exact ⟨w', rfl, same⟩
  · rintro ⟨w, image, same⟩
    exact ⟨w, reads w image, same⟩

/-- A runtime whose compressor stores its blocks. -/
def storingRuntime : Runtime where
  zstd := storing
  depth := 64
  decodeText _ := Str.lit "decode error"
  utf8Text _ := Str.lit "invalid utf-8"

def oneShard : PersistentStoreConfig := ⟨1, by decide, fun _ => 0, .strict⟩

def emptyStore : InPersistentStore := ⟨ShardedIndex.new 1 (by decide) fun _ => 0, ⟨magic, .strict⟩⟩

theorem get_set_nested :
    ∃ w, get storingRuntime [107] (set storingRuntime [107]
        (.array [.str [1], .hash [([2], [3])], .array [.bitmap [4], .null]]) emptyStore).2 =
        .ok (some w) ∧
      Same (denseForm (.array [.str [1], .hash [([2], [3])], .array [.bitmap [4], .null]])) w :=
  (@get_set_same_iff storingRuntime storing_lossless _ ⟨by decide, by decide, by decide⟩
    (by decide) (by decide) [107] emptyStore).mpr (by decide)

/-- A list is written under a tag that the decoder does not know. -/
theorem get_set_list :
    Sound (.list [[97]]) ∧ get storingRuntime [107] (set storingRuntime [107] (.list [[97]])
        emptyStore).2 = .error (.serdeError (Str.lit "decode error")) ∧
      ¬∃ w, get storingRuntime [107] (set storingRuntime [107] (.list [[97]]) emptyStore).2 =
        .ok (some w) := by
  have refused : get storingRuntime [107] (set storingRuntime [107] (.list [[97]]) emptyStore).2 =
      .error (.serdeError (Str.lit "decode error")) := rfl
  refine ⟨⟨by decide, by decide, by decide⟩, refused, ?_⟩
  rintro ⟨w, got⟩
  rw [refused] at got
  cases got

end Zumic.Engine.InPersistentStore
