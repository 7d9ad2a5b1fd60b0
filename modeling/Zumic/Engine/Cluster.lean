/- The store over several shards (`cluster.rs`): every key is routed by its slot. -/

import Zumic.Engine.Backends
import Zumic.Engine.Balancing

namespace Zumic.Engine

open Database Lib Lib.Utf8 Engine.SlotManager

structure InClusterStore (σ : Type) where
  shards : List σ
  slotManager : CountedManager

namespace InClusterStore

variable {σ α : Type}

def new (shards : List σ) : Option (InClusterStore σ) :=
  (CountedManager.new shards.length).map fun slotManager => ⟨shards, slotManager⟩

def sdsToStr (s : Sds) : Str := Str.lossy s

/-- The shard that a key is routed to. -/
def shardId (c : InClusterStore σ) (key : Sds) : ShardId :=
  getKeyShard c.slotManager.slots (sdsToStr key)

def shardById (c : InClusterStore σ) (id : ShardId) : Except StoreError σ :=
  match c.shards[id]? with
  | some shard => .ok shard
  | none => .error .wrongShard

def recordOperation (c : InClusterStore σ) (key : Sds) : InClusterStore σ :=
  { c with slotManager := c.slotManager.recordOperation (sdsToStr key) }

/-- Runs a call on a shard. -/
def onShard (id : ShardId) (call : StoreM σ α) : StoreM (InClusterStore σ) α := fun c =>
  match c.shardById id with
  | .ok shard => ((call shard).1, { c with shards := c.shards.set id (call shard).2 })
  | .error e => (.error e, c)

/-- Runs a call on the shard of a key. -/
def routed (key : Sds) (call : StoreM σ α) : StoreM (InClusterStore σ) α := fun c =>
  let c := c.recordOperation key
  onShard (c.shardId key) call c

/-- A call that only reads. -/
def reads (call : StoreRead σ α) : StoreM σ α := fun s => (call s, s)

/-- Items by the shard of their key, in the order of the items. -/
def groups {ε : Type} (c : InClusterStore σ) (key : ε → Sds) (items : List ε) :
    List (ShardId × List ε) := Grouping.group (fun item => c.shardId (key item)) items

variable (S : Storage σ)

def set (key : Sds) (value : Value) : StoreM (InClusterStore σ) Unit := routed key (S.set key value)

def get (key : Sds) : StoreM (InClusterStore σ) (Option Value) := routed key (reads (S.get key))

def del (key : Sds) : StoreM (InClusterStore σ) Bool := routed key (S.del key)

/-- The entries of one shard after another, up to the first error. -/
def msetGroups : List (ShardId × List (Sds × Value)) → StoreM (InClusterStore σ) Unit
  | [], c => (.ok (), c)
  | (id, entries) :: rest, c =>
      match onShard id (S.mset entries) c with
      | (.ok _, c) => msetGroups rest c
      | (.error e, c) => (.error e, c)

/-- `order` is the one in which the table of groups is left. -/
def mset (order : IterationOrder (ShardId × List (Sds × Value))) (entries : List (Sds × Value)) :
    StoreM (InClusterStore σ) Unit := fun c =>
  let groups := c.groups Prod.fst entries
  let c := entries.foldl (fun c e => c.recordOperation e.1) c
  msetGroups S (order.order groups) c

/-- The values of one shard after another, each put at the place of its key. -/
def mgetGroups (c : InClusterStore σ) : List (ShardId × List (Sds × Nat)) →
    List (Option Value) → Except StoreError (List (Option Value))
  | [], results => .ok results
  | (id, items) :: rest, results => do
      let shard ← c.shardById id
      let values ← S.mget (items.map Prod.fst) shard
      mgetGroups c rest ((items.zip values).foldl (fun results e => results.set e.1.2 e.2) results)

def mget (order : IterationOrder (ShardId × List (Sds × Nat))) (keys : List Sds) :
    StoreM (InClusterStore σ) (List (Option Value)) := fun c =>
  let groups := c.groups Prod.fst keys.zipIdx
  let c := keys.foldl recordOperation c
  (mgetGroups S c (order.order groups) (List.replicate keys.length none), c)

/-- Runs a call on two keys of one shard. -/
def onBoth (src dst : Sds) (call : StoreM σ α) : StoreM (InClusterStore σ) α := fun c =>
  let fromShard := c.shardId src
  let toShard := c.shardId dst
  let c := (c.recordOperation src).recordOperation dst
  if fromShard ≠ toShard then (.error .wrongShard, c) else onShard fromShard call c

def rename (src dst : Sds) : StoreM (InClusterStore σ) Unit := onBoth src dst (S.rename src dst)

def renamenx (src dst : Sds) : StoreM (InClusterStore σ) Bool := onBoth src dst (S.renamenx src dst)

/-- Empties one shard after another, up to the first error. -/
def flushShards : List σ → Except StoreError Unit × List σ
  | [] => (.ok (), [])
  | shard :: rest =>
      match S.flushdb shard with
      | (.ok _, shard) => ((flushShards rest).1, shard :: (flushShards rest).2)
      | (.error e, shard) => (.error e, shard :: rest)

def flushdb : StoreM (InClusterStore σ) Unit := fun c =>
  match flushShards S c.shards with
  | (.ok _, shards) => (.ok (), ⟨shards, c.slotManager.resetMetrics⟩)
  | (.error e, shards) => (.error e, { c with shards := shards })

def sadd (key : Sds) (members : List Sds) : StoreM (InClusterStore σ) Nat :=
  routed key (S.sadd key members)

def smembers (key : Sds) : StoreM (InClusterStore σ) (List Sds) :=
  routed key (reads (S.smembers key))

def scard (key : Sds) : StoreM (InClusterStore σ) Nat := routed key (reads (S.scard key))

def sismember (key member : Sds) : StoreM (InClusterStore σ) Bool :=
  routed key (reads (S.sismember key member))

def srem (key : Sds) (members : List Sds) : StoreM (InClusterStore σ) Nat :=
  routed key (S.srem key members)

/-- Tables in one memory: their sizes never add up to more than a word. -/
def dbsize (size : StoreRead σ Nat) : StoreRead (InClusterStore σ) Nat := fun c =>
  c.shards.foldlM (fun total shard => do
    let n ← size shard
    pure (total + n)) 0

section

variable {γ : Type}

/-- The orders in which an `mset` and an `mget` leave their tables of groups. -/
structure TableOrders where
  mset : IterationOrder (ShardId × List (Sds × Value))
  mget : IterationOrder (ShardId × List (Sds × Nat))

/-- A call on a cluster of stores in memory. -/
def call (geo : GeoIndex γ) (orders : TableOrders) :
    StorageCall → StoreM (InClusterStore (InMemoryStore γ)) StorageReply :=
  let S := InMemoryStore.storage geo
  fun
  | .set key value => writing (fun _ => .done) (set S key value)
  | .get key => writing .value (get S key)
  | .del key => writing .flag (del S key)
  | .mset _ entries => writing (fun _ => .done) (mset S orders.mset entries)
  | .mget keys => writing .values (mget S orders.mget keys)
  | .rename src dst => writing (fun _ => .done) (rename S src dst)
  | .renamenx src dst => writing .flag (renamenx S src dst)
  | .flushdb => writing (fun _ => .done) (flushdb S)
  | .sadd key members => writing .count (sadd S key members)
  | .srem key members => writing .count (srem S key members)
  | .scard key => writing .count (scard S key)
  | .smembers key => writing .members (smembers S key)
  | .sismember key member => writing .flag (sismember S key member)
  | .dbsize => reading .count (dbsize InMemoryStore.dbsize)

end

end InClusterStore

/-- A cluster and the moves that its background thread has planned and not started yet. -/
structure ClusterSystem (γ : Type) where
  store : InClusterStore (InMemoryStore γ)
  planned : List Move

/-- What happens next: a call of a client, or a step of the background thread. -/
inductive ClusterEvent where
  | call (orders : InClusterStore.TableOrders) (c : StorageCall)
  | trigger
  | startNext

namespace ClusterSystem

variable {γ : Type}

/-- The thread plans again when it has started all moves of its last plan. A start that fails is
reported and skipped. -/
def background (s : ClusterSystem γ) (starts : Bool) : ClusterSystem γ :=
  match starts, s.planned with
  | false, [] =>
      let plan := s.store.slotManager.triggerRebalance
      ⟨{ s.store with slotManager := plan.2 }, plan.1⟩
  | true, move :: rest =>
      let m := s.store.slotManager
      let started := startSlotMigration m.slots move.slot move.fromShard move.toShard
      ⟨{ s.store with slotManager := { m with slots := started.1 } }, rest⟩
  | _, _ => s

def step (geo : GeoIndex γ) (s : ClusterSystem γ) :
    ClusterEvent → List StorageAnswer × ClusterSystem γ
  | .call orders c =>
      let r := s.store.call geo orders c
      ([r.1], { s with store := r.2 })
  | .trigger => ([], s.background false)
  | .startNext => ([], s.background true)

/-- The answers of a run and the cluster after it. -/
def run (geo : GeoIndex γ) :
    List ClusterEvent → ClusterSystem γ → List StorageAnswer × ClusterSystem γ
  | [], s => ([], s)
  | e :: events, s =>
      let first := s.step geo e
      let rest := run geo events first.2
      (first.1 ++ rest.1, rest.2)

end ClusterSystem

end Zumic.Engine
