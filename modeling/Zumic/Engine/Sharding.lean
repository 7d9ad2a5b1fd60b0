/- The sharded index (`sharding.rs`) and the map it stands for. -/

import Mathlib.Data.List.Nodup
import Zumic.Lib.Assoc
import Zumic.Lib.ByteString

namespace Zumic.Engine

open Lib Lib.ByteString

/-- Hash tables, and the seeded hasher that distributes the keys over them. -/
structure ShardedIndex (α : Type) where
  shards : List (List (Bytes × α))
  hasher : Bytes → UInt64
  positive : 0 < shards.length

namespace ShardedIndex

variable {α : Type}

/-- An index of `numShards` empty shards. -/
def new (numShards : Nat) (positive : 0 < numShards) (hasher : Bytes → UInt64) :
    ShardedIndex α where
  shards := List.replicate numShards []
  hasher := hasher
  positive := by rwa [List.length_replicate]

def shardForKey (index : ShardedIndex α) (key : Bytes) : Nat :=
  let hash := (index.hasher key).toNat
  let n := index.shards.length
  if 2 ^ n.log2 = n then hash &&& (n - 1) else hash % n

def shard (index : ShardedIndex α) (i : Nat) : List (Bytes × α) := index.shards[i]?.getD []

/-- The value of a key, read in its shard. -/
def get (index : ShardedIndex α) (key : Bytes) : Option α :=
  Assoc.get (index.shard (index.shardForKey key)) key

/-- Writes in the shard of a key. -/
def write (index : ShardedIndex α) (key : Bytes) (f : List (Bytes × α) → List (Bytes × α)) :
    ShardedIndex α where
  shards := index.shards.modify (index.shardForKey key) f
  hasher := index.hasher
  positive := by
    rw [List.length_modify]
    exact index.positive

def insert (index : ShardedIndex α) (key : Bytes) (v : α) : ShardedIndex α :=
  index.write key fun data => Assoc.insert data key v

def remove (index : ShardedIndex α) (key : Bytes) : ShardedIndex α :=
  index.write key fun data => Assoc.erase data key

def clear (index : ShardedIndex α) : ShardedIndex α where
  shards := index.shards.map fun _ => []
  hasher := index.hasher
  positive := by
    rw [List.length_map]
    exact index.positive

theorem shardForKey_lt (index : ShardedIndex α) (key : Bytes) :
    index.shardForKey key < index.shards.length := by
  have positive := index.positive
  have masked := Nat.and_le_right (n := (index.hasher key).toNat) (m := index.shards.length - 1)
  have reduced := Nat.mod_lt (index.hasher key).toNat positive
  simp only [shardForKey]
  split
  · omega
  · exact reduced

@[simp] theorem shardForKey_write (index : ShardedIndex α) (key : Bytes)
    (f : List (Bytes × α) → List (Bytes × α)) (k : Bytes) :
    (index.write key f).shardForKey k = index.shardForKey k := by
  simp only [shardForKey, write, List.length_modify]

theorem shard_write (index : ShardedIndex α) (key : Bytes)
    (f : List (Bytes × α) → List (Bytes × α)) (i : Nat) :
    (index.write key f).shard i =
      if index.shardForKey key = i then f (index.shard i) else index.shard i := by
  have inside := index.shardForKey_lt key
  simp only [shard, write, List.getElem?_modify]
  by_cases here : index.shardForKey key = i
  · subst here
    simp [List.getElem?_eq_getElem inside]
  · simp [here]

theorem get_insert (index : ShardedIndex α) (key : Bytes) (v : α) :
    (index.insert key v).get = Function.update index.get key (some v) := by
  funext k
  simp only [get, insert, shardForKey_write, shard_write, Function.update_apply]
  by_cases same : k = key
  · subst same
    simp [Assoc.get_insert]
  · rw [if_neg same]
    split
    · rw [Assoc.get_insert, if_neg (Ne.symm same)]
    · rfl

theorem get_remove (index : ShardedIndex α) (key : Bytes) :
    (index.remove key).get = Function.update index.get key none := by
  funext k
  simp only [get, remove, shardForKey_write, shard_write, Function.update_apply]
  by_cases same : k = key
  · subst same
    simp [Assoc.get_erase]
  · rw [if_neg same]
    split
    · rw [Assoc.get_erase, if_neg (Ne.symm same)]
    · rfl

theorem get_clear (index : ShardedIndex α) : index.clear.get = fun _ => none := by
  funext k
  simp only [get, clear, shard, List.getElem?_map]
  cases index.shards[shardForKey _ k]? with
  | none => rfl
  | some data => rfl

theorem get_new (numShards : Nat) (positive : 0 < numShards) (hasher : Bytes → UInt64) :
    (new numShards positive hasher : ShardedIndex α).get = fun _ => none := by
  funext k
  simp only [get, new, shard, List.getElem?_replicate]
  split
  · rfl
  · rfl

/-- All entries, shard by shard. -/
def entries (index : ShardedIndex α) : List (Bytes × α) := index.shards.flatten

/-- Every key is in its shard, and there only once. -/
def Placed (index : ShardedIndex α) : Prop :=
  ∀ (i : Nat) (data : List (Bytes × α)), index.shards[i]? = some data →
    (Assoc.keys data).Nodup ∧ ∀ k ∈ Assoc.keys data, index.shardForKey k = i

theorem placed_new (numShards : Nat) (positive : 0 < numShards) (hasher : Bytes → UInt64) :
    (new numShards positive hasher : ShardedIndex α).Placed := by
  intro i data here
  rw [new, List.getElem?_replicate] at here
  split at here
  · obtain rfl := Option.some.inj here
    exact ⟨List.nodup_nil, fun k member => absurd member List.not_mem_nil⟩
  · cases here

theorem Placed.write {index : ShardedIndex α} (placed : index.Placed) {key : Bytes}
    {f : List (Bytes × α) → List (Bytes × α)}
    (distinct : ∀ data, (Assoc.keys data).Nodup → (Assoc.keys (f data)).Nodup)
    (named : ∀ data, ∀ k ∈ Assoc.keys (f data), k = key ∨ k ∈ Assoc.keys data) :
    (index.write key f).Placed := by
  intro i data here
  rw [ShardedIndex.write, List.getElem?_modify] at here
  obtain ⟨data', before, rfl⟩ := Option.map_eq_some_iff.mp here
  obtain ⟨nodup, shards⟩ := placed i data' before
  split
  · rename_i target
    refine ⟨distinct data' nodup, fun k member => ?_⟩
    rw [shardForKey_write]
    rcases named data' k member with rfl | old
    · exact target
    · exact shards k old
  · exact ⟨nodup, fun k member => (shardForKey_write index key f k).trans (shards k member)⟩

theorem Placed.insert {index : ShardedIndex α} (placed : index.Placed) (key : Bytes) (v : α) :
    (index.insert key v).Placed :=
  placed.write (fun _ distinct => Assoc.nodup_keys_insert distinct key v)
    fun _ _ member => Assoc.mem_keys_insert.mp member

theorem Placed.remove {index : ShardedIndex α} (placed : index.Placed) (key : Bytes) :
    (index.remove key).Placed :=
  placed.write
    (fun data distinct => ((Assoc.erase_sublist data key).map Prod.fst).nodup distinct)
    fun data _ member => Or.inr (((Assoc.erase_sublist data key).map Prod.fst).subset member)

theorem Placed.nodup_entries {index : ShardedIndex α} (placed : index.Placed) :
    (Assoc.keys index.entries).Nodup := by
  rw [Assoc.keys, entries, List.map_flatten, List.nodup_flatten]
  constructor
  · intro l member
    obtain ⟨data, among, rfl⟩ := List.mem_map.mp member
    obtain ⟨i, here⟩ := List.mem_iff_getElem?.mp among
    exact (placed i data here).1
  · rw [List.pairwise_map, List.pairwise_iff_getElem]
    intro i j hi hj less k first second
    have one := (placed i _ (List.getElem?_eq_getElem hi)).2 k first
    have other := (placed j _ (List.getElem?_eq_getElem hj)).2 k second
    omega

theorem Placed.get_entries {index : ShardedIndex α} (placed : index.Placed) :
    Assoc.get index.entries = index.get := by
  funext k
  have inside := index.shardForKey_lt k
  have here : index.shards[index.shardForKey k]? = some (index.shard (index.shardForKey k)) := by
    rw [shard, List.getElem?_eq_getElem inside]
    rfl
  cases read : index.get k with
  | some v =>
      have member : (k, v) ∈ index.entries :=
        List.mem_flatten.mpr ⟨_, List.mem_of_getElem? here, Assoc.mem_of_get read⟩
      exact Assoc.get_of_mem placed.nodup_entries member
  | none =>
      rw [Assoc.get_eq_none_iff]
      intro member
      obtain ⟨p, among, rfl⟩ := List.mem_map.mp member
      obtain ⟨data, among', within⟩ := List.mem_flatten.mp among
      obtain ⟨i, there⟩ := List.mem_iff_getElem?.mp among'
      have named : p.1 ∈ Assoc.keys data := List.mem_map_of_mem within
      obtain rfl := (placed i data there).2 p.1 named
      rw [here] at there
      obtain rfl := Option.some.inj there
      exact Assoc.get_eq_none_iff.mp read named

end ShardedIndex

end Zumic.Engine
