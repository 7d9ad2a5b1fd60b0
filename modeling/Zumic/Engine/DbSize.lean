/- The key counters of the shards are exact in every state of a store. -/

import Zumic.Engine.KeyCounts

namespace Zumic.Engine

open Database Lib Lib.ByteString Zdb

namespace Shard

/-- The counter of a shard is the number of its keys and never fell below zero. -/
structure Exact (shard : Shard) : Prop where
  count : shard.keyCount = shard.data.length
  unwrapped : shard.wrapped = false
  distinct : (Assoc.keys shard.data).Nodup

theorem exact_new : new.Exact := ⟨rfl, rfl, List.nodup_nil⟩

theorem exact_fetchAdd {shard : Shard} {n : Nat} (count : shard.keyCount + n = shard.data.length)
    (unwrapped : shard.wrapped = false) (distinct : (Assoc.keys shard.data).Nodup) :
    (shard.fetchAdd n).Exact :=
  ⟨count, unwrapped, distinct⟩

theorem exact_fetchSub {shard : Shard} {n : Nat} (count : shard.keyCount = shard.data.length + n)
    (unwrapped : shard.wrapped = false) (distinct : (Assoc.keys shard.data).Nodup) :
    (shard.fetchSub n).Exact := by
  have enough : n ≤ shard.keyCount := by omega
  rw [fetchSub, if_pos enough]
  refine ⟨?_, unwrapped, distinct⟩
  show shard.keyCount - n = shard.data.length
  omega

variable {shard : Shard}

theorem length_insertData (shard : Shard) (key value : Bytes) :
    (shard.insertData key value).data.length =
      shard.data.length + (if shard.containsKey key then 0 else 1) :=
  Assoc.length_insert shard.data key value

theorem length_removeData (distinct : (Assoc.keys shard.data).Nodup) (key : Bytes) :
    (shard.removeData key).data.length + (if shard.containsKey key then 1 else 0) =
      shard.data.length :=
  Assoc.length_erase distinct key

theorem Exact.insertData (exact : shard.Exact) {key : Bytes} (there : shard.containsKey key = true)
    (value : Bytes) : (shard.insertData key value).Exact := by
  have size := length_insertData shard key value
  rw [there, if_pos rfl] at size
  refine ⟨?_, exact.unwrapped, Assoc.nodup_keys_insert exact.distinct key value⟩
  rw [size]
  exact exact.count

theorem Exact.insertCounted (exact : shard.Exact) {key : Bytes}
    (absent : shard.containsKey key = false) (value : Bytes) :
    (shard.insertData key value).incrementKeyCount.Exact := by
  have size := length_insertData shard key value
  rw [absent, if_neg Bool.false_ne_true] at size
  apply exact_fetchAdd
  · rw [size, ← exact.count]
    rfl
  · exact exact.unwrapped
  · exact Assoc.nodup_keys_insert exact.distinct key value

theorem Exact.removeDiscounted (exact : shard.Exact) {key : Bytes}
    (there : shard.containsKey key = true) : (shard.removeData key).decrementKeyCount.Exact := by
  have size := length_removeData exact.distinct key
  rw [there, if_pos rfl] at size
  apply exact_fetchSub
  · rw [size, ← exact.count]
    rfl
  · exact exact.unwrapped
  · exact Assoc.nodup_keys_erase exact.distinct key

theorem Exact.insert (exact : shard.Exact) (key value : Bytes) : (shard.insert key value).Exact := by
  simp only [Shard.insert]
  cases there : shard.containsKey key with
  | true => exact exact.insertData there value
  | false => exact exact.insertCounted there value

theorem Exact.remove (exact : shard.Exact) (key : Bytes) : (shard.remove key).Exact := by
  rw [Shard.remove]
  split
  · rename_i there
    exact exact.removeDiscounted there
  · exact exact

theorem Exact.rename (exact : shard.Exact) {src : Bytes} (there : shard.containsKey src = true)
    (dst value : Bytes) : (shard.rename src dst value).Exact := by
  have removed := length_removeData exact.distinct src
  have inserted := length_insertData (shard.removeData src) dst value
  have distinct : (Assoc.keys ((shard.removeData src).insertData dst value).data).Nodup :=
    Assoc.nodup_keys_insert (Assoc.nodup_keys_erase exact.distinct src) dst value
  have count : ((shard.removeData src).insertData dst value).keyCount = shard.data.length :=
    exact.count
  have unwrapped : ((shard.removeData src).insertData dst value).wrapped = false := exact.unwrapped
  rw [there, if_pos rfl] at removed
  simp only [Shard.rename]
  cases known : (shard.removeData src).containsKey dst with
  | true =>
      rw [known, if_pos rfl] at inserted
      exact exact_fetchSub (by omega) unwrapped distinct
  | false =>
      rw [known, if_neg Bool.false_ne_true] at inserted
      have enough : 1 ≤ ((shard.removeData src).insertData dst value).keyCount := by omega
      refine exact_fetchAdd ?_ ?_ ?_
      · rw [data_decrementKeyCount, decrementKeyCount, fetchSub, if_pos enough]
        show ((shard.removeData src).insertData dst value).keyCount - 1 + 1 = _
        omega
      · rw [decrementKeyCount, fetchSub, if_pos enough]
        exact unwrapped
      · rw [data_decrementKeyCount]
        exact distinct

theorem Exact.renamenx (exact : shard.Exact) {src dst : Bytes}
    (there : shard.containsKey src = true) (absent : shard.containsKey dst = false) (value : Bytes) :
    (shard.renamenx src dst value).Exact := by
  have removed := length_removeData exact.distinct src
  have inserted := length_insertData (shard.removeData src) dst value
  have known : (shard.removeData src).containsKey dst = false := by
    have none' : Assoc.get shard.data dst = none := Option.not_isSome_iff_eq_none.mp (by
      rw [containsKey] at absent
      simp [absent])
    rw [containsKey, removeData, Assoc.get_erase, none']
    split <;> rfl
  rw [there, if_pos rfl] at removed
  rw [known, if_neg Bool.false_ne_true] at inserted
  refine ⟨?_, exact.unwrapped,
    Assoc.nodup_keys_insert (Assoc.nodup_keys_erase exact.distinct src) dst value⟩
  rw [Shard.renamenx, inserted, removed]
  exact exact.count

theorem Exact.clear (exact : shard.Exact) : shard.clear.Exact := by
  apply exact_fetchSub
  · rw [exact.count]
    simp
  · exact exact.unwrapped
  · exact List.nodup_nil

/-- The loop of `mset` in a shard: the new keys it has met are those the counter does not know. -/
theorem insertAll_counted (entries : List (Bytes × Bytes)) (p : Shard × Nat)
    (count : p.1.keyCount + p.2 = p.1.data.length) (unwrapped : p.1.wrapped = false)
    (distinct : (Assoc.keys p.1.data).Nodup) :
    ((entries.foldl (fun (p : Shard × Nat) e =>
      (p.1.insertData e.1 e.2, if p.1.containsKey e.1 then p.2 else p.2 + 1)) p).1.fetchAdd
      (entries.foldl (fun (p : Shard × Nat) e =>
        (p.1.insertData e.1 e.2, if p.1.containsKey e.1 then p.2 else p.2 + 1)) p).2).Exact := by
  induction entries generalizing p with
  | nil => exact exact_fetchAdd count unwrapped distinct
  | cons e entries ih =>
      have size := length_insertData p.1 e.1 e.2
      rw [List.foldl_cons]
      apply ih
      · show p.1.keyCount + (if p.1.containsKey e.1 then p.2 else p.2 + 1) = _
        rw [size]
        split <;> omega
      · exact unwrapped
      · exact Assoc.nodup_keys_insert distinct e.1 e.2

theorem Exact.insertAll (exact : shard.Exact) (entries : List (Bytes × Bytes)) :
    (shard.insertAll entries).Exact := by
  have counted := insertAll_counted entries (shard, 0) exact.count exact.unwrapped exact.distinct
  simp only [Shard.insertAll]
  split
  · exact counted
  · rename_i nothing
    have zero : (entries.foldl (fun (p : Shard × Nat) e =>
        (p.1.insertData e.1 e.2, if p.1.containsKey e.1 then p.2 else p.2 + 1)) (shard, 0)).2 = 0 :=
      Nat.eq_zero_of_not_pos nothing
    rw [zero] at counted
    exact counted

end Shard

namespace ShardedIndex

variable {α : Type}

theorem placed_clear (index : ShardedIndex α) : index.clear.Placed := by
  intro i data here
  rw [clear, List.getElem?_map] at here
  obtain ⟨old, -, rfl⟩ := Option.map_eq_some_iff.mp here
  exact ⟨List.nodup_nil, fun k member => absurd member List.not_mem_nil⟩

theorem Placed.foldl {β : Type} {f : ShardedIndex α → β → ShardedIndex α}
    (keeps : ∀ index e, index.Placed → (f index e).Placed) (l : List β) {index : ShardedIndex α}
    (placed : index.Placed) : (l.foldl f index).Placed := by
  induction l generalizing index with
  | nil => exact placed
  | cons e l ih => exact ih (keeps index e placed)

end ShardedIndex

namespace InPersistentStore

theorem placed_keep (rt : Runtime) {s : InPersistentStore} (placed : s.index.Placed) (key : Sds)
    (members : List Sds) : (keep rt s key members).index.Placed := by
  rw [keep]
  split
  · exact placed.remove key
  · exact placed.insert key _

theorem placed_step (rt : Runtime) {s : InPersistentStore} (placed : s.index.Placed) (call : Call) :
    (step rt s call).index.Placed := by
  cases call with
  | set key value => exact placed.insert key _
  | del key =>
      rw [step, del]
      split
      · exact placed.remove key
      · exact placed
  | mset order entries =>
      refine ShardedIndex.Placed.foldl ?_ entries placed
      intro index e before
      split
      · exact before.insert e.1 _
      · exact before
  | rename src dst =>
      rw [step, rename]
      split
      · exact (placed.remove src).insert dst _
      · exact placed
  | renamenx src dst =>
      rw [step, renamenx]
      split
      · exact placed
      · split
        · exact placed
        · exact (placed.remove src).insert dst _
  | sadd key members =>
      rw [step, sadd]
      split
      · exact placed.insert key _
      · exact placed
  | srem key members =>
      rw [step, srem]
      split
      · exact placed
      · exact placed_keep rt placed key _
      · exact placed
  | spop rng key count =>
      rw [step, spop]
      split
      · exact placed
      · exact placed_keep rt placed key _
      · exact placed
  | geoAdd key lon lat member =>
      rw [step, geoAdd]
      simp only []
      split
      · exact placed.insert key _
      · exact placed
  | flushdb => exact ShardedIndex.placed_clear s.index

end InPersistentStore

namespace MeteredStore

/-- All counters are exact. -/
def Counted (s : MeteredStore) : Prop := ∀ shard ∈ s.shards, shard.Exact

theorem containsKey_of_getElem? {s : MeteredStore} {key : Bytes} {shard : Shard}
    (here : s.shards[s.shardForKey key]? = some shard) :
    shard.containsKey key = (s.lookup key).isSome := by
  have data : s.index.shards[s.index.shardForKey key]? = some shard.data := by
    have mapped : s.index.shards = s.shards.map Shard.data := rfl
    rw [mapped, List.getElem?_map]
    exact congrArg (Option.map Shard.data) here
  rw [Shard.containsKey, lookup, ShardedIndex.get, ShardedIndex.shard, data]
  rfl

theorem Counted.write {s : MeteredStore} (counted : s.Counted) {key : Bytes} {f : Shard → Shard}
    (keeps : ∀ shard, s.shards[s.shardForKey key]? = some shard → shard.Exact →
      (f shard).Exact) : (s.write key f).Counted := by
  intro shard member
  obtain ⟨i, here⟩ := List.mem_iff_getElem?.mp member
  rw [MeteredStore.write, writeShard, List.getElem?_modify] at here
  obtain ⟨before, found, rfl⟩ := Option.map_eq_some_iff.mp here
  have exact := counted before (List.mem_of_getElem? found)
  split
  · rename_i target
    subst target
    exact keeps before found exact
  · exact exact

theorem Counted.writeEach {s : MeteredStore} (counted : s.Counted) {f : Nat → Shard → Shard}
    (keeps : ∀ i shard, shard.Exact → (f i shard).Exact) : (s.writeEach f).Counted := by
  intro shard member
  obtain ⟨i, here⟩ := List.mem_iff_getElem?.mp member
  rw [MeteredStore.writeEach, List.getElem?_mapIdx] at here
  obtain ⟨before, found, rfl⟩ := Option.map_eq_some_iff.mp here
  exact keeps i before (counted before (List.mem_of_getElem? found))

theorem Counted.log {s : MeteredStore} (counted : s.Counted) (f : AofLog → AofLog) :
    (s.log f).Counted := counted

theorem Counted.insert {s : MeteredStore} (counted : s.Counted) (key value : Bytes) :
    (s.write key fun shard => shard.insert key value).Counted :=
  counted.write fun _ _ exact => exact.insert key value

theorem Counted.remove {s : MeteredStore} (counted : s.Counted) (key : Bytes) :
    (s.write key fun shard => shard.remove key).Counted :=
  counted.write fun _ _ exact => exact.remove key

theorem Counted.insertData {s : MeteredStore} (counted : s.Counted) {key : Bytes}
    (there : (s.lookup key).isSome = true) (value : Bytes) :
    (s.write key fun shard => shard.insertData key value).Counted :=
  counted.write fun _ here exact =>
    exact.insertData ((containsKey_of_getElem? here).trans there) value

theorem Counted.removeDiscounted {s : MeteredStore} (counted : s.Counted) {key : Bytes}
    (there : (s.lookup key).isSome = true) :
    (s.write key fun shard => (shard.removeData key).decrementKeyCount).Counted :=
  counted.write fun _ here exact =>
    exact.removeDiscounted ((containsKey_of_getElem? here).trans there)

section

variable (rt : Runtime)

theorem lookup_of_storedSet {s : MeteredStore} {command : String} {key : Sds}
    {stored : Option (List Sds)}
    (read : InPersistentStore.storedSet rt command s.plain key = .ok stored) :
    (s.lookup key).isSome = stored.isSome := by
  rw [InPersistentStore.storedSet] at read
  have same : s.plain.index.get key = s.lookup key := rfl
  rw [same] at read
  cases found : s.lookup key with
  | none =>
      rw [found] at read
      cases Except.ok.inj read
      rfl
  | some raw =>
      rw [found] at read
      simp only at read
      rcases decoded : InPersistentStore.fromBytes rt raw with e | value
      · rw [decoded] at read
        cases read
      · rw [decoded] at read
        cases value <;> cases read
        rfl

theorem Counted.keep {s : MeteredStore} (counted : s.Counted) {key : Sds}
    (there : (s.lookup key).isSome = true) (members : List Sds) :
    (keep rt s key members).Counted := by
  rw [MeteredStore.keep]
  split
  · exact (counted.remove key).log _
  · exact (counted.insertData there _).log _

/-- A renaming across shards: the source is discounted where it was, the target is counted in its
own shard when it is new there. -/
theorem Counted.moveAcross {s : MeteredStore} (counted : s.Counted) {src : Bytes}
    (there : (s.lookup src).isSome = true) (dst value : Bytes) :
    ((s.write src fun shard => (shard.removeData src).decrementKeyCount).write dst
      fun shard => shard.insert dst value).Counted :=
  (counted.removeDiscounted there).insert dst value

theorem Counted.step {s : MeteredStore} (counted : s.Counted) (call : InPersistentStore.Call) :
    (step rt s call).Counted := by
  cases call with
  | set key value => exact Counted.insert (counted.log _) key _
  | del key =>
      rw [MeteredStore.step, del]
      split
      · exact (counted.remove key).log _
      · exact counted.remove key
  | mset order entries =>
      exact Counted.writeEach (counted.log _) fun _ _ exact => exact.insertAll _
  | rename src dst =>
      rw [MeteredStore.step, MeteredStore.rename]
      cases found : s.lookup src with
      | none => exact counted
      | some value =>
          have there : (s.lookup src).isSome = true := by rw [found]; rfl
          simp only []
          split
          · refine Counted.log (counted.write ?_) _
            exact fun _ here exact =>
              exact.rename ((containsKey_of_getElem? here).trans there) dst value
          · exact Counted.log (counted.moveAcross there dst value) _
  | renamenx src dst =>
      rw [MeteredStore.step, MeteredStore.renamenx]
      cases found : s.lookup src with
      | none => exact counted
      | some value =>
          have there : (s.lookup src).isSome = true := by rw [found]; rfl
          simp only []
          split
          · exact counted
          · rename_i absent
            split
            · rename_i together
              refine Counted.log (counted.write ?_) _
              intro shard here exact
              have free : shard.containsKey dst = false :=
                (containsKey_of_getElem? (together ▸ here)).trans (Bool.eq_false_iff.mpr absent)
              exact exact.renamenx ((containsKey_of_getElem? here).trans there) free value
            · exact Counted.log (counted.moveAcross there dst value) _
  | sadd key members =>
      rw [MeteredStore.step, MeteredStore.sadd]
      rcases read : InPersistentStore.storedSet rt "SADD" s.plain key with e | stored
      · exact counted
      · have known := lookup_of_storedSet rt read
        cases stored with
        | none =>
            refine Counted.log (counted.write ?_) _
            exact fun _ here exact =>
              exact.insertCounted ((containsKey_of_getElem? here).trans known) _
        | some old => exact (counted.insertData known _).log _
  | srem key members =>
      rw [MeteredStore.step, MeteredStore.srem]
      rcases read : InPersistentStore.storedSet rt "SREM" s.plain key with e | stored
      · exact counted
      · have known := lookup_of_storedSet rt read
        cases stored with
        | none => exact counted
        | some old => exact counted.keep rt known _
  | spop rng key count =>
      rw [MeteredStore.step, MeteredStore.spop]
      rcases read : InPersistentStore.storedSet rt "SPOP" s.plain key with e | stored
      · exact counted
      · have known := lookup_of_storedSet rt read
        cases stored with
        | none => exact counted
        | some old => exact counted.keep rt known _
  | geoAdd key lon lat member =>
      rw [MeteredStore.step, MeteredStore.geoAdd]
      split
      · exact (counted.insert key _).log _
      · exact counted
  | flushdb => exact counted.writeEach fun _ _ exact => exact.clear

end

theorem counted_ofShards (config : PersistentStoreConfig) (aof : AofLog) :
    (ofShards config aof).Counted := by
  intro shard member
  have fresh : shard = Shard.new := List.eq_of_mem_replicate member
  exact fresh ▸ Shard.exact_new

theorem index_ofShards (config : PersistentStoreConfig) (aof : AofLog) :
    (ofShards config aof).index =
      ShardedIndex.new config.numShards config.positive config.hasher := by
  apply ShardedIndex.eq_of_shards
  · exact List.map_replicate
  · rfl

theorem index_replayEntry (s : MeteredStore) (e : AofEntry) :
    (s.replayEntry e).index = InPersistentStore.replayEntry s.index e := by
  cases e with
  | set key value => exact index_insert s key value
  | del key => exact index_remove s key

/-- What holds of the counters and of the places of the keys in every state. -/
structure Metered (s : MeteredStore) : Prop where
  counted : s.Counted
  placed : s.index.Placed

theorem Metered.replayEntry {s : MeteredStore} (metered : s.Metered) (e : AofEntry) :
    (s.replayEntry e).Metered := by
  refine ⟨?_, ?_⟩
  · cases e with
    | set key value => exact metered.counted.insert key value
    | del key => exact metered.counted.remove key
  · rw [index_replayEntry]
    cases e with
    | set key value => exact metered.placed.insert key value
    | del key => exact metered.placed.remove key

theorem metered_new {config : PersistentStoreConfig} {file : Bytes} {s : MeteredStore}
    (opened : new config file = .ok s) : s.Metered := by
  rw [new] at opened
  rcases log : AofLog.openLog file config.corruptionPolicy with e | aof
  · rw [log] at opened
    cases opened
  · rw [log] at opened
    have empty : (ofShards config aof).Metered := by
      refine ⟨counted_ofShards config aof, ?_⟩
      rw [index_ofShards]
      exact ShardedIndex.placed_new _ _ _
    exact AofLog.kept_replay (fun _ e metered => metered.replayEntry e) empty opened

theorem Metered.step (rt : Runtime) {s : MeteredStore} (metered : s.Metered)
    (call : InPersistentStore.Call) : (step rt s call).Metered := by
  have index : (MeteredStore.step rt s call).index =
      (InPersistentStore.step rt s.plain call).index :=
    congrArg InPersistentStore.index (plain_step rt s call)
  refine ⟨metered.counted.step rt call, ?_⟩
  rw [index]
  exact InPersistentStore.placed_step rt metered.placed call

theorem Metered.run (rt : Runtime) {s : MeteredStore} (metered : s.Metered)
    (calls : List InPersistentStore.Call) : (run rt s calls).Metered := by
  induction calls generalizing s with
  | nil => exact metered
  | cons call calls ih => exact ih (metered.step rt call)

theorem Counted.dbsize {s : MeteredStore} (counted : s.Counted) :
    s.dbsize = s.index.entries.length := by
  have counts : s.shards.map Shard.keyCount = s.index.shards.map List.length := by
    have mapped : s.index.shards = s.shards.map Shard.data := rfl
    rw [mapped, List.map_map]
    exact List.map_congr_left fun shard member => (counted shard member).count
  rw [MeteredStore.dbsize, counts, ShardedIndex.entries, List.length_flatten]

/-- The metrics of a store: every shard counts the keys of its map, each of them in its place. -/
structure KeysCounted (s : MeteredStore) : Prop where
  distinct : ∀ shard ∈ s.shards, (Assoc.keys shard.data).Nodup
  count : ∀ shard ∈ s.shards, shard.keyCount = (Assoc.keys shard.data).length
  unwrapped : ∀ shard ∈ s.shards, shard.wrapped = false
  placed : ∀ (i : Nat) (shard : Shard), s.shards[i]? = some shard →
    ∀ k ∈ Assoc.keys shard.data, s.shardForKey k = i
  size : ∃ keys : List Bytes, keys.Nodup ∧ (∀ k, k ∈ keys ↔ ∃ v, s.lookup k = some v) ∧
    s.dbsize = keys.length

theorem Metered.keysCounted {s : MeteredStore} (metered : s.Metered) : s.KeysCounted where
  distinct shard member := (metered.counted shard member).distinct
  count shard member := by
    rw [Assoc.keys, List.length_map]
    exact (metered.counted shard member).count
  unwrapped shard member := (metered.counted shard member).unwrapped
  placed i shard here k member := by
    have data : s.index.shards[i]? = some shard.data := by
      have mapped : s.index.shards = s.shards.map Shard.data := rfl
      rw [mapped, List.getElem?_map, here]
      rfl
    exact (metered.placed i shard.data data).2 k member
  size := by
    refine ⟨Assoc.keys s.index.entries, metered.placed.nodup_entries, ?_, ?_⟩
    · intro k
      rw [Assoc.mem_keys_iff_isSome, metered.placed.get_entries, Option.isSome_iff_exists]
      rfl
    · rw [Assoc.keys, List.length_map]
      exact metered.counted.dbsize

/-- The metrics are right in every state that a store can be in. -/
theorem keysCounted_run {config : PersistentStoreConfig} {file : Bytes} {s : MeteredStore}
    (opened : new config file = .ok s) (rt : Runtime) (calls : List InPersistentStore.Call) :
    (run rt s calls).KeysCounted :=
  ((metered_new opened).run rt calls).keysCounted

/-- Two shards, told apart by the length of the key. -/
def twoShards : PersistentStoreConfig := ⟨2, by decide, fun key => UInt64.ofNat key.length, .strict⟩

/-- One key is set and moved to the other shard, and another one is written twice at once. -/
theorem keysCounted_run_two_shards :
    ∃ s, new twoShards [] = .ok s ∧
      (run InPersistentStore.storingRuntime s [.set [107] .null, .rename [107] [107, 108],
        .mset ⟨id, fun _ => List.Perm.refl _⟩ [([109], .null), ([109], .null)]]).KeysCounted ∧
      (run InPersistentStore.storingRuntime s [.set [107] .null, .rename [107] [107, 108],
        .mset ⟨id, fun _ => List.Perm.refl _⟩ [([109], .null), ([109], .null)]]).dbsize = 2 := by
  have opened : new twoShards [] = .ok (ofShards twoShards ⟨magic, .strict⟩) := rfl
  exact ⟨_, opened, keysCounted_run opened _ _, by decide⟩

end MeteredStore

end Zumic.Engine
