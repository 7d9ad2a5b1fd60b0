/- The metered store is the persistent store with exact counters. -/

import Zumic.Engine.Metrics

namespace Zumic.Engine

open Database Lib Lib.ByteString Zdb

theorem ShardedIndex.eq_of_shards {α : Type} {a b : ShardedIndex α} (shards : a.shards = b.shards)
    (hasher : a.hasher = b.hasher) : a = b := by
  cases a
  cases b
  cases shards
  cases hasher
  rfl

namespace Shard

@[simp] theorem data_fetchSub (shard : Shard) (n : Nat) : (shard.fetchSub n).data = shard.data := by
  unfold fetchSub
  split <;> rfl

@[simp] theorem data_incrementKeyCount (shard : Shard) : shard.incrementKeyCount.data = shard.data :=
  rfl

@[simp] theorem data_decrementKeyCount (shard : Shard) : shard.decrementKeyCount.data = shard.data :=
  data_fetchSub shard 1

theorem data_insert (shard : Shard) (key value : Bytes) :
    (shard.insert key value).data = Assoc.insert shard.data key value := by
  simp only [insert]
  split <;> rfl

theorem data_remove (shard : Shard) (key : Bytes) :
    (shard.remove key).data = Assoc.erase shard.data key := by
  unfold remove
  split
  · exact data_decrementKeyCount _
  · rename_i absent
    have gone : key ∉ Assoc.keys shard.data := fun member =>
      absent (Assoc.mem_keys_iff_isSome.mp member)
    rw [Assoc.erase_of_not_mem gone]

theorem data_rename (shard : Shard) (src dst value : Bytes) :
    (shard.rename src dst value).data =
      Assoc.insert (Assoc.erase shard.data src) dst value := by
  simp only [rename]
  split
  · rw [data_incrementKeyCount, data_decrementKeyCount]
    rfl
  · rw [data_decrementKeyCount]
    rfl

theorem data_clear (shard : Shard) : shard.clear.data = [] := data_fetchSub _ _

theorem insertAll_fold (entries : List (Bytes × Bytes)) (shard : Shard) (n : Nat) :
    (entries.foldl (fun (p : Shard × Nat) e =>
      (p.1.insertData e.1 e.2, if p.1.containsKey e.1 then p.2 else p.2 + 1)) (shard, n)).1.data =
      entries.foldl (fun data e => Assoc.insert data e.1 e.2) shard.data := by
  induction entries generalizing shard n with
  | nil => rfl
  | cons e entries ih => exact ih _ _

theorem data_insertAll (shard : Shard) (entries : List (Bytes × Bytes)) :
    (shard.insertAll entries).data =
      entries.foldl (fun data e => Assoc.insert data e.1 e.2) shard.data := by
  have fold := insertAll_fold entries shard 0
  simp only [insertAll]
  split
  · exact fold
  · exact fold

end Shard

namespace MeteredStore

theorem index_write {s : MeteredStore} {key : Bytes} {f : Shard → Shard}
    {g : List (Bytes × Bytes) → List (Bytes × Bytes)} (data : ∀ shard, (f shard).data = g shard.data) :
    (s.write key f).index = s.index.write key g := by
  apply ShardedIndex.eq_of_shards
  · apply List.ext_getElem?
    intro i
    simp only [index, write, writeShard, ShardedIndex.write, List.getElem?_map,
      List.getElem?_modify, shardForKey]
    cases s.shards[i]? with
    | none => rfl
    | some shard =>
        split
        · exact congrArg some (data shard)
        · rfl
  · rfl

theorem index_insert (s : MeteredStore) (key value : Bytes) :
    (s.write key fun shard => shard.insert key value).index = s.index.insert key value :=
  index_write fun shard => shard.data_insert key value

theorem index_insertData (s : MeteredStore) (key value : Bytes) :
    (s.write key fun shard => shard.insertData key value).index = s.index.insert key value :=
  index_write fun _ => rfl

theorem index_insertCounted (s : MeteredStore) (key value : Bytes) :
    (s.write key fun shard => (shard.insertData key value).incrementKeyCount).index =
      s.index.insert key value :=
  index_write fun _ => rfl

theorem index_remove (s : MeteredStore) (key : Bytes) :
    (s.write key fun shard => shard.remove key).index = s.index.remove key :=
  index_write fun shard => shard.data_remove key

theorem index_removeDiscounted (s : MeteredStore) (key : Bytes) :
    (s.write key fun shard => (shard.removeData key).decrementKeyCount).index =
      s.index.remove key :=
  index_write fun _ => Shard.data_decrementKeyCount _

theorem index_moveWithin {s : MeteredStore} {src dst value : Bytes} {f : Shard → Shard}
    (together : s.shardForKey src = s.shardForKey dst)
    (data : ∀ shard, (f shard).data = Assoc.insert (Assoc.erase shard.data src) dst value) :
    (s.write src f).index = (s.index.remove src).insert dst value := by
  have moved : (s.write src f).index =
      s.index.write src fun data => Assoc.insert (Assoc.erase data src) dst value :=
    index_write data
  rw [moved]
  apply ShardedIndex.eq_of_shards
  · have same : s.index.shardForKey src = s.index.shardForKey dst := together
    apply List.ext_getElem?
    intro i
    rw [ShardedIndex.insert, ShardedIndex.remove]
    simp only [ShardedIndex.write, List.getElem?_modify]
    rw [show ShardedIndex.shardForKey
        { shards := s.index.shards.modify (s.index.shardForKey src) fun data =>
            Assoc.erase data src, hasher := s.index.hasher, positive := _ } dst =
        s.index.shardForKey dst from ShardedIndex.shardForKey_write s.index src _ dst, same]
    cases s.index.shards[i]? with
    | none => rfl
    | some data =>
        split <;> rfl
  · rfl

theorem index_log (s : MeteredStore) (f : AofLog → AofLog) : (s.log f).index = s.index := rfl

/-- A call of the metered store returns what the persistent store returns and changes the index
and the log as it does. -/
structure Mirrors {α : Type} (metered : Except StoreError α × MeteredStore)
    (stored : Except StoreError α × InPersistentStore) : Prop where
  result : metered.1 = stored.1
  plain : metered.2.plain = stored.2

theorem plain_eq {s : MeteredStore} {index : ShardedIndex Bytes} {aof : AofLog}
    (same : s.index = index) (logged : s.aof = aof) : s.plain = ⟨index, aof⟩ := by
  rw [plain, same, logged]

theorem mirrors_set (rt : Runtime) (key : Sds) (value : Value) (s : MeteredStore) :
    Mirrors (set rt key value s) (InPersistentStore.set rt key value s.plain) :=
  ⟨rfl, plain_eq (index_insert _ key _) rfl⟩

theorem index_removeAbsent {s : MeteredStore} {key : Bytes} (absent : s.lookup key = none) :
    (s.write key fun shard => shard.remove key).index = s.index := by
  have gone : ∀ data, s.index.shards[s.index.shardForKey key]? = some data →
      key ∉ Assoc.keys data := by
    intro data here
    have read : Assoc.get data key = none := by
      have lookup : Assoc.get (s.index.shard (s.index.shardForKey key)) key = none := absent
      rwa [ShardedIndex.shard, here] at lookup
    exact Assoc.get_eq_none_iff.mp read
  rw [index_remove]
  apply ShardedIndex.eq_of_shards
  · apply List.ext_getElem?
    intro i
    simp only [ShardedIndex.remove, ShardedIndex.write, List.getElem?_modify]
    cases here : s.index.shards[i]? with
    | none => rfl
    | some data =>
        split
        · rename_i target
          subst target
          exact congrArg some (Assoc.erase_of_not_mem (gone data here))
        · rfl
  · rfl

theorem mirrors_del (key : Sds) (s : MeteredStore) :
    Mirrors (del key s) (InPersistentStore.del key s.plain) := by
  unfold del InPersistentStore.del
  have lookup : s.plain.index.get key = s.lookup key := rfl
  rw [lookup]
  cases found : s.lookup key with
  | none => exact ⟨rfl, plain_eq (index_removeAbsent found) rfl⟩
  | some value => exact ⟨rfl, plain_eq (index_remove s key) rfl⟩

theorem mirrors_rename (src dst : Sds) (s : MeteredStore) :
    Mirrors (rename src dst s) (InPersistentStore.rename src dst s.plain) := by
  unfold rename InPersistentStore.rename
  have lookup : s.plain.index.get src = s.lookup src := rfl
  rw [lookup]
  cases s.lookup src with
  | none => exact ⟨rfl, rfl⟩
  | some value =>
      simp only
      split
      · rename_i together
        exact ⟨rfl, plain_eq (index_moveWithin together fun shard => shard.data_rename _ _ _) rfl⟩
      · refine ⟨rfl, plain_eq ?_ rfl⟩
        rw [index_log, index_insert, index_removeDiscounted]
        rfl

theorem mirrors_renamenx (src dst : Sds) (s : MeteredStore) :
    Mirrors (renamenx src dst s) (InPersistentStore.renamenx src dst s.plain) := by
  unfold renamenx InPersistentStore.renamenx
  have from_lookup : s.plain.index.get src = s.lookup src := rfl
  have to_lookup : s.plain.index.get dst = s.lookup dst := rfl
  rw [from_lookup, to_lookup]
  cases s.lookup src with
  | none => exact ⟨rfl, rfl⟩
  | some value =>
      simp only
      split
      · exact ⟨rfl, rfl⟩
      · split
        · rename_i together
          exact ⟨rfl, plain_eq (index_moveWithin together fun _ => rfl) rfl⟩
        · refine ⟨rfl, plain_eq ?_ rfl⟩
          rw [index_log, index_insert, index_removeDiscounted]
          rfl

theorem mirrors_flushdb (s : MeteredStore) :
    Mirrors (flushdb s) (InPersistentStore.flushdb s.plain) := by
  refine ⟨rfl, plain_eq ?_ rfl⟩
  apply ShardedIndex.eq_of_shards
  · apply List.ext_getElem?
    intro i
    simp only [index, flushdb, writeEach, ShardedIndex.clear, plain, List.getElem?_map,
      List.getElem?_mapIdx]
    cases s.shards[i]? with
    | none => rfl
    | some shard => exact congrArg some shard.data_clear
  · rfl

theorem mirrors_geoAdd (rt : Runtime) (key : Sds) (lon lat : F64) (member : Sds)
    (s : MeteredStore) :
    Mirrors (geoAdd rt key lon lat member s)
      (InPersistentStore.geoAdd rt key lon lat member s.plain) := by
  unfold geoAdd InPersistentStore.geoAdd
  rcases InPersistentStore.storedPoints rt s.plain key with e | points
  · exact ⟨rfl, rfl⟩
  · rcases InPersistentStore.asStr rt member with e | name
    · exact ⟨rfl, rfl⟩
    · exact ⟨rfl, plain_eq (index_insert s key _) rfl⟩

theorem mirrors_sadd (rt : Runtime) (key : Sds) (added : List Sds) (s : MeteredStore) :
    Mirrors (sadd rt key added s) (InPersistentStore.sadd rt key added s.plain) := by
  unfold sadd InPersistentStore.sadd
  rcases InPersistentStore.storedSet rt "SADD" s.plain key with e | stored
  · exact ⟨rfl, rfl⟩
  · cases stored with
    | none => exact ⟨rfl, plain_eq (index_insertCounted s key _) rfl⟩
    | some members => exact ⟨rfl, plain_eq (index_insertData s key _) rfl⟩

theorem plain_keep (rt : Runtime) (s : MeteredStore) (key : Sds) (members : List Sds) :
    (keep rt s key members).plain = InPersistentStore.keep rt s.plain key members := by
  unfold keep InPersistentStore.keep
  split
  · exact plain_eq (index_remove s key) rfl
  · exact plain_eq (index_insertData s key _) rfl

theorem mirrors_srem (rt : Runtime) (key : Sds) (removed : List Sds) (s : MeteredStore) :
    Mirrors (srem rt key removed s) (InPersistentStore.srem rt key removed s.plain) := by
  unfold srem InPersistentStore.srem
  rcases InPersistentStore.storedSet rt "SREM" s.plain key with e | stored
  · exact ⟨rfl, rfl⟩
  · cases stored with
    | none => exact ⟨rfl, rfl⟩
    | some members => exact ⟨rfl, plain_keep rt s key _⟩

theorem mirrors_spop (rt : Runtime) (rng : Rng) (key : Sds) (count : Int64) (s : MeteredStore) :
    Mirrors (spop rt rng key count s) (InPersistentStore.spop rt rng key count s.plain) := by
  unfold spop InPersistentStore.spop
  rcases InPersistentStore.storedSet rt "SPOP" s.plain key with e | stored
  · exact ⟨rfl, rfl⟩
  · cases stored with
    | none => exact ⟨rfl, rfl⟩
    | some members => exact ⟨rfl, plain_keep rt s key _⟩

theorem shards_foldl_insert (entries : List (Bytes × Bytes)) (index : ShardedIndex Bytes) :
    (entries.foldl (fun index e => index.insert e.1 e.2) index).shards =
      index.shards.mapIdx fun i data =>
        (entries.filter fun e => index.shardForKey e.1 = i).foldl
          (fun data e => Assoc.insert data e.1 e.2) data := by
  induction entries generalizing index with
  | nil =>
      apply List.ext_getElem?
      intro i
      simp only [List.foldl_nil, List.filter_nil, List.getElem?_mapIdx]
      cases index.shards[i]? <;> rfl
  | cons e entries ih =>
      rw [List.foldl_cons, ih]
      apply List.ext_getElem?
      intro i
      have same : ∀ k, (index.insert e.1 e.2).shardForKey k = index.shardForKey k :=
        fun k => ShardedIndex.shardForKey_write index e.1 _ k
      simp only [List.getElem?_mapIdx, same]
      simp only [ShardedIndex.insert, ShardedIndex.write, List.getElem?_modify]
      cases index.shards[i]? with
      | none => rfl
      | some data =>
          by_cases here : index.shardForKey e.1 = i
          · rw [List.filter_cons_of_pos (by simpa using here)]
            simp [here]
          · rw [List.filter_cons_of_neg (by simpa using here)]
            simp [here]

theorem hasher_foldl_insert (entries : List (Bytes × Bytes)) (index : ShardedIndex Bytes) :
    (entries.foldl (fun index e => index.insert e.1 e.2) index).hasher = index.hasher := by
  induction entries generalizing index with
  | nil => rfl
  | cons e entries ih => exact ih (index.insert e.1 e.2)

theorem index_insertGroups (s : MeteredStore) (entries : List (Bytes × Bytes)) :
    (s.writeEach fun i shard =>
      shard.insertAll (entries.filter fun e => s.shardForKey e.1 = i)).index =
        entries.foldl (fun index e => index.insert e.1 e.2) s.index := by
  apply ShardedIndex.eq_of_shards
  · rw [shards_foldl_insert]
    apply List.ext_getElem?
    intro i
    simp only [index, writeEach, List.getElem?_map, List.getElem?_mapIdx]
    cases s.shards[i]? with
    | none => rfl
    | some shard => exact congrArg some (shard.data_insertAll _)
  · exact (hasher_foldl_insert entries s.index).symm

theorem foldl_found (lookup : List (Bytes × Bytes)) (entries : List (Sds × Value))
    (index : ShardedIndex Bytes) :
    (entries.filterMap fun e => (Assoc.get lookup e.1).map fun value => (e.1, value)).foldl
        (fun index e => index.insert e.1 e.2) index =
      entries.foldl (fun index e =>
        match Assoc.get lookup e.1 with
        | some value => index.insert e.1 value
        | none => index) index := by
  induction entries generalizing index with
  | nil => rfl
  | cons e entries ih =>
      rw [List.foldl_cons, List.filterMap_cons]
      cases Assoc.get lookup e.1 with
      | none => exact ih index
      | some value => exact ih (index.insert e.1 value)

theorem mirrors_mset (rt : Runtime) (order : IterationOrder (Bytes × Bytes))
    (entries : List (Sds × Value)) (s : MeteredStore) :
    Mirrors (mset rt order entries s) (InPersistentStore.mset rt order entries s.plain) := by
  refine ⟨rfl, plain_eq ?_ rfl⟩
  exact (index_insertGroups (s.log _) _).trans (foldl_found _ entries s.index)

theorem plain_step (rt : Runtime) (s : MeteredStore) (call : InPersistentStore.Call) :
    (step rt s call).plain = InPersistentStore.step rt s.plain call := by
  cases call with
  | set key value => exact (mirrors_set rt key value s).plain
  | del key => exact (mirrors_del key s).plain
  | mset order entries => exact (mirrors_mset rt order entries s).plain
  | rename src dst => exact (mirrors_rename src dst s).plain
  | renamenx src dst => exact (mirrors_renamenx src dst s).plain
  | sadd key members => exact (mirrors_sadd rt key members s).plain
  | srem key members => exact (mirrors_srem rt key members s).plain
  | spop rng key count => exact (mirrors_spop rt rng key count s).plain
  | geoAdd key lon lat member => exact (mirrors_geoAdd rt key lon lat member s).plain
  | flushdb => exact (mirrors_flushdb s).plain

end MeteredStore

end Zumic.Engine
