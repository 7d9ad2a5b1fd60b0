/- Access to many keys at once, shard by shard (`sharding.rs`, `persistent.rs`). -/

import Zumic.Engine.Interchange

namespace Zumic.Engine

open Database Lib Lib.ByteString Zdb

/-- The shards that a table of groups names, in ascending order. -/
def sortedShardIds {β : Type} (groups : List (Nat × β)) : List Nat :=
  (Assoc.keys groups).mergeSort fun a b => decide (a ≤ b)

namespace ShardedIndex

variable {α : Type}

/-- Writes in one shard under its lock. -/
def writeShard (index : ShardedIndex α) (i : Nat) (f : List (Bytes × α) → List (Bytes × α)) :
    ShardedIndex α where
  shards := index.shards.modify i f
  hasher := index.hasher
  positive := by
    rw [List.length_modify]
    exact index.positive

def groupKeysByShard (index : ShardedIndex α) (keys : List Bytes) : List (Nat × List Bytes) :=
  Grouping.group index.shardForKey keys

/-- `ShardedIndex::mset`. No shard is met twice, so that its group is still in the table. -/
def mset (index : ShardedIndex α) (entries : List (Bytes × α)) : ShardedIndex α :=
  if entries.isEmpty then index
  else
    let groups := Grouping.group (fun e => index.shardForKey e.1) entries
    (sortedShardIds groups).foldl (fun index sid =>
      let list := (Assoc.get groups sid).getD []
      index.writeShard sid fun map => list.foldl (fun map e => Assoc.insert map e.1 e.2) map) index

/-- `ShardedIndex::mget`. -/
def mget (index : ShardedIndex α) (keys : List Bytes) : List (Option α) :=
  if keys.isEmpty then []
  else
    let groups := Grouping.group (fun e => index.shardForKey e.1) keys.zipIdx
    (sortedShardIds groups).foldl (fun results sid =>
      let map := index.shard sid
      ((Assoc.get groups sid).getD []).foldl (fun results e =>
        results.set e.2 (Assoc.get map e.1)) results) (List.replicate keys.length none)

end ShardedIndex

namespace InPersistentStore

variable (rt : Runtime)

/-- `mset` with its groups, which stand in a table of their own order. -/
def msetGroups (order : IterationOrder (Bytes × Bytes))
    (groupOrder : IterationOrder (Nat × List Bytes)) (entries : List (Sds × Value)) : StoreM InPersistentStore Unit := fun s =>
  let lookup := entries.foldl (fun m e => Assoc.insert m e.1 (toBytes rt.zstd e.2)) []
  let groups := s.index.groupKeysByShard (entries.map Prod.fst)
  let aof := (order.order lookup).foldl (fun aof e => aof.appendSet e.1 e.2) s.aof
  let index := (groupOrder.order groups).foldl (fun index g =>
    index.writeShard g.1 fun data => g.2.foldl (fun data key =>
      match Assoc.get lookup key with
      | some value => Assoc.insert data key value
      | none => data) data) s.index
  (.ok (), ⟨index, aof⟩)

/-- `mget` with its groups. -/
def mgetGroups (keys : List Sds) : StoreRead InPersistentStore (List (Option Value)) := fun s =>
  let groups := Grouping.group (fun e => s.index.shardForKey e.1) keys.zipIdx
  (sortedShardIds groups).foldlM (fun result sid => do
    let items := (Assoc.get groups sid).getD []
    let data := s.index.shard sid
    let values ← items.mapM fun e =>
      match Assoc.get data e.1 with
      | some b => (fromBytes rt b).map some
      | none => .ok none
    pure ((items.zip values).foldl (fun result e => result.set e.1.2 e.2) result))
    (List.replicate keys.length none)

end InPersistentStore

section

variable {α : Type} {index : ShardedIndex α}

theorem sortedShardIds_perm {β : Type} (groups : List (Nat × β)) :
    (sortedShardIds groups).Perm (Assoc.keys groups) :=
  List.mergeSort_perm _ _

theorem sorted_groups {ε : Type} (place : ε → Nat) (items : List ε) :
    ((sortedShardIds (Grouping.group place items)).map fun sid =>
      (sid, (Assoc.get (Grouping.group place items) sid).getD [])).Perm
        (Grouping.group place items) :=
  Grouping.map_get_perm (sortedShardIds_perm _) (Grouping.nodup_group items)

theorem eq_of_shards {a b : ShardedIndex α} (shards : a.shards = b.shards)
    (hasher : a.hasher = b.hasher) : a = b := by
  cases a
  cases b
  cases shards
  cases hasher
  rfl

variable {ε : Type} (key : ε → Bytes) (act : List (Bytes × α) → ε → List (Bytes × α))

theorem foldl_write (items : List ε) (index : ShardedIndex α) :
    (items.foldl (fun index x => index.write (key x) fun data => act data x) index).shards =
        items.foldl (Grouping.actAt act fun x => index.shardForKey (key x)) index.shards ∧
      (items.foldl (fun index x => index.write (key x) fun data => act data x) index).hasher =
        index.hasher := by
  induction items generalizing index with
  | nil => exact ⟨rfl, rfl⟩
  | cons x items ih =>
      obtain ⟨shards, hasher⟩ := ih (index.write (key x) fun data => act data x)
      simp only [ShardedIndex.shardForKey_write] at shards
      exact ⟨shards, hasher⟩

theorem foldl_writeShard (groups : List (Nat × List ε)) (index : ShardedIndex α) :
    (groups.foldl (fun index g => index.writeShard g.1 fun data => g.2.foldl act data) index).shards =
        groups.foldl (fun cells g => cells.modify g.1 fun data => g.2.foldl act data)
          index.shards ∧
      (groups.foldl (fun index g => index.writeShard g.1 fun data => g.2.foldl act data)
        index).hasher = index.hasher := by
  induction groups generalizing index with
  | nil => exact ⟨rfl, rfl⟩
  | cons g groups ih => exact ih (index.writeShard g.1 fun data => g.2.foldl act data)

theorem writeShard_groups {items : List ε} {groups : List (Nat × List ε)}
    (same : groups.Perm (Grouping.group (fun x => index.shardForKey (key x)) items)) :
    groups.foldl (fun index g => index.writeShard g.1 fun data => g.2.foldl act data) index =
      items.foldl (fun index x => index.write (key x) fun data => act data x) index := by
  obtain ⟨shards, hasher⟩ := foldl_writeShard act groups index
  obtain ⟨shards', hasher'⟩ := foldl_write key act items index
  apply eq_of_shards
  · rw [shards, shards', Grouping.foldl_groups act same]
  · rw [hasher, hasher']

theorem mset_eq (index : ShardedIndex α) (entries : List (Bytes × α)) :
    index.mset entries = entries.foldl (fun index e => index.insert e.1 e.2) index := by
  rw [ShardedIndex.mset]
  split
  · rename_i empty
    rw [List.isEmpty_iff.mp empty]
    rfl
  · have grouped := writeShard_groups Prod.fst
      (fun map (e : Bytes × α) => Assoc.insert map e.1 e.2)
      (sorted_groups (fun e => index.shardForKey e.1) entries)
    rw [List.foldl_map] at grouped
    exact grouped

theorem read_groups {items : List (Bytes × Nat)} {groups : List (Nat × List (Bytes × Nat))}
    (same : groups.Perm (Grouping.group (fun e => index.shardForKey e.1) items))
    (results : List (Option α)) :
    groups.foldl (fun results g => g.2.foldl (fun results e =>
        results.set e.2 (Assoc.get (index.shard g.1) e.1)) results) results =
      (groups.flatMap Prod.snd).foldl (fun results e => results.set e.2 (index.get e.1))
        results := by
  rw [List.foldl_flatMap]
  refine List.foldl_ext _ _ _ fun results g listed => List.foldl_ext _ _ _ fun results e member => ?_
  have place : index.shardForKey e.1 = g.1 := Grouping.place_of_mem same listed member
  rw [ShardedIndex.get, place]

theorem mget_eq (index : ShardedIndex α) (keys : List Bytes) :
    index.mget keys = keys.map index.get := by
  rw [ShardedIndex.mget]
  split
  · rename_i empty
    rw [List.isEmpty_iff.mp empty]
    rfl
  · have same := sorted_groups (fun e => index.shardForKey e.1) keys.zipIdx
    have filled := Grouping.fill_eq_map index.get (Grouping.mem_flatMap_group same)
      (List.length_replicate (a := none))
    rw [← filled, ← read_groups same, List.foldl_map]

end

section

variable {ε β : Type}

theorem mapM_congr_of_mem {f g : ε → Except StoreError β} {l : List ε}
    (same : ∀ x ∈ l, f x = g x) : l.mapM f = l.mapM g := by
  induction l with
  | nil => rfl
  | cons x l ih =>
      rw [List.mapM_cons, List.mapM_cons, same x List.mem_cons_self,
        ih fun y member => same y (List.mem_cons_of_mem x member)]

theorem mapM_ok_inv {f : ε → Except StoreError β} {l : List ε} {r : List β}
    (run : l.mapM f = .ok r) : ∀ x ∈ l, ∃ y, f x = .ok y := by
  induction l generalizing r with
  | nil => exact fun x member => absurd member List.not_mem_nil
  | cons a l ih =>
      rw [List.mapM_cons] at run
      cases first : f a with
      | error e =>
          rw [first] at run
          cases run
      | ok y =>
          cases rest : l.mapM f with
          | error e =>
              rw [first, rest] at run
              cases run
          | ok ys =>
              intro x member
              rcases List.mem_cons.mp member with rfl | later
              · exact ⟨y, first⟩
              · exact ih rest x later

theorem mapM_error_inv {f : ε → Except StoreError β} {l : List ε} {e : StoreError}
    (run : l.mapM f = .error e) : ∃ x ∈ l, f x = .error e := by
  induction l with
  | nil => cases run
  | cons a l ih =>
      rw [List.mapM_cons] at run
      cases first : f a with
      | error e' =>
          rw [first] at run
          obtain rfl := Except.error.inj run
          exact ⟨a, List.mem_cons_self, first⟩
      | ok y =>
          cases rest : l.mapM f with
          | ok ys =>
              rw [first, rest] at run
              cases run
          | error e' =>
              rw [first, rest] at run
              obtain rfl := Except.error.inj run
              obtain ⟨x, member, fails⟩ := ih rest
              exact ⟨x, List.mem_cons_of_mem a member, fails⟩

theorem foldlM_ok_inv {f : β → ε → Except StoreError β} {l : List ε} {b r : β}
    (run : l.foldlM f b = .ok r) : ∀ x ∈ l, ∃ b' r', f b' x = .ok r' := by
  induction l generalizing b with
  | nil => exact fun x member => absurd member List.not_mem_nil
  | cons a l ih =>
      rw [List.foldlM_cons] at run
      cases first : f b a with
      | error e =>
          rw [first] at run
          cases run
      | ok b' =>
          rw [first] at run
          intro x member
          rcases List.mem_cons.mp member with rfl | later
          · exact ⟨b, b', first⟩
          · exact ih run x later

theorem foldlM_error_inv {f : β → ε → Except StoreError β} {l : List ε} {b : β}
    {e : StoreError} (run : l.foldlM f b = .error e) : ∃ x ∈ l, ∃ b', f b' x = .error e := by
  induction l generalizing b with
  | nil => cases run
  | cons a l ih =>
      rw [List.foldlM_cons] at run
      cases first : f b a with
      | error e' =>
          rw [first] at run
          obtain rfl := Except.error.inj run
          exact ⟨a, List.mem_cons_self, b, first⟩
      | ok b' =>
          rw [first] at run
          obtain ⟨x, member, fails⟩ := ih run
          exact ⟨x, List.mem_cons_of_mem a member, fails⟩

end

namespace InPersistentStore

variable {rt : Runtime}

theorem msetGroups_eq (order : IterationOrder (Bytes × Bytes))
    (groupOrder : IterationOrder (Nat × List Bytes)) (entries : List (Sds × Value)) :
    msetGroups rt order groupOrder entries = mset rt order entries := by
  funext s
  simp only [msetGroups, mset]
  generalize entries.foldl (fun m e => Assoc.insert m e.1 (toBytes rt.zstd e.2)) [] = lookup
  have grouped := @writeShard_groups _ s.index _ (fun key : Bytes => key) (fun data key =>
    match Assoc.get lookup key with
    | some value => Assoc.insert data key value
    | none => data) (entries.map Prod.fst) _ (groupOrder.perm _)
  rw [ShardedIndex.groupKeysByShard, grouped, List.foldl_map]
  congr 3
  funext index e
  cases found : Assoc.get lookup e.1 with
  | some value => rfl
  | none => exact eq_of_shards (List.modify_id _ _) rfl

/-- The single sets of a list of entries, one after another. -/
def sets (rt : Runtime) (entries : List (Sds × Value)) (s : InPersistentStore) :
    InPersistentStore :=
  entries.foldl (fun s e => (set rt e.1 e.2 s).2) s

theorem get_sets (entries : List (Sds × Value)) (m : List (Bytes × Bytes))
    (base : Bytes → Option Bytes) (s : InPersistentStore)
    (start : s.index.get = fun k => (Assoc.get m k).or (base k)) :
    (sets rt entries s).index.get = fun k => (Assoc.get (table rt entries m) k).or (base k) := by
  induction entries generalizing m s with
  | nil => exact start
  | cons e entries ih =>
      refine ih (Assoc.insert m e.1 (toBytes rt.zstd e.2)) _ ?_
      show (s.index.insert e.1 (toBytes rt.zstd e.2)).get = _
      rw [ShardedIndex.get_insert, start]
      funext k
      rw [Function.update_apply, Assoc.get_insert]
      by_cases here : k = e.1
      · subst here
        rw [if_pos rfl, if_pos rfl]
        rfl
      · rw [if_neg here, if_neg (Ne.symm here)]

theorem sortedShardIds_group (keys : List Sds) (index : ShardedIndex Bytes) :
    sortedShardIds (Grouping.group (fun e : Sds × Nat => index.shardForKey e.1) keys.zipIdx) =
      (keys.map index.shardForKey).dedup.mergeSort fun a b => decide (a ≤ b) := by
  have named : ∀ i, i ∈ Assoc.keys (Grouping.group (fun e : Sds × Nat => index.shardForKey e.1)
      keys.zipIdx) ↔ i ∈ (keys.map index.shardForKey).dedup := by
    intro i
    have placed : keys.zipIdx.map (fun e => index.shardForKey e.1) =
        keys.map index.shardForKey := by
      conv_rhs => rw [← List.zipIdx_map_fst 0 keys, List.map_map]
      rfl
    rw [List.mem_dedup, Grouping.mem_keys_group, placed]
  have perm := (List.perm_ext_iff_of_nodup (Grouping.nodup_group _) (List.nodup_dedup _)).mpr named
  have sorted : ∀ l : List Nat, (l.mergeSort fun a b => decide (a ≤ b)).Pairwise
      fun a b => decide (a ≤ b) = true := fun l =>
    List.pairwise_mergeSort (fun a b c => by simpa using Nat.le_trans)
      (fun a b => by simpa using Nat.le_total a b) l
  exact List.Perm.eq_of_pairwise (fun a b _ _ first second =>
    Nat.le_antisymm (of_decide_eq_true first) (of_decide_eq_true second)) (sorted _) (sorted _)
    (((sortedShardIds_perm _).trans perm).trans (List.mergeSort_perm _ _).symm)

theorem mgetGroups_eq (keys : List Sds) : mgetGroups rt keys = mget rt keys := by
  funext s
  simp only [mgetGroups, mget]
  rw [sortedShardIds_group]
  congr 1
  funext result sid
  have group : (Assoc.get (Grouping.group (fun e : Sds × Nat => s.index.shardForKey e.1)
      keys.zipIdx) sid).getD [] = keys.zipIdx.filter fun e => s.index.shardForKey e.1 = sid := by
    rw [Grouping.get_group, Grouping.getD_groupAt]
  rw [group]
  congr 1
  apply mapM_congr_of_mem
  intro e member
  have place : s.index.shardForKey e.1 = sid := of_decide_eq_true (List.mem_filter.mp member).2
  exact congrArg (fun i => match Assoc.get (s.index.shard i) e.1 with
    | some b => (fromBytes rt b).map some
    | none => .ok none) place.symm

theorem get_of_mget {keys : List Sds} {s : InPersistentStore} {l : List (Option Value)}
    (run : mget rt keys s = .ok l) : ∀ k ∈ keys, ∃ v, get rt k s = .ok v := by
  intro k member
  have turn : s.index.shardForKey k ∈
      (keys.map s.index.shardForKey).dedup.mergeSort fun a b => decide (a ≤ b) :=
    List.mem_mergeSort.mpr (List.mem_dedup.mpr (List.mem_map_of_mem member))
  obtain ⟨result, result', done⟩ := foldlM_ok_inv run _ turn
  dsimp only at done
  obtain ⟨i, inside, here⟩ := List.mem_iff_getElem.mp member
  have item : (k, i) ∈ keys.zipIdx.filter
      fun e => s.index.shardForKey e.1 = s.index.shardForKey k := by
    refine List.mem_filter.mpr ⟨?_, decide_eq_true rfl⟩
    rw [List.mem_zipIdx_iff_getElem?, List.getElem?_eq_getElem inside, here]
  cases read : (keys.zipIdx.filter fun e => s.index.shardForKey e.1 =
      s.index.shardForKey k).mapM fun e => get rt e.1 s with
  | error e =>
      rw [read] at done
      cases done
  | ok values => exact mapM_ok_inv read (k, i) item

theorem get_of_mget_error {keys : List Sds} {s : InPersistentStore} {e : StoreError}
    (run : mget rt keys s = .error e) : ∃ k ∈ keys, get rt k s = .error e := by
  obtain ⟨sid, -, result, fails⟩ := foldlM_error_inv run
  dsimp only at fails
  cases read : (keys.zipIdx.filter fun e => s.index.shardForKey e.1 = sid).mapM
      fun e => get rt e.1 s with
  | ok values =>
      rw [read] at fails
      cases fails
  | error e' =>
      rw [read] at fails
      obtain rfl := Except.error.inj fails
      obtain ⟨x, member, first⟩ := mapM_error_inv read
      exact ⟨x.1, List.fst_mem_of_mem_zipIdx (List.mem_of_mem_filter member), first⟩

theorem reads_of_forall₂ {keys : List Sds} {s : InPersistentStore}
    {l : List (Option Value)} (each : List.Forall₂ (fun k v => get rt k s = .ok v) keys l) :
    (∀ k ∈ keys, ∃ v, get rt k s = .ok v) ∧
      ∀ f : Sds → Option Value, (∀ k ∈ keys, get rt k s = .ok (f k)) → keys.map f = l := by
  induction each with
  | nil => exact ⟨fun k member => absurd member List.not_mem_nil, fun f _ => rfl⟩
  | @cons k v keys l read rest ih =>
      constructor
      · intro k' member
        rcases List.mem_cons.mp member with rfl | later
        · exact ⟨v, read⟩
        · exact ih.1 k' later
      · intro f reads
        have here := reads k List.mem_cons_self
        rw [read, Except.ok.injEq] at here
        rw [List.map_cons, ← here, ih.2 f fun k' member => reads k' (List.mem_cons_of_mem k member)]

theorem mget_iff (keys : List Sds) (s : InPersistentStore) (l : List (Option Value)) :
    mget rt keys s = .ok l ↔ List.Forall₂ (fun k v => get rt k s = .ok v) keys l := by
  constructor
  · intro run
    choose! f read using get_of_mget run
    rw [mget_eq read, Except.ok.injEq] at run
    rw [← run, List.forall₂_map_right_iff, List.forall₂_same]
    exact read
  · intro each
    obtain ⟨reads, values⟩ := reads_of_forall₂ each
    choose! f read using reads
    rw [mget_eq read, values f read]

end InPersistentStore

/-- Access to many keys by groups: reads give place by place what single reads give, and fail with
the error of one of them; writes leave what the single writes leave from left to right. -/
theorem grouped_access (rt : Runtime) (order : IterationOrder (Bytes × Bytes))
    (groupOrder : IterationOrder (Nat × List Bytes)) :
    (∀ (α : Type) (index : ShardedIndex α) (keys : List Bytes),
      index.mget keys = keys.map index.get) ∧
    (∀ (α : Type) (index : ShardedIndex α) (entries : List (Bytes × α)),
      index.mset entries = entries.foldl (fun index e => index.insert e.1 e.2) index) ∧
    (∀ (keys : List Sds) (s : InPersistentStore),
      (∀ l, InPersistentStore.mgetGroups rt keys s = .ok l ↔
        List.Forall₂ (fun k v => InPersistentStore.get rt k s = .ok v) keys l) ∧
      ∀ e, InPersistentStore.mgetGroups rt keys s = .error e →
        ∃ k ∈ keys, InPersistentStore.get rt k s = .error e) ∧
    ∀ (entries : List (Sds × Value)) (s : InPersistentStore),
      (InPersistentStore.msetGroups rt order groupOrder entries s).1 = .ok () ∧
      (InPersistentStore.msetGroups rt order groupOrder entries s).2.index.get =
        (InPersistentStore.sets rt entries s).index.get := by
  refine ⟨fun α => mget_eq, fun α => mset_eq, fun keys s => ?_, fun entries s => ?_⟩
  · rw [InPersistentStore.mgetGroups_eq]
    exact ⟨InPersistentStore.mget_iff keys s, fun e => InPersistentStore.get_of_mget_error⟩
  · rw [InPersistentStore.msetGroups_eq]
    refine ⟨rfl, ?_⟩
    rw [InPersistentStore.get_mset order entries s,
      InPersistentStore.get_sets entries [] s.index.get s rfl]

end Zumic.Engine
