/- A cluster of stores in memory answers as one of them. -/

import Zumic.Engine.Cluster
import Zumic.Lib.Partition

namespace Zumic.Engine

open Database Lib Lib.Partition Engine.SlotManager

namespace InMemoryStore

variable {γ α : Type}

def view (s : InMemoryStore γ) (key : Sds) : Option Value := Assoc.get s.data key

/-- A call on the keys in `P`, which keeps the keys of the table distinct. -/
structure OnKeys (P : Sds → Prop) (call : StoreM (InMemoryStore γ) α) : Prop where
  confined : Confined view P call
  distinct : ∀ s : InMemoryStore γ, (Assoc.keys s.data).Nodup → (Assoc.keys (call s).2.data).Nodup

theorem OnKeys.read {P : Sds → Prop} {read : StoreRead (InMemoryStore γ) α}
    (answer : ∀ s t : InMemoryStore γ, (∀ k, P k → s.view k = t.view k) → read s = read t) :
    OnKeys P fun s => (read s, s) where
  confined := confined_read answer
  distinct _ distinct := distinct

theorem onKeys_set (key : Sds) (value : Value) :
    OnKeys (· = key) (set key value : StoreM (InMemoryStore γ) Unit) where
  confined := by
    refine ⟨fun s t _ => rfl, ?_, ?_⟩
    · rintro s t - k rfl
      rw [view, view, set, set, Assoc.get_insert, Assoc.get_insert, if_pos rfl, if_pos rfl]
    · intro s k other
      rw [view, set, Assoc.get_insert, if_neg (Ne.symm other), view]
  distinct s distinct := Assoc.nodup_keys_insert distinct key value

theorem onKeys_get (key : Sds) :
    OnKeys (· = key) fun s : InMemoryStore γ => (get key s, s) :=
  .read fun _ _ same => congrArg Except.ok (same key rfl)

theorem onKeys_del (key : Sds) : OnKeys (· = key) (del key : StoreM (InMemoryStore γ) Bool) where
  confined := by
    refine ⟨?_, ?_, ?_⟩
    · intro s t same
      have held : Assoc.get s.data key = Assoc.get t.data key := same key rfl
      rw [del, del, held]
    · rintro s t - k rfl
      rw [view, view, del, del, Assoc.get_erase, Assoc.get_erase, if_pos rfl, if_pos rfl]
    · intro s k other
      rw [view, del, Assoc.get_erase, if_neg (Ne.symm other), view]
  distinct s distinct := Assoc.nodup_keys_erase distinct key

theorem get_foldl_insert (entries : List (Sds × Value)) {data data' : List (Sds × Value)} {k : Sds}
    (same : Assoc.get data k = Assoc.get data' k) :
    Assoc.get (entries.foldl (fun data e => Assoc.insert data e.1 e.2) data) k =
      Assoc.get ((entries.filter fun e => e.1 = k).foldl
        (fun data e => Assoc.insert data e.1 e.2) data') k := by
  induction entries generalizing data data' with
  | nil => exact same
  | cons e entries ih =>
      rw [List.foldl_cons, List.filter_cons]
      by_cases here : e.1 = k
      · rw [if_pos (decide_eq_true here), List.foldl_cons]
        refine ih ?_
        rw [Assoc.get_insert, Assoc.get_insert, if_pos here, if_pos here]
      · rw [if_neg (by simpa using here)]
        refine ih ?_
        rw [Assoc.get_insert, if_neg here, same]

theorem view_mset (entries : List (Sds × Value)) (s : InMemoryStore γ) (k : Sds) :
    (mset entries s).2.view k = Assoc.get ((entries.filter fun e => e.1 = k).foldl
      (fun data e => Assoc.insert data e.1 e.2) s.data) k :=
  get_foldl_insert entries rfl

theorem onKeys_mset (entries : List (Sds × Value)) :
    OnKeys (· ∈ entries.map Prod.fst) (mset entries : StoreM (InMemoryStore γ) Unit) where
  confined := by
    refine ⟨fun s t _ => rfl, ?_, ?_⟩
    · intro s t same k inside
      exact (view_mset entries s k).trans (get_foldl_insert entries (same k inside).symm).symm
    · intro s k outside
      have none : (entries.filter fun e => e.1 = k) = [] := by
        refine List.filter_eq_nil_iff.mpr fun e member here => outside ?_
        exact List.mem_map.mpr ⟨e, member, of_decide_eq_true here⟩
      rw [view_mset, none]
      rfl
  distinct s distinct := by
    change (Assoc.keys (entries.foldl (fun data e => Assoc.insert data e.1 e.2) s.data)).Nodup
    generalize s.data = data at distinct
    induction entries generalizing data with
    | nil => exact distinct
    | cons e entries ih => exact ih _ (Assoc.nodup_keys_insert distinct e.1 e.2)

theorem mset_append (a b : List (Sds × Value)) (s : InMemoryStore γ) :
    mset b (mset a s).2 = mset (a ++ b) s := by
  unfold mset
  rw [List.foldl_append]

theorem onKeys_rename (src dst : Sds) :
    OnKeys (fun k => k = src ∨ k = dst) (rename src dst : StoreM (InMemoryStore γ) Unit) where
  confined := by
    refine ⟨?_, ?_, ?_⟩
    · intro s t same
      have held : Assoc.get s.data src = Assoc.get t.data src := same src (Or.inl rfl)
      unfold rename
      rw [held]
      cases Assoc.get t.data src <;> rfl
    · intro s t same k inside
      have held : Assoc.get s.data src = Assoc.get t.data src := same src (Or.inl rfl)
      have before : Assoc.get s.data k = Assoc.get t.data k := same k inside
      unfold rename
      rw [held]
      cases Assoc.get t.data src with
      | none => exact before
      | some value => simp only [view, Assoc.get_insert, Assoc.get_erase, before]
    · intro s k outside
      have notSrc : src ≠ k := fun eq => outside (Or.inl eq.symm)
      have notDst : dst ≠ k := fun eq => outside (Or.inr eq.symm)
      unfold rename
      cases Assoc.get s.data src with
      | none => rfl
      | some value => simp only [view, Assoc.get_insert, Assoc.get_erase, notSrc, notDst, if_false]
  distinct s distinct := by
    unfold rename
    cases Assoc.get s.data src with
    | none => exact distinct
    | some value => exact Assoc.nodup_keys_insert (Assoc.nodup_keys_erase distinct src) dst value

theorem renamenx_eq (src dst : Sds) (s : InMemoryStore γ) :
    renamenx src dst s = if (s.view dst).isSome then (.ok false, s)
      else ((rename src dst s).1.map fun _ => true, (rename src dst s).2) := by
  unfold renamenx rename view
  cases Assoc.get s.data src <;> rfl

theorem onKeys_renamenx (src dst : Sds) :
    OnKeys (fun k => k = src ∨ k = dst) (renamenx src dst : StoreM (InMemoryStore γ) Bool) where
  confined := by
    have renames := (onKeys_rename (γ := γ) src dst).confined
    refine ⟨?_, ?_, ?_⟩
    · intro s t same
      rw [renamenx_eq, renamenx_eq, same dst (Or.inr rfl), renames.answer s t same]
      split <;> rfl
    · intro s t same k inside
      rw [renamenx_eq, renamenx_eq, same dst (Or.inr rfl)]
      split
      · exact same k inside
      · exact renames.inside s t same k inside
    · intro s k outside
      rw [renamenx_eq]
      split
      · rfl
      · exact renames.outside s k outside
  distinct s distinct := by
    rw [renamenx_eq]
    split
    · exact distinct
    · exact (onKeys_rename src dst).distinct s distinct

section

variable {s t : InMemoryStore γ} {key : Sds}

theorem members_congr (command : String) (same : s.view key = t.view key) :
    s.members command key = t.members command key := by
  have held : Assoc.get s.data key = Assoc.get t.data key := same
  unfold members
  rw [held]

theorem view_keep (s : InMemoryStore γ) (key : Sds) (members : List Sds) (k : Sds) :
    (s.keep key members).view k =
      if k = key then (if members = [] then none else some (.set members)) else s.view k := by
  unfold keep
  by_cases empty : members = []
  · rw [if_pos empty, if_pos empty, view, Assoc.get_erase]
    by_cases here : key = k
    · rw [if_pos here, if_pos here.symm]
    · rw [if_neg here, if_neg (Ne.symm here), view]
  · rw [if_neg empty, if_neg empty, view, Assoc.get_insert]
    by_cases here : key = k
    · rw [if_pos here, if_pos here.symm]
    · rw [if_neg here, if_neg (Ne.symm here), view]

theorem onKeys_sadd (key : Sds) (added : List Sds) :
    OnKeys (· = key) (sadd key added : StoreM (InMemoryStore γ) Nat) where
  confined := by
    refine ⟨?_, ?_, ?_⟩
    · intro s t same
      unfold sadd
      rw [members_congr "SADD" (same key rfl)]
      cases t.members "SADD" key <;> rfl
    · rintro s t same k rfl
      unfold sadd
      rw [members_congr "SADD" (same k rfl)]
      cases t.members "SADD" k with
      | error e => exact same k rfl
      | ok members => simp only [view, Assoc.get_insert, if_true]
    · intro s k other
      unfold sadd
      cases s.members "SADD" key with
      | error e => rfl
      | ok members => simp only [view, Assoc.get_insert, Ne.symm other, if_false]
  distinct s distinct := by
    unfold sadd
    cases s.members "SADD" key with
    | error e => exact distinct
    | ok members => exact Assoc.nodup_keys_insert distinct key _

theorem onKeys_srem (key : Sds) (removed : List Sds) :
    OnKeys (· = key) (srem key removed : StoreM (InMemoryStore γ) Nat) where
  confined := by
    refine ⟨?_, ?_, ?_⟩
    · intro s t same
      unfold srem
      rw [members_congr "SREM" (same key rfl)]
      cases t.members "SREM" key <;> rfl
    · rintro s t same k rfl
      unfold srem
      rw [members_congr "SREM" (same k rfl)]
      cases t.members "SREM" k with
      | error e => exact same k rfl
      | ok members => simp only [view_keep, if_true]
    · intro s k other
      unfold srem
      cases s.members "SREM" key with
      | error e => rfl
      | ok members => simp only [view_keep, other, if_false]
  distinct s distinct := by
    unfold srem
    cases s.members "SREM" key with
    | error e => exact distinct
    | ok members =>
        dsimp only
        unfold keep
        split
        · exact Assoc.nodup_keys_erase distinct key
        · exact Assoc.nodup_keys_insert distinct key _

theorem onKeys_smembers (key : Sds) :
    OnKeys (· = key) fun s : InMemoryStore γ => (smembers key s, s) :=
  .read fun _ _ same => members_congr "SMEMBERS" (same key rfl)

theorem onKeys_scard (key : Sds) :
    OnKeys (· = key) fun s : InMemoryStore γ => (scard key s, s) :=
  .read fun _ _ same => congrArg (Except.map List.length) (members_congr "SCARD" (same key rfl))

theorem onKeys_sismember (key member : Sds) :
    OnKeys (· = key) fun s : InMemoryStore γ => (sismember key member s, s) :=
  .read fun _ _ same => congrArg (Except.map fun members => decide (member ∈ members))
    (members_congr "SISMEMBER" (same key rfl))

end

end InMemoryStore

namespace InClusterStore

open InMemoryStore (OnKeys onKeys_set onKeys_get onKeys_del onKeys_mset onKeys_rename
  onKeys_renamenx onKeys_sadd onKeys_srem onKeys_smembers onKeys_scard onKeys_sismember)

variable {γ α : Type} {n : Nat}

/-- The shard of a key: the slots are dealt out in turn. -/
def placeOf (n : Nat) (key : Sds) : Nat := (calculateSlot (sdsToStr key)).toNat % n

/-- The shards hold what the single store holds, every key in the shard that serves its slot. -/
structure Linked (n : Nat) (c : InClusterStore (InMemoryStore γ)) (s : InMemoryStore γ) :
    Prop where
  together : Together InMemoryStore.view (placeOf n) c.shards s
  distinct : ∀ shard ∈ c.shards, (Assoc.keys shard.data).Nodup
  whole : (Assoc.keys s.data).Nodup
  dealt : ∀ slot : SlotId, slot.toNat < totalSlots →
    getSlotShard c.slotManager.slots slot = some (slot.toNat % n)

/-- The cluster answers as the single store, and stays linked to it. -/
structure Simulates (n : Nat) (r : Except StoreError α × InClusterStore (InMemoryStore γ))
    (r' : Except StoreError α × InMemoryStore γ) : Prop where
  answer : r.1 = r'.1
  linked : Linked n r.2 r'.2

theorem Simulates.map {r : Except StoreError α × InClusterStore (InMemoryStore γ)}
    {r' : Except StoreError α × InMemoryStore γ} (simulates : Simulates n r r')
    (reply : α → StorageReply) : Simulates n (r.1.map reply, r.2) (r'.1.map reply, r'.2) :=
  ⟨congrArg (Except.map reply) simulates.answer, simulates.linked⟩

namespace Linked

variable {c : InClusterStore (InMemoryStore γ)} {s : InMemoryStore γ}

theorem shardId_eq (linked : Linked n c s) (key : Sds) : c.shardId key = placeOf n key := by
  unfold shardId getKeyShard
  rw [linked.dealt _ (calculateSlot_lt _)]
  rfl

theorem record (linked : Linked n c s) (key : Sds) : Linked n (c.recordOperation key) s :=
  ⟨linked.together, linked.distinct, linked.whole, linked.dealt⟩

theorem recordAll (linked : Linked n c s) (keys : List Sds) :
    Linked n (keys.foldl recordOperation c) s := by
  induction keys generalizing c with
  | nil => exact linked
  | cons key keys ih => exact ih (linked.record key)

theorem shard_of (linked : Linked n c s) (key : Sds) :
    ∃ shard, c.shards[placeOf n key]? = some shard := by
  obtain ⟨shard, here, -⟩ := linked.together.found key
  exact ⟨shard, here⟩

theorem onShard (linked : Linked n c s) {P : Sds → Prop} {call : StoreM (InMemoryStore γ) α}
    (onKeys : OnKeys P call) {i : Nat} (placed : ∀ k, P k → placeOf n k = i)
    (here : ∃ shard, c.shards[i]? = some shard) :
    Simulates n (InClusterStore.onShard i call c) (call s) := by
  obtain ⟨shard, here⟩ := here
  obtain ⟨answer, together⟩ := linked.together.call onKeys.confined placed here
  have ran : InClusterStore.onShard i call c =
      ((call shard).1, { c with shards := c.shards.set i (call shard).2 }) := by
    unfold InClusterStore.onShard shardById
    rw [here]
  rw [ran]
  refine ⟨answer, together, ?_, onKeys.distinct s linked.whole, linked.dealt⟩
  intro other member
  rcases List.mem_or_eq_of_mem_set member with old | rfl
  · exact linked.distinct other old
  · exact onKeys.distinct shard (linked.distinct shard (List.mem_of_getElem? here))

theorem routed (linked : Linked n c s) {key : Sds} {call : StoreM (InMemoryStore γ) α}
    (onKeys : OnKeys (· = key) call) : Simulates n (InClusterStore.routed key call c) (call s) := by
  have recorded := linked.record key
  unfold InClusterStore.routed
  dsimp only
  rw [recorded.shardId_eq]
  exact recorded.onShard onKeys (fun k same => congrArg (placeOf n) same) (recorded.shard_of key)

theorem onBoth (linked : Linked n c s) {src dst : Sds} {call : StoreM (InMemoryStore γ) α}
    (onKeys : OnKeys (fun k => k = src ∨ k = dst) call) (same : placeOf n src = placeOf n dst) :
    Simulates n (InClusterStore.onBoth src dst call c) (call s) := by
  have recorded := (linked.record src).record dst
  unfold InClusterStore.onBoth
  dsimp only
  rw [linked.shardId_eq, linked.shardId_eq, if_neg (not_not.mpr same)]
  refine recorded.onShard onKeys ?_ (recorded.shard_of src)
  rintro k (rfl | rfl)
  · rfl
  · exact same.symm

theorem onBoth_apart (linked : Linked n c s) {src dst : Sds}
    {call : StoreM (InMemoryStore γ) α} (apart : placeOf n src ≠ placeOf n dst) :
    InClusterStore.onBoth src dst call c =
      (.error .wrongShard, (c.recordOperation src).recordOperation dst) := by
  unfold InClusterStore.onBoth
  dsimp only
  rw [linked.shardId_eq, linked.shardId_eq, if_pos apart]

section

theorem msetGroups_cons {S : Storage (InMemoryStore γ)} {id : ShardId}
    {entries : List (Sds × Value)} {rest : List (ShardId × List (Sds × Value))}
    {c c' : InClusterStore (InMemoryStore γ)}
    (ran : InClusterStore.onShard id (S.mset entries) c = (.ok (), c')) :
    InClusterStore.msetGroups S ((id, entries) :: rest) c =
      InClusterStore.msetGroups S rest c' := by
  rw [InClusterStore.msetGroups, ran]

variable {ε : Type} {key : ε → Sds} {items : List ε}

theorem group_of (linked : Linked n c s) {order : IterationOrder (ShardId × List ε)}
    {g : ShardId × List ε} (listed : g ∈ order.order (c.groups key items)) :
    g.2 ≠ [] ∧ ∀ item ∈ g.2, placeOf n (key item) = g.1 := by
  have same := order.perm (c.groups key items)
  refine ⟨Grouping.ne_nil_of_mem same listed, fun item member => ?_⟩
  rw [← linked.shardId_eq]
  exact Grouping.place_of_mem same listed member

theorem msetGroups (linked : Linked n c s) (geo : GeoIndex γ)
    {groups : List (ShardId × List (Sds × Value))}
    (each : ∀ g ∈ groups, g.2 ≠ [] ∧ ∀ e ∈ g.2, placeOf n e.1 = g.1) :
    Simulates n (InClusterStore.msetGroups (InMemoryStore.storage geo) groups c)
      (InMemoryStore.mset (groups.flatMap Prod.snd) s) := by
  induction groups generalizing c s with
  | nil => exact ⟨rfl, linked⟩
  | cons g rest ih =>
      obtain ⟨id, entries⟩ := g
      obtain ⟨some, placed⟩ : entries ≠ [] ∧ ∀ e ∈ entries, placeOf n e.1 = id :=
        each (id, entries) List.mem_cons_self
      obtain ⟨e, member⟩ := List.exists_mem_of_ne_nil entries some
      have here : ∃ shard, c.shards[id]? = Option.some shard := by
        rw [← placed e member]
        exact linked.shard_of e.1
      have inGroup : ∀ k, k ∈ entries.map Prod.fst → placeOf n k = id := by
        intro k listed
        obtain ⟨e, member, rfl⟩ := List.mem_map.mp listed
        exact placed e member
      have first := linked.onShard (onKeys_mset entries) inGroup here
      have rest' := ih first.linked fun g' member => each g' (List.mem_cons_of_mem _ member)
      rw [InMemoryStore.mset_append] at rest'
      have ran : InClusterStore.onShard id ((InMemoryStore.storage geo).mset entries) c =
          (.ok (), (InClusterStore.onShard id (InMemoryStore.mset entries) c).2) :=
        Prod.ext first.answer rfl
      rw [msetGroups_cons ran]
      exact rest'

theorem mset (linked : Linked n c s) (geo : GeoIndex γ)
    (order : IterationOrder (ShardId × List (Sds × Value))) (entries : List (Sds × Value)) :
    Simulates n (InClusterStore.mset (InMemoryStore.storage geo) order entries c)
      (InMemoryStore.mset entries s) := by
  have recorded : Linked n (entries.foldl (fun c e => c.recordOperation e.1) c) s := by
    have all := linked.recordAll (entries.map Prod.fst)
    rwa [List.foldl_map] at all
  have each : ∀ g ∈ order.order (c.groups Prod.fst entries),
      g.2 ≠ [] ∧ ∀ e ∈ g.2, placeOf n e.1 = g.1 := fun g listed => linked.group_of listed
  have grouped := recorded.msetGroups geo each
  refine ⟨grouped.answer, grouped.linked.together.congr ?_, grouped.linked.distinct,
    (onKeys_mset entries).distinct s linked.whole, grouped.linked.dealt⟩
  intro k
  have one : ∀ e : Sds × Value, decide (e.1 = k) = true → c.shardId e.1 = c.shardId k :=
    fun e here => congrArg c.shardId (of_decide_eq_true here)
  rw [InMemoryStore.view_mset, InMemoryStore.view_mset,
    Grouping.filter_flatMap_group (order.perm (c.groups Prod.fst entries)) _ one]

theorem mgetGroups (linked : Linked n c s) (geo : GeoIndex γ)
    {groups : List (ShardId × List (Sds × Nat))}
    (each : ∀ g ∈ groups, g.2 ≠ [] ∧ ∀ e ∈ g.2, placeOf n e.1 = g.1)
    (results : List (Option Value)) :
    InClusterStore.mgetGroups (InMemoryStore.storage geo) c groups results =
      .ok ((groups.flatMap Prod.snd).foldl (fun results e => results.set e.2 (s.view e.1))
        results) := by
  induction groups generalizing results with
  | nil => rfl
  | cons g rest ih =>
      obtain ⟨id, items⟩ := g
      obtain ⟨some, placed⟩ : items ≠ [] ∧ ∀ e ∈ items, placeOf n e.1 = id :=
        each (id, items) List.mem_cons_self
      obtain ⟨e, member⟩ := List.exists_mem_of_ne_nil items some
      obtain ⟨shard, here⟩ := linked.shard_of e.1
      rw [placed e member] at here
      have looked : c.shardById id = .ok shard := by
        unfold shardById
        rw [here]
      have filled : (items.zip ((items.map Prod.fst).map (Assoc.get shard.data))).foldl
          (fun results e => results.set e.1.2 e.2) results =
            items.foldl (fun results e => results.set e.2 (s.view e.1)) results := by
        have paired : items.zip ((items.map Prod.fst).map (Assoc.get shard.data)) =
            items.map fun e => (e, Assoc.get shard.data e.1) := by
          have pairs := @List.zip_map' _ _ _ (fun e : Sds × Nat => e)
            (fun e : Sds × Nat => Assoc.get shard.data e.1) items
          rw [List.map_id'] at pairs
          rw [List.map_map]
          exact pairs
        rw [paired, List.foldl_map]
        refine List.foldl_ext _ _ _ fun results e member => ?_
        have held := linked.together.view_eq here (placed e member)
        rw [← held]
        rfl
      have later := ih (fun g' member => each g' (List.mem_cons_of_mem _ member))
        (items.foldl (fun results e => results.set e.2 (s.view e.1)) results)
      rw [InClusterStore.mgetGroups, looked, List.flatMap_cons, List.foldl_append, ← later, ← filled]
      rfl

theorem mget (linked : Linked n c s) (geo : GeoIndex γ)
    (order : IterationOrder (ShardId × List (Sds × Nat))) (keys : List Sds) :
    Simulates n (InClusterStore.mget (InMemoryStore.storage geo) order keys c)
      (InMemoryStore.mget keys s, s) := by
  have recorded := linked.recordAll keys
  have each : ∀ g ∈ order.order (c.groups Prod.fst keys.zipIdx),
      g.2 ≠ [] ∧ ∀ e ∈ g.2, placeOf n e.1 = g.1 := fun g listed => linked.group_of listed
  refine ⟨?_, recorded⟩
  have members := Grouping.mem_flatMap_group (order.perm (c.groups Prod.fst keys.zipIdx))
  refine (recorded.mgetGroups geo each _).trans (congrArg Except.ok ?_)
  exact Grouping.fill_eq_map s.view members (by rw [List.length_replicate])

theorem flushShards_eq (geo : GeoIndex γ) (shards : List (InMemoryStore γ)) :
    InClusterStore.flushShards (InMemoryStore.storage geo) shards =
      (.ok (), shards.map fun shard => { shard with data := [] }) := by
  induction shards with
  | nil => rfl
  | cons shard rest ih =>
      have emptied : (InMemoryStore.storage geo).flushdb shard =
          (.ok (), { shard with data := [] }) := rfl
      rw [InClusterStore.flushShards, emptied]
      dsimp only
      rw [ih]
      rfl

theorem flushdb (linked : Linked n c s) (geo : GeoIndex γ) :
    Simulates n (InClusterStore.flushdb (InMemoryStore.storage geo) c)
      (InMemoryStore.flushdb s) := by
  have ran : InClusterStore.flushdb (InMemoryStore.storage geo) c =
      (.ok (), ⟨c.shards.map fun shard => { shard with data := [] },
        c.slotManager.resetMetrics⟩) := by
    unfold InClusterStore.flushdb
    rw [flushShards_eq]
  rw [ran]
  refine ⟨rfl, ⟨?_, ?_⟩, ?_, List.nodup_nil, linked.dealt⟩
  · intro k
    obtain ⟨shard, here⟩ := linked.shard_of k
    refine ⟨{ shard with data := [] }, ?_, rfl⟩
    rw [List.getElem?_map, here]
    rfl
  · intro i shard k here some
    rw [List.getElem?_map] at here
    obtain ⟨old, -, rfl⟩ := Option.map_eq_some_iff.mp here
    cases some
  · intro shard member
    obtain ⟨old, -, rfl⟩ := List.mem_map.mp member
    exact List.nodup_nil

theorem dbsize (linked : Linked n c s) :
    InClusterStore.dbsize InMemoryStore.dbsize c = InMemoryStore.dbsize s := by
  have added : ∀ (shards : List (InMemoryStore γ)) (total : Nat),
      shards.foldlM (fun total shard => do
        let n ← InMemoryStore.dbsize shard
        pure (total + n)) total =
      (.ok (total + (shards.flatMap fun shard => Assoc.keys shard.data).length) :
        Except StoreError Nat) := by
    intro shards
    induction shards with
    | nil => exact fun total => rfl
    | cons shard rest ih =>
        intro total
        rw [List.foldlM_cons, List.flatMap_cons, List.length_append, ← Nat.add_assoc]
        change rest.foldlM _ (total + shard.data.length) = _
        rw [ih, Assoc.keys, List.length_map]
  have listed : ∀ (shard : InMemoryStore γ) (k : Sds),
      k ∈ Assoc.keys shard.data ↔ (shard.view k).isSome = true :=
    fun _ _ => Assoc.mem_keys_iff_isSome
  have size := (linked.together.keys_perm listed linked.distinct linked.whole).length_eq
  unfold InClusterStore.dbsize
  rw [added, size, Nat.zero_add, Assoc.keys, List.length_map]
  rfl

end

end Linked

/-- The call renames a key to one of another shard. -/
def crosses (n : Nat) : StorageCall → Bool
  | .rename src dst => placeOf n src ≠ placeOf n dst
  | .renamenx src dst => placeOf n src ≠ placeOf n dst
  | _ => false

namespace Linked

variable {c : InClusterStore (InMemoryStore γ)} {s : InMemoryStore γ}

theorem call (linked : Linked n c s) (geo : GeoIndex γ) (orders : TableOrders)
    {request : StorageCall} (within : crosses n request = false) :
    Simulates n (InClusterStore.call geo orders request c) (InMemoryStore.call request s) := by
  cases request with
  | set key value => exact (linked.routed (onKeys_set key value)).map _
  | get key => exact (linked.routed (onKeys_get key)).map _
  | del key => exact (linked.routed (onKeys_del key)).map _
  | mset _ entries => exact (linked.mset geo orders.mset entries).map _
  | mget keys => exact (linked.mget geo orders.mget keys).map _
  | rename src dst =>
      exact (linked.onBoth (onKeys_rename src dst) (by simpa [crosses] using within)).map _
  | renamenx src dst =>
      exact (linked.onBoth (onKeys_renamenx src dst) (by simpa [crosses] using within)).map _
  | flushdb => exact (linked.flushdb geo).map _
  | sadd key members => exact (linked.routed (onKeys_sadd key members)).map _
  | srem key members => exact (linked.routed (onKeys_srem key members)).map _
  | scard key => exact (linked.routed (onKeys_scard key)).map _
  | smembers key => exact (linked.routed (onKeys_smembers key)).map _
  | sismember key member => exact (linked.routed (onKeys_sismember key member)).map _
  | dbsize => exact ⟨congrArg (Except.map StorageReply.count) linked.dbsize, linked⟩

theorem call_crossing (linked : Linked n c s) (geo : GeoIndex γ) (orders : TableOrders)
    {request : StorageCall} (crossing : crosses n request = true) :
    (InClusterStore.call geo orders request c).1 = .error .wrongShard ∧
      (InClusterStore.call geo orders request c).2.shards = c.shards ∧
      Linked n (InClusterStore.call geo orders request c).2 s := by
  have refused : ∀ {β : Type} {src dst : Sds} (op : StoreM (InMemoryStore γ) β)
      (reply : β → StorageReply), placeOf n src ≠ placeOf n dst →
      writing reply (InClusterStore.onBoth src dst op) c =
        (.error .wrongShard, (c.recordOperation src).recordOperation dst) := by
    intro β src dst op reply apart
    unfold writing
    rw [linked.onBoth_apart apart]
    rfl
  cases request with
  | rename src dst =>
      have ran := refused (InMemoryStore.rename src dst) (fun _ => .done)
        (by simpa [crosses] using crossing)
      exact ⟨congrArg Prod.fst ran, congrArg (fun r => r.2.shards) ran,
        (congrArg Prod.snd ran) ▸ (linked.record src).record dst⟩
  | renamenx src dst =>
      have ran := refused (InMemoryStore.renamenx src dst) .flag
        (by simpa [crosses] using crossing)
      exact ⟨congrArg Prod.fst ran, congrArg (fun r => r.2.shards) ran,
        (congrArg Prod.snd ran) ▸ (linked.record src).record dst⟩
  | _ => cases crossing

end Linked

theorem exists_new {shards : List (InMemoryStore γ)} (positive : 0 < shards.length) :
    ∃ c, new shards = some c := by
  unfold new CountedManager.new SlotManager.new
  rw [if_neg (Nat.ne_of_gt positive)]
  exact ⟨_, rfl⟩

theorem linked_new {shards : List (InMemoryStore γ)} {c : InClusterStore (InMemoryStore γ)}
    (created : new shards = some c) (empty : ∀ shard ∈ shards, shard.data = [])
    {s : InMemoryStore γ} (empty' : s.data = []) : Linked shards.length c s := by
  by_cases none : shards.length = 0
  · unfold new CountedManager.new SlotManager.new at created
    rw [if_pos none] at created
    cases created
  · unfold new CountedManager.new SlotManager.new at created
    rw [if_neg none] at created
    obtain rfl := Option.some.inj created
    have positive : 0 < shards.length := Nat.pos_of_ne_zero none
    have nothing : ∀ shard ∈ shards, ∀ k, InMemoryStore.view shard k = Option.none := by
      intro shard member k
      unfold InMemoryStore.view
      rw [empty shard member]
      rfl
    have whole : ∀ k, InMemoryStore.view s k = Option.none := by
      intro k
      unfold InMemoryStore.view
      rw [empty']
      rfl
    refine ⟨⟨?_, ?_⟩, ?_, ?_, ?_⟩
    · intro k
      have inRange : placeOf shards.length k < shards.length := Nat.mod_lt _ positive
      refine ⟨shards[placeOf shards.length k], List.getElem?_eq_getElem inRange, ?_⟩
      rw [whole, nothing _ (List.getElem_mem inRange)]
    · intro i shard k here some
      rw [nothing shard (List.mem_of_getElem? here) k] at some
      cases some
    · intro shard member
      rw [empty shard member]
      exact List.nodup_nil
    · rw [empty']
      exact List.nodup_nil
    · intro slot inside
      unfold getSlotShard stateOf
      rw [dif_pos inside]
      rfl

end InClusterStore

namespace ClusterSystem

open InClusterStore (Linked Simulates crosses)

variable {γ : Type} {n : Nat} {s : ClusterSystem γ} {t : InMemoryStore γ}

/-- The cluster is linked to the single store, and the moves in hand take their slots from the
shards that serve them. -/
structure Steady (n : Nat) (s : ClusterSystem γ) (t : InMemoryStore γ) : Prop where
  linked : Linked n s.store t
  planned : ∀ move ∈ s.planned, move.slot.toNat < totalSlots →
    move.fromShard = move.slot.toNat % n

theorem Steady.trigger (steady : Steady n s t) : Steady n (s.background false) t := by
  obtain ⟨store, planned⟩ := s
  cases planned with
  | cons move rest => exact steady
  | nil =>
      obtain ⟨linked, -⟩ := steady
      refine ⟨⟨linked.together, linked.distinct, linked.whole, linked.dealt⟩, ?_⟩
      intro move member inside
      have settled := CountedManager.triggerRebalance_settled move member
      have dealt := linked.dealt move.slot inside
      unfold getSlotShard at dealt
      rw [settled] at dealt
      exact Option.some.inj dealt

/-- A migrating slot is still served by the shard that hands it over. -/
theorem Steady.startNext (steady : Steady n s t) : Steady n (s.background true) t := by
  obtain ⟨store, planned⟩ := s
  cases planned with
  | nil => exact steady
  | cons move rest =>
      obtain ⟨linked, planned⟩ := steady
      refine ⟨⟨linked.together, linked.distinct, linked.whole, ?_⟩,
        fun move' member => planned move' (List.mem_cons_of_mem move member)⟩
      intro slot inside
      have dealt := linked.dealt slot inside
      have source := planned move List.mem_cons_self
      rcases startSlotMigration_cases store.slotManager.slots move.slot move.fromShard
        move.toShard with ⟨e, refused, -⟩ | ⟨m', done, started⟩
      · simp only [background, refused]
        exact dealt
      · simp only [background, done]
        unfold getSlotShard at dealt ⊢
        rw [started.states]
        by_cases here : slot = move.slot
        · subst here
          rw [if_pos rfl, ← source inside]
          rfl
        · rw [if_neg here]
          exact dealt

/-- What a single store answers to the calls of a run, but for the renames that the cluster
refuses. -/
def oneStore (n : Nat) : List ClusterEvent → InMemoryStore γ → List StorageAnswer
  | [], _ => []
  | .call _ c :: events, t =>
      if crosses n c then .error .wrongShard :: oneStore n events t
      else (InMemoryStore.call c t).1 :: oneStore n events (InMemoryStore.call c t).2
  | .trigger :: events, t => oneStore n events t
  | .startNext :: events, t => oneStore n events t

theorem sameAnswer_refl (a : StorageAnswer) : SameAnswer a a := by
  cases a with
  | ok r => exact .ok (.refl r)
  | error e => exact .error e

theorem Steady.run (geo : GeoIndex γ) (steady : Steady n s t) (events : List ClusterEvent) :
    List.Forall₂ SameAnswer (ClusterSystem.run geo events s).1 (oneStore n events t) ∧
      ∃ t', Steady n (ClusterSystem.run geo events s).2 t' := by
  induction events generalizing s t with
  | nil => exact ⟨.nil, t, steady⟩
  | cons e events ih =>
      cases e with
      | trigger => exact ih steady.trigger
      | startNext => exact ih steady.startNext
      | call orders c =>
          rw [ClusterSystem.run, oneStore]
          cases crossing : crosses n c with
          | true =>
              obtain ⟨answer, -, linked⟩ := steady.linked.call_crossing geo orders crossing
              obtain ⟨answers, rest⟩ := @ih ⟨_, s.planned⟩ t ⟨linked, steady.planned⟩
              refine ⟨?_, rest⟩
              rw [if_pos rfl]
              refine .cons ?_ answers
              rw [answer]
              exact sameAnswer_refl _
          | false =>
              obtain ⟨answer, linked⟩ := steady.linked.call geo orders crossing
              obtain ⟨answers, rest⟩ := @ih ⟨_, s.planned⟩ _ ⟨linked, steady.planned⟩
              refine ⟨?_, rest⟩
              rw [if_neg (by decide)]
              refine .cons ?_ answers
              rw [answer]
              exact sameAnswer_refl _

/-- Whatever the background thread does between the calls, a cluster answers as one store, but for
the renames between shards, which it refuses without a change. -/
theorem answers_as_one_store (geo : GeoIndex γ) {shards : List (InMemoryStore γ)}
    (positive : 0 < shards.length) (empty : ∀ shard ∈ shards, shard.data = [])
    {t : InMemoryStore γ} (empty' : t.data = []) :
    ∃ c, InClusterStore.new shards = some c ∧ ∀ events : List ClusterEvent,
      List.Forall₂ SameAnswer (ClusterSystem.run geo events ⟨c, []⟩).1
          (oneStore shards.length events t) ∧
        ∀ orders request, crosses shards.length request = true →
          let after := (ClusterSystem.run geo events ⟨c, []⟩).2.store
          (InClusterStore.call geo orders request after).1 = .error .wrongShard ∧
            (InClusterStore.call geo orders request after).2.shards = after.shards := by
  obtain ⟨c, created⟩ := InClusterStore.exists_new positive
  have start : Steady shards.length ⟨c, []⟩ t :=
    ⟨InClusterStore.linked_new created empty empty', fun move member => by cases member⟩
  refine ⟨c, created, fun events => ?_⟩
  obtain ⟨answers, t', steady⟩ := start.run geo events
  refine ⟨answers, fun orders request crossing => ?_⟩
  obtain ⟨answer, unchanged, -⟩ := steady.linked.call_crossing geo orders crossing
  exact ⟨answer, unchanged⟩

def listed : InClusterStore.TableOrders := ⟨⟨id, fun _ => .refl _⟩, ⟨id, fun _ => .refl _⟩⟩

def memoryShard : InMemoryStore Unit := InMemoryStore.new () fun _ => 0

theorem answers_as_one_store_two :
    ∃ c, InClusterStore.new [memoryShard, memoryShard] = some c ∧
      List.Forall₂ SameAnswer
        (ClusterSystem.run GeoIndex.empty [.call listed (.set [0xFF] .null), .trigger, .startNext,
          .call listed (.mget [[0xFF], [0xFF], [1]]), .call listed (.rename [0xFF] [1])] ⟨c, []⟩).1
        (oneStore 2 [.call listed (.set [0xFF] .null), .trigger, .startNext,
          .call listed (.mget [[0xFF], [0xFF], [1]]), .call listed (.rename [0xFF] [1])]
          memoryShard) := by
  have empty : ∀ shard ∈ [memoryShard, memoryShard], shard.data = [] := by
    intro shard member
    simp only [List.mem_cons, List.not_mem_nil, or_false, or_self] at member
    rw [member]
    rfl
  obtain ⟨c, created, answers⟩ := @answers_as_one_store Unit GeoIndex.empty
    [memoryShard, memoryShard] (by decide) empty memoryShard rfl
  exact ⟨c, created, (answers _).1⟩

end ClusterSystem

end Zumic.Engine
