/- The consistent hash ring (`slot_manager.rs`). -/

import Zumic.Engine.SlotManager
import Zumic.Lib.BinarySearch
import Zumic.Lib.Utf8

namespace Zumic.Engine.SlotManager

open Lib Lib.BinarySearch Lib.Cyclic Lib.Utf8

instance linearOrderUInt64 : LinearOrder UInt64 where
  le_refl := UInt64.le_refl
  le_trans _ _ _ := UInt64.le_trans
  le_antisymm _ _ := UInt64.le_antisymm
  le_total := UInt64.le_total
  lt_iff_le_not_ge a b := by
    rw [UInt64.lt_iff_toNat_lt, UInt64.le_iff_toNat_le, UInt64.le_iff_toNat_le]
    omega
  toDecidableLE := inferInstance

/-- The nodes are a hash map. -/
structure ConsistentHashRing where
  nodes : List (UInt64 × ShardId)
  sortedHashes : List UInt64
  virtualNodesPerShard : Nat

/-- The text that is hashed for a virtual node. -/
def nodeLabel (shard virtualNode : Nat) : Str :=
  Str.lit "shard-" ++ Str.ofNat shard ++ Str.lit "-vnode-" ++ Str.ofNat virtualNode

namespace ConsistentHashRing

variable (hash : Str → UInt64)

/-- The keys of the nodes, sorted. -/
def sortedKeys (nodes : List (UInt64 × ShardId)) : List UInt64 :=
  (Assoc.keys nodes).mergeSort fun a b => decide (a ≤ b)

/-- Inserts the virtual nodes of a shard. -/
def insertNodes (virtualNodes : Nat) (nodes : List (UInt64 × ShardId)) (shard : ShardId) :
    List (UInt64 × ShardId) :=
  (List.range virtualNodes).foldl (fun nodes virtualNode =>
    Assoc.insert nodes (hash (nodeLabel shard virtualNode)) shard) nodes

def new (shardCount virtualNodes : Nat) : ConsistentHashRing :=
  let nodes := (List.range shardCount).foldl (insertNodes hash virtualNodes) []
  ⟨nodes, sortedKeys nodes, virtualNodes⟩

/-- The owner of a key. On a ring without nodes the index is out of bounds. -/
def getShard (ring : ConsistentHashRing) (key : Str) : Option ShardId :=
  let keyHash := hash key
  match binarySearch ring.sortedHashes keyHash with
  | .ok idx => ring.sortedHashes[idx]?.bind (Assoc.get ring.nodes)
  | .error idx =>
      let pos := if idx = ring.sortedHashes.length then 0 else idx
      ring.sortedHashes[pos]?.bind (Assoc.get ring.nodes)

def addShard (ring : ConsistentHashRing) (shard : ShardId) : ConsistentHashRing :=
  let nodes := insertNodes hash ring.virtualNodesPerShard ring.nodes shard
  ⟨nodes, sortedKeys nodes, ring.virtualNodesPerShard⟩

def removeShard (ring : ConsistentHashRing) (shard : ShardId) : ConsistentHashRing :=
  let nodes := ring.nodes.filter fun node => node.2 ≠ shard
  ⟨nodes, sortedKeys nodes, ring.virtualNodesPerShard⟩

inductive Change where
  | addShard (shard : ShardId)
  | removeShard (shard : ShardId)

def apply (ring : ConsistentHashRing) : Change → ConsistentHashRing
  | .addShard shard => ring.addShard hash shard
  | .removeShard shard => ring.removeShard shard

/-- The ring after changes. -/
def after (shardCount virtualNodes : Nat) (changes : List Change) : ConsistentHashRing :=
  changes.foldl (apply hash) (new hash shardCount virtualNodes)

/-- The shards that were ever put on the ring. -/
def placed (shardCount : Nat) (changes : List Change) : List ShardId :=
  List.range shardCount ++ changes.filterMap fun
    | .addShard shard => some shard
    | .removeShard _ => none

/-- No virtual nodes of two shards have the same hash. -/
def Apart (virtualNodes : Nat) (shards : List ShardId) : Prop :=
  ∀ shard ∈ shards, ∀ shard' ∈ shards, ∀ i < virtualNodes, ∀ j < virtualNodes,
    hash (nodeLabel shard i) = hash (nodeLabel shard' j) → shard = shard'

instance (virtualNodes : Nat) (shards : List ShardId) :
    Decidable (Apart hash virtualNodes shards) :=
  inferInstanceAs (Decidable (∀ shard ∈ shards, _))

/-- The hashes are those of the nodes, each once, in order. -/
structure Sound (ring : ConsistentHashRing) : Prop where
  distinct : (Assoc.keys ring.nodes).Nodup
  sorted : ring.sortedHashes = sortedKeys ring.nodes

section

variable {hash} {ring : ConsistentHashRing}

theorem nodup_insertNodes {virtualNodes : Nat} {nodes : List (UInt64 × ShardId)}
    (distinct : (Assoc.keys nodes).Nodup) (shard : ShardId) :
    (Assoc.keys (insertNodes hash virtualNodes nodes shard)).Nodup := by
  unfold insertNodes
  induction List.range virtualNodes generalizing nodes with
  | nil => exact distinct
  | cons virtualNode rest ih => exact ih (Assoc.nodup_keys_insert distinct _ _)

theorem sound_new (shardCount virtualNodes : Nat) : Sound (new hash shardCount virtualNodes) := by
  refine ⟨?_, rfl⟩
  suffices all : ∀ nodes : List (UInt64 × ShardId), (Assoc.keys nodes).Nodup →
      (Assoc.keys ((List.range shardCount).foldl (insertNodes hash virtualNodes) nodes)).Nodup from
    all [] List.nodup_nil
  induction List.range shardCount with
  | nil => exact fun nodes distinct => distinct
  | cons shard rest ih => exact fun nodes distinct => ih _ (nodup_insertNodes distinct shard)

theorem Sound.apply (sound : Sound ring) (change : Change) : Sound (apply hash ring change) := by
  cases change with
  | addShard shard => exact ⟨nodup_insertNodes sound.distinct shard, rfl⟩
  | removeShard shard =>
      exact ⟨((List.filter_sublist).map Prod.fst).nodup sound.distinct, rfl⟩

theorem sound_after (shardCount virtualNodes : Nat) (changes : List Change) :
    Sound (after hash shardCount virtualNodes changes) := by
  unfold after
  suffices all : ∀ ring, Sound ring → Sound (changes.foldl (ConsistentHashRing.apply hash) ring) from
    all _ (sound_new shardCount virtualNodes)
  induction changes with
  | nil => exact fun ring sound => sound
  | cons change changes ih => exact fun ring sound => ih _ (sound.apply change)

theorem Sound.mem_iff (sound : Sound ring) (h : UInt64) :
    h ∈ ring.sortedHashes ↔ h ∈ Assoc.keys ring.nodes := by
  rw [sound.sorted]
  exact (List.mergeSort_perm _ _).mem_iff

theorem Sound.increasing (sound : Sound ring) : ring.sortedHashes.Pairwise (· < ·) := by
  have ordered : (sortedKeys ring.nodes).Pairwise fun a b => decide (a ≤ b) = true :=
    List.pairwise_mergeSort (fun a b c => by simpa using le_trans)
      (fun a b => by simpa using le_total a b) _
  have distinct : (sortedKeys ring.nodes).Nodup :=
    (List.mergeSort_perm _ _).nodup_iff.mpr sound.distinct
  rw [sound.sorted]
  exact (ordered.and distinct).imp fun both => lt_of_le_of_ne (of_decide_eq_true both.1) both.2

theorem Sound.getShard_eq_some_iff (sound : Sound ring) (key : Str) (shard : ShardId) :
    ring.getShard hash key = some shard ↔
      ∃ h, IsNext (Assoc.keys ring.nodes) (hash key) h ∧ Assoc.get ring.nodes h = some shard := by
  have looked : ring.getShard hash key =
      ring.sortedHashes[place ring.sortedHashes (hash key)]?.bind (Assoc.get ring.nodes) := by
    unfold getShard place
    dsimp only
    cases binarySearch ring.sortedHashes (hash key) with
    | ok idx => rfl
    | error idx => rfl
  by_cases none' : ring.sortedHashes = []
  · rw [looked, none']
    constructor
    · intro found
      cases found
    · rintro ⟨h, next, -⟩
      have member := (sound.mem_iff h).mpr next.member
      rw [none'] at member
      cases member
  · obtain ⟨h, read, next⟩ := isNext_place sound.increasing none' (hash key)
    have next' : IsNext (Assoc.keys ring.nodes) (hash key) h :=
      next.of_mem_iff fun y => (sound.mem_iff y).symm
    rw [looked, read, Option.bind_some]
    constructor
    · exact fun owned => ⟨h, next', owned⟩
    · rintro ⟨h', other, owned⟩
      rw [next'.unique other]
      exact owned

end

section

variable {hash} {ring : ConsistentHashRing}

theorem get_insertNodes (virtualNodes : Nat) (nodes : List (UInt64 × ShardId)) (shard : ShardId)
    (h : UInt64) : Assoc.get (insertNodes hash virtualNodes nodes shard) h =
      if ∃ i < virtualNodes, hash (nodeLabel shard i) = h then some shard
      else Assoc.get nodes h := by
  unfold insertNodes
  induction virtualNodes with
  | zero => simp
  | succ n ih =>
      rw [List.range_succ, List.foldl_append, List.foldl_cons, List.foldl_nil, Assoc.get_insert, ih]
      have last : (∃ i < n + 1, hash (nodeLabel shard i) = h) ↔
          hash (nodeLabel shard n) = h ∨ ∃ i < n, hash (nodeLabel shard i) = h := by
        constructor
        · rintro ⟨i, bound, here⟩
          rcases Nat.lt_succ_iff_lt_or_eq.mp bound with earlier | rfl
          · exact Or.inr ⟨i, earlier, here⟩
          · exact Or.inl here
        · rintro (here | ⟨i, bound, here⟩)
          · exact ⟨n, Nat.lt_succ_self n, here⟩
          · exact ⟨i, Nat.lt_succ_of_lt bound, here⟩
      by_cases here : hash (nodeLabel shard n) = h
      · rw [if_pos here, if_pos (last.mpr (Or.inl here))]
      · rw [if_neg here]
        by_cases earlier : ∃ i < n, hash (nodeLabel shard i) = h
        · rw [if_pos earlier, if_pos (last.mpr (Or.inr earlier))]
        · rw [if_neg earlier, if_neg fun some' => (last.mp some').elim here earlier]

theorem Sound.get_removeShard (sound : Sound ring) (shard : ShardId) (h : UInt64) :
    Assoc.get (ring.removeShard shard).nodes h =
      if Assoc.get ring.nodes h = some shard then none else Assoc.get ring.nodes h := by
  rw [removeShard, Assoc.get_filter sound.distinct]
  cases Assoc.get ring.nodes h with
  | none => rfl
  | some owner =>
      by_cases own : owner = shard
      · simp [own]
      · simp [own]

theorem getShard_congr {ring' : ConsistentHashRing} (sound : Sound ring) (sound' : Sound ring')
    (same : ∀ h, Assoc.get ring'.nodes h = Assoc.get ring.nodes h) (key : Str) :
    ring'.getShard hash key = ring.getShard hash key := by
  have keys : ∀ h, h ∈ Assoc.keys ring'.nodes ↔ h ∈ Assoc.keys ring.nodes := by
    intro h
    rw [Assoc.mem_keys_iff_isSome, Assoc.mem_keys_iff_isSome, same]
  ext shard
  rw [sound'.getShard_eq_some_iff, sound.getShard_eq_some_iff]
  constructor
  · rintro ⟨h, next, owned⟩
    exact ⟨h, next.of_mem_iff fun y => (keys y).symm, (same h) ▸ owned⟩
  · rintro ⟨h, next, owned⟩
    exact ⟨h, next.of_mem_iff keys, (same h).symm ▸ owned⟩

theorem Sound.getShard_eq_none_iff (sound : Sound ring) (key : Str) :
    ring.getShard hash key = none ↔ ring.nodes = [] := by
  constructor
  · intro panics
    by_contra some'
    have hashes : ring.sortedHashes ≠ [] := by
      obtain ⟨node, rest, listed⟩ := List.exists_cons_of_ne_nil some'
      intro none'
      have member := (sound.mem_iff node.1).mpr (by rw [listed]; exact List.mem_cons_self)
      rw [none'] at member
      cases member
    obtain ⟨h, -, next⟩ := isNext_place sound.increasing hashes (hash key)
    have next' := next.of_mem_iff fun y => (sound.mem_iff y).symm
    obtain ⟨owner, owned⟩ := Option.isSome_iff_exists.mp (Assoc.mem_keys_iff_isSome.mp next'.member)
    rw [(sound.getShard_eq_some_iff key owner).mpr ⟨h, next', owned⟩] at panics
    cases panics
  · intro empty
    cases answer : ring.getShard hash key with
    | none => rfl
    | some owner =>
        obtain ⟨h, next, -⟩ := (sound.getShard_eq_some_iff key owner).mp answer
        have member := next.member
        rw [empty] at member
        cases member

theorem Sound.getShard_removeShard (sound : Sound ring) {shard : ShardId} {key : Str}
    (other : ring.getShard hash key ≠ some shard) :
    (ring.removeShard shard).getShard hash key = ring.getShard hash key := by
  have removed : Sound (ring.removeShard shard) := @Sound.apply hash ring sound (.removeShard shard)
  cases answer : ring.getShard hash key with
  | none =>
      rw [sound.getShard_eq_none_iff] at answer
      rw [removed.getShard_eq_none_iff, removeShard, answer]
      rfl
  | some owner =>
      obtain ⟨h, next, owned⟩ := (sound.getShard_eq_some_iff key owner).mp answer
      have own : owner ≠ shard := fun same => other (same ▸ answer)
      have get := sound.get_removeShard shard h
      rw [owned, if_neg fun same => own (Option.some.inj same)] at get
      refine (removed.getShard_eq_some_iff key owner).mpr ⟨h, next.of_subset ?_ ?_, get⟩
      · exact fun y member => ((List.filter_sublist).map Prod.fst).subset member
      · rw [Assoc.mem_keys_iff_isSome, get]
        rfl

/-- A shard on the ring has all its virtual nodes there. -/
structure Complete (hash : Str → UInt64) (shards : List ShardId) (ring : ConsistentHashRing) :
    Prop where
  known : ∀ h shard, Assoc.get ring.nodes h = some shard → shard ∈ shards ∧
    ∃ i < ring.virtualNodesPerShard, hash (nodeLabel shard i) = h
  whole : ∀ h shard, Assoc.get ring.nodes h = some shard → ∀ i < ring.virtualNodesPerShard,
    Assoc.get ring.nodes (hash (nodeLabel shard i)) = some shard

variable {shards : List ShardId}

theorem Complete.addNodes {nodes : List (UInt64 × ShardId)} {virtualNodes : Nat}
    (apart : Apart hash virtualNodes shards) {sorted sorted' : List UInt64}
    (complete : Complete hash shards ⟨nodes, sorted, virtualNodes⟩) {shard : ShardId}
    (listed : shard ∈ shards) :
    Complete hash shards ⟨insertNodes hash virtualNodes nodes shard, sorted', virtualNodes⟩ := by
  constructor
  · intro h owner owned
    dsimp only at owned ⊢
    rw [get_insertNodes] at owned
    split at owned
    · rename_i own
      obtain rfl := Option.some.inj owned
      exact ⟨listed, own⟩
    · exact complete.known h owner owned
  · intro h owner owned i bound
    dsimp only at owned bound ⊢
    rw [get_insertNodes] at owned ⊢
    by_cases own : owner = shard
    · subst own
      rw [if_pos ⟨i, bound, rfl⟩]
    · split at owned
      · exact absurd (Option.some.inj owned).symm own
      · have here := complete.whole h owner owned i bound
        rw [if_neg, here]
        rintro ⟨j, bound', same⟩
        exact own (apart shard listed owner (complete.known h owner owned).1 j bound' i bound
          same).symm

theorem Complete.removeShard (sound : Sound ring) (complete : Complete hash shards ring)
    (shard : ShardId) : Complete hash shards (ring.removeShard shard) := by
  have old : ∀ h owner, Assoc.get (ring.removeShard shard).nodes h = some owner →
      owner ≠ shard ∧ Assoc.get ring.nodes h = some owner := by
    intro h owner owned
    rw [sound.get_removeShard] at owned
    split at owned
    · cases owned
    · rename_i other
      exact ⟨fun same => other (same ▸ owned), owned⟩
  constructor
  · exact fun h owner owned => complete.known h owner (old h owner owned).2
  · intro h owner owned i bound
    obtain ⟨other, owned⟩ := old h owner owned
    rw [sound.get_removeShard, complete.whole h owner owned i bound,
      if_neg fun same => other (Option.some.inj same)]

theorem Complete.apply (sound : Sound ring) (complete : Complete hash shards ring)
    (apart : Apart hash ring.virtualNodesPerShard shards) {change : Change}
    (listed : ∀ shard, change = .addShard shard → shard ∈ shards) :
    Complete hash shards (apply hash ring change) := by
  cases change with
  | addShard shard =>
      have before : Complete hash shards
          ⟨ring.nodes, ring.sortedHashes, ring.virtualNodesPerShard⟩ := complete
      exact before.addNodes apart (listed shard rfl)
  | removeShard shard => exact complete.removeShard sound shard

theorem virtualNodes_apply (ring : ConsistentHashRing) (change : Change) :
    (apply hash ring change).virtualNodesPerShard = ring.virtualNodesPerShard := by
  cases change <;> rfl

theorem complete_new {shardCount virtualNodes : Nat} (apart : Apart hash virtualNodes shards)
    (listed : ∀ shard < shardCount, shard ∈ shards) :
    Complete hash shards (new hash shardCount virtualNodes) := by
  suffices all : ∀ part : List ShardId, (∀ shard ∈ part, shard ∈ shards) →
      ∀ nodes, Complete hash shards ⟨nodes, [], virtualNodes⟩ →
        Complete hash shards ⟨part.foldl (insertNodes hash virtualNodes) nodes, [], virtualNodes⟩ by
    have built := all (List.range shardCount)
      (fun shard member => listed shard (List.mem_range.mp member)) []
      ⟨fun h shard owned => (by cases owned), fun h shard owned => (by cases owned)⟩
    exact ⟨built.known, built.whole⟩
  intro part
  induction part with
  | nil => exact fun _ nodes complete => complete
  | cons shard part ih =>
      intro inside nodes complete
      exact ih (fun other member => inside other (List.mem_cons_of_mem shard member)) _
        (complete.addNodes apart (inside shard List.mem_cons_self))

theorem complete_after {shardCount virtualNodes : Nat} {changes : List Change}
    (apart : Apart hash virtualNodes (placed shardCount changes)) :
    Complete hash (placed shardCount changes) (after hash shardCount virtualNodes changes) := by
  have first : Complete hash (placed shardCount changes) (new hash shardCount virtualNodes) :=
    complete_new apart fun shard bound => List.mem_append_left _ (List.mem_range.mpr bound)
  have added : ∀ shard, Change.addShard shard ∈ changes → shard ∈ placed shardCount changes :=
    fun shard member => List.mem_append_right _ (List.mem_filterMap.mpr ⟨_, member, rfl⟩)
  suffices all : ∀ part : List Change, (∀ change ∈ part, change ∈ changes) →
      ∀ ring : ConsistentHashRing, Sound ring → ring.virtualNodesPerShard = virtualNodes →
        Complete hash (placed shardCount changes) ring →
          Complete hash (placed shardCount changes)
            (part.foldl (ConsistentHashRing.apply hash) ring) from
    all changes (fun _ member => member) _ (sound_new shardCount virtualNodes) rfl first
  intro part
  induction part with
  | nil => exact fun _ ring _ _ complete => complete
  | cons change part ih =>
      intro inside ring sound same complete
      refine ih (fun other member => inside other (List.mem_cons_of_mem change member)) _
        (sound.apply change) ((virtualNodes_apply ring change).trans same) ?_
      refine complete.apply sound (by rwa [same]) fun shard here => added shard ?_
      exact here ▸ inside change List.mem_cons_self

theorem Complete.getShard_restored (sound : Sound ring) (complete : Complete hash shards ring)
    {shard : ShardId} (there : ∃ h, Assoc.get ring.nodes h = some shard) (key : Str) :
    ((ring.removeShard shard).addShard hash shard).getShard hash key =
      ring.getShard hash key := by
  obtain ⟨h₀, there⟩ := there
  have removed : Sound (ring.removeShard shard) := @Sound.apply hash ring sound (.removeShard shard)
  refine getShard_congr sound (removed.apply (.addShard shard)) (fun h => ?_) key
  rw [ConsistentHashRing.apply, addShard]
  dsimp only
  rw [get_insertNodes, sound.get_removeShard]
  by_cases own : ∃ i < (ring.removeShard shard).virtualNodesPerShard, hash (nodeLabel shard i) = h
  · obtain ⟨i, bound, here⟩ := own
    rw [if_pos ⟨i, bound, here⟩, ← here, complete.whole h₀ shard there i bound]
  · rw [if_neg own, if_neg]
    exact fun owned => own (complete.known h shard owned).2

end

/-- The hashes are those of the nodes in order; a key belongs to the owner of the next node; a shard
that goes gives away its own keys alone and, if no nodes of two shards collide, gets them back. -/
theorem after_spec (hash : Str → UInt64) (shardCount virtualNodes : Nat) (changes : List Change) :
    (after hash shardCount virtualNodes changes).sortedHashes.Pairwise (· < ·) ∧
    (∀ h, h ∈ (after hash shardCount virtualNodes changes).sortedHashes ↔
      h ∈ Assoc.keys (after hash shardCount virtualNodes changes).nodes) ∧
    (∀ key, (after hash shardCount virtualNodes changes).nodes ≠ [] → ∃ h shard,
      IsNext (Assoc.keys (after hash shardCount virtualNodes changes).nodes) (hash key) h ∧
        Assoc.get (after hash shardCount virtualNodes changes).nodes h = some shard ∧
          (after hash shardCount virtualNodes changes).getShard hash key = some shard) ∧
    (∀ shard key, (after hash shardCount virtualNodes changes).getShard hash key ≠ some shard →
      ((after hash shardCount virtualNodes changes).removeShard shard).getShard hash key =
        (after hash shardCount virtualNodes changes).getShard hash key) ∧
    (Apart hash virtualNodes (placed shardCount changes) → ∀ shard,
      (∃ h, Assoc.get (after hash shardCount virtualNodes changes).nodes h = some shard) → ∀ key,
        (((after hash shardCount virtualNodes changes).removeShard shard).addShard hash
          shard).getShard hash key = (after hash shardCount virtualNodes changes).getShard hash key) := by
  have sound : Sound (after hash shardCount virtualNodes changes) := sound_after _ _ _
  refine ⟨sound.increasing, sound.mem_iff, ?_, ?_, ?_⟩
  · intro key some'
    cases answer : (after hash shardCount virtualNodes changes).getShard hash key with
    | none => exact absurd ((sound.getShard_eq_none_iff key).mp answer) some'
    | some shard =>
        obtain ⟨h, next, owned⟩ := (sound.getShard_eq_some_iff key shard).mp answer
        exact ⟨h, shard, next, owned, rfl⟩
  · exact fun shard key other => sound.getShard_removeShard other
  · exact fun apart shard there key => (complete_after apart).getShard_restored sound there key

/-- Shards 0 and 1 with two nodes each, where shard 2 came and went, and shard 0 comes back. -/
theorem after_spec_two_shards :
    ∃ hash : Str → UInt64, ∀ key ∈ [Str.lit "a", Str.lit "shard-1-vnode-0"],
      (((after hash 2 2 [.addShard 2, .removeShard 2]).removeShard 0).addShard hash 0).getShard hash
        key = (after hash 2 2 [.addShard 2, .removeShard 2]).getShard hash key := by
  refine ⟨fun text => text.bytes.foldl (fun h b => h * 31 + b.toUInt64) 0, fun key _ => ?_⟩
  refine (after_spec _ 2 2 [.addShard 2, .removeShard 2]).2.2.2.2 (by decide +kernel) 0 ?_ key
  exact ⟨(nodeLabel 0 0).bytes.foldl (fun h b => h * 31 + b.toUInt64) 0, by decide +kernel⟩

end ConsistentHashRing

end Zumic.Engine.SlotManager
