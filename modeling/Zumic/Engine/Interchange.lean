/- The two stores are interchangeable: one step of the in-memory store is one step of the persistent
store, seen through the codec. -/

import Zumic.Engine.Backends
import Zumic.Engine.StoredMembers

namespace Zumic.Engine

open Database Lib Lib.ByteString Zdb

namespace InPersistentStore

section

variable {α : Type} {place : Sds → Nat} {f : Sds → Option α}

theorem foldl_fill (chosen : Sds → Bool) (keys : List Sds) (front rest : List (Option α))
    (sized : rest.length = keys.length) :
    ((keys.zipIdx front.length).filter fun e => chosen e.1).foldl
        (fun result e => result.set e.2 (f e.1)) (front ++ rest) =
      front ++ List.zipWith (fun k old => if chosen k then f k else old) keys rest := by
  induction keys generalizing front rest with
  | nil =>
      obtain rfl : rest = [] := List.eq_nil_of_length_eq_zero sized
      rfl
  | cons k keys ih =>
      obtain ⟨old, rest, rfl⟩ : ∃ old rest', rest = old :: rest' :=
        List.exists_cons_of_length_eq_add_one sized
      have sized' : rest.length = keys.length := by simpa using sized
      have next := fun x => ih (front ++ [x]) rest sized'
      simp only [List.length_append, List.length_singleton, List.append_assoc,
        List.singleton_append] at next
      rw [List.zipIdx_cons, List.zipWith_cons_cons, List.filter_cons]
      by_cases here : chosen k = true
      · rw [if_pos here, List.foldl_cons, if_pos here]
        have written : (front ++ old :: rest).set front.length (f k) = front ++ f k :: rest := by
          rw [List.set_append_right _ _ (Nat.le_refl _), Nat.sub_self, List.set_cons_zero]
        rw [written]
        exact next (f k)
      · rw [if_neg here, if_neg here]
        exact next old

theorem zip_map_self {β δ : Type} (g : β → δ) (l : List β) :
    l.zip (l.map g) = l.map fun x => (x, g x) := by
  induction l with
  | nil => rfl
  | cons x l ih => rw [List.map_cons, List.zip_cons_cons, ih, List.map_cons]

theorem zipWith_map_self {β δ ε : Type} (g : β → δ → ε) (h : β → δ) (l : List β) :
    List.zipWith g l (l.map h) = l.map fun x => g x (h x) := by
  induction l with
  | nil => rfl
  | cons x l ih => rw [List.map_cons, List.zipWith_cons_cons, ih, List.map_cons]

theorem mapM_ok {β δ : Type} {g : β → Except StoreError δ} {h : β → δ} {l : List β}
    (each : ∀ x ∈ l, g x = .ok (h x)) : l.mapM g = .ok (l.map h) := by
  induction l with
  | nil => rfl
  | cons x l ih =>
      rw [List.mapM_cons, each x List.mem_cons_self,
        ih fun y member => each y (List.mem_cons_of_mem x member)]
      rfl

/-- The values of the keys whose shard has been read. -/
private def readSoFar (place : Sds → Nat) (f : Sds → Option α) (keys : List Sds) (done : List Nat) :
    List (Option α) :=
  keys.map fun k => if place k ∈ done then f k else none

theorem readSoFar_next (keys : List Sds) (done : List Nat) (shardId : Nat) :
    let items := keys.zipIdx.filter fun e => place e.1 = shardId
    (items.zip (items.map fun e => f e.1)).foldl (fun result e => result.set e.1.2 e.2)
        (readSoFar place f keys done) =
      readSoFar place f keys (shardId :: done) := by
  have filled := foldl_fill (f := f) (fun k => place k = shardId) keys []
    (readSoFar place f keys done) (by rw [readSoFar, List.length_map])
  simp only [List.nil_append, List.length_nil] at filled
  intro items
  rw [zip_map_self, List.foldl_map]
  refine filled.trans ?_
  rw [readSoFar, zipWith_map_self, readSoFar]
  apply List.map_congr_left
  intro k _
  by_cases here : place k = shardId
  · simp [here]
  · simp [here]

end

theorem mget_eq {rt : Runtime} {keys : List Sds} {s : InPersistentStore} {f : Sds → Option Value}
    (each : ∀ k ∈ keys, get rt k s = .ok (f k)) : mget rt keys s = .ok (keys.map f) := by
  have items : ∀ shardId, (keys.zipIdx.filter fun e => s.index.shardForKey e.1 = shardId).mapM
      (fun e => get rt e.1 s) =
        .ok ((keys.zipIdx.filter fun e => s.index.shardForKey e.1 = shardId).map fun e => f e.1) := by
    intro shardId
    apply mapM_ok
    intro e member
    have listed : e ∈ keys.zipIdx := List.mem_of_mem_filter member
    exact each e.1 (List.fst_mem_of_mem_zipIdx listed)
  have turns : ∀ (shardIds done : List Nat), shardIds.foldlM (fun result shardId => do
      let items := keys.zipIdx.filter fun e => s.index.shardForKey e.1 = shardId
      let values ← items.mapM fun e => get rt e.1 s
      pure ((items.zip values).foldl (fun result e => result.set e.1.2 e.2) result))
      (readSoFar s.index.shardForKey f keys done) =
        (.ok (readSoFar s.index.shardForKey f keys (shardIds.reverse ++ done)) :
          Except StoreError _) := by
    intro shardIds
    induction shardIds with
    | nil => exact fun done => rfl
    | cons shardId shardIds ih =>
        intro done
        rw [List.foldlM_cons]
        simp only [items shardId]
        have turn := @readSoFar_next _ s.index.shardForKey f keys done shardId
        have rest := ih (shardId :: done)
        rw [← turn] at rest
        rw [List.reverse_cons, List.append_assoc]
        exact rest
  have whole := turns ((keys.map s.index.shardForKey).dedup.mergeSort fun a b => decide (a ≤ b)) []
  have start : readSoFar s.index.shardForKey f keys [] = List.replicate keys.length none := by
    rw [readSoFar]
    simp [List.map_const']
  rw [start] at whole
  refine whole.trans (congrArg Except.ok ?_)
  rw [readSoFar]
  apply List.map_congr_left
  intro k member
  have visited : s.index.shardForKey k ∈ keys.map s.index.shardForKey := List.mem_map_of_mem member
  simp [visited]

end InPersistentStore

/-- What a key holds in memory and in the index: the bytes decode to the value, up to the order of
sets and maps. -/
inductive HeldAs (rt : Runtime) : Option Value → Option Bytes → Prop
  | none : HeldAs rt none none
  | some {v u : Value} {b : Bytes} (decoded : InPersistentStore.fromBytes rt b = .ok u)
      (same : Same v u) (distinct : ∀ members, v = .set members → members.Nodup) :
      HeldAs rt (some v) (some b)

section

variable {rt : Runtime}

theorem Returnable.heldAs (lossless : rt.zstd.Lossless) {v : Value} (value : Returnable rt v) :
    HeldAs rt (some v) (some (toBytes rt.zstd v)) := by
  have sound : Sound v := ⟨value.wf, value.fitting.fits, value.halves⟩
  have modern : FormatVersion.v3 ≠ .legacy := by decide
  obtain ⟨w, read, same⟩ := readValue_writeValue lossless modern value.codec sound
    value.fitting.block value.fitting.enough []
  rw [List.append_nil] at read
  refine HeldAs.some ?_ same ?_
  · rw [InPersistentStore.fromBytes, Zdb.fromBytes, toBytes, FormatVersion.current, read]
    rfl
  · rintro members rfl
    have wf := value.wf
    simpa [Value.all, Value.wfNode] using wf

theorem heldAs_set (lossless : rt.zstd.Lossless) {a b : List Sds} (perm : a.Perm b)
    (distinct : a.Nodup) (fitting : Fitting rt (.set b)) :
    HeldAs rt (some (.set a)) (some (InPersistentStore.encodeSet rt b)) := by
  have sound : Sound (.set b) :=
    ⟨by simpa [Value.all, Value.wfNode] using perm.nodup_iff.mp distinct, fitting.fits, rfl⟩
  have decoded := InPersistentStore.readable_of_sound lossless sound fitting.block fitting.enough
  refine HeldAs.some decoded (Same.set perm) ?_
  intro members same
  cases same
  exact distinct

end

/-- Two stores that hold the same values under all keys. -/
def Agree (rt : Runtime) (f : Sds → Option Value) (g : Sds → Option Bytes) : Prop :=
  ∀ k, HeldAs rt (f k) (g k)

section

variable {rt : Runtime} {f : Sds → Option Value} {g : Sds → Option Bytes}

theorem Agree.update (agree : Agree rt f g) {v : Option Value} {b : Option Bytes}
    (held : HeldAs rt v b) (key : Sds) :
    Agree rt (Function.update f key v) (Function.update g key b) := by
  intro k
  rw [Function.update_apply, Function.update_apply]
  split
  · exact held
  · exact agree k

theorem get_insert_eq (data : List (Sds × Value)) (key : Sds) (v : Value) :
    Assoc.get (Assoc.insert data key v) = Function.update (Assoc.get data) key (some v) := by
  funext k
  rw [Assoc.get_insert, Function.update_apply]
  by_cases same : k = key
  · rw [if_pos same, if_pos same.symm]
  · rw [if_neg same, if_neg (Ne.symm same)]

theorem get_erase_eq (data : List (Sds × Value)) (key : Sds) :
    Assoc.get (Assoc.erase data key) = Function.update (Assoc.get data) key none := by
  funext k
  rw [Assoc.get_erase, Function.update_apply]
  by_cases same : k = key
  · rw [if_pos same, if_pos same.symm]
  · rw [if_neg same, if_neg (Ne.symm same)]

theorem HeldAs.isSome_eq {v : Option Value} {b : Option Bytes} (held : HeldAs rt v b) :
    v.isSome = b.isSome := by
  cases held <;> rfl

end

/-- The stores in every moment of a run. -/
structure Paired {γ : Type} (rt : Runtime) (m : InMemoryStore γ) (s : MeteredStore) : Prop where
  metered : s.Metered
  distinct : (Assoc.keys m.data).Nodup
  agree : Agree rt (Assoc.get m.data) s.index.get

/-- One call on both stores. -/
structure Simulated {γ : Type} (rt : Runtime) (mem : StorageAnswer × InMemoryStore γ)
    (met : StorageAnswer × MeteredStore) : Prop where
  answer : SameAnswer mem.1 met.1
  distinct : (Assoc.keys mem.2.data).Nodup
  agree : Agree rt (Assoc.get mem.2.data) met.2.index.get

section

variable {γ : Type} {rt : Runtime} {m : InMemoryStore γ} {s : MeteredStore}

theorem Paired.held (paired : Paired rt m s) (key : Sds) :
    HeldAs rt (Assoc.get m.data key) (s.lookup key) :=
  paired.agree key

theorem Paired.held_cases (paired : Paired rt m s) (key : Sds) :
    (Assoc.get m.data key = none ∧ s.plain.index.get key = none) ∨
      ∃ v b, Assoc.get m.data key = some v ∧ s.plain.index.get key = some b ∧
        HeldAs rt (some v) (some b) := by
  have held := paired.held key
  have lookup : s.plain.index.get key = s.lookup key := rfl
  rw [lookup]
  generalize Assoc.get m.data key = value at held ⊢
  generalize s.lookup key = raw at held ⊢
  cases held with
  | none => exact Or.inl ⟨rfl, rfl⟩
  | some decoded same distinct =>
      exact Or.inr ⟨_, _, rfl, rfl, HeldAs.some decoded same distinct⟩

theorem Paired.storedSet_cases (paired : Paired rt m s) (key : Sds) :
    (Assoc.get m.data key = none ∧ (∀ command, m.members command key = .ok []) ∧
        ∀ command, InPersistentStore.storedSet rt command s.plain key = .ok none) ∨
      (∃ a b, a.Perm b ∧ a.Nodup ∧ (∀ command, m.members command key = .ok a) ∧
        ∀ command, InPersistentStore.storedSet rt command s.plain key = .ok (some b)) ∨
      ∀ command, ∃ e, m.members command key = .error e ∧
        InPersistentStore.storedSet rt command s.plain key = .error e := by
  have held := paired.held key
  have lookup : s.plain.index.get key = s.lookup key := rfl
  simp only [InMemoryStore.members, InPersistentStore.storedSet, lookup]
  generalize Assoc.get m.data key = value at held ⊢
  generalize s.lookup key = raw at held ⊢
  cases held with
  | none => exact Or.inl ⟨rfl, fun _ => rfl, fun _ => rfl⟩
  | some decoded same distinct =>
      rename_i v u b
      simp only [decoded]
      cases same with
      | refl v =>
          cases v with
          | set members =>
              exact Or.inr (Or.inl ⟨members, members, List.Perm.refl _, distinct members rfl,
                fun _ => rfl, fun _ => rfl⟩)
          | _ => exact Or.inr (Or.inr fun command => ⟨_, rfl, rfl⟩)
      | set perm =>
          rename_i a b
          exact Or.inr (Or.inl ⟨a, b, perm, distinct a rfl, fun _ => rfl, fun _ => rfl⟩)
      | hash perm => exact Or.inr (Or.inr fun command => ⟨_, rfl, rfl⟩)
      | zset perm => exact Or.inr (Or.inr fun command => ⟨_, rfl, rfl⟩)
      | array sames => exact Or.inr (Or.inr fun command => ⟨_, rfl, rfl⟩)

theorem Paired.reading (paired : Paired rt m s) {a b : StorageAnswer} (same : SameAnswer a b) :
    Simulated rt (a, m) (b, s) :=
  ⟨same, paired.distinct, paired.agree⟩

theorem simulated_of_mirrors {α : Type} (reply : α → StorageReply)
    {mem : Except StoreError α × InMemoryStore γ} {met : Except StoreError α × MeteredStore}
    {stored : Except StoreError α × InPersistentStore} (mirrors : MeteredStore.Mirrors met stored)
    {r : Except StoreError α} {m' : InMemoryStore γ} {s' : InPersistentStore}
    (first : mem = (r, m')) (second : stored = (r, s')) (distinct : (Assoc.keys m'.data).Nodup)
    (agree : Agree rt (Assoc.get m'.data) s'.index.get) :
    Simulated rt (mem.1.map reply, mem.2) (met.1.map reply, met.2) := by
  subst first second
  have index : met.2.index = s'.index := congrArg InPersistentStore.index mirrors.plain
  refine ⟨?_, distinct, ?_⟩
  · rw [mirrors.result]
    cases r with
    | error e => exact SameAnswer.error e
    | ok a => exact SameAnswer.ok (SameReply.refl _)
  · rw [index]
    exact agree

theorem Paired.set (paired : Paired rt m s) (lossless : rt.zstd.Lossless) (key : Sds) {value : Value}
    (returnable : Returnable rt value) :
    Simulated rt (InMemoryStore.call (.set key value) m)
      (MeteredStore.call rt (.set key value) s) := by
  refine simulated_of_mirrors _ (MeteredStore.mirrors_set rt key value s) rfl rfl ?_ ?_
  · exact Assoc.nodup_keys_insert paired.distinct key value
  · show Agree rt (Assoc.get (Assoc.insert m.data key value))
      (s.index.insert key (toBytes rt.zstd value)).get
    rw [get_insert_eq, ShardedIndex.get_insert]
    exact paired.agree.update (returnable.heldAs lossless) key

theorem Paired.read (paired : Paired rt m s) (key : Sds) :
    ∃ v, InPersistentStore.get rt key s.plain = .ok v ∧
      Option.Rel Same (Assoc.get m.data key) v := by
  have held := paired.held key
  have lookup : s.plain.index.get key = s.lookup key := rfl
  simp only [InPersistentStore.get, lookup]
  generalize Assoc.get m.data key = value at held ⊢
  generalize s.lookup key = raw at held ⊢
  cases held with
  | none => exact ⟨none, rfl, Option.Rel.none⟩
  | some decoded same distinct =>
      rename_i u _
      refine ⟨some u, ?_, Option.Rel.some same⟩
      simp only [decoded]
      rfl

theorem Paired.get (paired : Paired rt m s) (key : Sds) :
    Simulated rt (InMemoryStore.call (.get key) m) (MeteredStore.call rt (.get key) s) := by
  obtain ⟨v, read, same⟩ := paired.read key
  apply paired.reading
  simp only [read]
  exact SameAnswer.ok (SameReply.value same)

theorem Paired.mget (paired : Paired rt m s) (keys : List Sds) :
    Simulated rt (InMemoryStore.call (.mget keys) m) (MeteredStore.call rt (.mget keys) s) := by
  choose f read same using fun key => paired.read key
  have all : InPersistentStore.mget rt keys s.plain = .ok (keys.map f) :=
    InPersistentStore.mget_eq fun k _ => read k
  apply paired.reading
  simp only [all]
  refine SameAnswer.ok (SameReply.values ?_)
  rw [List.forall₂_map_left_iff, List.forall₂_map_right_iff]
  exact List.forall₂_same.mpr fun k _ => same k

theorem Paired.del (paired : Paired rt m s) (key : Sds) :
    Simulated rt (InMemoryStore.call (.del key) m) (MeteredStore.call rt (.del key) s) := by
  have mirrors := MeteredStore.mirrors_del key s
  have distinct := Assoc.nodup_keys_erase paired.distinct key
  have erased : Agree rt (Assoc.get (Assoc.erase m.data key))
      (Function.update s.index.get key none) := by
    rw [get_erase_eq]
    exact paired.agree.update HeldAs.none key
  rcases paired.held_cases key with ⟨here, stored⟩ | ⟨v, b, here, stored, -⟩
  · have unchanged : Function.update s.index.get key none = s.index.get :=
      Function.update_eq_self_iff.mpr stored.symm
    have mem : InMemoryStore.del key m =
        (.ok false, { m with data := Assoc.erase m.data key }) := by
      rw [InMemoryStore.del, here]
      rfl
    have met : InPersistentStore.del key s.plain = (.ok false, s.plain) := by
      rw [InPersistentStore.del, stored]
      rfl
    rw [unchanged] at erased
    exact simulated_of_mirrors _ mirrors mem met distinct erased
  · have mem : InMemoryStore.del key m =
        (.ok true, { m with data := Assoc.erase m.data key }) := by
      rw [InMemoryStore.del, here]
      rfl
    have met : InPersistentStore.del key s.plain = (.ok true, s.plain.drop key) := by
      rw [InPersistentStore.del, stored]
      rfl
    rw [← s.index.get_remove key] at erased
    exact simulated_of_mirrors _ mirrors mem met distinct erased

theorem Paired.moved (paired : Paired rt m s) {src : Sds} {v : Value} {b : Bytes}
    (held : HeldAs rt (some v) (some b)) (dst : Sds) :
    Agree rt (Assoc.get (Assoc.insert (Assoc.erase m.data src) dst v))
      ((s.index.remove src).insert dst b).get := by
  rw [get_insert_eq, get_erase_eq, ShardedIndex.get_insert, ShardedIndex.get_remove]
  exact (paired.agree.update HeldAs.none src).update held dst

theorem Paired.nodup_moved (paired : Paired rt m s) (src dst : Sds) (v : Value) :
    (Assoc.keys (Assoc.insert (Assoc.erase m.data src) dst v)).Nodup :=
  Assoc.nodup_keys_insert (Assoc.nodup_keys_erase paired.distinct src) dst v

theorem Paired.rename (paired : Paired rt m s) (src dst : Sds) :
    Simulated rt (InMemoryStore.call (.rename src dst) m)
      (MeteredStore.call rt (.rename src dst) s) := by
  have mirrors := MeteredStore.mirrors_rename src dst s
  rcases paired.held_cases src with ⟨here, stored⟩ | ⟨v, b, here, stored, held⟩
  · have mem : InMemoryStore.rename src dst m = (.error .keyNotFound, m) := by
      rw [InMemoryStore.rename, here]
    have met : InPersistentStore.rename src dst s.plain = (.error .keyNotFound, s.plain) := by
      rw [InPersistentStore.rename, stored]
    exact simulated_of_mirrors _ mirrors mem met paired.distinct paired.agree
  · have mem : InMemoryStore.rename src dst m =
        (.ok (), { m with data := Assoc.insert (Assoc.erase m.data src) dst v }) := by
      rw [InMemoryStore.rename, here]
    have met : InPersistentStore.rename src dst s.plain = (.ok (), s.plain.move src dst b) := by
      rw [InPersistentStore.rename, stored]
    exact simulated_of_mirrors _ mirrors mem met (paired.nodup_moved src dst v)
      (paired.moved held dst)

/-- The one call whose checks stand in another order. -/
theorem Paired.renamenx (paired : Paired rt m s) {src dst : Sds}
    (ordered : s.lookup src = none → s.lookup dst = none) :
    Simulated rt (InMemoryStore.call (.renamenx src dst) m)
      (MeteredStore.call rt (.renamenx src dst) s) := by
  have target : (Assoc.get m.data dst).isSome = (s.plain.index.get dst).isSome :=
    (paired.held dst).isSome_eq
  have mirrors := MeteredStore.mirrors_renamenx src dst s
  rcases paired.held_cases src with ⟨here, stored⟩ | ⟨v, b, here, stored, held⟩
  · have absent : s.plain.index.get dst = none := ordered stored
    have mem : InMemoryStore.renamenx src dst m = (.error .keyNotFound, m) := by
      rw [InMemoryStore.renamenx, target, absent, here]
      rfl
    have met : InPersistentStore.renamenx src dst s.plain = (.error .keyNotFound, s.plain) := by
      rw [InPersistentStore.renamenx, stored]
    exact simulated_of_mirrors _ mirrors mem met paired.distinct paired.agree
  · cases taken : (s.plain.index.get dst).isSome with
    | true =>
        have mem : InMemoryStore.renamenx src dst m = (.ok false, m) := by
          rw [InMemoryStore.renamenx, target, taken]
          rfl
        have met : InPersistentStore.renamenx src dst s.plain = (.ok false, s.plain) := by
          rw [InPersistentStore.renamenx, stored, taken]
          rfl
        exact simulated_of_mirrors _ mirrors mem met paired.distinct paired.agree
    | false =>
        have mem : InMemoryStore.renamenx src dst m =
            (.ok true, { m with data := Assoc.insert (Assoc.erase m.data src) dst v }) := by
          rw [InMemoryStore.renamenx, target, taken, here]
          rfl
        have met : InPersistentStore.renamenx src dst s.plain =
            (.ok true, s.plain.move src dst b) := by
          rw [InPersistentStore.renamenx, stored, taken]
          rfl
        exact simulated_of_mirrors _ mirrors mem met (paired.nodup_moved src dst v)
          (paired.moved held dst)

theorem simulated_flushdb (rt : Runtime) (m : InMemoryStore γ) (s : MeteredStore) :
    Simulated rt (InMemoryStore.call .flushdb m) (MeteredStore.call rt .flushdb s) := by
  refine simulated_of_mirrors _ (MeteredStore.mirrors_flushdb s) rfl rfl List.nodup_nil ?_
  intro k
  show HeldAs rt none (s.index.clear.get k)
  rw [ShardedIndex.get_clear]
  exact HeldAs.none

theorem nodup_mset (entries : List (Sds × Value)) {data : List (Sds × Value)}
    (distinct : (Assoc.keys data).Nodup) :
    (Assoc.keys (entries.foldl (fun data e => Assoc.insert data e.1 e.2) data)).Nodup := by
  induction entries generalizing data with
  | nil => exact distinct
  | cons e entries ih => exact ih (Assoc.nodup_keys_insert distinct e.1 e.2)

/-- The pairs one by one in memory, and through the table of the persistent store. -/
theorem agree_mset (lossless : rt.zstd.Lossless) {entries : List (Sds × Value)}
    (returnable : ∀ e ∈ entries, Returnable rt e.2) {data : List (Sds × Value)}
    {lookup : List (Bytes × Bytes)} {g : Sds → Option Bytes}
    (agree : Agree rt (Assoc.get data) fun k => (Assoc.get lookup k).or (g k)) :
    Agree rt (Assoc.get (entries.foldl (fun data e => Assoc.insert data e.1 e.2) data))
      fun k => (Assoc.get (InPersistentStore.table rt entries lookup) k).or (g k) := by
  induction entries generalizing data lookup with
  | nil => exact agree
  | cons e entries ih =>
      refine ih (fun e' member => returnable e' (List.mem_cons_of_mem e member)) ?_
      have held := (returnable e List.mem_cons_self).heldAs lossless
      have updated := agree.update held e.1
      intro k
      have here := updated k
      rw [get_insert_eq]
      simp only [Assoc.get_insert]
      rw [Function.update_apply] at here ⊢
      rw [Function.update_apply] at here
      by_cases same : k = e.1
      · rw [if_pos same, if_pos same] at here
        rw [if_pos same, if_pos same.symm]
        exact here
      · rw [if_neg same, if_neg same] at here
        rw [if_neg same, if_neg (Ne.symm same)]
        exact here

theorem Paired.mset (paired : Paired rt m s) (lossless : rt.zstd.Lossless)
    (order : IterationOrder (Bytes × Bytes)) {entries : List (Sds × Value)}
    (returnable : ∀ e ∈ entries, Returnable rt e.2) :
    Simulated rt (InMemoryStore.call (.mset order entries) m)
      (MeteredStore.call rt (.mset order entries) s) := by
  refine simulated_of_mirrors _ (MeteredStore.mirrors_mset rt order entries s) rfl rfl
    (nodup_mset entries paired.distinct) ?_
  have written := @InPersistentStore.get_mset rt order entries s.plain
  have before : Agree rt (Assoc.get m.data)
      fun k => (Assoc.get ([] : List (Bytes × Bytes)) k).or (s.plain.index.get k) := paired.agree
  have after := agree_mset lossless returnable before
  rw [← written] at after
  exact after

theorem Paired.members_cases (paired : Paired rt m s) (key : Sds) :
    (∃ a stored, a.Perm (stored.getD []) ∧ a.Nodup ∧
        (∀ command, m.members command key = .ok a) ∧
        ∀ command, InPersistentStore.storedSet rt command s.plain key = .ok stored) ∨
      ∀ command, ∃ e, m.members command key = .error e ∧
        InPersistentStore.storedSet rt command s.plain key = .error e := by
  rcases paired.storedSet_cases key with
    ⟨-, mem, met⟩ | ⟨a, b, perm, distinct, mem, met⟩ | failed
  · exact Or.inl ⟨[], none, List.Perm.refl _, List.nodup_nil, mem, met⟩
  · exact Or.inl ⟨a, some b, perm, distinct, mem, met⟩
  · exact Or.inr failed

theorem Paired.written (paired : Paired rt m s) (lossless : rt.zstd.Lossless) (key : Sds)
    {a b : List Sds} (perm : a.Perm b) (distinct : a.Nodup) (fitting : Fitting rt (.set b)) :
    Agree rt (Assoc.get (Assoc.insert m.data key (.set a)))
      (s.index.insert key (InPersistentStore.encodeSet rt b)).get := by
  rw [get_insert_eq, ShardedIndex.get_insert]
  exact paired.agree.update (heldAs_set lossless perm distinct fitting) key

theorem Paired.sadd (paired : Paired rt m s) (lossless : rt.zstd.Lossless) {key : Sds}
    {added : List Sds}
    (fitting : ∀ stored, InPersistentStore.storedSet rt "SADD" s.plain key = .ok stored →
      Fitting rt (.set (addMembers (stored.getD []) added).1)) :
    Simulated rt (InMemoryStore.call (.sadd key added) m)
      (MeteredStore.call rt (.sadd key added) s) := by
  have mirrors := MeteredStore.mirrors_sadd rt key added s
  rcases paired.members_cases key with ⟨a, stored, perm, distinct, found, read⟩ | failed
  · obtain ⟨perm', count, distinct'⟩ := addMembers_perm perm distinct added
    have mem : InMemoryStore.sadd key added m = (.ok (addMembers a added).2,
        { m with data := Assoc.insert m.data key (.set (addMembers a added).1) }) := by
      rw [InMemoryStore.sadd, found]
    have met : InPersistentStore.sadd rt key added s.plain = (.ok (addMembers a added).2,
        s.plain.put key (InPersistentStore.encodeSet rt (addMembers (stored.getD []) added).1)) := by
      rw [InPersistentStore.sadd, read, count]
    refine simulated_of_mirrors _ mirrors mem met
      (Assoc.nodup_keys_insert paired.distinct key _) ?_
    exact paired.written lossless key perm' distinct' (fitting stored (read "SADD"))
  · obtain ⟨e, found, read⟩ := failed "SADD"
    have mem : InMemoryStore.sadd key added m = (.error e, m) := by
      rw [InMemoryStore.sadd, found]
    have met : InPersistentStore.sadd rt key added s.plain = (.error e, s.plain) := by
      rw [InPersistentStore.sadd, read]
    exact simulated_of_mirrors _ mirrors mem met paired.distinct paired.agree

theorem Paired.srem (paired : Paired rt m s) (lossless : rt.zstd.Lossless) {key : Sds}
    {removed : List Sds}
    (fitting : ∀ members, InPersistentStore.storedSet rt "SREM" s.plain key = .ok (some members) →
      (removeMembers members removed).1 ≠ [] →
        Fitting rt (.set (removeMembers members removed).1)) :
    Simulated rt (InMemoryStore.call (.srem key removed) m)
      (MeteredStore.call rt (.srem key removed) s) := by
  have mirrors := MeteredStore.mirrors_srem rt key removed s
  rcases paired.storedSet_cases key with
    ⟨absent, found, read⟩ | ⟨a, b, perm, distinct, found, read⟩ | failed
  · have mem : InMemoryStore.srem key removed m =
        (.ok 0, { m with data := Assoc.erase m.data key }) := by
      rw [InMemoryStore.srem, found]
      simp only [removeMembers_nil, InMemoryStore.keep, if_true]
    have met : InPersistentStore.srem rt key removed s.plain = (.ok 0, s.plain) := by
      rw [InPersistentStore.srem, read]
    have erased : Assoc.erase m.data key = m.data :=
      Assoc.erase_of_not_mem (Assoc.get_eq_none_iff.mp absent)
    rw [erased] at mem
    exact simulated_of_mirrors _ mirrors mem met paired.distinct paired.agree
  · obtain ⟨perm', count, distinct'⟩ := removeMembers_perm perm distinct removed
    have mem : InMemoryStore.srem key removed m =
        (.ok (removeMembers a removed).2, m.keep key (removeMembers a removed).1) := by
      rw [InMemoryStore.srem, found]
    have met : InPersistentStore.srem rt key removed s.plain = (.ok (removeMembers a removed).2,
        InPersistentStore.keep rt s.plain key (removeMembers b removed).1) := by
      rw [InPersistentStore.srem, read, count]
    by_cases emptied : (removeMembers b removed).1 = []
    · have emptied' : (removeMembers a removed).1 = [] := by
        rw [emptied] at perm'
        exact perm'.eq_nil
      rw [InMemoryStore.keep, if_pos emptied'] at mem
      rw [InPersistentStore.keep, if_pos emptied] at met
      refine simulated_of_mirrors _ mirrors mem met
        (Assoc.nodup_keys_erase paired.distinct key) ?_
      show Agree rt (Assoc.get (Assoc.erase m.data key)) (s.index.remove key).get
      rw [get_erase_eq, ShardedIndex.get_remove]
      exact paired.agree.update HeldAs.none key
    · have emptied' : (removeMembers a removed).1 ≠ [] := by
        intro none'
        rw [none'] at perm'
        exact emptied perm'.symm.eq_nil
      rw [InMemoryStore.keep, if_neg emptied'] at mem
      rw [InPersistentStore.keep, if_neg emptied] at met
      refine simulated_of_mirrors _ mirrors mem met
        (Assoc.nodup_keys_insert paired.distinct key _) ?_
      exact paired.written lossless key perm' distinct' (fitting b (read "SREM") emptied)
  · obtain ⟨e, found, read⟩ := failed "SREM"
    have mem : InMemoryStore.srem key removed m = (.error e, m) := by
      rw [InMemoryStore.srem, found]
    have met : InPersistentStore.srem rt key removed s.plain = (.error e, s.plain) := by
      rw [InPersistentStore.srem, read]
    exact simulated_of_mirrors _ mirrors mem met paired.distinct paired.agree

theorem Paired.smembers (paired : Paired rt m s) (key : Sds) :
    Simulated rt (InMemoryStore.call (.smembers key) m)
      (MeteredStore.call rt (.smembers key) s) := by
  apply paired.reading
  rcases paired.members_cases key with ⟨a, stored, perm, distinct, found, read⟩ | failed
  · simp only [InMemoryStore.smembers, InPersistentStore.smembers, found, read]
    exact SameAnswer.ok (SameReply.members perm)
  · obtain ⟨e, found, read⟩ := failed "SMEMBERS"
    simp only [InMemoryStore.smembers, InPersistentStore.smembers, found, read]
    exact SameAnswer.error e

theorem Paired.scard (paired : Paired rt m s) (key : Sds) :
    Simulated rt (InMemoryStore.call (.scard key) m) (MeteredStore.call rt (.scard key) s) := by
  apply paired.reading
  rcases paired.members_cases key with ⟨a, stored, perm, distinct, found, read⟩ | failed
  · simp only [InMemoryStore.scard, InPersistentStore.scard, found, read]
    have same : a.length = (stored.getD []).length := perm.length_eq
    simp only [Except.map, same]
    exact SameAnswer.ok (SameReply.refl _)
  · obtain ⟨e, found, read⟩ := failed "SCARD"
    simp only [InMemoryStore.scard, InPersistentStore.scard, found, read]
    exact SameAnswer.error e

theorem Paired.sismember (paired : Paired rt m s) (key member : Sds) :
    Simulated rt (InMemoryStore.call (.sismember key member) m)
      (MeteredStore.call rt (.sismember key member) s) := by
  apply paired.reading
  rcases paired.members_cases key with ⟨a, stored, perm, distinct, found, read⟩ | failed
  · simp only [InMemoryStore.sismember, InPersistentStore.sismember, found, read]
    have same : member ∈ a ↔ member ∈ stored.getD [] := perm.mem_iff
    simp only [Except.map, same]
    exact SameAnswer.ok (SameReply.refl _)
  · obtain ⟨e, found, read⟩ := failed "SISMEMBER"
    simp only [InMemoryStore.sismember, InPersistentStore.sismember, found, read]
    exact SameAnswer.error e

theorem Paired.dbsize (paired : Paired rt m s) :
    Simulated rt (InMemoryStore.call .dbsize m) (MeteredStore.call rt .dbsize s) := by
  apply paired.reading
  have listed : (Assoc.keys m.data).Perm (Assoc.keys s.index.entries) := by
    rw [List.perm_ext_iff_of_nodup paired.distinct paired.metered.placed.nodup_entries]
    intro k
    have held : (Assoc.get m.data k).isSome = (s.index.get k).isSome := (paired.held k).isSome_eq
    rw [Assoc.mem_keys_iff_isSome, Assoc.mem_keys_iff_isSome, paired.metered.placed.get_entries,
      held]
  have size : m.data.length = s.dbsize := by
    have same := listed.length_eq
    rw [Assoc.keys, Assoc.keys, List.length_map, List.length_map] at same
    rw [paired.metered.counted.dbsize]
    exact same
  simp only [InMemoryStore.dbsize, Except.map, size]
  exact SameAnswer.ok (SameReply.refl _)

theorem MeteredStore.Metered.call (metered : s.Metered) (c : StorageCall) :
    (MeteredStore.call rt c s).2.Metered := by
  cases c with
  | set key value => exact metered.step rt (.set key value)
  | del key => exact metered.step rt (.del key)
  | mset order entries => exact metered.step rt (.mset order entries)
  | rename src dst => exact metered.step rt (.rename src dst)
  | renamenx src dst => exact metered.step rt (.renamenx src dst)
  | sadd key members => exact metered.step rt (.sadd key members)
  | srem key members => exact metered.step rt (.srem key members)
  | flushdb => exact metered.step rt .flushdb
  | _ => exact metered

theorem Paired.call (paired : Paired rt m s) (lossless : rt.zstd.Lossless) {c : StorageCall}
    (alike : Interchangeable rt s c) :
    SameAnswer (InMemoryStore.call c m).1 (MeteredStore.call rt c s).1 ∧
      Paired rt (InMemoryStore.call c m).2 (MeteredStore.call rt c s).2 := by
  have simulated : Simulated rt (InMemoryStore.call c m) (MeteredStore.call rt c s) := by
    cases c with
    | set key value => exact paired.set lossless key alike
    | get key => exact paired.get key
    | del key => exact paired.del key
    | mset order entries => exact paired.mset lossless order alike
    | mget keys => exact paired.mget keys
    | rename src dst => exact paired.rename src dst
    | renamenx src dst => exact paired.renamenx alike
    | flushdb => exact simulated_flushdb rt m s
    | sadd key members => exact paired.sadd lossless alike
    | srem key members => exact paired.srem lossless alike
    | scard key => exact paired.scard key
    | smembers key => exact paired.smembers key
    | sismember key member => exact paired.sismember key member
    | dbsize => exact paired.dbsize
  exact ⟨simulated.answer, paired.metered.call c, simulated.distinct, simulated.agree⟩

theorem Paired.answers (paired : Paired rt m s) (lossless : rt.zstd.Lossless)
    {calls : List StorageCall} (alike : AllInterchangeable rt s calls) :
    List.Forall₂ SameAnswer (answers InMemoryStore.call m calls)
      (answers (MeteredStore.call rt) s calls) := by
  induction calls generalizing m s with
  | nil => exact List.Forall₂.nil
  | cons c calls ih =>
      obtain ⟨same, next⟩ := paired.call lossless alike.1
      exact List.Forall₂.cons same (ih next alike.2)

end

theorem paired_new {γ : Type} (rt : Runtime) {config : PersistentStoreConfig} {s : MeteredStore}
    (opened : MeteredStore.new config [] = .ok s) (geo : γ) (rng : Rng) :
    Paired rt (InMemoryStore.new geo rng) s := by
  have fresh : MeteredStore.new config [] =
      .ok (MeteredStore.ofShards config ⟨magic, config.corruptionPolicy⟩) := rfl
  refine ⟨MeteredStore.metered_new opened, List.nodup_nil, ?_⟩
  obtain rfl := Except.ok.inj (opened.symm.trans fresh)
  intro k
  rw [MeteredStore.index_ofShards, ShardedIndex.get_new]
  exact HeldAs.none

/-- The two stores give the same answers, call by call, to every sequence of calls that are
interchangeable where they are made. -/
theorem answers_alike {γ : Type} {rt : Runtime} (lossless : rt.zstd.Lossless)
    {config : PersistentStoreConfig} {s : MeteredStore}
    (opened : MeteredStore.new config [] = .ok s) (geo : γ) (rng : Rng) {calls : List StorageCall}
    (alike : AllInterchangeable rt s calls) :
    List.Forall₂ SameAnswer (answers InMemoryStore.call (InMemoryStore.new geo rng) calls)
      (answers (MeteredStore.call rt) s calls) :=
  (paired_new rt opened geo rng).answers lossless alike

/-- A key moves to the other shard, and a set is made and read. -/
theorem answers_alike_two_shards :
    ∃ s, MeteredStore.new MeteredStore.twoShards [] = .ok s ∧
      List.Forall₂ SameAnswer
        (answers InMemoryStore.call (InMemoryStore.new () fun _ => 0)
          [.set [107] (.str [1]), .renamenx [107] [107, 108], .sadd [115] [[97], [98], [97]],
            .smembers [115], .dbsize])
        (answers (MeteredStore.call InPersistentStore.storingRuntime) s
          [.set [107] (.str [1]), .renamenx [107] [107, 108], .sadd [115] [[97], [98], [97]],
            .smembers [115], .dbsize]) := by
  have opened : MeteredStore.new MeteredStore.twoShards [] =
      .ok (MeteredStore.ofShards MeteredStore.twoShards ⟨magic, .strict⟩) := rfl
  refine ⟨_, opened, answers_alike storing_lossless opened () _ ⟨?_, ?_, ?_, trivial, trivial, trivial⟩⟩
  · exact ⟨⟨by decide, by decide, by decide⟩, rfl, rfl, rfl⟩
  · intro absent
    exact absurd absent (by decide)
  · intro stored read
    obtain rfl : none = stored := Except.ok.inj read
    exact ⟨by decide, by decide, by decide⟩

/-- A target that exists and a source that does not: the stores check them in another order. -/
theorem answers_renamenx_differ :
    ∃ s, MeteredStore.new InPersistentStore.oneShard [] = .ok s ∧
      answers InMemoryStore.call (InMemoryStore.new () fun _ => 0)
        [.set [107] .null, .renamenx [97] [107]] = [.ok .done, .ok (.flag false)] ∧
      answers (MeteredStore.call InPersistentStore.storingRuntime) s
        [.set [107] .null, .renamenx [97] [107]] = [.ok .done, .error .keyNotFound] ∧
      ¬List.Forall₂ SameAnswer
        (answers InMemoryStore.call (InMemoryStore.new () fun _ => 0)
          [.set [107] .null, .renamenx [97] [107]])
        (answers (MeteredStore.call InPersistentStore.storingRuntime) s
          [.set [107] .null, .renamenx [97] [107]]) := by
  refine ⟨MeteredStore.ofShards InPersistentStore.oneShard ⟨magic, .strict⟩, rfl, rfl, rfl, ?_⟩
  intro same
  cases same with
  | cons first rest =>
      cases rest with
      | cons second rest => cases second

end Zumic.Engine
