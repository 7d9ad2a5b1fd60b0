/- The string and set calls of the storage interface on both stores, and what it means that the
stores answer alike. -/

import Zumic.Engine.DbSize
import Zumic.Engine.Memory

namespace Zumic.Engine

open Database Lib.ByteString Zdb

/-- A call, with the table order that an `mset` of the persistent store meets. -/
inductive StorageCall where
  | set (key : Sds) (value : Value)
  | get (key : Sds)
  | del (key : Sds)
  | mset (order : IterationOrder (Bytes × Bytes)) (entries : List (Sds × Value))
  | mget (keys : List Sds)
  | rename (src dst : Sds)
  | renamenx (src dst : Sds)
  | flushdb
  | sadd (key : Sds) (members : List Sds)
  | srem (key : Sds) (members : List Sds)
  | scard (key : Sds)
  | smembers (key : Sds)
  | sismember (key member : Sds)
  | dbsize

inductive StorageReply where
  | done
  | flag (b : Bool)
  | count (n : Nat)
  | value (v : Option Value)
  | values (l : List (Option Value))
  | members (l : List Sds)

abbrev StorageAnswer := Except StoreError StorageReply

/-- Replies that differ only in the order of sets and maps. -/
inductive SameReply : StorageReply → StorageReply → Prop
  | refl (r : StorageReply) : SameReply r r
  | value {a b : Option Value} (same : Option.Rel Same a b) : SameReply (.value a) (.value b)
  | values {a b : List (Option Value)} (same : List.Forall₂ (Option.Rel Same) a b) :
      SameReply (.values a) (.values b)
  | members {a b : List Sds} (same : a.Perm b) : SameReply (.members a) (.members b)

inductive SameAnswer : StorageAnswer → StorageAnswer → Prop
  | ok {a b : StorageReply} (same : SameReply a b) : SameAnswer (.ok a) (.ok b)
  | error (e : StoreError) : SameAnswer (.error e) (.error e)

section

variable {σ α : Type}

/-- The answer to a call that may change the store. -/
def writing (reply : α → StorageReply) (call : StoreM σ α) : StoreM σ StorageReply := fun s =>
  ((call s).1.map reply, (call s).2)

/-- The answer to a call that leaves the store as it is. -/
def reading (reply : α → StorageReply) (call : StoreRead σ α) : StoreM σ StorageReply := fun s =>
  ((call s).map reply, s)

/-- The answers to a sequence of calls. -/
def answers (call : StorageCall → StoreM σ StorageReply) : σ → List StorageCall → List StorageAnswer
  | _, [] => []
  | s, c :: calls => (call c s).1 :: answers call (call c s).2 calls

end

def InMemoryStore.call {γ : Type} : StorageCall → StoreM (InMemoryStore γ) StorageReply
  | .set key value => writing (fun _ => .done) (set key value)
  | .get key => reading .value (get key)
  | .del key => writing .flag (del key)
  | .mset _ entries => writing (fun _ => .done) (mset entries)
  | .mget keys => reading .values (mget keys)
  | .rename src dst => writing (fun _ => .done) (rename src dst)
  | .renamenx src dst => writing .flag (renamenx src dst)
  | .flushdb => writing (fun _ => .done) flushdb
  | .sadd key members => writing .count (sadd key members)
  | .srem key members => writing .count (srem key members)
  | .scard key => reading .count (scard key)
  | .smembers key => reading .members (smembers key)
  | .sismember key member => reading .flag (sismember key member)
  | .dbsize => reading .count dbsize

/-- Calls that only read do not look at the metrics, but for `dbsize`. -/
def MeteredStore.call (rt : Runtime) : StorageCall → StoreM MeteredStore StorageReply
  | .set key value => writing (fun _ => .done) (set rt key value)
  | .get key => reading .value fun s => InPersistentStore.get rt key s.plain
  | .del key => writing .flag (del key)
  | .mset order entries => writing (fun _ => .done) (mset rt order entries)
  | .mget keys => reading .values fun s => InPersistentStore.mget rt keys s.plain
  | .rename src dst => writing (fun _ => .done) (rename src dst)
  | .renamenx src dst => writing .flag (renamenx src dst)
  | .flushdb => writing (fun _ => .done) flushdb
  | .sadd key members => writing .count (sadd rt key members)
  | .srem key members => writing .count (srem rt key members)
  | .scard key => reading .count fun s => InPersistentStore.scard rt key s.plain
  | .smembers key => reading .members fun s => InPersistentStore.smembers rt key s.plain
  | .sismember key member => reading .flag fun s =>
      InPersistentStore.sismember rt key member s.plain
  | .dbsize => reading .count fun s => .ok s.dbsize

/-- A value within the limits of the decoder. -/
structure Fitting (rt : Runtime) (v : Value) : Prop where
  fits : v.all fitsNode = true
  block : (rt.zstd.compress (writeValueInner .v3 v)).length ≤ maxCompressedSize
  enough : (writeValueInner .v3 v).length < rt.depth

/-- A value of the constructors that the decoder reads back, within its limits. -/
structure Returnable (rt : Runtime) (v : Value) : Prop where
  fitting : Fitting rt v
  codec : v.all codecNode = true
  wf : v.all Value.wfNode = true
  halves : v.all halvesNode = true

/-- Calls that the two stores answer alike: no `renamenx` has an existing target and no source, and
what is written can be read back. -/
def Interchangeable (rt : Runtime) (s : MeteredStore) : StorageCall → Prop
  | .set _ value => Returnable rt value
  | .mset _ entries => ∀ e ∈ entries, Returnable rt e.2
  | .renamenx src dst => s.lookup src = none → s.lookup dst = none
  | .sadd key added => ∀ stored, InPersistentStore.storedSet rt "SADD" s.plain key = .ok stored →
      Fitting rt (.set (addMembers (stored.getD []) added).1)
  | .srem key removed => ∀ members,
      InPersistentStore.storedSet rt "SREM" s.plain key = .ok (some members) →
        (removeMembers members removed).1 ≠ [] →
          Fitting rt (.set (removeMembers members removed).1)
  | _ => True

/-- Every call of a sequence is one that both stores answer alike. -/
def AllInterchangeable (rt : Runtime) : MeteredStore → List StorageCall → Prop
  | _, [] => True
  | s, c :: calls =>
      Interchangeable rt s c ∧ AllInterchangeable rt (MeteredStore.call rt c s).2 calls

section

variable {a b : List Sds}

private def addMember (r : List Sds × Nat) (m : Sds) : List Sds × Nat :=
  if m ∈ r.1 then r else (r.1 ++ [m], r.2 + 1)

private def removeMember (r : List Sds × Nat) (m : Sds) : List Sds × Nat :=
  if m ∈ r.1 then (r.1.erase m, r.2 + 1) else r

/-- Sets with the same members in another order stay so, and count alike. -/
private def SameMembers (r r' : List Sds × Nat) : Prop :=
  r.1.Perm r'.1 ∧ r.2 = r'.2 ∧ r.1.Nodup

theorem SameMembers.add {r r' : List Sds × Nat} (same : SameMembers r r') (m : Sds) :
    SameMembers (addMember r m) (addMember r' m) := by
  obtain ⟨perm, count, distinct⟩ := same
  by_cases here : m ∈ r.1
  · have there : m ∈ r'.1 := perm.mem_iff.mp here
    rw [addMember, if_pos here, addMember, if_pos there]
    exact ⟨perm, count, distinct⟩
  · have there : m ∉ r'.1 := fun member => here (perm.mem_iff.mpr member)
    rw [addMember, if_neg here, addMember, if_neg there]
    refine ⟨perm.append_right [m], by rw [count], ?_⟩
    rw [List.nodup_append]
    refine ⟨distinct, List.nodup_singleton m, ?_⟩
    intro x member y single
    rw [List.mem_singleton.mp single]
    exact fun equal => here (equal ▸ member)

theorem SameMembers.remove {r r' : List Sds × Nat} (same : SameMembers r r') (m : Sds) :
    SameMembers (removeMember r m) (removeMember r' m) := by
  obtain ⟨perm, count, distinct⟩ := same
  by_cases here : m ∈ r.1
  · have there : m ∈ r'.1 := perm.mem_iff.mp here
    rw [removeMember, if_pos here, removeMember, if_pos there]
    exact ⟨perm.erase m, by rw [count], distinct.erase m⟩
  · have there : m ∉ r'.1 := fun member => here (perm.mem_iff.mpr member)
    rw [removeMember, if_neg here, removeMember, if_neg there]
    exact ⟨perm, count, distinct⟩

theorem SameMembers.foldl {f : List Sds × Nat → Sds → List Sds × Nat}
    (keeps : ∀ r r' m, SameMembers r r' → SameMembers (f r m) (f r' m)) (l : List Sds)
    {r r' : List Sds × Nat} (same : SameMembers r r') :
    SameMembers (l.foldl f r) (l.foldl f r') := by
  induction l generalizing r r' with
  | nil => exact same
  | cons m l ih => exact ih (keeps r r' m same)

theorem addMembers_perm (perm : a.Perm b) (distinct : a.Nodup) (added : List Sds) :
    (addMembers a added).1.Perm (addMembers b added).1 ∧
      (addMembers a added).2 = (addMembers b added).2 ∧ (addMembers a added).1.Nodup :=
  SameMembers.foldl (fun _ _ m same => same.add m) added ⟨perm, rfl, distinct⟩

theorem removeMembers_perm (perm : a.Perm b) (distinct : a.Nodup) (removed : List Sds) :
    (removeMembers a removed).1.Perm (removeMembers b removed).1 ∧
      (removeMembers a removed).2 = (removeMembers b removed).2 ∧
        (removeMembers a removed).1.Nodup :=
  SameMembers.foldl (fun _ _ m same => same.remove m) removed ⟨perm, rfl, distinct⟩

theorem removeMembers_nil (removed : List Sds) : removeMembers [] removed = ([], 0) := by
  induction removed with
  | nil => rfl
  | cons m removed ih => exact ih

end

end Zumic.Engine
