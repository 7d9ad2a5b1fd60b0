/- Clients that share one persistent store. A call locks the log and the shards of its keys one
after the other, and other calls may come in between. -/

import Zumic.Engine.Durability
import Zumic.Lib.Runs

namespace Zumic.Engine.InPersistentStore

open Database Lib Lib.ByteString
open Zumic.Lib.TwoCopies (Side Apart)
open Zdb

/-- A call of a client. -/
inductive KeyCall where
  | set (key : Sds) (value : Value)
  | del (key : Sds)
  | rename (src dst : Sds)

namespace KeyCall

def toCall : KeyCall → Call
  | .set key value => .set key value
  | .del key => .del key
  | .rename src dst => .rename src dst

def keys : KeyCall → List Bytes
  | .set key _ => [key]
  | .del key => [key]
  | .rename src dst => [src, dst]

/-- The copy that a call changes first: on the left is the log, on the right the index. -/
def side : KeyCall → Side
  | .set _ _ => .left
  | .del _ => .right
  | .rename _ _ => .right

/-- A removal or a renaming of a key that is not there returns at once. -/
def acts (s : InPersistentStore) : KeyCall → Bool
  | .set _ _ => true
  | .del key => (s.index.get key).isSome
  | .rename src _ => (s.index.get src).isSome

/-- The lengths of what a call brings to the log fit in 32 bits. -/
def Sized (rt : Runtime) : KeyCall → Prop
  | .set key value => key.length < 2 ^ 32 ∧ (toBytes rt.zstd value).length < 2 ^ 32
  | .del _ => True
  | .rename _ dst => dst.length < 2 ^ 32

instance (rt : Runtime) : (call : KeyCall) → Decidable (call.Sized rt)
  | .set key value =>
      inferInstanceAs (Decidable (key.length < 2 ^ 32 ∧ (toBytes rt.zstd value).length < 2 ^ 32))
  | .del _ => isTrue trivial
  | .rename _ dst => inferInstanceAs (Decidable (dst.length < 2 ^ 32))

end KeyCall

/-- What a call has yet to do after its first critical section. -/
inductive Rest where
  | set (key value : Bytes)
  | del (key : Bytes)
  | rename (src dst value : Bytes)

namespace Rest

def side : Rest → Side
  | .set _ _ => .left
  | .del _ => .right
  | .rename _ _ _ => .right

def entries : Rest → List AofEntry
  | .set key value => [.set key value]
  | .del key => [.del key]
  | .rename src dst value => [.del src, .set dst value]

def keys (rest : Rest) : List Bytes := rest.entries.map Journal.Entry.key

end Rest

/-- The first critical section of a call: `set` logs, `del` and `rename` change the index. -/
def first (rt : Runtime) (s : InPersistentStore) : KeyCall → InPersistentStore × Option Rest
  | .set key value =>
      let value := toBytes rt.zstd value
      ({ s with aof := s.aof.appendSet key value }, some (.set key value))
  | .del key =>
      if (s.index.get key).isSome then ({ s with index := s.index.remove key }, some (.del key))
      else (s, none)
  | .rename src dst =>
      match s.index.get src with
      | some value =>
          ({ s with index := (s.index.remove src).insert dst value }, some (.rename src dst value))
      | none => (s, none)

/-- The second one: `set` changes the index, `del` and `rename` log what they did. -/
def second (s : InPersistentStore) : Rest → InPersistentStore
  | .set key value => { s with index := s.index.insert key value }
  | .del key => { s with aof := s.aof.appendDel key }
  | .rename src dst value => { s with aof := (s.aof.appendDel src).appendSet dst value }

/-- A call whose sections follow each other is the call of a single client. -/
theorem second_first (rt : Runtime) (s : InPersistentStore) (call : KeyCall) :
    (first rt s call).2.elim (first rt s call).1 (second (first rt s call).1) =
      step rt s call.toCall := by
  cases call with
  | set key value => rfl
  | del key =>
      simp only [first, KeyCall.toCall, step, del]
      split
      · rfl
      · rfl
  | rename src dst =>
      simp only [first, KeyCall.toCall, step, rename]
      cases s.index.get src with
      | none => rfl
      | some value => rfl

/-- A store and the calls that are between their sections, in the order in which they began. -/
structure Shared where
  store : InPersistentStore
  pending : List (Nat × Rest)

/-- A client enters a critical section. -/
inductive Event where
  | first (client : Nat) (call : KeyCall)
  | second (client : Nat)

namespace Shared

/-- A client has one call at a time. -/
def step (rt : Runtime) (c : Shared) : Event → Option Shared
  | .first client call =>
      if client ∈ Assoc.keys c.pending then none
      else
        let (store, rest) := first rt c.store call
        some ⟨store, c.pending ++ (rest.map fun rest => (client, rest)).toList⟩
  | .second client =>
      match Assoc.get c.pending client with
      | none => none
      | some rest => some ⟨second c.store rest, Assoc.erase c.pending client⟩

def run (rt : Runtime) (c : Shared) (events : List Event) : Option Shared :=
  Runs.run (step rt) c events

/-- Calls on one key reach the index and the log in the same order. No call begins on one side
while a call on its keys waits to go there from the other side, and of two calls on one key that
began on the same side the earlier one ends first. -/
def InTurn (rt : Runtime) (c : Shared) : Event → Prop
  | .first _ call => call.Sized rt ∧ (call.acts c.store = true →
      ∀ p ∈ c.pending, p.2.side ≠ call.side → ∀ k ∈ call.keys, k ∉ p.2.keys)
  | .second client => ∀ rest ∈ Assoc.get c.pending client,
      ∀ p ∈ c.pending.takeWhile (fun p => p.1 ≠ client), p.2.side = rest.side →
        ∀ k ∈ rest.keys, k ∉ p.2.keys

instance (rt : Runtime) (c : Shared) : (e : Event) → Decidable (c.InTurn rt e)
  | .first _ call => inferInstanceAs (Decidable (call.Sized rt ∧ (call.acts c.store = true →
      ∀ p ∈ c.pending, p.2.side ≠ call.side → ∀ k ∈ call.keys, k ∉ p.2.keys)))
  | .second client => inferInstanceAs (Decidable (∀ rest ∈ Assoc.get c.pending client,
      ∀ p ∈ c.pending.takeWhile (fun p => p.1 ≠ client), p.2.side = rest.side →
        ∀ k ∈ rest.keys, k ∉ p.2.keys))

/-- Every step of a run is made in turn. -/
def Orderly (rt : Runtime) (c : Shared) (events : List Event) : Prop :=
  Runs.Along (step rt) (InTurn rt) c events

end Shared

/-- Some changes are made on one side. -/
def Made (s s' : InPersistentStore) (entries : List AofEntry) : Side → Prop
  | .left => s'.index = s.index ∧ s'.aof.file = s.aof.file ++ entries.flatMap record
  | .right => s'.index.get = Journal.replay entries s.index.get ∧ s'.aof = s.aof

theorem first_of_not_acts {rt : Runtime} {s : InPersistentStore} {call : KeyCall}
    (idle : call.acts s = false) : first rt s call = (s, none) := by
  cases call with
  | set key value => cases idle
  | del key =>
      rw [first, if_neg]
      simpa [KeyCall.acts] using idle
  | rename src dst =>
      have absent : s.index.get src = none := by simpa [KeyCall.acts] using idle
      rw [first, absent]

theorem first_of_acts (rt : Runtime) {s : InPersistentStore} {call : KeyCall}
    (acts : call.acts s = true) :
    ∃ s' rest, first rt s call = (s', some rest) ∧ rest.side = call.side ∧ rest.keys = call.keys ∧
      Made s s' rest.entries rest.side ∧
      (Small s → call.Sized rt → ∀ e ∈ rest.entries, Loggable e) := by
  cases call with
  | set key value =>
      refine ⟨_, _, rfl, rfl, rfl, ⟨rfl, ?_⟩, ?_⟩
      · simp [Rest.entries, AofLog.appendSet, AofLog.append]
      · intro _ sized e member
        rw [List.mem_singleton.mp member]
        exact sized
  | del key =>
      obtain ⟨value, found⟩ := Option.isSome_iff_exists.mp acts
      refine ⟨_, _, if_pos acts, rfl, rfl, ⟨s.index.get_remove key, rfl⟩, ?_⟩
      intro small _ e member
      rw [List.mem_singleton.mp member]
      exact (small key value found).1
  | rename src dst =>
      obtain ⟨value, found⟩ := Option.isSome_iff_exists.mp acts
      refine ⟨⟨(s.index.remove src).insert dst value, s.aof⟩, .rename src dst value, ?_, rfl, rfl,
        ⟨?_, rfl⟩, ?_⟩
      · rw [first, found]
      · rw [ShardedIndex.get_insert, ShardedIndex.get_remove]
        rfl
      · intro small sized e member
        rcases List.mem_cons.mp member with rfl | member
        · exact (small src value found).1
        · rw [List.mem_singleton.mp member]
          exact ⟨sized, (small src value found).2⟩

theorem made_second (s : InPersistentStore) (rest : Rest) :
    Made s (second s rest) rest.entries rest.side.other := by
  cases rest with
  | set key value => exact ⟨s.index.get_insert key value, rfl⟩
  | del key =>
      refine ⟨rfl, ?_⟩
      simp [second, Rest.entries, AofLog.appendDel, AofLog.append]
  | rename src dst value =>
      refine ⟨rfl, ?_⟩
      simp [second, Rest.entries, AofLog.appendDel, AofLog.appendSet, AofLog.append]

/-- The map that the log holds and the map that the index holds. -/
def copies (s : InPersistentStore) (logged : List AofEntry) : Side → Bytes → Option Bytes
  | .left => Journal.replay logged fun _ => none
  | .right => s.index.get

/-- A store whose log has the records of some changes. -/
structure Recorded (s : InPersistentStore) (logged : List AofEntry) : Prop where
  file : s.aof.file = magic ++ logged.flatMap record
  loggable : ∀ e ∈ logged, Loggable e
  small : Small s

theorem small_replay {entries : List AofEntry} (loggable : ∀ e ∈ entries, Loggable e)
    {m : Bytes → Option Bytes}
    (small : ∀ k v, m k = some v → k.length < 2 ^ 32 ∧ v.length < 2 ^ 32) (k v : Bytes)
    (there : Journal.replay entries m k = some v) : k.length < 2 ^ 32 ∧ v.length < 2 ^ 32 := by
  induction entries generalizing m with
  | nil => exact small k v there
  | cons e entries ih =>
      apply ih (fun e' member => loggable e' (List.mem_cons_of_mem _ member)) ?_ there
      intro k' v' there'
      have sized := loggable e List.mem_cons_self
      cases e with
      | set key value =>
          rw [Journal.Entry.apply, Function.update_apply] at there'
          split at there'
          · rename_i same
            cases there'
            exact same ▸ sized
          · exact small k' v' there'
      | del key =>
          rw [Journal.Entry.apply, Function.update_apply] at there'
          split at there'
          · cases there'
          · exact small k' v' there'

/-- Changes that are made on one side are made in its copy of the map. -/
theorem Made.copies_eq {s s' : InPersistentStore} {entries logged : List AofEntry} {side : Side}
    (made : Made s s' entries side) (recorded : Recorded s logged)
    (loggable : ∀ e ∈ entries, Loggable e) :
    ∃ logged', Recorded s' logged' ∧ copies s' logged' =
      Function.update (copies s logged) side (Journal.replay entries (copies s logged side)) := by
  cases side with
  | left =>
      obtain ⟨index, file⟩ := made
      refine ⟨logged ++ entries, ⟨?_, ?_, ?_⟩, ?_⟩
      · rw [file, recorded.file, List.flatMap_append, List.append_assoc]
      · intro e member
        rcases List.mem_append.mp member with old | new
        · exact recorded.loggable e old
        · exact loggable e new
      · rw [Small, index]
        exact recorded.small
      · funext side
        cases side with
        | left => rw [Function.update_self, copies, Journal.replay_append, copies]
        | right => rw [Function.update_of_ne Side.noConfusion, copies, copies, index]
  | right =>
      obtain ⟨index, aof⟩ := made
      refine ⟨logged, ⟨?_, recorded.loggable, ?_⟩, ?_⟩
      · rw [aof, recorded.file]
      · rw [Small, index]
        exact small_replay loggable recorded.small
      · funext side
        cases side with
        | left => rw [Function.update_of_ne Side.noConfusion, copies, copies]
        | right => rw [Function.update_self, copies, copies, index]

namespace Shared

/-- The calls between their sections as changes that are half made. -/
def halves (c : Shared) : List (TwoCopies.Half Bytes Bytes) :=
  c.pending.map fun p => ⟨p.2.side, p.2.entries⟩

def twoCopies (c : Shared) (logged : List AofEntry) : TwoCopies.State Bytes Bytes :=
  ⟨copies c.store logged, c.halves⟩

/-- The log and the index are bound for the same map. -/
structure Agreed (c : Shared) (logged : List AofEntry) : Prop where
  recorded : Recorded c.store logged
  loggable : ∀ p ∈ c.pending, ∀ e ∈ p.2.entries, Loggable e
  clients : (Assoc.keys c.pending).Nodup
  settled : (c.twoCopies logged).settled .left = (c.twoCopies logged).settled .right

theorem apart_of_keys {rest rest' : Rest} (others : ∀ k ∈ rest'.keys, k ∉ rest.keys) :
    Apart rest.entries rest'.entries := by
  intro e member e' member' same
  apply others e'.key (List.mem_map_of_mem member')
  exact same ▸ List.mem_map_of_mem member

theorem agreed_first {rt : Runtime} {c c' : Shared} {logged : List AofEntry} {client : Nat}
    {call : KeyCall} (agreed : Agreed c logged) (turn : c.InTurn rt (.first client call))
    (next : c.step rt (.first client call) = some c') : ∃ logged', Agreed c' logged' := by
  obtain ⟨sized, apart⟩ := turn
  rw [step] at next
  split at next
  · cases next
  rename_i free
  cases acts : call.acts c.store with
  | false =>
      rw [first_of_not_acts acts] at next
      have same : c' = c := by simpa using (Option.some.inj next).symm
      exact ⟨logged, same ▸ agreed⟩
  | true =>
      obtain ⟨s', rest, begun, side, keys, made, loggable⟩ := first_of_acts rt acts
      have loggable := loggable agreed.recorded.small sized
      rw [begun] at next
      obtain rfl := Option.some.inj next
      obtain ⟨logged', recorded, after⟩ := made.copies_eq agreed.recorded loggable
      refine ⟨logged', recorded, ?_, ?_, ?_⟩
      · intro p member
        rcases List.mem_append.mp member with old | new
        · exact agreed.loggable p old
        · rw [List.mem_singleton.mp new]
          exact loggable
      · rw [Assoc.keys, List.map_append]
        refine List.nodup_append.mpr ⟨agreed.clients, List.nodup_singleton _, ?_⟩
        intro other member client' member' same
        have here : client' = client := List.mem_singleton.mp member'
        exact free (here ▸ same ▸ member)
      · have begin' := TwoCopies.Step.begin (c.twoCopies logged) ⟨rest.side, rest.entries⟩ (by
          intro h member other
          obtain ⟨p, listed, rfl⟩ := List.mem_map.mp member
          exact apart_of_keys (keys ▸ apart acts p listed (side ▸ other)))
        have state : twoCopies ⟨s', c.pending ++ [(client, rest)]⟩ logged' =
            (c.twoCopies logged).begun ⟨rest.side, rest.entries⟩ := by
          simp [twoCopies, TwoCopies.State.begun, halves, after]
        exact state ▸ begin'.settled_eq agreed.settled

theorem agreed_second {rt : Runtime} {c c' : Shared} {logged : List AofEntry} {client : Nat}
    (agreed : Agreed c logged) (turn : c.InTurn rt (.second client))
    (next : c.step rt (.second client) = some c') : ∃ logged', Agreed c' logged' := by
  rw [step] at next
  split at next
  · cases next
  rename_i rest found
  obtain rfl := Option.some.inj next
  obtain ⟨after, listed, erased⟩ := Assoc.split_of_get agreed.clients found
  have apart := turn rest found
  have loggable := agreed.loggable (client, rest) (Assoc.mem_of_get found)
  have shrunk := Assoc.erase_sublist c.pending client
  obtain ⟨logged', recorded, changed⟩ :=
    (made_second c.store rest).copies_eq agreed.recorded loggable
  refine ⟨logged', recorded, ?_, ?_, ?_⟩
  · exact fun p member => agreed.loggable p (shrunk.subset member)
  · exact agreed.clients.sublist (shrunk.map Prod.fst)
  · let before := c.pending.takeWhile fun p => p.1 ≠ client
    let halved (pending : List (Nat × Rest)) := halves ⟨c.store, pending⟩
    have split : (c.twoCopies logged).halves =
        halved before ++ ⟨rest.side, rest.entries⟩ :: halved after := by
      show c.pending.map _ = _
      rw [listed, List.map_append, List.map_cons]
      rfl
    have finish := TwoCopies.Step.finish (c.twoCopies logged) _ _ _ split (by
      intro h member same
      obtain ⟨p, earlier, rfl⟩ := List.mem_map.mp member
      exact apart_of_keys (apart p earlier same))
    have state : twoCopies ⟨second c.store rest, Assoc.erase c.pending client⟩ logged' =
        (c.twoCopies logged).finished ⟨rest.side, rest.entries⟩ (halved before ++ halved after) := by
      simp only [twoCopies, TwoCopies.State.finished, halves, changed, erased, List.map_append]
      rfl
    exact state ▸ finish.settled_eq agreed.settled

theorem agreed_step {rt : Runtime} (c : Shared) (e : Event) (c' : Shared)
    (agreed : ∃ logged, Agreed c logged) (turn : c.InTurn rt e) (next : c.step rt e = some c') :
    ∃ logged, Agreed c' logged := by
  obtain ⟨logged, agreed⟩ := agreed
  cases e with
  | first client call => exact agreed_first agreed turn next
  | second client => exact agreed_second agreed turn next

theorem agreed_of_tracked {s : InPersistentStore} {logged : List AofEntry}
    (tracked : Tracked s logged) : Agreed ⟨s, []⟩ logged where
  recorded := by
    refine ⟨tracked.file, tracked.small, ?_⟩
    rw [Small, tracked.index]
    exact small_replay tracked.small fun k v there => by cases there
  loggable p member := absurd member List.not_mem_nil
  clients := List.nodup_nil
  settled := by
    rw [TwoCopies.State.settled_of_nil rfl, TwoCopies.State.settled_of_nil rfl]
    exact tracked.index.symm

theorem tracked_of_agreed {c : Shared} {logged : List AofEntry} (agreed : Agreed c logged)
    (returned : c.pending = []) : Tracked c.store logged where
  index := by
    have none' : (c.twoCopies logged).halves = [] := by rw [twoCopies, halves, returned, List.map_nil]
    have same := agreed.settled
    rw [TwoCopies.State.settled_of_nil none', TwoCopies.State.settled_of_nil none'] at same
    exact same.symm
  file := agreed.recorded.file
  small := agreed.recorded.loggable

/-- Whatever the clients do in turn, the log has the history of the index once they are done. -/
theorem durable_of_orderly {rt : Runtime} {s : InPersistentStore} {logged : List AofEntry}
    (tracked : Tracked s logged) {events : List Event} (orderly : Orderly rt ⟨s, []⟩ events)
    {c : Shared} (ran : run rt ⟨s, []⟩ events = some c) (returned : c.pending = [])
    (config : PersistentStoreConfig) : Durable config c.store := by
  obtain ⟨logged', agreed⟩ :=
    Runs.kept_run agreed_step ⟨logged, agreed_of_tracked tracked⟩ orderly ran
  exact (tracked_of_agreed agreed returned).durable config

/-- Two clients write a key in turn, and one of them renames it while a third one writes
another key. -/
def threeClients : List Event :=
  [.first 0 (.set [107] .null), .first 1 (.set [107] (.bool true)), .second 0, .second 1,
    .first 0 (.rename [107] [108]), .first 2 (.set [109] .null), .second 2, .second 0]

theorem durable_threeClients :
    ∃ c, run storingRuntime ⟨emptyStore, []⟩ threeClients = some c ∧
      c.store.index.get [107] = none ∧ c.pending = [] ∧ Durable oneShard c.store := by
  have started : new oneShard [] = .ok emptyStore := rfl
  have orderly : Orderly storingRuntime ⟨emptyStore, []⟩ threeClients := by
    unfold Orderly
    decide
  refine ⟨_, rfl, by decide, rfl, ?_⟩
  exact durable_of_orderly (tracked_new started) orderly rfl rfl oneShard

/-- Two clients log one key in an order and write it in the other. -/
def twoSets : List Event :=
  [.first 0 (.set [107] .null), .first 1 (.set [107] (.bool true)), .second 1, .second 0]

theorem durable_twoSets :
    ∃ c, run storingRuntime ⟨emptyStore, []⟩ twoSets = some c ∧ c.pending = [] ∧
      c.store.index.get [107] = some (toBytes storing .null) ∧
      (new oneShard c.store.aof.file).map (fun s => s.index.get [107]) =
        .ok (some (toBytes storing (.bool true))) ∧
      ¬Durable oneShard c.store := by
  let null := toBytes storing .null
  let true' := toBytes storing (.bool true)
  let index := (emptyStore.index.insert [107] true').insert [107] null
  let aof := (emptyStore.aof.appendSet [107] null).appendSet [107] true'
  have memory : index.get [107] = some null := by decide
  have log : (new oneShard aof.file).map (fun s => s.index.get [107]) = .ok (some true') := by
    decide
  refine ⟨⟨⟨index, aof⟩, []⟩, rfl, rfl, memory, log, ?_⟩
  rintro ⟨s, opened, same⟩
  rw [opened] at log
  have found : s.index.get [107] = some true' := Except.ok.inj log
  rw [same, memory] at found
  exact absurd found (by decide)

end Shared

end Zumic.Engine.InPersistentStore
