/- Two clients on one hash set of a persistent store, where the set is decoded, changed and encoded
under the lock of its shard and logged under another one. -/

import Zumic.Engine.Members
import Zumic.Engine.Persistent

namespace Zumic.Engine

open Database Lib Lib.ByteString Zdb

namespace InPersistentStore

/-- `sadd` under the lock of the shard: the store, the members that it counted, and the bytes
that it has yet to log. -/
def saddFirst (rt : Runtime) (key : Sds) (added : List Sds) (s : InPersistentStore) :
    InPersistentStore × List Sds × Option Bytes :=
  match storedSet rt "SADD" s key with
  | .ok stored =>
      let members := stored.getD []
      let buf := encodeSet rt (addMembers members added).1
      ({ s with index := s.index.insert key buf }, added.filter fun m => m ∉ members, some buf)
  | .error _ => (s, [], none)

def saddNext (key : Sds) (buf : Bytes) (s : InPersistentStore) : InPersistentStore :=
  { s with aof := s.aof.appendSet key buf }

/-- What `srem` and `spop` have yet to do. -/
inductive TakeRest where
  | removeKey
  | logDel
  | logSet (buf : Bytes)
  deriving DecidableEq

/-- `srem` and `spop` under the lock of the shard. An emptied set is not written: its old bytes
stay until the key is removed. -/
def takeFirst (rt : Runtime) (key : Sds) (removal : Removal) (s : InPersistentStore) :
    InPersistentStore × List Sds × Option TakeRest :=
  match storedSet rt removal.command s key with
  | .ok (some members) =>
      let (gone, kept) := removal.split members
      if kept = [] then (s, gone, some .removeKey)
      else
        let buf := encodeSet rt kept
        ({ s with index := s.index.insert key buf }, gone, some (.logSet buf))
  | _ => (s, [], none)

def takeNext (key : Sds) (s : InPersistentStore) : TakeRest → InPersistentStore × Option TakeRest
  | .removeKey => ({ s with index := s.index.remove key }, some .logDel)
  | .logDel => ({ s with aof := s.aof.appendDel key }, none)
  | .logSet buf => ({ s with aof := s.aof.appendSet key buf }, none)

theorem takeFirst_cases (rt : Runtime) (key : Sds) (removal : Removal) (s : InPersistentStore) :
    (∃ members, storedSet rt removal.command s key = .ok (some members) ∧
      ((removal.split members).2 = [] ∧
          takeFirst rt key removal s = (s, (removal.split members).1, some .removeKey) ∨
        (removal.split members).2 ≠ [] ∧ takeFirst rt key removal s =
          ({ s with index := s.index.insert key (encodeSet rt (removal.split members).2) },
            (removal.split members).1, some (.logSet (encodeSet rt (removal.split members).2))))) ∨
      takeFirst rt key removal s = (s, [], none) := by
  rw [takeFirst]
  cases read : storedSet rt removal.command s key with
  | error e => exact Or.inr rfl
  | ok stored =>
      cases stored with
      | none => exact Or.inr rfl
      | some members =>
          refine Or.inl ⟨members, rfl, ?_⟩
          by_cases emptied : (removal.split members).2 = []
          · exact Or.inl ⟨emptied, if_pos emptied⟩
          · exact Or.inr ⟨emptied, if_neg emptied⟩

/-- All that is left of a call. -/
def takeAll (key : Sds) (s : InPersistentStore) : Option TakeRest → InPersistentStore
  | none => s
  | some .removeKey => (takeNext key (takeNext key s .removeKey).1 .logDel).1
  | some .logDel => (takeNext key s .logDel).1
  | some (.logSet buf) => (takeNext key s (.logSet buf)).1

/-- The store after a call that takes members out. -/
def taken (rt : Runtime) (key : Sds) (s : InPersistentStore) : Removal → InPersistentStore
  | .srem removed => (srem rt key removed s).2
  | .spop rng count => (spop rt rng key count s).2

theorem saddNext_saddFirst (rt : Runtime) (key : Sds) (added : List Sds) (s : InPersistentStore) :
    (let (s', _, rest) := saddFirst rt key added s;
      rest.elim s' fun buf => saddNext key buf s') = (sadd rt key added s).2 := by
  rw [saddFirst, sadd]
  cases storedSet rt "SADD" s key with
  | error e => rfl
  | ok stored => rfl

theorem taken_eq (rt : Runtime) (key : Sds) (s : InPersistentStore) (removal : Removal) :
    taken rt key s removal =
      match storedSet rt removal.command s key with
      | .ok (some members) => keep rt s key (removal.split members).2
      | _ => s := by
  cases removal with
  | srem removed =>
      rw [taken, srem, Removal.command]
      cases storedSet rt "SREM" s key with
      | error e => rfl
      | ok stored =>
          cases stored with
          | none => rfl
          | some members => rfl
  | spop rng count =>
      rw [taken, spop, Removal.command]
      cases storedSet rt "SPOP" s key with
      | error e => rfl
      | ok stored =>
          cases stored with
          | none => rfl
          | some members => rfl

theorem takeAll_takeFirst (rt : Runtime) (key : Sds) (removal : Removal) (s : InPersistentStore) :
    (let (s', _, rest) := takeFirst rt key removal s; takeAll key s' rest) =
      taken rt key s removal := by
  rw [taken_eq, takeFirst]
  cases storedSet rt removal.command s key with
  | error e => rfl
  | ok stored =>
      cases stored with
      | none => rfl
      | some members =>
          simp only [keep]
          split
          · rfl
          · rfl

/-- A set that is read back from its encoding. -/
def Readable (rt : Runtime) (members : List Sds) : Prop :=
  fromBytes rt (encodeSet rt members) = .ok (.set members)

/-- A set within the limits of the decoder is read back. -/
theorem readable_of_sound {rt : Runtime} (lossless : rt.zstd.Lossless) {members : List Sds}
    (sound : Sound (.set members))
    (block : (rt.zstd.compress (writeValueInner .v3 (.set members))).length ≤ maxCompressedSize)
    (enough : (writeValueInner .v3 (.set members)).length < rt.depth) : Readable rt members := by
  have modern : FormatVersion.v3 ≠ .legacy := by decide
  have read := (reads_writeValueVersioned lossless modern sound block enough).1 _ rfl []
  rw [List.append_nil] at read
  rw [Readable, encodeSet, fromBytes, Zdb.fromBytes, toBytes, FormatVersion.current, read]
  rfl

theorem storedSet_command {rt : Runtime} {command : String} {key : Sds}
    {s : InPersistentStore} {stored : Option (List Sds)}
    (read : storedSet rt command s key = .ok stored) (other : String) :
    storedSet rt other s key = .ok stored := by
  rw [storedSet] at read ⊢
  cases here : s.index.get key with
  | none =>
      rw [here] at read
      exact read
  | some raw =>
      rw [here] at read
      simp only [] at read ⊢
      cases decoded : fromBytes rt raw with
      | error e =>
          rw [decoded] at read
          cases read
      | ok v =>
          rw [decoded] at read
          cases v with
          | set members => exact read
          | _ => cases read

theorem storedSet_encoded {rt : Runtime} {key : Sds} {s : InPersistentStore}
    {members : List Sds} (here : s.index.get key = some (encodeSet rt members))
    (readable : Readable rt members) (command : String) :
    storedSet rt command s key = .ok (some members) := by
  have decoded : fromBytes rt (encodeSet rt members) = .ok (.set members) := readable
  rw [storedSet, here]
  simp only []
  rw [decoded]
  rfl

/-- The members of the set of a key. -/
def found (rt : Runtime) (key : Sds) (s : InPersistentStore) : List Sds :=
  match smembers rt key s with
  | .ok members => members
  | .error _ => []

theorem found_of_storedSet {rt : Runtime} {command : String} {key : Sds}
    {s : InPersistentStore} {stored : Option (List Sds)}
    (read : storedSet rt command s key = .ok stored) : found rt key s = stored.getD [] := by
  rw [found, smembers, storedSet_command read "SMEMBERS"]
  rfl

theorem found_insert {rt : Runtime} {key : Sds} (s : InPersistentStore) {members : List Sds}
    (readable : Readable rt members) :
    found rt key { s with index := s.index.insert key (encodeSet rt members) } = members := by
  have inserted : (s.index.insert key (encodeSet rt members)).get key =
      some (encodeSet rt members) := by
    rw [ShardedIndex.get_insert]
    exact Function.update_self key _ _
  exact found_of_storedSet (storedSet_encoded inserted readable "SMEMBERS")

theorem found_remove (rt : Runtime) (key : Sds) (s : InPersistentStore) :
    found rt key { s with index := s.index.remove key } = [] := by
  have removed : (s.index.remove key).get key = none := by
    rw [ShardedIndex.get_remove]
    exact Function.update_self key _ _
  have read : storedSet rt "SMEMBERS" { s with index := s.index.remove key } key = .ok none := by
    rw [storedSet, removed]
  exact found_of_storedSet read

/-- A store, what the one client has yet to log, what the other client has yet to do, and the
members that were counted and not taken out since. -/
structure Clients where
  store : InPersistentStore
  adding : Option Bytes
  taking : Option TakeRest
  owed : List Sds

namespace Clients

def start (s : InPersistentStore) : Clients := ⟨s, none, none, []⟩

/-- A client has one call at a time. -/
def step (rt : Runtime) (key : Sds) (c : Clients) : SetEvent → Option Clients
  | .sadd added =>
      if c.adding.isSome then none
      else
        let (store, counted, adding) := saddFirst rt key added c.store
        some { c with store := store, adding := adding, owed := c.owed ++ counted }
  | .saddNext =>
      match c.adding with
      | none => none
      | some buf => some { c with store := saddNext key buf c.store, adding := none }
  | .take removal =>
      if c.taking.isSome then none
      else
        let (store, gone, taking) := takeFirst rt key removal c.store
        some { c with store := store, taking := taking, owed := debited c.owed gone }
  | .takeNext =>
      match c.taking with
      | none => none
      | some rest =>
          let (store, taking) := takeNext key c.store rest
          some { c with store := store, taking := taking }

def run (rt : Runtime) (key : Sds) (c : Clients) (events : List SetEvent) : Option Clients :=
  Runs.run (step rt key) c events

/-- Both clients have their answers. -/
def Returned (c : Clients) : Prop := c.adding = none ∧ c.taking = none

/-- No member is added to a set that was found empty and is about to be removed, and every set
that is written can be read again. -/
def InTurn (rt : Runtime) (key : Sds) (c : Clients) : SetEvent → Prop
  | .sadd added => ∀ stored, storedSet rt "SADD" c.store key = .ok stored →
      Readable rt (addMembers (stored.getD []) added).1 ∧
      (c.taking = some .removeKey → ∀ m ∈ added, m ∈ stored.getD [])
  | .take removal => ∀ members, storedSet rt removal.command c.store key = .ok (some members) →
      (removal.split members).2 ≠ [] → Readable rt (removal.split members).2
  | _ => True

def Orderly (rt : Runtime) (key : Sds) (c : Clients) (events : List SetEvent) : Prop :=
  Runs.Along (step rt key) (InTurn rt key) c events

def view (rt : Runtime) (key : Sds) (c : Clients) : EmptiedSet.State Sds :=
  ⟨found rt key c.store, c.taking = some .removeKey, c.owed⟩

theorem paid_sadd {rt : Runtime} {key : Sds} {c c' : Clients} {added : List Sds}
    (paid : EmptiedSet.Paid (view rt key c)) (turn : c.InTurn rt key (.sadd added))
    (next : c.step rt key (.sadd added) = some c') : EmptiedSet.Paid (view rt key c') := by
  rw [step] at next
  split at next
  · cases next
  cases read : storedSet rt "SADD" c.store key with
  | error e =>
      rw [saddFirst, read] at next
      obtain rfl := Option.some.inj next
      rw [view, List.append_nil]
      exact paid
  | ok stored =>
      obtain ⟨readable, early⟩ := turn stored read
      have before : found rt key c.store = stored.getD [] := found_of_storedSet read
      rw [saddFirst, read] at next
      obtain rfl := Option.some.inj next
      have stepped := EmptiedSet.Step.add (view rt key c)
        (added.filter fun m => m ∉ stored.getD []) (addMembers (stored.getD []) added).1
        (fun m old => mem_addMembers (Or.inl (before ▸ old)))
        (fun m new => mem_addMembers (Or.inr (List.mem_of_mem_filter new)))
        (fun doomed => List.filter_eq_nil_iff.mpr fun m listed => by
          simpa using early (of_decide_eq_true doomed) m listed)
      have paid' := stepped.paid paid
      rwa [← found_insert c.store readable] at paid'

theorem paid_take {rt : Runtime} {key : Sds} {c c' : Clients} {removal : Removal}
    (paid : EmptiedSet.Paid (view rt key c)) (turn : c.InTurn rt key (.take removal))
    (next : c.step rt key (.take removal) = some c') : EmptiedSet.Paid (view rt key c') := by
  rw [step] at next
  split at next
  · cases next
  rename_i free
  have idle : c.taking = none := by simpa using free
  have unset : (view rt key c).doomed = false := by simp [view, idle]
  have rest := mem_debited c.owed
  rcases takeFirst_cases rt key removal c.store with ⟨members, read, first⟩ | first
  · have before : found rt key c.store = members := found_of_storedSet read
    rcases first with ⟨emptied, first⟩ | ⟨some', first⟩
    · rw [first] at next
      obtain rfl := Option.some.inj next
      refine (EmptiedSet.Step.doom (view rt key c) _ _ _ ?_ (rest _)).paid paid
      exact fun m old => Removal.mem_gone (before ▸ old) emptied
    · rw [first] at next
      obtain rfl := Option.some.inj next
      have kept : ∀ m ∈ (view rt key c).members, m ∉ (removal.split members).1 →
          m ∈ (removal.split members).2 := fun m old stays =>
        Removal.mem_split (before ▸ old) stays
      have paid' := (EmptiedSet.Step.remove (view rt key c) _ _ _ kept (rest _)).paid paid
      rw [← found_insert c.store (turn members read some'), unset] at paid'
      exact paid'
  · rw [first] at next
    obtain rfl := Option.some.inj next
    rw [view, debited_nil]
    exact idle ▸ paid

theorem paid_takeNext {rt : Runtime} {key : Sds} {c c' : Clients}
    (paid : EmptiedSet.Paid (view rt key c)) (next : c.step rt key .takeNext = some c') :
    EmptiedSet.Paid (view rt key c') := by
  rw [step] at next
  split at next
  · cases next
  rename_i rest taking
  cases rest with
  | removeKey =>
      obtain rfl := Option.some.inj next
      have doomed : (view rt key c).doomed = true := by simp [view, taking]
      rw [view, found_remove]
      exact (EmptiedSet.Step.drop (view rt key c) doomed).paid paid
  | logDel =>
      obtain rfl := Option.some.inj next
      rw [view, taking] at paid
      exact paid
  | logSet buf =>
      obtain rfl := Option.some.inj next
      rw [view, taking] at paid
      exact paid

theorem paid_step {rt : Runtime} {key : Sds} (c : Clients) (e : SetEvent) (c' : Clients)
    (paid : EmptiedSet.Paid (view rt key c)) (turn : c.InTurn rt key e)
    (next : c.step rt key e = some c') : EmptiedSet.Paid (view rt key c') := by
  cases e with
  | sadd added => exact paid_sadd paid turn next
  | saddNext =>
      rw [step] at next
      split at next
      · cases next
      · obtain rfl := Option.some.inj next
        exact paid
  | take removal => exact paid_take paid turn next
  | takeNext => exact paid_takeNext paid next

theorem sismember_of_orderly {rt : Runtime} {key : Sds} {s : InPersistentStore}
    {events : List SetEvent} {c : Clients} (orderly : Orderly rt key (start s) events)
    (ran : run rt key (start s) events = some c) (returned : c.Returned) {m : Sds}
    (owed : m ∈ c.owed) : sismember rt key m c.store = .ok true := by
  have fresh : EmptiedSet.Paid (view rt key (start s)) :=
    ⟨fun _ m owed => absurd owed List.not_mem_nil, fun _ => rfl⟩
  have paid := Runs.kept_run paid_step fresh orderly ran
  have unset : (view rt key c).doomed = false := by simp [view, returned.2]
  have present : m ∈ found rt key c.store := paid.present unset m owed
  rw [found, smembers] at present
  cases read : storedSet rt "SMEMBERS" c.store key with
  | error e =>
      rw [read] at present
      exact absurd present List.not_mem_nil
  | ok stored =>
      rw [read] at present
      rw [sismember, storedSet_command read "SISMEMBER"]
      exact congrArg Except.ok (decide_eq_true present)

theorem inTurn_sadd {rt : Runtime} {key : Sds} {c : Clients} {added : List Sds}
    {stored : Option (List Sds)} (read : storedSet rt "SADD" c.store key = .ok stored)
    (readable : Readable rt (addMembers (stored.getD []) added).1)
    (early : c.taking = some .removeKey → ∀ m ∈ added, m ∈ stored.getD []) :
    c.InTurn rt key (.sadd added) := by
  intro stored' read'
  obtain rfl := Except.ok.inj (read.symm.trans read')
  exact ⟨readable, early⟩

end Clients

end InPersistentStore

/-- In either store, what was counted and not taken out is in the set once both clients have their
answers, as long as nothing is added to a set that is about to be removed. -/
theorem sismember_of_counted {γ : Type} (key : Sds) :
    (∀ (s : InMemoryStore γ) (events : List SetEvent) (c : InMemoryStore.Clients γ),
      InMemoryStore.Clients.Orderly key (.start s) events →
      InMemoryStore.Clients.run key (.start s) events = some c → c.Returned →
        ∀ m ∈ c.owed, InMemoryStore.sismember key m c.store = .ok true) ∧
    ∀ (rt : Runtime) (s : InPersistentStore) (events : List SetEvent)
      (c : InPersistentStore.Clients),
      InPersistentStore.Clients.Orderly rt key (.start s) events →
      InPersistentStore.Clients.run rt key (.start s) events = some c → c.Returned →
        ∀ m ∈ c.owed, InPersistentStore.sismember rt key m c.store = .ok true := by
  constructor
  · intro s events c orderly ran returned m owed
    exact InMemoryStore.Clients.sismember_of_orderly orderly ran returned owed
  · intro rt s events c orderly ran returned m owed
    exact InPersistentStore.Clients.sismember_of_orderly orderly ran returned owed

/-- The second member comes after the key of the first one was removed. -/
def addedAfter : List SetEvent :=
  [.sadd [[97]], .saddNext, .take (.srem [[97]]), .takeNext, .sadd [[98]], .saddNext]

theorem sismember_addedAfter :
    (∃ c, InMemoryStore.Clients.run [107] (.start (InMemoryStore.new () fun _ => 0)) addedAfter =
        some c ∧ c.owed = [[98]] ∧ InMemoryStore.sismember [107] [98] c.store = .ok true) ∧
    ∃ c, InPersistentStore.Clients.run InPersistentStore.storingRuntime [107]
        (.start InPersistentStore.emptyStore) (addedAfter ++ [.takeNext]) = some c ∧
      c.owed = [[98]] ∧ InPersistentStore.sismember InPersistentStore.storingRuntime [107] [98]
        c.store = .ok true := by
  have memory : InMemoryStore.Clients.Orderly [107] (.start (InMemoryStore.new () fun _ => 0))
      addedAfter := by
    refine .cons (fun set => by cases set) rfl (.cons trivial rfl (.cons trivial rfl
      (.cons trivial rfl (.cons (fun set => by cases set) rfl (.cons trivial rfl trivial)))))
  have readable : ∀ m : Sds, m = [97] ∨ m = [98] →
      InPersistentStore.Readable InPersistentStore.storingRuntime [m] := by
    rintro m (rfl | rfl)
    · exact InPersistentStore.readable_of_sound storing_lossless ⟨by decide, by decide, by decide⟩
        (by decide) (by decide)
    · exact InPersistentStore.readable_of_sound storing_lossless ⟨by decide, by decide, by decide⟩
        (by decide) (by decide)
  have persistent : InPersistentStore.Clients.Orderly InPersistentStore.storingRuntime [107]
      (.start InPersistentStore.emptyStore) (addedAfter ++ [.takeNext]) := by
    refine .cons (InPersistentStore.Clients.inTurn_sadd rfl (readable [97] (Or.inl rfl))
      fun waits => by cases waits) rfl (.cons trivial rfl (.cons ?_ rfl (.cons trivial rfl
        (.cons (InPersistentStore.Clients.inTurn_sadd rfl (readable [98] (Or.inr rfl))
          fun waits => by cases waits) rfl (.cons trivial rfl (.cons trivial rfl trivial))))))
    have stored : InPersistentStore.storedSet InPersistentStore.storingRuntime "SREM"
        (InPersistentStore.set InPersistentStore.storingRuntime [107] (.set [[97]])
          InPersistentStore.emptyStore).2 [107] = .ok (some [[97]]) := rfl
    intro members read some'
    obtain rfl := Option.some.inj (Except.ok.inj (stored.symm.trans read))
    exact absurd rfl some'
  refine ⟨⟨_, rfl, rfl, ?_⟩, _, rfl, rfl, ?_⟩
  · exact (sismember_of_counted [107]).1 _ _ _ memory rfl ⟨rfl, rfl⟩ _ (by decide)
  · exact (@sismember_of_counted Unit [107]).2 _ _ _ _ persistent rfl ⟨rfl, rfl⟩ _ (by decide)

/-- The second member comes between the sections of the removal of the first one. -/
def addedBetween : List SetEvent :=
  [.sadd [[97]], .saddNext, .take (.srem [[97]]), .sadd [[98]], .takeNext]

theorem sismember_addedBetween :
    (∃ c, InMemoryStore.Clients.run [107] (.start (InMemoryStore.new () fun _ => 0)) addedBetween =
        some c ∧ c.Returned ∧ c.owed = [[98]] ∧
      InMemoryStore.sismember [107] [98] c.store = .ok false) ∧
    ∃ c, InPersistentStore.Clients.run InPersistentStore.storingRuntime [107]
        (.start InPersistentStore.emptyStore) (addedBetween ++ [.saddNext, .takeNext]) = some c ∧
      c.Returned ∧ c.owed = [[98]] ∧
      InPersistentStore.sismember InPersistentStore.storingRuntime [107] [98] c.store =
        .ok false := by
  refine ⟨⟨_, rfl, ⟨rfl, rfl⟩, rfl, rfl⟩, _, rfl, ⟨rfl, rfl⟩, rfl, rfl⟩

end Zumic.Engine
