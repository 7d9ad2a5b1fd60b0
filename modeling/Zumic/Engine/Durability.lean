/- What a persistent store finds again when it is opened on the log of another one. -/

import Zumic.Engine.Persistent

namespace Zumic.Engine.InPersistentStore

open Database Lib Lib.ByteString Zdb

/-- A call that changes the store, with the random numbers and the table order it meets. -/
inductive Call where
  | set (key : Sds) (value : Value)
  | del (key : Sds)
  | mset (order : IterationOrder (Bytes × Bytes)) (entries : List (Sds × Value))
  | rename (src dst : Sds)
  | renamenx (src dst : Sds)
  | sadd (key : Sds) (members : List Sds)
  | srem (key : Sds) (members : List Sds)
  | spop (rng : Rng) (key : Sds) (count : Int64)
  | geoAdd (key : Sds) (lon lat : F64) (member : Sds)
  | flushdb

/-- The store after a call, whatever the call returned. -/
def step (rt : Runtime) (s : InPersistentStore) : Call → InPersistentStore
  | .set key value => (set rt key value s).2
  | .del key => (del key s).2
  | .mset order entries => (mset rt order entries s).2
  | .rename src dst => (rename src dst s).2
  | .renamenx src dst => (renamenx src dst s).2
  | .sadd key members => (sadd rt key members s).2
  | .srem key members => (srem rt key members s).2
  | .spop rng key count => (spop rt rng key count s).2
  | .geoAdd key lon lat member => (geoAdd rt key lon lat member s).2
  | .flushdb => (flushdb s).2

def run (rt : Runtime) (s : InPersistentStore) (calls : List Call) : InPersistentStore :=
  calls.foldl (step rt) s

/-- A store opened on the log of `s` has the index of `s`. -/
def Durable (config : PersistentStoreConfig) (s : InPersistentStore) : Prop :=
  ∃ s', new config s.aof.file = .ok s' ∧ s'.index.get = s.index.get

/-- Keys and values whose lengths the log can write in 32 bits. -/
def Small (s : InPersistentStore) : Prop :=
  ∀ k v, s.index.get k = some v → k.length < 2 ^ 32 ∧ v.length < 2 ^ 32

/-- An entry that is about keys and values of the index, before or after the call. -/
def Held (s s' : InPersistentStore) : AofEntry → Prop
  | .set k v => s'.index.get k = some v
  | .del k => ∃ v, s.index.get k = some v

/-- A call that logged all it did. -/
structure Logged (s s' : InPersistentStore) (entries : List AofEntry) : Prop where
  index : s'.index.get = Journal.replay entries s.index.get
  file : s'.aof.file = s.aof.file ++ entries.flatMap record
  held : ∀ e ∈ entries, Held s s' e

theorem logged_refl (s : InPersistentStore) : Logged s s [] :=
  ⟨rfl, by simp, fun e member => absurd member List.not_mem_nil⟩

theorem logged_of_eq {s s' : InPersistentStore} (same : s' = s) : ∃ entries, Logged s s' entries := by
  subst same
  exact ⟨[], logged_refl s'⟩

theorem logged_put (s : InPersistentStore) (key value : Bytes) :
    Logged s (s.put key value) [.set key value] where
  index := s.index.get_insert key value
  file := by simp [put, AofLog.appendSet, AofLog.append]
  held e member := by
    rw [List.mem_singleton.mp member, Held, put, s.index.get_insert]
    exact Function.update_self key _ _

theorem logged_drop {s : InPersistentStore} {key value : Bytes}
    (there : s.index.get key = some value) : Logged s (s.drop key) [.del key] where
  index := s.index.get_remove key
  file := by simp [drop, AofLog.appendDel, AofLog.append]
  held e member := by
    rw [List.mem_singleton.mp member]
    exact ⟨value, there⟩

theorem logged_move {s : InPersistentStore} {src dst value : Bytes}
    (there : s.index.get src = some value) :
    Logged s (s.move src dst value) [.del src, .set dst value] where
  index := by
    rw [move, ShardedIndex.get_insert, ShardedIndex.get_remove]
    rfl
  file := by simp [move, AofLog.appendDel, AofLog.appendSet, AofLog.append]
  held e member := by
    rcases List.mem_cons.mp member with rfl | member
    · exact ⟨value, there⟩
    · rw [List.mem_singleton.mp member, Held, move, ShardedIndex.get_insert]
      exact Function.update_self dst _ _

section

variable {rt : Runtime}

/-- The table of an `mset`: one entry for each key. -/
def table (rt : Runtime) (entries : List (Sds × Value)) (m : List (Bytes × Bytes)) :
    List (Bytes × Bytes) :=
  entries.foldl (fun m e => Assoc.insert m e.1 (toBytes rt.zstd e.2)) m

theorem nodup_table {entries : List (Sds × Value)} {m : List (Bytes × Bytes)}
    (distinct : (Assoc.keys m).Nodup) : (Assoc.keys (table rt entries m)).Nodup := by
  induction entries generalizing m with
  | nil => exact distinct
  | cons e entries ih => exact ih (Assoc.nodup_keys_insert distinct e.1 _)

theorem mem_keys_table {entries : List (Sds × Value)} {m : List (Bytes × Bytes)}
    {k : Bytes} : k ∈ Assoc.keys (table rt entries m) ↔
      k ∈ entries.map Prod.fst ∨ k ∈ Assoc.keys m := by
  induction entries generalizing m with
  | nil => simp [table]
  | cons e entries ih =>
      have rest : k ∈ Assoc.keys (table rt (e :: entries) m) ↔
          k ∈ entries.map Prod.fst ∨ k ∈ Assoc.keys (Assoc.insert m e.1 (toBytes rt.zstd e.2)) :=
        ih
      rw [rest, Assoc.mem_keys_insert, List.map_cons, List.mem_cons]
      tauto

theorem get_foldl_insert {lookup : List (Bytes × Bytes)} {entries : List (Sds × Value)}
    (covered : ∀ e ∈ entries, e.1 ∈ Assoc.keys lookup) (index : ShardedIndex Bytes) (k : Bytes) :
    (entries.foldl (fun index e =>
        match Assoc.get lookup e.1 with
        | some value => index.insert e.1 value
        | none => index) index).get k =
      if k ∈ entries.map Prod.fst then Assoc.get lookup k else index.get k := by
  induction entries generalizing index with
  | nil => simp
  | cons e entries ih =>
      have here := covered e List.mem_cons_self
      obtain ⟨value, found⟩ : ∃ value, Assoc.get lookup e.1 = some value := by
        cases found : Assoc.get lookup e.1 with
        | none => exact absurd here (Assoc.get_eq_none_iff.mp found)
        | some value => exact ⟨value, rfl⟩
      rw [List.foldl_cons, found, ih (fun e' member => covered e' (List.mem_cons_of_mem _ member)),
        ShardedIndex.get_insert, List.map_cons]
      by_cases later : k ∈ entries.map Prod.fst
      · simp [later]
      · by_cases same : k = e.1
        · subst same
          simp [later, found]
        · simp [later, same]

theorem file_foldl_appendSet (l : List (Bytes × Bytes)) (aof : AofLog) :
    (l.foldl (fun aof e => aof.appendSet e.1 e.2) aof).file =
      aof.file ++ (l.map fun e => Journal.Entry.set e.1 e.2).flatMap record := by
  induction l generalizing aof with
  | nil => simp
  | cons e l ih =>
      rw [List.foldl_cons, ih]
      simp [AofLog.appendSet, AofLog.append]

theorem get_mset (order : IterationOrder (Bytes × Bytes)) (entries : List (Sds × Value))
    (s : InPersistentStore) : (mset rt order entries s).2.index.get =
      fun k => (Assoc.get (table rt entries []) k).or (s.index.get k) := by
  have covered : ∀ e ∈ entries, e.1 ∈ Assoc.keys (table rt entries []) := fun e member =>
    mem_keys_table.mpr (Or.inl (List.mem_map_of_mem member))
  funext k
  have written := get_foldl_insert covered s.index k
  refine written.trans ?_
  split
  · rename_i member
    have there : Assoc.get (table rt entries []) k ≠ none := fun absent =>
      Assoc.get_eq_none_iff.mp absent (mem_keys_table.mpr (Or.inl member))
    obtain ⟨v, found⟩ := Option.ne_none_iff_exists'.mp there
    rw [found]
    rfl
  · rename_i other
    have absent : Assoc.get (table rt entries []) k = none :=
      Assoc.get_eq_none_iff.mpr fun member =>
        (mem_keys_table.mp member).elim other (fun none' => absurd none' List.not_mem_nil)
    rw [absent]
    rfl

theorem logged_mset (order : IterationOrder (Bytes × Bytes)) (entries : List (Sds × Value))
    (s : InPersistentStore) :
    Logged s (mset rt order entries s).2
      ((order.order (table rt entries [])).map fun e => .set e.1 e.2) := by
  have distinct : (Assoc.keys (table rt entries [])).Nodup := nodup_table List.nodup_nil
  have same := order.perm (table rt entries [])
  have distinct' : (Assoc.keys (order.order (table rt entries []))).Nodup :=
    (same.map Prod.fst).nodup_iff.mpr distinct
  have index := @get_mset rt order entries s
  refine ⟨?_, file_foldl_appendSet _ s.aof, ?_⟩
  · rw [Journal.replay_sets distinct', index]
    funext k
    rw [Assoc.get_of_perm same distinct' k]
  · intro e member
    obtain ⟨p, listed, rfl⟩ := List.mem_map.mp member
    have found : Assoc.get (table rt entries []) p.1 = some p.2 :=
      Assoc.get_of_mem distinct (same.mem_iff.mp listed)
    rw [Held, index]
    show (Assoc.get (table rt entries []) p.1).or (s.index.get p.1) = some p.2
    rw [found]
    rfl

end

section

variable (rt : Runtime)

theorem logged_keep {s : InPersistentStore} {key value : Bytes}
    (there : s.index.get key = some value) (members : List Sds) :
    ∃ entries, Logged s (keep rt s key members) entries := by
  rw [keep]
  split
  · exact ⟨_, logged_drop there⟩
  · exact ⟨_, logged_put s key _⟩

theorem there_of_storedSet {s : InPersistentStore} {command : String} {key : Sds}
    {members : List Sds} (stored : storedSet rt command s key = .ok (some members)) :
    ∃ value, s.index.get key = some value := by
  rw [storedSet] at stored
  cases found : s.index.get key with
  | none =>
      rw [found] at stored
      cases Except.ok.inj stored
  | some value => exact ⟨value, rfl⟩

/-- Every call but a flush of a store that holds something logs all it does. -/
theorem logged_step (s : InPersistentStore) (c : Call)
    (clean : c = .flushdb → ∀ k, s.index.get k = none) :
    ∃ entries, Logged s (step rt s c) entries := by
  cases c with
  | set key value => exact ⟨_, logged_put s key _⟩
  | del key =>
      cases found : s.index.get key with
      | none =>
          have same : step rt s (.del key) = s := by simp [step, del, found]
          exact logged_of_eq same
      | some value =>
          have dropped : step rt s (.del key) = s.drop key := by simp [step, del, found]
          exact ⟨_, dropped ▸ logged_drop found⟩
  | mset order entries => exact ⟨_, logged_mset order entries s⟩
  | rename src dst =>
      cases found : s.index.get src with
      | none =>
          have same : step rt s (.rename src dst) = s := by simp [step, rename, found]
          exact logged_of_eq same
      | some value =>
          have moved : step rt s (.rename src dst) = s.move src dst value := by
            simp [step, rename, found]
          exact ⟨_, moved ▸ logged_move found⟩
  | renamenx src dst =>
      cases found : s.index.get src with
      | none =>
          have same : step rt s (.renamenx src dst) = s := by simp [step, renamenx, found]
          exact logged_of_eq same
      | some value =>
          by_cases taken : (s.index.get dst).isSome
          · have same : step rt s (.renamenx src dst) = s := by
              simp [step, renamenx, found, taken]
            exact logged_of_eq same
          · have moved : step rt s (.renamenx src dst) = s.move src dst value := by
              simp [step, renamenx, found, taken]
            exact ⟨_, moved ▸ logged_move found⟩
  | sadd key members =>
      rw [step, sadd]
      split
      · exact ⟨_, logged_put s key _⟩
      · exact ⟨[], logged_refl s⟩
  | srem key members =>
      rw [step, srem]
      split
      · exact ⟨[], logged_refl s⟩
      · rename_i stored
        obtain ⟨value, there⟩ := there_of_storedSet rt stored
        exact logged_keep rt there _
      · exact ⟨[], logged_refl s⟩
  | spop rng key count =>
      rw [step, spop]
      split
      · exact ⟨[], logged_refl s⟩
      · rename_i stored
        obtain ⟨value, there⟩ := there_of_storedSet rt stored
        exact logged_keep rt there _
      · exact ⟨[], logged_refl s⟩
  | geoAdd key lon lat member =>
      rw [step, geoAdd]
      simp only []
      split
      · exact ⟨_, logged_put s key _⟩
      · exact ⟨[], logged_refl s⟩
  | flushdb =>
      have empty : s.index.get = fun _ => none := funext (clean rfl)
      refine ⟨[], ⟨?_, by simp [step, flushdb], fun e member => absurd member List.not_mem_nil⟩⟩
      rw [step, flushdb, ShardedIndex.get_clear, empty]
      rfl

end

/-- A log that holds the history of the index. -/
structure Tracked (s : InPersistentStore) (entries : List AofEntry) : Prop where
  index : s.index.get = Journal.replay entries fun _ => none
  file : s.aof.file = magic ++ entries.flatMap record
  small : ∀ e ∈ entries, Loggable e

theorem loggable_of_held {s s' : InPersistentStore} {e : AofEntry} (before : Small s)
    (after : Small s') (held : Held s s' e) : Loggable e := by
  cases e with
  | set k v => exact after k v held
  | del k =>
      obtain ⟨v, there⟩ := held
      exact (before k v there).1

theorem Tracked.logged {s s' : InPersistentStore} {entries added : List AofEntry}
    (tracked : Tracked s entries) (before : Small s) (after : Small s')
    (logged : Logged s s' added) : Tracked s' (entries ++ added) where
  index := by rw [Journal.replay_append, ← tracked.index, logged.index]
  file := by rw [logged.file, tracked.file, List.flatMap_append, List.append_assoc]
  small e member := by
    rcases List.mem_append.mp member with old | new
    · exact tracked.small e old
    · exact loggable_of_held before after (logged.held e new)

theorem new_records (config : PersistentStoreConfig) {entries : List AofEntry}
    (small : ∀ e ∈ entries, Loggable e) :
    ∃ s, new config (magic ++ entries.flatMap record) = .ok s ∧ Tracked s entries := by
  let file := magic ++ entries.flatMap record
  let empty : ShardedIndex Bytes :=
    ShardedIndex.new config.numShards config.positive config.hasher
  have header : file.take 4 = magic := List.take_left' rfl
  have opened : AofLog.openLog file config.corruptionPolicy =
      .ok ⟨file, config.corruptionPolicy⟩ := by
    simp only [AofLog.openLog, header]
    rfl
  have replayed := AofLog.replay_records replayEntry config.corruptionPolicy small empty
  refine ⟨⟨entries.foldl replayEntry empty, ⟨file, config.corruptionPolicy⟩⟩, ?_, ?_, rfl, small⟩
  · show (AofLog.openLog file config.corruptionPolicy >>= _) = _
    rw [opened]
    show (AofLog.replay ⟨file, config.corruptionPolicy⟩ replayEntry empty >>= _) = _
    rw [replayed]
    rfl
  · rw [get_foldl_replayEntry, ShardedIndex.get_new]

theorem tracked_new {config : PersistentStoreConfig} {s : InPersistentStore}
    (started : new config [] = .ok s) : Tracked s [] := by
  have none' : ∀ e ∈ ([] : List AofEntry), Loggable e := fun e member =>
    absurd member List.not_mem_nil
  obtain ⟨s', fresh, tracked⟩ := new_records config none'
  have same : new config [] = new config (magic ++ ([] : List AofEntry).flatMap record) := rfl
  obtain rfl : s = s' := Except.ok.inj (started.symm.trans (same.trans fresh))
  exact tracked

theorem Tracked.durable {s : InPersistentStore} {entries : List AofEntry}
    (tracked : Tracked s entries) (config : PersistentStoreConfig) : Durable config s := by
  obtain ⟨s', opened, again⟩ := new_records config tracked.small
  exact ⟨s', tracked.file ▸ opened, again.index.trans tracked.index.symm⟩

section

variable {rt : Runtime}

theorem run_take_succ (rt : Runtime) (s : InPersistentStore) {calls : List Call} {n : Nat} {c : Call}
    (here : calls[n]? = some c) :
    run rt s (calls.take (n + 1)) = step rt (run rt s (calls.take n)) c := by
  rw [List.take_add_one, here, run, List.foldl_append]
  rfl

/-- Every state of a run whose flushes find nothing has its history in the log. -/
theorem tracked_run {s : InPersistentStore} (fresh : Tracked s []) {calls : List Call}
    (small : ∀ n, Small (run rt s (calls.take n)))
    (clean : ∀ n, calls[n]? = some .flushdb → ∀ k, (run rt s (calls.take n)).index.get k = none)
    (n : Nat) : ∃ entries, Tracked (run rt s (calls.take n)) entries := by
  induction n with
  | zero => exact ⟨[], fresh⟩
  | succ n ih =>
      obtain ⟨entries, tracked⟩ := ih
      cases here : calls[n]? with
      | none =>
          have ended : calls.take (n + 1) = calls.take n := by
            rw [List.take_add_one, here]
            simp
          exact ⟨entries, ended ▸ tracked⟩
      | some c =>
          have next := run_take_succ rt s here
          obtain ⟨added, logged⟩ := logged_step rt (run rt s (calls.take n)) c
            fun flush => clean n (by rw [here, flush])
          rw [next]
          exact ⟨entries ++ added, tracked.logged (small n) (next ▸ small (n + 1)) logged⟩

/-- The index survives a restart after every call exactly when every flush finds it empty. -/
theorem durable_run_iff {config reopened : PersistentStoreConfig} {s : InPersistentStore}
    (started : new config [] = .ok s) {calls : List Call}
    (small : ∀ n, Small (run rt s (calls.take n))) :
    (∀ n, Durable reopened (run rt s (calls.take n))) ↔
      ∀ n, calls[n]? = some .flushdb → ∀ k, (run rt s (calls.take n)).index.get k = none := by
  have fresh := tracked_new started
  constructor
  · intro durable n here k
    have next := run_take_succ rt s here
    obtain ⟨s', opened, same⟩ := durable n
    obtain ⟨s'', opened', same'⟩ := durable (n + 1)
    rw [next] at opened' same'
    have file : (step rt (run rt s (calls.take n)) .flushdb).aof.file =
        (run rt s (calls.take n)).aof.file := rfl
    rw [file, opened] at opened'
    obtain rfl : s' = s'' := Except.ok.inj opened'
    have cleared : (step rt (run rt s (calls.take n)) .flushdb).index.get = fun _ => none :=
      ShardedIndex.get_clear _
    rw [← same, same', cleared]
  · intro clean n
    obtain ⟨entries, tracked⟩ := tracked_run fresh small clean n
    exact tracked.durable reopened

theorem small_of_get {s : InPersistentStore} {k v : Bytes}
    (index : s.index.get = Function.update (fun _ => none) k (some v))
    (key : k.length < 2 ^ 32) (value : v.length < 2 ^ 32) : Small s := by
  intro k' v' there
  rw [index, Function.update_apply] at there
  split at there
  · rename_i same
    cases there
    exact ⟨same ▸ key, value⟩
  · cases there

/-- A store in which one key was set and then renamed. -/
theorem durable_run_rename :
    ∃ s, new oneShard [] = .ok s ∧ ∀ n, Durable oneShard
      (run storingRuntime s ([Call.set [107] .null, .rename [107] [108]].take n)) := by
  have started : new oneShard [] = .ok emptyStore := rfl
  have empty : emptyStore.index.get = fun _ => none :=
    ShardedIndex.get_new 1 Nat.one_pos _
  have first : (emptyStore.put [107] [4]).index.get =
      Function.update (fun _ => none) [107] (some [4]) := by
    rw [put, ShardedIndex.get_insert, empty]
  have second : ((emptyStore.put [107] [4]).move [107] [108] [4]).index.get =
      Function.update (fun _ => none) [108] (some [4]) := by
    rw [move, ShardedIndex.get_insert, ShardedIndex.get_remove, first, Function.update_idem,
      Function.update_eq_self_iff.mpr rfl]
  refine ⟨emptyStore, started, (durable_run_iff started ?_).mpr ?_⟩
  · intro n
    rcases n with _ | _ | n
    · intro k v there
      have none' : emptyStore.index.get k = some v := there
      rw [empty] at none'
      cases none'
    · exact small_of_get first (by decide) (by decide)
    · have ended : [Call.set [107] .null, .rename [107] [108]].take (n + 2) =
          [.set [107] .null, .rename [107] [108]] := List.take_of_length_le (by simp)
      rw [ended]
      exact small_of_get second (by decide) (by decide)
  · intro n here
    rcases n with _ | _ | n
    · cases here
    · cases here
    · cases here

/-- A flush is forgotten: the key is back after a restart. -/
theorem durable_run_flushdb :
    ∃ s, new oneShard [] = .ok s ∧
      (run storingRuntime s [.set [107] .null, .flushdb]).index.get [107] = none ∧
      (new oneShard (run storingRuntime s [.set [107] .null, .flushdb]).aof.file).map
        (fun s' => s'.index.get [107]) = .ok (some [4]) ∧
      ¬Durable oneShard (run storingRuntime s [.set [107] .null, .flushdb]) := by
  have cleared : (run storingRuntime emptyStore [.set [107] .null, .flushdb]).index.get [107] =
      none := rfl
  have back : (new oneShard (run storingRuntime emptyStore [.set [107] .null, .flushdb]).aof.file).map
      (fun s' => s'.index.get [107]) = .ok (some [4]) := by decide
  refine ⟨emptyStore, rfl, cleared, back, ?_⟩
  rintro ⟨s', opened, same⟩
  rw [opened] at back
  have found : s'.index.get [107] = some [4] := Except.ok.inj back
  rw [same, cleared] at found
  cases found

end

end Zumic.Engine.InPersistentStore
