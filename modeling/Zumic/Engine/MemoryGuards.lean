/- When a call of the in-memory store waits for a guard that it holds itself. -/

import Zumic.Engine.MemoryCalls

namespace Zumic.Engine

open Auth Database Lib Lib.ByteString Lib.Guards Lib.Utf8

/-- The tables with another store. -/
def MemoryTables.onStore (t : MemoryTables) (store : InMemoryStore GeoTable) : MemoryTables :=
  { t with store := store }

section

variable {sharding : MemorySharding} {t : MemoryTables}

theorem free_data : sharding.dataMap.Free [] := ShardedMap.free_nil

theorem insertAll_run (entries : List (Sds × Value)) (t : MemoryTables) :
    insertAll sharding entries [] t =
      .done () (t.onStore (InMemoryStore.mset entries t.store).2) := by
  induction entries generalizing t with
  | nil => rfl
  | cons e rest ih =>
      unfold insertAll
      rw [bind_done (ShardedMap.insert_run free_data e.1 e.2 t)]
      exact ih _

theorem viewAll_run (keys : List Sds) (t : MemoryTables) :
    viewAll sharding keys [] t = .done (keys.map (Assoc.get t.store.data)) t := by
  induction keys with
  | nil => rfl
  | cons key rest ih =>
      unfold viewAll
      rw [bind_done (ShardedMap.view_run free_data key id t), bind_done ih, Option.map_id]
      rfl

theorem putRenamed_some {α : Type} (dst : Sds) (done : α) (value : Value) (t : MemoryTables) :
    putRenamed sharding dst done (some value) [] t = .done (.ok done)
      (t.onStore { t.store with data := Assoc.insert t.store.data dst value }) :=
  bind_done (ShardedMap.insert_run free_data dst value t)

theorem onStore_erase {src : Sds} (absent : Assoc.get t.store.data src = none) :
    t.onStore { t.store with data := Assoc.erase t.store.data src } = t := by
  rw [Assoc.erase_of_not_mem (Assoc.get_eq_none_iff.mp absent)]
  rfl

theorem rename_run (src dst : Sds) (t : MemoryTables) :
    rename sharding src dst [] t = .done (InMemoryStore.rename src dst t.store).1
      (t.onStore (InMemoryStore.rename src dst t.store).2) := by
  have removed : sharding.dataMap.remove src [] t = .done (Assoc.get t.store.data src)
      (t.onStore { t.store with data := Assoc.erase t.store.data src }) :=
    ShardedMap.remove_run free_data src t
  unfold rename InMemoryStore.rename
  rw [bind_done removed]
  cases known : Assoc.get t.store.data src with
  | some value => exact putRenamed_some dst () value _
  | none =>
      rw [onStore_erase known]
      rfl

theorem renamenx_run (src dst : Sds) (t : MemoryTables) :
    renamenx sharding src dst [] t = .done (InMemoryStore.renamenx src dst t.store).1
      (t.onStore (InMemoryStore.renamenx src dst t.store).2) := by
  have looked : sharding.dataMap.view dst id [] t = .done (Assoc.get t.store.data dst) t := by
    rw [ShardedMap.view_run free_data dst id t, Option.map_id]
    rfl
  have removed : sharding.dataMap.remove src [] t = .done (Assoc.get t.store.data src)
      (t.onStore { t.store with data := Assoc.erase t.store.data src }) :=
    ShardedMap.remove_run free_data src t
  unfold renamenx InMemoryStore.renamenx
  rw [bind_done looked]
  by_cases taken : (Assoc.get t.store.data dst).isSome = true
  · rw [if_pos taken, if_pos taken]
    rfl
  · rw [if_neg taken, if_neg taken, bind_done removed]
    cases known : Assoc.get t.store.data src with
    | some value => exact putRenamed_some dst true value _
    | none =>
        rw [onStore_erase known]
        rfl

theorem members_eq (command : String) (s : InMemoryStore GeoTable) (key : Sds) :
    s.members command key = ((Assoc.get s.data key).map (asSet command)).getD (.ok []) := by
  unfold InMemoryStore.members asSet
  cases Assoc.get s.data key with
  | none => rfl
  | some value => cases value <;> rfl

theorem readSet_run {α : Type} (command : String) (key : Sds) (absent : α) (f : List Sds → α)
    (empty : f [] = absent) (t : MemoryTables) :
    readSet sharding command key absent f [] t =
      .done ((t.store.members command key).map f) t := by
  unfold readSet
  rw [bind_done (ShardedMap.view_run free_data key _ t), members_eq]
  unfold ShardedMap.look
  change Run.done (((Assoc.get t.store.data key).map fun value =>
    (asSet command value).map f).getD (Except.ok absent)) t = _
  rw [← empty]
  cases Assoc.get t.store.data key with
  | none => rfl
  | some value => rfl

theorem updateSet_some {α : Type} {command : String} {key : Sds} {value : Value}
    (change : List Sds → α × List Sds) (known : Assoc.get t.store.data key = some value) :
    sharding.dataMap.update key (onSet command change) [] t =
      .done (some (onSet command change value).1)
        (t.onStore { t.store with
          data := Assoc.insert t.store.data key (onSet command change value).2 }) :=
  ShardedMap.update_some free_data _ known

theorem updateSet_none {α : Type} {command : String} {key : Sds}
    (change : List Sds → α × List Sds) (absent : Assoc.get t.store.data key = none) :
    sharding.dataMap.update key (onSet command change) [] t = .done none t :=
  ShardedMap.update_none free_data _ absent

theorem members_none (command : String) {key : Sds} (absent : Assoc.get t.store.data key = none) :
    t.store.members command key = .ok [] := by
  rw [members_eq, absent]
  rfl

theorem members_some (command : String) {key : Sds} {value : Value}
    (known : Assoc.get t.store.data key = some value) :
    t.store.members command key = asSet command value := by
  rw [members_eq, known]
  rfl

theorem onSet_ok {α : Type} {command : String} {value : Value} {members : List Sds}
    (change : List Sds → α × List Sds) (set : asSet command value = .ok members) :
    onSet command change value = (.ok (change members).1, .set (change members).2) := by
  unfold onSet
  rw [set]

theorem onSet_error {α : Type} {command : String} {value : Value} {e : StoreError}
    (change : List Sds → α × List Sds) (other : asSet command value = .error e) :
    onSet command change value = (.error e, value) := by
  unfold onSet
  rw [other]

theorem onStore_same {key : Sds} {value : Value} (known : Assoc.get t.store.data key = some value) :
    t.onStore { t.store with data := Assoc.insert t.store.data key value } = t := by
  rw [Assoc.insert_of_get known]
  rfl

theorem sadd_run (key : Sds) (added : List Sds) (t : MemoryTables) :
    sadd sharding key added [] t = .done (InMemoryStore.sadd key added t.store).1
      (t.onStore (InMemoryStore.sadd key added t.store).2) := by
  unfold sadd InMemoryStore.sadd
  cases known : Assoc.get t.store.data key with
  | none =>
      rw [bind_done (updateSet_none _ known), members_none "SADD" known]
      exact bind_done (ShardedMap.insert_run free_data key _ t)
  | some value =>
      rw [bind_done (updateSet_some _ known), members_some "SADD" known]
      cases typed : asSet "SADD" value with
      | ok members =>
          rw [onSet_ok _ typed]
          rfl
      | error e =>
          rw [onSet_error _ typed, onStore_same known]
          rfl

theorem removeEmptied_run {α : Type} (key : Sds) (absent result : α) (members : List Sds)
    (t : MemoryTables) :
    removeEmptied sharding key absent (some (.ok (result, decide (members = [])))) []
        (t.onStore { t.store with data := Assoc.insert t.store.data key (.set members) }) =
      .done (.ok result) (t.onStore (t.store.keep key members)) := by
  show dropEmptied sharding key (decide (members = [])) result [] _ = _
  unfold dropEmptied InMemoryStore.keep
  by_cases emptied : members = []
  · rw [if_pos (decide_eq_true emptied), if_pos emptied,
      bind_done (ShardedMap.remove_run free_data key _)]
    change Run.done (Except.ok result) (t.onStore { t.store with
      data := Assoc.erase (Assoc.insert t.store.data key (.set members)) key }) = _
    rw [Assoc.erase_insert]
  · rw [if_neg (by simpa using emptied), if_neg emptied]
    rfl

theorem keep_absent {key : Sds} (absent : Assoc.get t.store.data key = none) :
    t.onStore (t.store.keep key []) = t := by
  unfold InMemoryStore.keep
  rw [if_pos rfl]
  exact onStore_erase absent

theorem srem_run (key : Sds) (removed : List Sds) (t : MemoryTables) :
    srem sharding key removed [] t = .done (InMemoryStore.srem key removed t.store).1
      (t.onStore (InMemoryStore.srem key removed t.store).2) := by
  unfold srem InMemoryStore.srem
  cases known : Assoc.get t.store.data key with
  | none =>
      rw [bind_done (updateSet_none _ known), members_none "SREM" known]
      dsimp only
      rw [removeMembers_nil, keep_absent known]
      rfl
  | some value =>
      rw [bind_done (updateSet_some _ known), members_some "SREM" known]
      cases typed : asSet "SREM" value with
      | ok members =>
          rw [onSet_ok _ typed]
          exact removeEmptied_run key 0 _ _ t
      | error e =>
          rw [onSet_error _ typed, onStore_same known]
          rfl

theorem plain_run (call : StorageCall) (t : MemoryTables) :
    plainCall sharding call [] t = .done (InMemoryStore.call call t.store).1
      (t.onStore (InMemoryStore.call call t.store).2) := by
  cases call with
  | set key value => exact bind_done (ShardedMap.insert_run free_data key value t)
  | get key =>
      refine (bind_done (ShardedMap.view_run free_data key id t)).trans ?_
      rw [Option.map_id]
      rfl
  | del key => exact bind_done (ShardedMap.remove_run free_data key t)
  | mset order entries => exact bind_done (insertAll_run entries t)
  | mget keys => exact bind_done (viewAll_run keys t)
  | rename src dst => exact bind_done (rename_run src dst t)
  | renamenx src dst => exact bind_done (renamenx_run src dst t)
  | flushdb => exact bind_done (ShardedMap.clear_run free_data t)
  | sadd key members => exact bind_done (sadd_run key members t)
  | srem key members => exact bind_done (srem_run key members t)
  | scard key => exact bind_done (readSet_run "SCARD" key 0 List.length rfl t)
  | smembers key =>
      refine (bind_done (readSet_run "SMEMBERS" key [] id rfl t)).trans ?_
      rw [Except.map_id]
      rfl
  | sismember key member =>
      exact bind_done (readSet_run "SISMEMBER" key false _ (by simp) t)
  | dbsize => exact bind_done (ShardedMap.len_run free_data t)

theorem randomMembers_nil (count : Int64) (rng : Rng) : randomMembers [] count rng = ([], rng) := by
  unfold randomMembers
  split
  · rfl
  · split
    · unfold chooseMultiple
      rw [List.take_nil, List.drop_nil]
      rfl
    · rfl

theorem popMembers_nil (count : Nat) (rng : Rng) : popMembers count [] rng = ([], [], rng) := by
  cases count with
  | zero => rfl
  | succ count => rfl

theorem srandmember_run (key : Sds) (count : Int64) (t : MemoryTables) :
    srandmember sharding key count [] t = .done (InMemoryStore.srandmember key count t.store).1
      (t.onStore (InMemoryStore.srandmember key count t.store).2) := by
  have drawn := @readSet_run sharding _ "SRANDMEMBER" key ([], t.store.rng)
    (fun members => randomMembers members count t.store.rng) (randomMembers_nil count _) t
  have seen : (read fun t : MemoryTables => t.store.rng) ([] : List (Guard (ShardLock MemoryTable)))
      t = .done t.store.rng t := rfl
  unfold srandmember InMemoryStore.srandmember
  rw [bind_done seen, bind_done drawn]
  cases t.store.members "SRANDMEMBER" key with
  | ok members => rfl
  | error e => rfl

theorem keep_rng (s : InMemoryStore GeoTable) (rng : Rng) (key : Sds) (members : List Sds) :
    InMemoryStore.keep { s with rng := rng } key members =
      { s.keep key members with rng := rng } := by
  unfold InMemoryStore.keep
  split
  · rfl
  · rfl

theorem spop_run (key : Sds) (count : Int64) (t : MemoryTables) :
    spop sharding key count [] t = .done (InMemoryStore.spop key count t.store).1
      (t.onStore (InMemoryStore.spop key count t.store).2) := by
  have seen : (read fun t : MemoryTables => t.store.rng) ([] : List (Guard (ShardLock MemoryTable)))
      t = .done t.store.rng t := rfl
  unfold spop InMemoryStore.spop
  rw [bind_done seen]
  cases known : Assoc.get t.store.data key with
  | none =>
      rw [bind_done (updateSet_none _ known), members_none "SPOP" known]
      dsimp only
      rw [popMembers_nil]
      change Run.done _ t = Run.done _ (t.onStore (t.store.keep key []))
      rw [keep_absent known]
  | some value =>
      rw [bind_done (updateSet_some _ known), members_some "SPOP" known]
      cases typed : asSet "SPOP" value with
      | ok members =>
          rw [onSet_ok _ typed]
          have removed := @removeEmptied_run sharding _ key ([], t.store.rng)
            ((popMembers (popCount count) members t.store.rng).1,
              (popMembers (popCount count) members t.store.rng).2.2)
            (popMembers (popCount count) members t.store.rng).2.1 t
          dsimp only
          rw [bind_done removed]
          exact congrArg (fun s => Run.done (Except.ok _) (t.onStore s)) (keep_rng t.store _ key _).symm
      | error e =>
          rw [onSet_error _ typed, onStore_same known]
          rfl

end

section

variable {sharding : MemorySharding} {sphere : Geo.Sphere} {utf8Text : Bytes → Str}
  {t : MemoryTables}

/-- A call returns when no guard is held around it. -/
def Returns {α : Type} (m : MemoryRun α) (t : MemoryTables) : Prop := ∃ a t', m [] t = .done a t'

theorem returns_done {α : Type} {m : MemoryRun α} {a : α} {t' : MemoryTables}
    (ran : m [] t = .done a t') : Returns m t := ⟨a, t', ran⟩

theorem Returns.map {α β : Type} {m : MemoryRun α} (returns : Returns m t) (f : α → β) :
    Returns (do let a ← m; pure (f a)) t := by
  obtain ⟨a, t', ran⟩ := returns
  exact ⟨f a, t', bind_done ran⟩

theorem free_geo : sharding.geoMap.Free [] := ShardedMap.free_nil

theorem free_sessions : sharding.sessionMap.Free [] := ShardedMap.free_nil

theorem geoAdd_returns (key : Sds) (point : Geo.GeoPoint) (member : Sds) :
    Returns (geoAdd sharding utf8Text key point member) t :=
  returns_done (hold_granted (free_geo.granted key .write))

theorem geoDist_returns (key member1 member2 : Sds) (unit : Str) :
    Returns (geoDist sharding sphere key member1 member2 unit) t :=
  (returns_done (ShardedMap.view_run free_geo key _ t)).map _

theorem geoPos_returns (key member : Sds) :
    Returns (geoPos sharding utf8Text key member) t :=
  (returns_done (ShardedMap.view_run free_geo key _ t)).map _

theorem searchBorrowed_run (key : Sds) (center : Geo.GeoPoint) (radius : ℚ) (unit : Str)
    (set : Geo.GeoSet) (held : List (Guard (ShardLock MemoryTable))) :
    ∃ a t', searchBorrowed sharding sphere key center radius unit set held t = .done a t' := by
  obtain ⟨hits, some⟩ := searchSet_some sphere set center radius unit
  refine ⟨.ok hits, sharding.geoMap.set (Assoc.insert (sharding.geoMap.get t) key
    (searchSet sphere set center radius unit).2) t, ?_⟩
  show reportHits (searchSet sphere set center radius unit).1 held _ = _
  rw [some]
  rfl

theorem geoRadius_returns (key : Sds) (center : Geo.GeoPoint) (radius : ℚ) (unit : Str) :
    Returns (geoRadius sharding sphere key center radius unit) t := by
  unfold geoRadius
  cases known : sharding.geoMap.look key t with
  | none => exact returns_done (borrow_absent (free_geo.granted key .write) known)
  | some set =>
      obtain ⟨a, t', ran⟩ := @searchBorrowed_run sharding sphere t key center radius unit set
        [sharding.geoMap.guard key .write]
      exact ⟨a, t', (borrow_found (free_geo.granted key .write) known).trans ran⟩

/-- The call looks a member up in a set, and finds it. -/
def Rereads {R : Type} (t : MemoryTables) : MemoryCall R → Prop
  | .geoRadiusByMember key member _ _ => ∃ set name center,
      Assoc.get t.store.geo key = some set ∧ Str.fromUtf8 member = some name ∧
        set.get name = some center
  | _ => False

/-- The guard of the look-up stands in the way of the search. -/
theorem geoRadiusByMember_blocked {key member : Sds} {set : Geo.GeoSet} {name : Str}
    {center : Geo.GeoPoint} (radius : ℚ) (unit : Str) (known : Assoc.get t.store.geo key = some set)
    (text : Str.fromUtf8 member = some name) (placed : set.get name = some center) :
    geoRadiusByMember sharding sphere utf8Text key member radius unit [] t = .blocked := by
  have looked : sharding.geoMap.look key t = some set := known
  have around : (sdsStr utf8Text member).map set.get = .ok (some center) := by
    unfold sdsStr
    rw [text]
    exact congrArg Except.ok placed
  have refused : ¬ Granted (sharding.geoMap.guard key .write) [sharding.geoMap.guard key .read] :=
    fun granted => granted _ List.mem_cons_self ⟨rfl, .inl rfl⟩
  unfold geoRadiusByMember
  rw [borrow_found (free_geo.granted key .read) looked, around]
  exact if_neg refused

theorem geoRadiusByMember_returns {key member : Sds} (radius : ℚ) (unit : Str)
    (missing : ∀ set name, Assoc.get t.store.geo key = some set → Str.fromUtf8 member = some name →
      set.get name = none) :
    Returns (geoRadiusByMember sharding sphere utf8Text key member radius unit) t := by
  unfold geoRadiusByMember
  cases known : sharding.geoMap.look key t with
  | none => exact returns_done (borrow_absent (free_geo.granted key .read) known)
  | some set =>
      rw [Returns, borrow_found (free_geo.granted key .read) known]
      unfold sdsStr
      cases text : Str.fromUtf8 member with
      | none => exact ⟨_, _, rfl⟩
      | some name =>
          have nowhere : (Except.ok name : Except StoreError Str).map set.get = .ok none :=
            congrArg Except.ok (missing set name known text)
          rw [nowhere]
          exact ⟨_, _, rfl⟩

theorem listSessions_returns (pick : SessionData → Bool) :
    ∃ listed, listSessions sharding pick [] t = .done listed t := by
  obtain ⟨all, ran, _⟩ := ShardedMap.iter_run (@free_sessions sharding) t
  exact ⟨_, bind_done ran⟩

theorem removeSessions_returns (listed : SessionStorage) (t : MemoryTables) :
    Returns (removeSessions sharding listed) t := by
  induction listed generalizing t with
  | nil => exact returns_done rfl
  | cons p rest ih =>
      have removed := ShardedMap.remove_run (@free_sessions sharding) p.1 t
      obtain ⟨a, t', ran⟩ := ih (sharding.sessionMap.set
        (Assoc.erase (sharding.sessionMap.get t) p.1) t)
      exact ⟨a, t', (bind_done removed).trans ran⟩

theorem removePicked_returns (pick : SessionData → Bool) :
    Returns (removePicked sharding pick) t := by
  obtain ⟨listed, ran⟩ := @listSessions_returns sharding t pick
  obtain ⟨a, t', removed⟩ := @removeSessions_returns sharding listed t
  exact ⟨listed.length, t', (bind_done ran).trans (bind_done removed)⟩

theorem withSession_returns {R : Type} (id : SessionId) (f : SessionData → R × SessionData) :
    Returns (withSession sharding id f) t := by
  unfold withSession
  cases known : sharding.sessionMap.look id t with
  | none => exact ⟨_, _, bind_done (ShardedMap.update_none free_sessions f known)⟩
  | some data => exact ⟨_, _, bind_done (ShardedMap.update_some free_sessions f known)⟩

theorem returns_of_not_rereads {R : Type} {call : MemoryCall R} (free : ¬ Rereads t call) :
    Returns (call.run sharding sphere utf8Text) t := by
  cases call with
  | plain call => exact (returns_done (plain_run call t)).map _
  | srandmember key count => exact (returns_done (srandmember_run key count t)).map _
  | spop key count => exact (returns_done (spop_run key count t)).map _
  | save => exact returns_done rfl
  | geoAdd key point member => exact (geoAdd_returns key point member).map _
  | geoDist key member1 member2 unit => exact (geoDist_returns key member1 member2 unit).map _
  | geoPos key member => exact (geoPos_returns key member).map _
  | geoRadius key center radius unit => exact (geoRadius_returns key center radius unit).map _
  | geoRadiusByMember key member radius unit =>
      refine (geoRadiusByMember_returns radius unit fun set name known text => ?_).map _
      cases placed : set.get name with
      | none => rfl
      | some center => exact absurd ⟨set, name, center, known, text, placed⟩ free
  | insertSession id data =>
      exact (returns_done (ShardedMap.insert_run free_sessions id data t)).map _
  | getSession id => exact (returns_done (ShardedMap.view_run free_sessions id _ t)).map _
  | removeSession id => exact (returns_done (ShardedMap.remove_run free_sessions id t)).map _
  | withSession id f => exact (withSession_returns id f).map _
  | getUserSessions username =>
      obtain ⟨listed, ran⟩ := @listSessions_returns sharding t fun data => data.username = username
      exact (returns_done ran).map _
  | removeUserSessions username => exact (removePicked_returns _).map _
  | cleanupExpired instant => exact (removePicked_returns _).map _
  | lenSession => exact (returns_done (ShardedMap.len_run free_sessions t)).map _
  | isEmpty => exact (returns_done (ShardedMap.len_run free_sessions t)).map _

theorem blocked_of_rereads {R : Type} {call : MemoryCall R} (rereads : Rereads t call) :
    call.run sharding sphere utf8Text [] t = .blocked := by
  cases call with
  | geoRadiusByMember key member radius unit =>
      obtain ⟨set, name, center, known, text, placed⟩ := rereads
      exact bind_blocked (geoRadiusByMember_blocked radius unit known text placed)
  | _ => exact absurd rereads id

end

/-- A call of the store asks for a guard that conflicts with its own exactly when it searches around
a member that is there; every other call returns. -/
theorem memory_unblocked_iff {R : Type} (sharding : MemorySharding) (sphere : Geo.Sphere)
    (utf8Text : Bytes → Str) (t : MemoryTables) (call : MemoryCall R) :
    (call.run sharding sphere utf8Text [] t ≠ .blocked ∧
      ∃ reply t', call.run sharding sphere utf8Text [] t = .done reply t') ↔ ¬ Rereads t call := by
  constructor
  · exact fun unblocked rereads => unblocked.1 (blocked_of_rereads rereads)
  · intro free
    obtain ⟨reply, t', ran⟩ := @returns_of_not_rereads sharding sphere utf8Text t R call free
    refine ⟨?_, reply, t', ran⟩
    rw [ran]
    intro blocked
    cases blocked

/-- One shard for each table. -/
def oneShard : MemorySharding := ⟨⟨1, fun _ => 0, fun _ => Nat.one_pos⟩,
  ⟨1, fun _ => 0, fun _ => Nat.one_pos⟩, ⟨1, fun _ => 0, fun _ => Nat.one_pos⟩⟩

/-- A store with one geographic set, of one member. -/
def onePlace : MemoryTables :=
  ⟨⟨[], [(bytesOf "g", Geo.GeoSet.new.add (Str.lit "a") ⟨0, 0⟩)], fun _ => 0⟩, []⟩

/-- A search around that member never returns. -/
theorem onePlace_blocked :
    (MemoryCall.geoRadiusByMember (R := Unit) (bytesOf "g") (bytesOf "a") 1 (Str.lit "km")).run
      oneShard Geo.flat Str.lossy [] onePlace = .blocked :=
  blocked_of_rereads ⟨_, Str.lit "a", ⟨0, 0⟩, rfl, rfl, rfl⟩

end Zumic.Engine
