/- When the in-memory store answers calls on geographic sets as the persistent store does. -/

import Zumic.Engine.MemoryGuards
import Zumic.Engine.StoredAtlas

namespace Zumic.Engine

open Auth Database Lib Lib.Guards Lib.Utf8

/-- The call as one of the in-memory store. -/
def PlaceCall.memoryCall : PlaceCall → MemoryCall Unit
  | geoAdd key point member => .geoAdd key point.place member
  | geoPos key member => .geoPos key member
  | geoDist key member1 member2 unit => .geoDist key member1 member2 unit
  | geoRadius key center radius unit => .geoRadius key center radius unit
  | geoRadiusByMember key member radius unit => .geoRadiusByMember key member radius unit
  | del key => .plain (.del key)
  | rename src dst => .plain (.rename src dst)
  | flushdb => .plain .flushdb
  | dbsize => .plain .dbsize

def PlaceCall.inMemory (sharding : MemorySharding) (sphere : Geo.Sphere) (rt : Runtime)
    (t : MemoryTables) (call : PlaceCall) : Run MemoryTables PlaceReply :=
  call.memoryCall.run sharding sphere rt.utf8Text [] t

/-- Calls that the in-memory store answers as it should: keys of geographic sets are not asked to be
removed, renamed or counted, no search is around a member that is there, and distances between two
members are asked for by names that are texts, in feet only where they are zero. -/
def Atlas.Agreed (sphere : Geo.Sphere) (atlas : Atlas) : PlaceCall → Prop
  | .geoDist key member1 member2 unit => ∀ places, Assoc.get atlas key = some places →
      ∃ m1 m2 : Str, member1 = m1.bytes ∧ member2 = m2.bytes ∧ (unit = Str.lit "ft" →
        ∀ p1 p2, Assoc.get places m1 = some p1 → Assoc.get places m2 = some p2 →
          sphere.haversineDistance p1 p2 = 0)
  | .geoRadiusByMember key member _ _ => ∀ places (name : Str), Assoc.get atlas key = some places →
      member = name.bytes → Assoc.get places name = none
  | .del key => Assoc.get atlas key = none
  | .rename src _ => Assoc.get atlas src = none
  | .flushdb => atlas = []
  | .dbsize => atlas = []
  | _ => True

/-- Every call of a sequence is such a one. -/
def Atlas.AllAgreed (sphere : Geo.Sphere) : Atlas → List PlaceCall → Prop
  | _, [] => True
  | atlas, call :: calls => atlas.Agreed sphere call ∧ (atlas.next call).AllAgreed sphere calls

/-- Both stores return from every call of a sequence, with the same reply. -/
def Agreeing (sharding : MemorySharding) (sphere : Geo.Sphere) (rt : Runtime) :
    MemoryTables → MeteredStore → List PlaceCall → Prop
  | _, _, [] => True
  | t, s, call :: calls => ∃ reply t' reply' s', call.inMemory sharding sphere rt t = .done reply t' ∧
      call.persistent rt sphere s = .done reply' s' ∧ SamePlaces reply reply' ∧
      Agreeing sharding sphere rt t' s' calls

theorem sdsStr_eq (rt : Runtime) (member : Sds) :
    sdsStr rt.utf8Text member = InPersistentStore.asStr rt member := rfl

theorem displaySds_bytes (name : Str) : displaySds name.bytes = name := by
  rw [displaySds, Str.fromUtf8_bytes]

/-- In feet the conversion goes the other way, which shows unless the distance is zero. -/
theorem distToUnit_eq_iff (unit : Str) (d : ℚ) :
    distToUnit unit d = metersToUnit unit d ↔ (unit = Str.lit "ft" → d = 0) := by
  have apart : Str.lit "ft" ≠ Str.lit "km" ∧ Str.lit "ft" ≠ Str.lit "mi" := by decide
  unfold distToUnit metersToUnit
  by_cases feet : unit = Str.lit "ft"
  · subst feet
    rw [if_neg apart.1, if_neg apart.2, if_pos rfl, if_neg apart.1, if_neg apart.2, if_pos rfl]
    rw [forall_prop_of_true rfl]
    constructor
    · intro same
      linarith
    · rintro rfl
      norm_num
  · rw [if_neg feet, if_neg feet]
    exact iff_of_true rfl fun here => absurd here feet

namespace MemoryTables

/-- The table of geographic sets holds what the atlas has; the other keys are none. -/
structure Shows (t : MemoryTables) (atlas : Atlas) : Prop where
  data : t.store.data = []
  sets : ∀ key, Option.Rel Tracks (Assoc.get t.store.geo key) (Assoc.get atlas key)

section

variable {sharding : MemorySharding} {sphere : Geo.Sphere} {rt : Runtime} {t : MemoryTables}
  {atlas : Atlas}

theorem Shows.absent (shows' : Shows t atlas) {key : Sds} (none' : Assoc.get atlas key = none) :
    sharding.geoMap.look key t = none := by
  have here := shows'.sets key
  rw [none'] at here
  exact eq_none_of_rel here

theorem Shows.present (shows' : Shows t atlas) {key : Sds} {places : Places}
    (there : Assoc.get atlas key = some places) :
    ∃ set, sharding.geoMap.look key t = some set ∧ Tracks set places := by
  have here := shows'.sets key
  rw [there] at here
  exact exists_of_rel here

theorem Shows.insert (shows' : Shows t atlas) (key : Sds) {set : Geo.GeoSet} {places : Places}
    (tracks : Tracks set places) {atlas' : Atlas}
    (get : ∀ key', Assoc.get atlas' key' = if key = key' then some places else Assoc.get atlas key') :
    Shows (sharding.geoMap.set (Assoc.insert (sharding.geoMap.get t) key set) t) atlas' where
  data := shows'.data
  sets key' := by
    rw [get key']
    change Option.Rel Tracks (Assoc.get (Assoc.insert t.store.geo key set) key') _
    rw [Assoc.get_insert]
    split
    · exact Option.Rel.some tracks
    · exact shows'.sets key'

theorem Shows.geoAdd (shows' : Shows t atlas) (key : Sds) {name : Str} {point : GeoPoint}
    (storable : InPersistentStore.Storable (name, point)) :
    ∃ t', Engine.geoAdd sharding rt.utf8Text key point.place name.bytes [] t =
        .done (.ok (Assoc.get (atlas.places key) name).isNone) t' ∧
      Shows t' (atlas.next (.geoAdd key point name.bytes)) := by
  have valid : point.place.valid = true := (valid_place point).trans storable.valid
  obtain ⟨set, looked, tracks⟩ : ∃ set, (sharding.geoMap.look key t).getD .new = set ∧
      Tracks set (atlas.places key) := by
    rw [Atlas.places]
    cases known : Assoc.get atlas key with
    | none =>
        rw [shows'.absent known]
        exact ⟨.new, rfl, tracks_new⟩
    | some places =>
        obtain ⟨set, there, tracks⟩ := @Shows.present sharding t atlas shows' key places known
        rw [there]
        exact ⟨set, rfl, tracks⟩
  have added : addToSet rt.utf8Text set point.place name.bytes =
      (.ok (set.get name).isNone, set.add name point.place) := by
    rw [addToSet, sdsStr_eq, InPersistentStore.asStr_bytes]
  refine ⟨sharding.geoMap.set (Assoc.insert (sharding.geoMap.get t) key
    (set.add name point.place)) t, ?_, ?_⟩
  · refine (hold_granted ((@free_geo sharding).granted key .write)).trans ?_
    change Run.done _ _ = _
    dsimp only
    rw [looked, added, tracks.get]
  · refine shows'.insert key (tracks.add valid name) fun key' => ?_
    rw [Atlas.next, Str.fromUtf8_bytes, Assoc.get_insert]

theorem Shows.geoPos (shows' : Shows t atlas) (key member : Sds) :
    Engine.geoPos sharding rt.utf8Text key member [] t = .done
      (match Assoc.get atlas key with
        | some places => (InPersistentStore.asStr rt member).map (Assoc.get places)
        | none => .ok none) t := by
  rw [Engine.geoPos, bind_done (ShardedMap.view_run free_geo key _ t)]
  cases known : Assoc.get atlas key with
  | none =>
      rw [shows'.absent known]
      rfl
  | some places =>
      obtain ⟨set, there, tracks⟩ := @Shows.present sharding t atlas shows' key places known
      have same : set.get = Assoc.get places := funext tracks.get
      rw [there, Option.map_some, same]
      rfl

theorem Shows.geoDist (shows' : Shows t atlas) {key member1 member2 : Sds} {unit : Str}
    (agreed : atlas.Agreed sphere (.geoDist key member1 member2 unit)) :
    ∃ r, Engine.geoDist sharding sphere key member1 member2 unit [] t = .done r t ∧
      .distance r = atlas.reply rt sphere (.geoDist key member1 member2 unit) := by
  rw [Engine.geoDist, bind_done (ShardedMap.view_run free_geo key _ t), Atlas.reply]
  cases known : Assoc.get atlas key with
  | none =>
      rw [shows'.absent known]
      exact ⟨_, rfl, rfl⟩
  | some places =>
      obtain ⟨set, there, tracks⟩ := @Shows.present sharding t atlas shows' key places known
      obtain ⟨m1, m2, rfl, rfl, feet⟩ := agreed places known
      rw [there]
      refine ⟨_, rfl, ?_⟩
      dsimp only
      rw [Option.map_some, displaySds_bytes, displaySds_bytes, InPersistentStore.asStr_bytes,
        InPersistentStore.asStr_bytes, Geo.GeoSet.dist, tracks.get, tracks.get]
      change MemoryReply.distance (.ok (Option.map (distToUnit unit) (do
        let p1 ← Assoc.get places m1
        let p2 ← Assoc.get places m2
        return sphere.haversineDistance p1 p2))) = .distance (.ok (do
          let p1 ← Assoc.get places m1
          let p2 ← Assoc.get places m2
          return metersToUnit unit (sphere.haversineDistance p1 p2)))
      cases first : Assoc.get places m1 with
      | none => rfl
      | some p1 =>
          cases second : Assoc.get places m2 with
          | none => rfl
          | some p2 =>
              have same := (distToUnit_eq_iff unit (sphere.haversineDistance p1 p2)).mpr
                fun here => feet here p1 p2 first second
              change MemoryReply.distance (.ok (some (distToUnit unit _))) =
                .distance (.ok (some (metersToUnit unit _)))
              rw [same]

theorem Shows.geoRadius (shows' : Shows t atlas) (key : Sds) (center : Geo.GeoPoint) (radius : ℚ)
    (unit : Str) : ∃ hits t', Engine.geoRadius sharding sphere key center radius unit [] t =
        .done (.ok hits) t' ∧
      hits.Perm (hitsAround sphere (atlas.places key) center radius unit) ∧ Shows t' atlas := by
  rw [Engine.geoRadius, Atlas.places]
  cases known : Assoc.get atlas key with
  | none =>
      refine ⟨[], t, borrow_absent (free_geo.granted key .write) (shows'.absent known), ?_, shows'⟩
      have nothing : hitsAround sphere [] center radius unit = [] := by
        simp [hitsAround]
      rw [Option.getD_none, nothing]
  | some places =>
      obtain ⟨set, there, tracks⟩ := @Shows.present sharding t atlas shows' key places known
      obtain ⟨hits, searched, perm, after⟩ := @Tracks.searchSet sphere set places tracks center radius unit
      refine ⟨hits, sharding.geoMap.set (Assoc.insert (sharding.geoMap.get t) key
        (searchSet sphere set center radius unit).2) t, ?_, perm, ?_⟩
      · rw [borrow_found (free_geo.granted key .write) there]
        change reportHits (searchSet sphere set center radius unit).1 _ _ = _
        rw [searched]
        rfl
      · refine shows'.insert key after fun key' => ?_
        split
        · rename_i here
          rw [← here, known]
        · rfl

theorem Shows.geoRadiusByMember (shows' : Shows t atlas) {key member : Sds} {radius : ℚ} {unit : Str}
    (agreed : atlas.Agreed sphere (.geoRadiusByMember key member radius unit)) :
    ∃ r, Engine.geoRadiusByMember sharding sphere rt.utf8Text key member radius unit [] t =
        .done r t ∧
      .hits r = atlas.reply rt sphere (.geoRadiusByMember key member radius unit) := by
  rw [Engine.geoRadiusByMember, Atlas.reply]
  cases known : Assoc.get atlas key with
  | none =>
      exact ⟨_, borrow_absent (free_geo.granted key .read) (shows'.absent known), rfl⟩
  | some places =>
      obtain ⟨set, there, tracks⟩ := @Shows.present sharding t atlas shows' key places known
      rw [borrow_found (free_geo.granted key .read) there, sdsStr_eq]
      dsimp only
      cases text : InPersistentStore.asStr rt member with
      | error e => exact ⟨.error e, rfl, rfl⟩
      | ok name =>
          have bytes : member = name.bytes := by
            rw [InPersistentStore.asStr] at text
            split at text
            · rename_i read
              rw [← Except.ok.inj text]
              exact (Str.bytes_of_fromUtf8 read).symm
            · cases text
          have missing := agreed places name known bytes
          refine ⟨.ok [], ?_, ?_⟩
          · change geoRadiusAround sharding sphere key radius unit (.ok (set.get name)) _ _ = _
            rw [tracks.get, missing]
            rfl
          · rw [Except.map, missing]

theorem Shows.step (shows' : Shows t atlas) {call : PlaceCall} (proper : call.Proper)
    (agreed : atlas.Agreed sphere call) :
    ∃ reply t', call.inMemory sharding sphere rt t = .done reply t' ∧
      SamePlaces reply (atlas.reply rt sphere call) ∧ Shows t' (atlas.next call) := by
  cases call with
  | geoAdd key point member =>
      obtain ⟨name, rfl, storable⟩ := proper
      obtain ⟨t', ran, after⟩ := @Shows.geoAdd sharding rt t atlas shows' key name point storable
      refine ⟨_, t', bind_done ran, ?_, after⟩
      rw [Atlas.reply, InPersistentStore.asStr_bytes]
      exact .refl _
  | geoPos key member => exact ⟨_, t, bind_done (shows'.geoPos key member), .refl _, shows'⟩
  | geoDist key member1 member2 unit =>
      obtain ⟨r, ran, same⟩ := @Shows.geoDist sharding sphere rt t atlas shows' _ _ _ _ agreed
      rw [← same]
      exact ⟨_, t, bind_done ran, .refl _, shows'⟩
  | geoRadius key center radius unit =>
      obtain ⟨hits, t', ran, perm, after⟩ :=
        @Shows.geoRadius sharding sphere t atlas shows' key center radius unit
      exact ⟨_, t', bind_done ran, .hits perm, after⟩
  | geoRadiusByMember key member radius unit =>
      obtain ⟨r, ran, same⟩ :=
        @Shows.geoRadiusByMember sharding sphere rt t atlas shows' _ _ _ _ agreed
      rw [← same]
      exact ⟨_, t, bind_done ran, .refl _, shows'⟩
  | del key =>
      refine ⟨_, _, bind_done (plain_run (.del key) t), ?_, ?_⟩
      · have none' : Assoc.get atlas key = none := agreed
        rw [Atlas.reply, none', InMemoryStore.call, writing, InMemoryStore.del, shows'.data]
        exact .refl _
      · have none' : Assoc.get atlas key = none := agreed
        rw [Atlas.next, Assoc.erase_of_not_mem (Assoc.get_eq_none_iff.mp none')]
        refine ⟨?_, shows'.sets⟩
        change Assoc.erase t.store.data key = []
        rw [shows'.data]
        rfl
  | rename src dst =>
      have none' : Assoc.get atlas src = none := agreed
      have kept : InMemoryStore.rename src dst t.store = (.error .keyNotFound, t.store) := by
        rw [InMemoryStore.rename, shows'.data]
        rfl
      refine ⟨_, _, bind_done (plain_run (.rename src dst) t), ?_, ?_⟩
      · rw [Atlas.reply, none', InMemoryStore.call, writing, kept]
        exact .refl _
      · rw [Atlas.next, none', InMemoryStore.call, writing, kept]
        exact shows'
  | flushdb =>
      have empty : atlas = [] := agreed
      refine ⟨_, _, bind_done (plain_run .flushdb t), .refl _, rfl, ?_⟩
      rw [Atlas.next, ← empty]
      exact shows'.sets
  | dbsize =>
      have empty : atlas = [] := agreed
      refine ⟨_, _, bind_done (plain_run .dbsize t), ?_, shows'⟩
      rw [Atlas.reply, empty, InMemoryStore.call, reading, InMemoryStore.dbsize, shows'.data]
      exact .refl _

end

end MemoryTables

section

variable {sharding : MemorySharding} {sphere : Geo.Sphere} {rt : Runtime} {t : MemoryTables}
  {s : MeteredStore} {atlas : Atlas}

/-- Both stores return from the call, with the same reply. -/
def Alike (sharding : MemorySharding) (sphere : Geo.Sphere) (rt : Runtime) (t : MemoryTables)
    (s : MeteredStore) (call : PlaceCall) : Prop :=
  ∃ reply t' reply' s', call.inMemory sharding sphere rt t = .done reply t' ∧
    call.persistent rt sphere s = .done reply' s' ∧ SamePlaces reply reply'

theorem SamePlaces.eq_answer {a b : StorageAnswer}
    (same : SamePlaces (.answer a) (.answer b)) : a = b := by
  cases same
  rfl

theorem SamePlaces.eq_distance {a b : Except StoreError (Option ℚ)}
    (same : SamePlaces (.distance a) (.distance b)) : a = b := by
  cases same
  rfl

theorem text_or_refused (member : Sds) :
    (∃ name : Str, member = name.bytes) ∨
      ∃ e, InPersistentStore.asStr rt member = .error e := by
  rw [InPersistentStore.asStr]
  cases text : Str.fromUtf8 member with
  | none => exact Or.inr ⟨_, rfl⟩
  | some name => exact Or.inl ⟨name, (Str.bytes_of_fromUtf8 text).symm⟩

theorem agreed_of_alike_geoDist (deep : 2 ≤ rt.depth) (memory : t.Shows atlas)
    (stored : s.Shows rt atlas) {key member1 member2 : Sds} {unit : Str}
    (alike : Alike sharding sphere rt t s (.geoDist key member1 member2 unit)) :
    atlas.Agreed sphere (.geoDist key member1 member2 unit) := by
  intro places known
  obtain ⟨set, there, tracks⟩ := @MemoryTables.Shows.present sharding t atlas memory key places known
  obtain ⟨reply, t', reply', s', ran, ran', same⟩ := alike
  have first : PlaceCall.inMemory sharding sphere rt t (.geoDist key member1 member2 unit) =
      .done (.distance (.ok ((set.dist sphere (displaySds member1) (displaySds member2)).map
        (distToUnit unit)))) t := by
    have viewed := ShardedMap.view_run (@free_geo sharding) key (fun set =>
      (set.dist sphere (displaySds member1) (displaySds member2)).map (distToUnit unit)) t
    rw [there] at viewed
    exact bind_done (bind_done viewed)
  have second : PlaceCall.persistent rt sphere s (.geoDist key member1 member2 unit) =
      .done (atlas.reply rt sphere (.geoDist key member1 member2 unit)) s := by
    rw [← stored.geoDist deep]
    rfl
  obtain ⟨rfl, rfl⟩ := Run.done.inj (ran.symm.trans first)
  obtain ⟨rfl, rfl⟩ := Run.done.inj (ran'.symm.trans second)
  rw [Atlas.reply, known] at same
  have equal := same.eq_distance
  dsimp only at equal
  rcases @text_or_refused rt member1 with ⟨m1, rfl⟩ | ⟨e, refused⟩
  · rcases @text_or_refused rt member2 with ⟨m2, rfl⟩ | ⟨e, refused⟩
    · refine ⟨m1, m2, rfl, rfl, fun feet p1 p2 here here' => ?_⟩
      rw [InPersistentStore.asStr_bytes, InPersistentStore.asStr_bytes] at equal
      rw [displaySds_bytes, displaySds_bytes, Geo.GeoSet.dist,
        tracks.get, tracks.get] at equal
      change Except.ok (Option.map (distToUnit unit) (do
        let p1 ← Assoc.get places m1
        let p2 ← Assoc.get places m2
        return sphere.haversineDistance p1 p2)) = Except.ok (do
          let p1 ← Assoc.get places m1
          let p2 ← Assoc.get places m2
          return metersToUnit unit (sphere.haversineDistance p1 p2)) at equal
      rw [here, here'] at equal
      exact (distToUnit_eq_iff unit _).mp (Option.some.inj (Except.ok.inj equal)) feet
    · rw [InPersistentStore.asStr_bytes, refused] at equal
      cases equal
  · rw [refused] at equal
    cases equal

theorem agreed_of_alike (deep : 2 ≤ rt.depth) (memory : t.Shows atlas) (stored : s.Shows rt atlas)
    {call : PlaceCall} (kept : call ≠ .flushdb) (alike : Alike sharding sphere rt t s call) :
    atlas.Agreed sphere call := by
  cases call with
  | geoAdd key point member => trivial
  | geoPos key member => trivial
  | geoDist key member1 member2 unit => exact agreed_of_alike_geoDist deep memory stored alike
  | geoRadius key center radius unit => trivial
  | geoRadiusByMember key member radius unit =>
      rintro places name known rfl
      cases placed : Assoc.get places name with
      | none => rfl
      | some center =>
          obtain ⟨set, there, tracks⟩ :=
            @MemoryTables.Shows.present sharding t atlas memory key places known
          obtain ⟨reply, t', -, -, ran, -⟩ := alike
          have rereads : Rereads t (R := Unit) (.geoRadiusByMember key name.bytes radius unit) :=
            ⟨set, name, center, there, Str.fromUtf8_bytes name, (tracks.get name).trans placed⟩
          cases ran.symm.trans (blocked_of_rereads rereads)
  | del key =>
      obtain ⟨reply, t', reply', s', ran, ran', same⟩ := alike
      obtain ⟨rfl, -⟩ := Run.done.inj (ran.symm.trans (bind_done (plain_run (.del key) t)))
      obtain ⟨rfl, -⟩ := Run.done.inj ran'.symm
      have equal := same.eq_answer
      rw [MeteredStore.call, writing, (stored.del key).1, InMemoryStore.call, writing,
        InMemoryStore.del, memory.data] at equal
      have flags := StorageReply.flag.inj (Except.ok.inj equal)
      exact Option.not_isSome_iff_eq_none.mp (by rw [← flags]; exact Bool.false_ne_true)
  | rename src dst =>
      obtain ⟨reply, t', reply', s', ran, ran', same⟩ := alike
      obtain ⟨rfl, -⟩ := Run.done.inj (ran.symm.trans (bind_done (plain_run (.rename src dst) t)))
      obtain ⟨rfl, -⟩ := Run.done.inj ran'.symm
      have equal := same.eq_answer
      have renamed := stored.rename src dst
      change Assoc.get atlas src = none
      cases known : Assoc.get atlas src with
      | none => rfl
      | some places =>
          rw [known] at renamed
          rw [MeteredStore.call, writing, renamed.1, InMemoryStore.call, writing,
            InMemoryStore.rename, memory.data] at equal
          cases equal
  | flushdb => exact absurd rfl kept
  | dbsize =>
      obtain ⟨reply, t', reply', s', ran, ran', same⟩ := alike
      obtain ⟨rfl, -⟩ := Run.done.inj (ran.symm.trans (bind_done (plain_run .dbsize t)))
      obtain ⟨rfl, -⟩ := Run.done.inj ran'.symm
      have equal := same.eq_answer
      change Except.ok (StorageReply.count t.store.data.length) =
        Except.ok (StorageReply.count s.dbsize) at equal
      rw [memory.data, stored.dbsize] at equal
      exact List.length_eq_zero_iff.mp (StorageReply.count.inj (Except.ok.inj equal)).symm

end

section

variable {sharding : MemorySharding} {sphere : Geo.Sphere} {rt : Runtime} {calls : List PlaceCall}
  {t : MemoryTables} {s : MeteredStore} {atlas : Atlas}

theorem agreeing_of_allAgreed (deep : 2 ≤ rt.depth) (proper : ∀ call ∈ calls, call.Proper)
    (memory : t.Shows atlas) (stored : s.Shows rt atlas) (agreed : atlas.AllAgreed sphere calls) :
    Agreeing sharding sphere rt t s calls := by
  induction calls generalizing t s atlas with
  | nil => trivial
  | cons call calls ih =>
      have first := proper call List.mem_cons_self
      obtain ⟨reply, t', ran, same, memory'⟩ :=
        @MemoryTables.Shows.step sharding sphere rt t atlas memory call first agreed.1
      obtain ⟨reply', s', ran', same', stored'⟩ := stored.step deep sphere first
      exact ⟨reply, t', reply', s', ran, ran', same.trans same'.symm,
        ih (fun call' member => proper call' (List.mem_cons_of_mem call member)) memory' stored'
          agreed.2⟩

theorem allAgreed_of_agreeing (deep : 2 ≤ rt.depth) (proper : ∀ call ∈ calls, call.Proper)
    (kept : PlaceCall.flushdb ∉ calls) (memory : t.Shows atlas) (stored : s.Shows rt atlas)
    (agreeing : Agreeing sharding sphere rt t s calls) : atlas.AllAgreed sphere calls := by
  induction calls generalizing t s atlas with
  | nil => trivial
  | cons call calls ih =>
      obtain ⟨reply, t', reply', s', ran, ran', same, rest⟩ := agreeing
      have first := proper call List.mem_cons_self
      obtain ⟨other, later⟩ := not_or.mp (mt List.mem_cons.mpr kept)
      have agreed := agreed_of_alike deep memory stored (Ne.symm other)
        ⟨reply, t', reply', s', ran, ran', same⟩
      obtain ⟨_, t'', again, -, memory'⟩ :=
        @MemoryTables.Shows.step sharding sphere rt t atlas memory call first agreed
      obtain ⟨_, s'', again', -, stored'⟩ := stored.step deep sphere first
      obtain ⟨-, rfl⟩ := Run.done.inj (ran.symm.trans again)
      obtain ⟨-, rfl⟩ := Run.done.inj (ran'.symm.trans again')
      exact ⟨agreed, ih (fun call' member => proper call' (List.mem_cons_of_mem call member)) later
        memory' stored' rest⟩

theorem MemoryTables.shows_new (rng : Rng) (sessions : SessionStorage) :
    MemoryTables.Shows ⟨InMemoryStore.new [] rng, sessions⟩ [] :=
  ⟨rfl, fun _ => Option.Rel.none⟩

theorem MeteredStore.shows_new (rt : Runtime) {config : PersistentStoreConfig}
    (opened : MeteredStore.new config [] = .ok s) : s.Shows rt [] := by
  have fresh : MeteredStore.new config [] =
      .ok (MeteredStore.ofShards config ⟨magic, config.corruptionPolicy⟩) := rfl
  refine ⟨MeteredStore.metered_new opened, List.nodup_nil, fun key => ?_⟩
  obtain rfl := Except.ok.inj (opened.symm.trans fresh)
  rw [MeteredStore.lookup, MeteredStore.index_ofShards, ShardedIndex.get_new]
  exact Option.Rel.none

end

/-- Two new stores give the same replies to all calls that are made as they should be; to any others,
where nothing is flushed, they do not. -/
theorem geo_backends_agree (sharding : MemorySharding) (sphere : Geo.Sphere) {rt : Runtime}
    (deep : 2 ≤ rt.depth) {config : PersistentStoreConfig} {s : MeteredStore}
    (opened : MeteredStore.new config [] = .ok s) (rng : Rng) (sessions : SessionStorage)
    {calls : List PlaceCall} (proper : ∀ call ∈ calls, call.Proper) :
    (Atlas.AllAgreed sphere [] calls →
        Agreeing sharding sphere rt ⟨InMemoryStore.new [] rng, sessions⟩ s calls) ∧
      (PlaceCall.flushdb ∉ calls →
        Agreeing sharding sphere rt ⟨InMemoryStore.new [] rng, sessions⟩ s calls →
          Atlas.AllAgreed sphere [] calls) :=
  ⟨agreeing_of_allAgreed deep proper (MemoryTables.shows_new rng sessions)
      (MeteredStore.shows_new rt opened),
    fun kept => allAgreed_of_agreeing deep proper kept (MemoryTables.shows_new rng sessions)
      (MeteredStore.shows_new rt opened)⟩

/-- A place at the origin, and one to the east of it. -/
def twoPlaces : List PlaceCall :=
  [.geoAdd [103] InPersistentStore.origin (Str.lit "a").bytes,
    .geoAdd [103] ⟨F64.ofInt 1, F64.ofInt 0⟩ (Str.lit "b").bytes]

theorem proper_twoPlaces : ∀ call ∈ twoPlaces, call.Proper := by
  intro call member
  simp only [twoPlaces, List.mem_cons, List.not_mem_nil, or_false] at member
  rcases member with rfl | rfl
  · exact ⟨Str.lit "a", rfl, by decide, by decide⟩
  · exact ⟨Str.lit "b", rfl, by decide, by decide⟩

/-- Asked for in miles, the distance is the same. -/
theorem geo_backends_agree_miles :
    ∃ s, MeteredStore.new InPersistentStore.oneShard [] = .ok s ∧
      Agreeing oneShard Geo.flat InPersistentStore.storingRuntime
        ⟨InMemoryStore.new [] fun _ => 0, []⟩ s (twoPlaces ++
          [.geoDist [103] (Str.lit "a").bytes (Str.lit "b").bytes (Str.lit "mi"),
            .geoRadius [103] ⟨0, 0⟩ 1 (Str.lit "km")]) := by
  have opened : MeteredStore.new InPersistentStore.oneShard [] =
      .ok (MeteredStore.ofShards InPersistentStore.oneShard ⟨magic, .strict⟩) := rfl
  have deep : 2 ≤ InPersistentStore.storingRuntime.depth := by decide
  refine ⟨_, opened, (geo_backends_agree oneShard Geo.flat deep opened (fun _ => 0) [] ?_).1 ?_⟩
  · intro call member
    rcases List.mem_append.mp member with first | last
    · exact proper_twoPlaces call first
    · simp only [List.mem_cons, List.not_mem_nil, or_false] at last
      rcases last with rfl | rfl
      · trivial
      · trivial
  · refine ⟨trivial, trivial, fun places known => ?_, trivial, trivial⟩
    exact ⟨Str.lit "a", Str.lit "b", rfl, rfl, fun feet => absurd feet (by decide)⟩

/-- In feet it is not, and a set is removed by one store only. -/
theorem geo_backends_differ :
    ∃ s, MeteredStore.new InPersistentStore.oneShard [] = .ok s ∧
      ¬ Agreeing oneShard Geo.flat InPersistentStore.storingRuntime
        ⟨InMemoryStore.new [] fun _ => 0, []⟩ s (twoPlaces ++
          [.geoDist [103] (Str.lit "a").bytes (Str.lit "b").bytes (Str.lit "ft")]) ∧
      ¬ Agreeing oneShard Geo.flat InPersistentStore.storingRuntime
        ⟨InMemoryStore.new [] fun _ => 0, []⟩ s (twoPlaces ++ [.del [103]]) := by
  have opened : MeteredStore.new InPersistentStore.oneShard [] =
      .ok (MeteredStore.ofShards InPersistentStore.oneShard ⟨magic, .strict⟩) := rfl
  have deep : 2 ≤ InPersistentStore.storingRuntime.depth := by decide
  have memory := MemoryTables.shows_new (fun _ => 0) []
  have stored := MeteredStore.shows_new InPersistentStore.storingRuntime opened
  have plain : ∀ call, call.Proper → ∀ call' ∈ twoPlaces ++ [call], call'.Proper := by
    intro call last call' member
    rcases List.mem_append.mp member with first | here
    · exact proper_twoPlaces call' first
    · rw [List.mem_singleton.mp here]
      exact last
  refine ⟨_, opened, ?_, ?_⟩
  · intro agreeing
    have proper := plain (.geoDist [103] (Str.lit "a").bytes (Str.lit "b").bytes (Str.lit "ft")) trivial
    have agreed := allAgreed_of_agreeing deep proper (by simp [twoPlaces]) memory stored agreeing
    obtain ⟨m1, m2, bytes, bytes', feet⟩ := agreed.2.2.1 _ rfl
    obtain rfl := Str.ext_bytes bytes
    obtain rfl := Str.ext_bytes bytes'
    exact absurd (feet rfl _ _ rfl rfl) (by decide +kernel)
  · intro agreeing
    have proper := plain (.del [103]) trivial
    have agreed := allAgreed_of_agreeing deep proper (by simp [twoPlaces]) memory stored agreeing
    have gone : Assoc.get ((Atlas.next [] (.geoAdd [103] InPersistentStore.origin
        (Str.lit "a").bytes)).next (.geoAdd [103] ⟨F64.ofInt 1, F64.ofInt 0⟩ (Str.lit "b").bytes))
          [103] = none := agreed.2.2.1
    cases gone

end Zumic.Engine
