/- The persistent store keeps the places that its geographic sets are for. -/

import Zumic.Engine.Atlas

namespace Zumic.Engine

open Database Lib Lib.ByteString Lib.Guards Lib.Utf8 Zdb

namespace InPersistentStore

variable (rt : Runtime)

/-- The places of stored points. -/
def placesOf (points : GeoPoints) : Places := points.map fun e => (e.1, e.2.place)

/-- How the bytes under a key stand to the places there. -/
structure Encodes (raw : Bytes) (points : GeoPoints) (places : Places) : Prop where
  readable : ReadablePoints points
  some' : points ≠ []
  bytes : raw = encodePoints rt points
  same : (placesOf points).Perm places

section

variable {rt}

theorem get_placesOf (points : GeoPoints) (name : Str) :
    Assoc.get (placesOf points) name = (Assoc.get points name).map GeoPoint.place := by
  induction points with
  | nil => rfl
  | cons e points ih =>
      rw [placesOf, List.map_cons, Assoc.get, Assoc.get, ← placesOf, ih]
      split
      · rfl
      · rfl

theorem keys_placesOf (points : GeoPoints) : Assoc.keys (placesOf points) = Assoc.keys points := by
  rw [Assoc.keys, placesOf, List.map_map]
  rfl

theorem placesOf_insert (points : GeoPoints) (name : Str) (point : GeoPoint) :
    placesOf (Assoc.insert points name point) =
      Assoc.insert (placesOf points) name point.place := by
  induction points with
  | nil => rfl
  | cons e points ih =>
      have head : placesOf (e :: points) = (e.1, e.2.place) :: placesOf points := rfl
      rw [head, Assoc.insert, Assoc.insert, ← ih]
      split
      · rfl
      · rfl

theorem tracks_foldl {set : Geo.GeoSet} {places : Places} (tracks : Tracks set places)
    {records : GeoPoints} (each : ∀ e ∈ records, Storable e) :
    Tracks (records.foldl (fun set e => set.add e.1 e.2.place) set)
      ((placesOf records).foldl (fun places e => Assoc.insert places e.1 e.2) places) := by
  induction records generalizing set places with
  | nil => exact tracks
  | cons e records ih =>
      have valid : e.2.place.valid = true := (valid_place e.2).trans (each e List.mem_cons_self).valid
      exact ih (tracks.add valid e.1) fun e' member => each e' (List.mem_cons_of_mem e member)

variable (deep : 2 ≤ rt.depth)
include deep

theorem readGeoSet_records {fuel : Nat} {records : GeoPoints} {set : Geo.GeoSet}
    (each : ∀ e ∈ records, Storable e) (enough : records.length < fuel) :
    readGeoSet rt .v3 fuel (records.flatMap (pointRecord rt) ++ [tagEof]) set =
      .ok (records.foldl (fun set e => set.add e.1 e.2.place) set) := by
  induction records generalizing fuel set with
  | nil =>
      cases fuel with
      | zero => exact absurd enough (Nat.not_lt_zero _)
      | succ n =>
          rw [List.flatMap_nil, List.nil_append, readGeoSet, streamNext_eof]
          rfl
  | cons e records ih =>
      cases fuel with
      | zero => exact absurd enough (Nat.not_lt_zero _)
      | succ n =>
          have storable := each e List.mem_cons_self
          rw [List.flatMap_cons, List.append_assoc, readGeoSet,
            streamNext_point deep storable.short]
          change (asStr rt e.1.bytes).bind (fun member => readGeoSet rt .v3 n _
            (set.add member e.2.place)) = _
          rw [asStr_bytes]
          exact ih (fun e' member => each e' (List.mem_cons_of_mem e member))
            (Nat.lt_of_succ_lt_succ enough)

variable {s : InPersistentStore} {key : Sds} {raw : Bytes} {points : GeoPoints} {places : Places}

theorem Encodes.storedGeoSet (encodes : Encodes rt raw points places)
    (stored : s.index.get key = some raw) :
    ∃ set, InPersistentStore.storedGeoSet rt s key = .ok (some set) ∧ Tracks set places := by
  have readable := encodes.readable.byName
  have enough := @length_byName_lt rt points
  have read := @readGeoSet_records rt deep _ _ .new readable.each enough
  have tracks := tracks_foldl tracks_new readable.each
  have distinct : (Assoc.keys ([] ++ placesOf (byName points))).Nodup := by
    rw [List.nil_append, keys_placesOf]
    exact readable.distinct
  rw [Assoc.foldl_insert distinct, List.nil_append] at tracks
  obtain ⟨h, agrees, indexed, perm⟩ := tracks
  refine ⟨_, ?_, h, agrees, indexed, perm.trans (((byName_perm points).map _).trans encodes.same)⟩
  rw [InPersistentStore.storedGeoSet, stored, encodes.bytes]
  dsimp only
  rw [streamHeader_encodePoints]
  dsimp only
  rw [read]
  rfl

theorem Encodes.geoPos (encodes : Encodes rt raw points places)
    (stored : s.index.get key = some raw) (name : Str) :
    (InPersistentStore.geoPos rt key name.bytes s).map (Option.map GeoPoint.place) =
      .ok (Assoc.get places name) := by
  rw [encodes.bytes] at stored
  rw [geoPos_encodePoints deep encodes.readable stored name, Except.map, ← get_placesOf,
    Assoc.get_of_perm encodes.same (by rw [keys_placesOf]; exact encodes.readable.distinct)]

theorem Encodes.geoPos_noText (encodes : Encodes rt raw points places)
    (stored : s.index.get key = some raw) {member : Sds} (noText : Str.fromUtf8 member = none) :
    InPersistentStore.geoPos rt key member s = .error (.utf8 (rt.utf8Text member)) := by
  obtain ⟨e, records, listed⟩ : ∃ e records, byName points = e :: records := by
    apply List.exists_cons_of_ne_nil
    intro none'
    have perm := byName_perm points
    rw [none'] at perm
    exact encodes.some' perm.symm.eq_nil
  have storable := encodes.readable.byName.each e (by rw [listed]; exact List.mem_cons_self)
  have refused : asStr rt member = .error (.utf8 (rt.utf8Text member)) := by
    rw [asStr, noText]
  have enough := @length_byName_lt rt points
  obtain ⟨n, fuel⟩ : ∃ n, (encodePoints rt points).length = n + 1 :=
    Nat.exists_eq_succ_of_ne_zero (by omega)
  rw [InPersistentStore.geoPos, stored, encodes.bytes]
  dsimp only
  rw [streamHeader_encodePoints, fuel, listed, List.flatMap_cons, List.append_assoc]
  dsimp only
  rw [findPoint, streamNext_point deep storable.short]
  dsimp only
  rw [asStr_bytes, refused]
  rfl

end

end InPersistentStore

/-- What a search found, as a reply. -/
def reportFound (s : MeteredStore) :
    Except StoreError (Option (List GeoHit)) → Run MeteredStore PlaceReply
  | .ok (some hits) => .done (.hits (.ok hits)) s
  | .ok none => .panicked s
  | .error e => .done (.hits (.error e)) s

/-- A call of the persistent store; the coordinates of a reply are taken for their values. -/
def PlaceCall.persistent (rt : Runtime) (sphere : Geo.Sphere) (s : MeteredStore) :
    PlaceCall → Run MeteredStore PlaceReply
  | geoAdd key point member =>
      let r := MeteredStore.geoAdd rt key point.lon point.lat member s
      .done (.geoAdded r.1) r.2
  | geoPos key member => .done (.position
      ((InPersistentStore.geoPos rt key member s.plain).map (Option.map GeoPoint.place))) s
  | geoDist key member1 member2 unit => .done (.distance
      (InPersistentStore.geoDist rt sphere key member1 member2 unit s.plain)) s
  | geoRadius key center radius unit =>
      reportFound s (InPersistentStore.geoRadius rt sphere key center radius unit s.plain)
  | geoRadiusByMember key member radius unit =>
      reportFound s (InPersistentStore.geoRadiusByMember rt sphere key member radius unit s.plain)
  | del key =>
      let r := MeteredStore.call rt (.del key) s
      .done (.answer r.1) r.2
  | rename src dst =>
      let r := MeteredStore.call rt (.rename src dst) s
      .done (.answer r.1) r.2
  | flushdb =>
      let r := MeteredStore.call rt .flushdb s
      .done (.answer r.1) r.2
  | dbsize =>
      let r := MeteredStore.call rt .dbsize s
      .done (.answer r.1) r.2

namespace MeteredStore

variable (rt : Runtime)

/-- Under every key are the places that the atlas has there. -/
structure Shows (s : MeteredStore) (atlas : Atlas) : Prop where
  metered : s.Metered
  distinct : (Assoc.keys atlas).Nodup
  stored : ∀ key, Option.Rel (fun raw places => ∃ points,
    InPersistentStore.Encodes rt raw points places) (s.lookup key) (Assoc.get atlas key)

section

variable {rt} {s : MeteredStore} {atlas : Atlas}

theorem Shows.absent (shows' : Shows rt s atlas) {key : Sds} (none' : Assoc.get atlas key = none) :
    s.plain.index.get key = none := by
  have here := shows'.stored key
  rw [none'] at here
  exact eq_none_of_rel here

theorem Shows.present (shows' : Shows rt s atlas) {key : Sds} {places : Places}
    (there : Assoc.get atlas key = some places) :
    ∃ raw points, s.plain.index.get key = some raw ∧
      InPersistentStore.Encodes rt raw points places := by
  have here := shows'.stored key
  rw [there] at here
  obtain ⟨raw, known, points, encodes⟩ := exists_of_rel here
  exact ⟨raw, points, known, encodes⟩

theorem Shows.storedPoints (shows' : Shows rt s atlas) (deep : 2 ≤ rt.depth) (key : Sds) :
    ∃ points, InPersistentStore.storedPoints rt s.plain key = .ok points ∧
      InPersistentStore.ReadablePoints points ∧
      (InPersistentStore.placesOf points).Perm (atlas.places key) := by
  rw [Atlas.places]
  cases known : Assoc.get atlas key with
  | none =>
      refine ⟨[], ?_, ⟨List.nodup_nil, fun e member => absurd member List.not_mem_nil⟩,
        List.Perm.refl _⟩
      rw [InPersistentStore.storedPoints, shows'.absent known]
  | some places =>
      obtain ⟨raw, points, stored, encodes⟩ := shows'.present known
      rw [encodes.bytes] at stored
      have perm := InPersistentStore.byName_perm points
      exact ⟨InPersistentStore.byName points,
        InPersistentStore.storedPoints_encodePoints deep encodes.readable stored,
        encodes.readable.byName, (perm.map _).trans encodes.same⟩

theorem Shows.of_lookup {s' : MeteredStore} {atlas' : Atlas} (metered : s'.Metered)
    (distinct : (Assoc.keys atlas').Nodup)
    (stored : ∀ key, Option.Rel (fun raw places => ∃ points,
      InPersistentStore.Encodes rt raw points places)
        (s'.plain.index.get key) (Assoc.get atlas' key)) : Shows rt s' atlas' :=
  ⟨metered, distinct, stored⟩

theorem Shows.geoAdd (shows' : Shows rt s atlas) (deep : 2 ≤ rt.depth) (key : Sds) {name : Str}
    {point : GeoPoint} (storable : InPersistentStore.Storable (name, point)) :
    (MeteredStore.geoAdd rt key point.lon point.lat name.bytes s).1 =
        .ok (Assoc.get (atlas.places key) name).isNone ∧
      Shows rt (MeteredStore.geoAdd rt key point.lon point.lat name.bytes s).2
        (Assoc.insert atlas key (Assoc.insert (atlas.places key) name point.place)) := by
  obtain ⟨points, found, readable, same⟩ := shows'.storedPoints deep key
  have distinct : (Assoc.keys (InPersistentStore.placesOf points)).Nodup := by
    rw [InPersistentStore.keys_placesOf]
    exact readable.distinct
  have added := InPersistentStore.geoAdd_of_storedPoints found storable
  have mirrors := mirrors_geoAdd rt key point.lon point.lat name.bytes s
  constructor
  · rw [mirrors.result, added, ← Assoc.get_of_perm same distinct,
      InPersistentStore.get_placesOf, Option.isNone_map, Option.not_isSome]
  · refine Shows.of_lookup (shows'.metered.step rt (.geoAdd key point.lon point.lat name.bytes))
      (Assoc.nodup_keys_insert shows'.distinct key _) fun key' => ?_
    rw [mirrors.plain, added, InPersistentStore.put, ShardedIndex.get_insert, Assoc.get_insert]
    by_cases here : key = key'
    · subst here
      rw [Function.update_self, if_pos rfl]
      refine Option.Rel.some ⟨Assoc.insert points name point, readable.insert storable, ?_, rfl, ?_⟩
      · intro none'
        have member : name ∈ Assoc.keys (Assoc.insert points name point) :=
          Assoc.mem_keys_insert.mpr (Or.inl rfl)
        rw [none'] at member
        cases member
      · rw [InPersistentStore.placesOf_insert]
        exact Assoc.insert_perm same distinct name point.place
    · rw [Function.update_of_ne (Ne.symm here), if_neg here]
      exact shows'.stored key'

theorem Shows.del (shows' : Shows rt s atlas) (key : Sds) :
    (MeteredStore.del key s).1 = .ok (Assoc.get atlas key).isSome ∧
      Shows rt (MeteredStore.del key s).2 (Assoc.erase atlas key) := by
  have mirrors := mirrors_del key s
  have metered := shows'.metered.step rt (.del key)
  have distinct := Assoc.nodup_keys_erase shows'.distinct key
  cases known : Assoc.get atlas key with
  | none =>
      have removed : InPersistentStore.del key s.plain = (.ok false, s.plain) := by
        rw [InPersistentStore.del, shows'.absent known]
        rfl
      rw [mirrors.result, removed]
      refine ⟨rfl, Shows.of_lookup metered distinct fun key' => ?_⟩
      rw [mirrors.plain, removed, Assoc.erase_of_not_mem (Assoc.get_eq_none_iff.mp known)]
      exact shows'.stored key'
  | some places =>
      obtain ⟨raw, points, stored, -⟩ := shows'.present known
      have removed : InPersistentStore.del key s.plain = (.ok true, s.plain.drop key) := by
        rw [InPersistentStore.del, stored]
        rfl
      rw [mirrors.result, removed]
      refine ⟨rfl, Shows.of_lookup metered distinct fun key' => ?_⟩
      rw [mirrors.plain, removed, InPersistentStore.drop, ShardedIndex.get_remove, Assoc.get_erase,
        Function.update_apply]
      by_cases here : key' = key
      · rw [if_pos here, if_pos here.symm]
        exact Option.Rel.none
      · rw [if_neg here, if_neg (Ne.symm here)]
        exact shows'.stored key'

theorem Shows.rename (shows' : Shows rt s atlas) (src dst : Sds) :
    (match Assoc.get atlas src with
      | none => (MeteredStore.rename src dst s).1 = .error .keyNotFound ∧
          Shows rt (MeteredStore.rename src dst s).2 atlas
      | some places => (MeteredStore.rename src dst s).1 = .ok () ∧
          Shows rt (MeteredStore.rename src dst s).2
            (Assoc.insert (Assoc.erase atlas src) dst places)) := by
  have mirrors := mirrors_rename src dst s
  have metered := shows'.metered.step rt (.rename src dst)
  cases known : Assoc.get atlas src with
  | none =>
      have kept : InPersistentStore.rename src dst s.plain = (.error .keyNotFound, s.plain) := by
        rw [InPersistentStore.rename, shows'.absent known]
      refine ⟨by rw [mirrors.result, kept], Shows.of_lookup metered shows'.distinct fun key' => ?_⟩
      rw [mirrors.plain, kept]
      exact shows'.stored key'
  | some places =>
      obtain ⟨raw, points, stored, encodes⟩ := shows'.present known
      have moved : InPersistentStore.rename src dst s.plain = (.ok (), s.plain.move src dst raw) := by
        rw [InPersistentStore.rename, stored]
      refine ⟨by rw [mirrors.result, moved], Shows.of_lookup metered (Assoc.nodup_keys_insert
        (Assoc.nodup_keys_erase shows'.distinct src) dst places) fun key' => ?_⟩
      rw [mirrors.plain, moved, InPersistentStore.move, ShardedIndex.get_insert,
        ShardedIndex.get_remove, Assoc.get_insert, Assoc.get_erase, Function.update_apply,
        Function.update_apply]
      by_cases target : key' = dst
      · rw [if_pos target, if_pos target.symm]
        exact Option.Rel.some ⟨points, encodes⟩
      · rw [if_neg target, if_neg (Ne.symm target)]
        by_cases here : key' = src
        · rw [if_pos here, if_pos here.symm]
          exact Option.Rel.none
        · rw [if_neg here, if_neg (Ne.symm here)]
          exact shows'.stored key'

theorem Shows.flushdb (shows' : Shows rt s atlas) :
    (MeteredStore.flushdb s).1 = .ok () ∧ Shows rt (MeteredStore.flushdb s).2 [] := by
  have mirrors := mirrors_flushdb s
  refine ⟨rfl, Shows.of_lookup (shows'.metered.step rt .flushdb) List.nodup_nil fun key => ?_⟩
  rw [mirrors.plain, InPersistentStore.flushdb, ShardedIndex.get_clear]
  exact Option.Rel.none

theorem Shows.dbsize (shows' : Shows rt s atlas) : s.dbsize = atlas.length := by
  obtain ⟨keys, distinct, named, size⟩ := shows'.metered.keysCounted.size
  have same : ∀ key, key ∈ keys ↔ key ∈ Assoc.keys atlas := by
    intro key
    rw [named, Assoc.mem_keys_iff_isSome]
    have here := shows'.stored key
    cases known : Assoc.get atlas key with
    | none =>
        have absent : s.lookup key = none := shows'.absent known
        simp [absent]
    | some places =>
        obtain ⟨raw, -, stored, -⟩ := shows'.present known
        exact iff_of_true ⟨raw, stored⟩ rfl
  rw [size, ((List.perm_ext_iff_of_nodup distinct shows'.distinct).mpr same).length_eq, Assoc.keys,
    List.length_map]

theorem Shows.storedGeoSet (shows' : Shows rt s atlas) (deep : 2 ≤ rt.depth) (key : Sds) :
    match Assoc.get atlas key with
    | none => InPersistentStore.storedGeoSet rt s.plain key = .ok none
    | some places => ∃ set, InPersistentStore.storedGeoSet rt s.plain key = .ok (some set) ∧
        Tracks set places := by
  cases known : Assoc.get atlas key with
  | none =>
      dsimp only
      rw [InPersistentStore.storedGeoSet, shows'.absent known]
  | some places =>
      obtain ⟨raw, points, stored, encodes⟩ := shows'.present known
      exact encodes.storedGeoSet deep stored

theorem Shows.geoPos (shows' : Shows rt s atlas) (deep : 2 ≤ rt.depth) (key member : Sds) :
    (InPersistentStore.geoPos rt key member s.plain).map (Option.map GeoPoint.place) =
      match Assoc.get atlas key with
      | some places => (InPersistentStore.asStr rt member).map (Assoc.get places)
      | none => .ok none := by
  cases known : Assoc.get atlas key with
  | none =>
      rw [InPersistentStore.geoPos, shows'.absent known]
      rfl
  | some places =>
      obtain ⟨raw, points, stored, encodes⟩ := shows'.present known
      dsimp only
      cases text : Str.fromUtf8 member with
      | none =>
          rw [encodes.geoPos_noText deep stored text, InPersistentStore.asStr, text]
          rfl
      | some name =>
          rw [← Str.bytes_of_fromUtf8 text, encodes.geoPos deep stored,
            InPersistentStore.asStr_bytes]
          rfl

theorem Shows.geoDist (shows' : Shows rt s atlas) (deep : 2 ≤ rt.depth) (sphere : Geo.Sphere)
    (key member1 member2 : Sds) (unit : Str) :
    .distance (InPersistentStore.geoDist rt sphere key member1 member2 unit s.plain) =
      atlas.reply rt sphere (.geoDist key member1 member2 unit) := by
  have found := shows'.storedGeoSet deep key
  rw [Atlas.reply, InPersistentStore.geoDist]
  cases known : Assoc.get atlas key with
  | none =>
      rw [known] at found
      dsimp only at found
      rw [found]
      rfl
  | some places =>
      rw [known] at found
      obtain ⟨set, read, tracks⟩ := found
      have dist : ∀ m1 m2, (set.dist sphere m1 m2).map (metersToUnit unit) = (do
          let p1 ← Assoc.get places m1
          let p2 ← Assoc.get places m2
          return metersToUnit unit (sphere.haversineDistance p1 p2)) := by
        intro m1 m2
        rw [Geo.GeoSet.dist, tracks.get, tracks.get]
        cases Assoc.get places m1 with
        | none => rfl
        | some p1 =>
            cases Assoc.get places m2 with
            | none => rfl
            | some p2 => rfl
      rw [read]
      change MemoryReply.distance (do
        let m1 ← InPersistentStore.asStr rt member1
        let m2 ← InPersistentStore.asStr rt member2
        pure ((set.dist sphere m1 m2).map (metersToUnit unit))) = _
      simp only [dist]

theorem Shows.geoRadius (shows' : Shows rt s atlas) (deep : 2 ≤ rt.depth) (sphere : Geo.Sphere)
    (key : Sds) (center : Geo.GeoPoint) (radius : ℚ) (unit : Str) :
    ∃ hits, InPersistentStore.geoRadius rt sphere key center radius unit s.plain =
        .ok (some hits) ∧
      hits.Perm (hitsAround sphere (atlas.places key) center radius unit) := by
  have found := shows'.storedGeoSet deep key
  rw [Atlas.places, InPersistentStore.geoRadius]
  cases known : Assoc.get atlas key with
  | none =>
      rw [known] at found
      dsimp only at found
      rw [found]
      refine ⟨[], rfl, ?_⟩
      have nothing : hitsAround sphere [] center radius unit = [] := by
        simp [hitsAround]
      rw [Option.getD_none, nothing]
  | some places =>
      rw [known] at found
      obtain ⟨set, read, tracks⟩ := found
      obtain ⟨hits, searched, perm, -⟩ := @Tracks.searchSet sphere set places tracks center radius unit
      rw [read]
      refine ⟨hits, ?_, perm⟩
      exact congrArg Except.ok searched

theorem map_inv {ε α β : Type} {f : α → β} {x : Except ε α} :
    (∀ e, x.map f = .error e → x = .error e) ∧ ∀ y, x.map f = .ok y → ∃ a, x = .ok a ∧ f a = y := by
  cases x with
  | error e =>
      constructor
      · intro e' same
        cases same
        rfl
      · intro y same
        cases same
  | ok a =>
      constructor
      · intro e same
        cases same
      · intro y same
        exact ⟨a, rfl, Except.ok.inj same⟩

theorem Shows.geoRadiusByMember (shows' : Shows rt s atlas) (deep : 2 ≤ rt.depth)
    (sphere : Geo.Sphere) (key member : Sds) (radius : ℚ) (unit : Str) :
    ∃ reply, (PlaceCall.geoRadiusByMember key member radius unit).persistent rt sphere s =
        .done reply s ∧
      SamePlaces reply (atlas.reply rt sphere (.geoRadiusByMember key member radius unit)) := by
  have center := shows'.geoPos deep key member
  rw [PlaceCall.persistent, Atlas.reply, InPersistentStore.geoRadiusByMember]
  cases known : Assoc.get atlas key with
  | none =>
      rw [known] at center
      obtain ⟨found, looked, nowhere⟩ := map_inv.2 _ center
      rw [Option.map_eq_none_iff.mp nowhere] at looked
      rw [looked]
      exact ⟨.hits (.ok []), rfl, .refl _⟩
  | some places =>
      rw [known] at center
      dsimp only at center ⊢
      cases text : InPersistentStore.asStr rt member with
      | error e =>
          rw [text] at center
          rw [map_inv.1 _ center]
          exact ⟨.hits (.error e), rfl, .refl _⟩
      | ok name =>
          rw [text] at center
          obtain ⟨found, looked, here⟩ := map_inv.2 _ center
          cases found with
          | none =>
              rw [looked, Except.map, ← here]
              exact ⟨.hits (.ok []), rfl, .refl _⟩
          | some point =>
              obtain ⟨hits, searched, perm⟩ :=
                shows'.geoRadius deep sphere key point.place radius unit
              rw [Atlas.places, known] at perm
              rw [looked, Except.map, ← here]
              refine ⟨.hits (.ok hits), ?_, .hits perm⟩
              exact congrArg (reportFound s) searched

theorem Shows.step (shows' : Shows rt s atlas) (deep : 2 ≤ rt.depth) (sphere : Geo.Sphere)
    {call : PlaceCall} (proper : call.Proper) :
    ∃ reply s', call.persistent rt sphere s = .done reply s' ∧
      SamePlaces reply (atlas.reply rt sphere call) ∧ Shows rt s' (atlas.next call) := by
  cases call with
  | geoAdd key point member =>
      obtain ⟨name, rfl, storable⟩ := proper
      obtain ⟨result, after⟩ := shows'.geoAdd deep key storable
      refine ⟨_, _, rfl, ?_, ?_⟩
      · rw [result, Atlas.reply, InPersistentStore.asStr_bytes]
        exact .refl _
      · rw [Atlas.next, Str.fromUtf8_bytes]
        exact after
  | geoPos key member =>
      refine ⟨_, s, rfl, ?_, shows'⟩
      rw [shows'.geoPos deep]
      exact .refl _
  | geoDist key member1 member2 unit =>
      refine ⟨_, s, rfl, ?_, shows'⟩
      rw [shows'.geoDist deep]
      exact .refl _
  | geoRadius key center radius unit =>
      obtain ⟨hits, found, perm⟩ := shows'.geoRadius deep sphere key center radius unit
      refine ⟨_, s, ?_, .hits perm, shows'⟩
      rw [PlaceCall.persistent, found, reportFound]
  | geoRadiusByMember key member radius unit =>
      obtain ⟨reply, found, same⟩ := shows'.geoRadiusByMember deep sphere key member radius unit
      exact ⟨reply, s, found, same, shows'⟩
  | del key =>
      obtain ⟨result, after⟩ := shows'.del key
      refine ⟨_, _, rfl, ?_, after⟩
      rw [call, writing, result]
      exact .refl _
  | rename src dst =>
      have renamed := shows'.rename src dst
      refine ⟨_, _, rfl, ?_, ?_⟩
      · rw [call, writing, Atlas.reply]
        cases known : Assoc.get atlas src with
        | none =>
            rw [known] at renamed
            rw [renamed.1]
            exact .refl _
        | some places =>
            rw [known] at renamed
            rw [renamed.1]
            exact .refl _
      · rw [Atlas.next]
        cases known : Assoc.get atlas src with
        | none =>
            rw [known] at renamed
            exact renamed.2
        | some places =>
            rw [known] at renamed
            exact renamed.2
  | flushdb =>
      obtain ⟨result, after⟩ := shows'.flushdb
      refine ⟨_, _, rfl, .refl _, after⟩
  | dbsize =>
      refine ⟨_, s, rfl, ?_, shows'⟩
      change SamePlaces (.answer (.ok (.count s.dbsize))) (.answer (.ok (.count atlas.length)))
      rw [shows'.dbsize]
      exact .refl _

end

end MeteredStore

end Zumic.Engine
