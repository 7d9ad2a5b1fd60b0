/- The geographic queries of the persistent store (`persistent.rs`), with distances in rational
numbers, and what the geographic sets of a store are for: names with places, under keys. -/

import Zumic.Engine.MemoryCalls
import Zumic.Engine.PersistentGeo
import Zumic.Lib.F64Arith

namespace Zumic.Engine

open Database Lib Lib.ByteString Lib.Guards Lib.Utf8 Zdb

/-- The place that two doubles stand for. -/
def GeoPoint.place (point : GeoPoint) : Geo.GeoPoint := ⟨point.lon.toRat, point.lat.toRat⟩

theorem between_iff {f low high : F64} {bound : ℚ} (number : low.isNaN = false)
    (number' : high.isNaN = false) (lowest : low.toRat = -bound) (highest : high.toRat = bound)
    (positive : 0 ≤ bound) :
    (!f.isNaN && decide (low.orderKey ≤ f.orderKey) && decide (f.orderKey ≤ high.orderKey)) = true ↔
      -bound ≤ f.toRat ∧ f.toRat ≤ bound := by
  rw [← highest]
  cases none' : f.isNaN with
  | true =>
      have beyond := F64.abs_toRat_lt_of_isNaN number' none'
      rw [highest, abs_of_nonneg positive] at beyond
      rw [highest]
      simp only [Bool.not_true, Bool.false_and, Bool.false_eq_true, false_iff]
      exact fun inside => absurd (abs_le.mpr inside) (not_le.mpr beyond)
  | false =>
      rw [highest, ← lowest, F64.toRat_le_iff number none', ← highest,
        F64.toRat_le_iff none' number']
      simp

theorem toRat_ofInt :
    (F64.ofInt 180).toRat = 180 ∧ (F64.ofInt (-180)).toRat = -180 ∧ (F64.ofInt 90).toRat = 90 ∧
      (F64.ofInt (-90)).toRat = -90 := by
  have fractions : (F64.ofInt 180).fraction = (180 * 2 ^ 45, 2 ^ 45) ∧
      (F64.ofInt (-180)).fraction = (-(180 * 2 ^ 45), 2 ^ 45) ∧
      (F64.ofInt 90).fraction = (90 * 2 ^ 46, 2 ^ 46) ∧
      (F64.ofInt (-90)).fraction = (-(90 * 2 ^ 46), 2 ^ 46) := by decide +kernel
  obtain ⟨east, west, north, south⟩ := fractions
  rw [F64.toRat, F64.toRat, F64.toRat, F64.toRat, east, west, north, south]
  norm_num

theorem valid_place (point : GeoPoint) :
    point.place.valid = InPersistentStore.validateCoords point.lon point.lat := by
  obtain ⟨east, west, north, south⟩ := toRat_ofInt
  have lon := @between_iff point.lon _ _ _ (by decide +kernel) (by decide +kernel) west east
    (by norm_num)
  have lat := @between_iff point.lat _ _ _ (by decide +kernel) (by decide +kernel) south north
    (by norm_num)
  rw [Bool.eq_iff_iff, InPersistentStore.validateCoords, Bool.and_eq_true, Geo.GeoPoint.valid,
    decide_eq_true_iff]
  exact and_congr lon.symm lat.symm

namespace InPersistentStore

variable (rt : Runtime)

/-- The set of the stored records, up to the first one that cannot be read. -/
def readGeoSet (version : FormatVersion) : Nat → Bytes → Geo.GeoSet → Except StoreError Geo.GeoSet
  | 0, _, set => .ok set
  | fuel + 1, b, set =>
      match streamNext version rt.zstd rt.depth b with
      | .ok (some (member, .array [.float lon, .float lat]), rest) => do
          let member ← asStr rt member
          readGeoSet version fuel rest (set.add member (GeoPoint.place ⟨lon, lat⟩))
      | .ok (some _, rest) => readGeoSet version fuel rest set
      | _ => .ok set

def storedGeoSet (s : InPersistentStore) (key : Sds) : Except StoreError (Option Geo.GeoSet) :=
  match s.index.get key with
  | none => .ok none
  | some raw =>
      match streamHeader raw with
      | .error e => .error (.io (rt.decodeText e))
      | .ok (version, rest) => (readGeoSet rt version raw.length rest .new).map some

variable (sphere : Geo.Sphere)

def geoDist (key member1 member2 : Sds) (unit : Str) : StoreRead InPersistentStore (Option ℚ) :=
  fun s => do
    match ← storedGeoSet rt s key with
    | none => pure none
    | some set =>
        let m1 ← asStr rt member1
        let m2 ← asStr rt member2
        pure ((set.dist sphere m1 m2).map (metersToUnit unit))

/-- The members within a radius; a member without a point would be a panic. -/
def geoRadius (key : Sds) (center : Geo.GeoPoint) (radius : ℚ) (unit : Str) :
    StoreRead InPersistentStore (Option (List GeoHit)) := fun s => do
  match ← storedGeoSet rt s key with
  | none => pure (some [])
  | some set => pure (searchSet sphere set center radius unit).1

def geoRadiusByMember (key member : Sds) (radius : ℚ) (unit : Str) :
    StoreRead InPersistentStore (Option (List GeoHit)) := fun s => do
  match ← geoPos rt key member s with
  | some center => geoRadius rt sphere key center.place radius unit s
  | none => pure (some [])

end InPersistentStore

theorem eq_none_of_rel {α β : Type} {r : α → β → Prop} {a : Option α}
    (rel : Option.Rel r a none) : a = none := by
  cases rel
  rfl

theorem exists_of_rel {α β : Type} {r : α → β → Prop} {a : Option α} {y : β}
    (rel : Option.Rel r a (some y)) : ∃ x, a = some x ∧ r x y := by
  cases rel with
  | some related => exact ⟨_, rfl, related⟩

abbrev Places := List (Str × Geo.GeoPoint)

/-- The calls on geographic sets, and those on keys that may stand among them. -/
inductive PlaceCall where
  | geoAdd (key : Sds) (point : GeoPoint) (member : Sds)
  | geoPos (key member : Sds)
  | geoDist (key member1 member2 : Sds) (unit : Str)
  | geoRadius (key : Sds) (center : Geo.GeoPoint) (radius : ℚ) (unit : Str)
  | geoRadiusByMember (key member : Sds) (radius : ℚ) (unit : Str)
  | del (key : Sds)
  | rename (src dst : Sds)
  | flushdb
  | dbsize

/-- An addition gives a text of fewer than 128 bytes and coordinates in range. -/
def PlaceCall.Proper : PlaceCall → Prop
  | geoAdd _ point member => ∃ name : Str, member = name.bytes ∧
      InPersistentStore.Storable (name, point)
  | _ => True

abbrev PlaceReply := MemoryReply Unit

/-- Replies that differ only in the order of what a search found. -/
inductive SamePlaces : PlaceReply → PlaceReply → Prop
  | refl (r : PlaceReply) : SamePlaces r r
  | hits {a b : List GeoHit} (perm : a.Perm b) : SamePlaces (.hits (.ok a)) (.hits (.ok b))

theorem SamePlaces.symm {a b : PlaceReply} (same : SamePlaces a b) : SamePlaces b a := by
  cases same with
  | refl => exact .refl a
  | hits perm => exact .hits perm.symm

theorem SamePlaces.trans {a b c : PlaceReply} (same : SamePlaces a b) (same' : SamePlaces b c) :
    SamePlaces a c := by
  cases same with
  | refl => exact same'
  | hits perm => cases same' with
    | refl => exact .hits perm
    | hits perm' => exact .hits (perm.trans perm')

section

variable (sphere : Geo.Sphere)

/-- The places that a search looks at: those in the cells around the centre. -/
def hitsAround (places : Places) (center : Geo.GeoPoint) (radius : ℚ) (unit : Str) :
    List GeoHit :=
  if center.valid then
    ((Geo.searchHashes center (.fromRadius (radiusToMeters unit radius))).flatMap fun hash =>
      (places.filter fun p => sphere.haversineDistance center p.2 ≤ radiusToMeters unit radius).filter
        fun p => Geo.cellOf p.2 = hash).map fun p =>
          (p.1, metersToUnit unit (sphere.haversineDistance center p.2), p.2)
  else []

theorem hitsAround_perm {places places' : Places} (perm : places.Perm places')
    (center : Geo.GeoPoint) (radius : ℚ) (unit : Str) :
    (hitsAround sphere places center radius unit).Perm
      (hitsAround sphere places' center radius unit) := by
  unfold hitsAround
  split
  · apply List.Perm.map
    exact List.Perm.flatMap_left _ fun hash _ => (perm.filter _).filter _
  · exact List.Perm.refl _

theorem mapM_map {α β γ : Type} {l : List α} {f : α → β} {g : β → Option γ} {k : α → γ}
    (each : ∀ x ∈ l, g (f x) = some (k x)) : (l.map f).mapM g = some (l.map k) := by
  induction l with
  | nil => rfl
  | cons x l ih =>
      rw [List.map_cons, List.mapM_cons, each x List.mem_cons_self,
        ih fun y member => each y (List.mem_cons_of_mem x member)]
      rfl

/-- How a set of the store stands to its places. -/
def Tracks (set : Geo.GeoSet) (places : Places) : Prop :=
  ∃ h : Geo.History, set.Agrees h ∧ set.Indexed h ∧ h.points.Perm places

variable {sphere} {set : Geo.GeoSet} {places : Places}

theorem Tracks.get (tracks : Tracks set places) (name : Str) :
    set.get name = Assoc.get places name := by
  obtain ⟨h, agrees, -, perm⟩ := tracks
  rw [Geo.GeoSet.get, agrees.members, Assoc.get_of_perm perm agrees.distinct]

theorem Tracks.add (tracks : Tracks set places) {point : Geo.GeoPoint}
    (valid : point.valid = true) (name : Str) :
    Tracks (set.add name point) (Assoc.insert places name point) := by
  obtain ⟨h, agrees, indexed, perm⟩ := tracks
  refine ⟨h.add name point, agrees.add name point, indexed.add agrees name point, ?_⟩
  rw [Geo.History.add, if_pos valid]
  exact Assoc.insert_perm perm agrees.distinct name point

theorem tracks_new : Tracks .new [] :=
  ⟨.new, Geo.GeoSet.agrees_new, fun _ _ => rfl, List.Perm.refl _⟩

theorem Tracks.searchSet (tracks : Tracks set places) (center : Geo.GeoPoint) (radius : ℚ)
    (unit : Str) : ∃ hits, (searchSet sphere set center radius unit).1 = some hits ∧
      hits.Perm (hitsAround sphere places center radius unit) ∧
      Tracks (searchSet sphere set center radius unit).2 places := by
  obtain ⟨h, agrees, indexed, perm⟩ := tracks
  by_cases valid : center.valid = true
  · have after : (set.radius sphere center (radiusToMeters unit radius)).2 = set.rebuildIndex := by
      rw [Geo.GeoSet.radius, Geo.GeoSet.radiusWithOptions_snd, if_pos valid]
    have points : h.rebuilt.points = h.points := by
      unfold Geo.History.rebuilt
      split <;> rfl
    refine ⟨hitsAround sphere h.points center radius unit, ?_,
      hitsAround_perm sphere perm center radius unit, h.rebuilt, ?_, ?_, ?_⟩
    · rw [Engine.searchSet]
      dsimp only
      rw [Geo.GeoSet.radius_eq agrees indexed valid, after, hitsAround, if_pos valid]
      apply mapM_map
      intro p found
      obtain ⟨hash, -, found⟩ := List.mem_flatMap.mp found
      have member := List.mem_of_mem_filter (List.mem_of_mem_filter found)
      have known : set.rebuildIndex.get p.1 = some p.2 := by
        rw [Geo.GeoSet.get, agrees.rebuildIndex.members, points]
        exact Assoc.get_of_mem agrees.distinct member
      rw [known]
      rfl
    · rw [Engine.searchSet, after]
      exact agrees.rebuildIndex
    · rw [Engine.searchSet, after]
      exact indexed.rebuildIndex agrees
    · rw [points]
      exact perm
  · have nothing : set.radius sphere center (radiusToMeters unit radius) = ([], set) := by
      rw [Geo.GeoSet.radius, Geo.GeoSet.radiusWithOptions, if_neg valid]
    refine ⟨[], ?_, ?_, h, ?_, ?_, perm⟩
    · rw [Engine.searchSet, nothing]
      rfl
    · rw [hitsAround, if_neg valid]
    · rw [Engine.searchSet, nothing]
      exact agrees
    · rw [Engine.searchSet, nothing]
      exact indexed

end

abbrev Atlas := List (Sds × Places)

namespace Atlas

variable (rt : Runtime) (sphere : Geo.Sphere)

def places (atlas : Atlas) (key : Sds) : Places := (Assoc.get atlas key).getD []

def next (atlas : Atlas) : PlaceCall → Atlas
  | .geoAdd key point member =>
      match Str.fromUtf8 member with
      | some name => Assoc.insert atlas key (Assoc.insert (atlas.places key) name point.place)
      | none => atlas
  | .del key => Assoc.erase atlas key
  | .rename src dst =>
      match Assoc.get atlas src with
      | some places => Assoc.insert (Assoc.erase atlas src) dst places
      | none => atlas
  | .flushdb => []
  | _ => atlas

/-- The reply to a call; a member that is no text is refused where there is a set. -/
def reply (atlas : Atlas) : PlaceCall → PlaceReply
  | .geoAdd key _ member => .geoAdded ((InPersistentStore.asStr rt member).map fun name =>
      (Assoc.get (atlas.places key) name).isNone)
  | .geoPos key member => .position (
      match Assoc.get atlas key with
      | some places => (InPersistentStore.asStr rt member).map (Assoc.get places)
      | none => .ok none)
  | .geoDist key member1 member2 unit => .distance (
      match Assoc.get atlas key with
      | some places => do
          let m1 ← InPersistentStore.asStr rt member1
          let m2 ← InPersistentStore.asStr rt member2
          pure (do
            let p1 ← Assoc.get places m1
            let p2 ← Assoc.get places m2
            return metersToUnit unit (sphere.haversineDistance p1 p2))
      | none => .ok none)
  | .geoRadius key center radius unit =>
      .hits (.ok (hitsAround sphere (atlas.places key) center radius unit))
  | .geoRadiusByMember key member radius unit => .hits (
      match Assoc.get atlas key with
      | some places => (InPersistentStore.asStr rt member).map fun name =>
          match Assoc.get places name with
          | some center => hitsAround sphere places center radius unit
          | none => []
      | none => .ok [])
  | .del key => .answer (.ok (.flag (Assoc.get atlas key).isSome))
  | .rename src _ => .answer (
      match Assoc.get atlas src with
      | some _ => .ok .done
      | none => .error .keyNotFound)
  | .flushdb => .answer (.ok .done)
  | .dbsize => .answer (.ok (.count atlas.length))

end Atlas

end Zumic.Engine
