/- The in-memory store (`memory.rs`). Coordinates and distances are rational numbers; a coordinate
that is no number is out of range like any other. -/

import Zumic.Database.RadiusSearch
import Zumic.Engine.Storage

namespace Zumic.Engine

open Database Lib Lib.Utf8

/-- The geographic index of a store; its distances are computed in floating point and are not
modelled. -/
structure GeoIndex (γ : Type) where
  add : Sds → F64 → F64 → Sds → StoreM γ Bool
  dist : Sds → Sds → Sds → Str → StoreRead γ (Option F64)
  pos : Sds → Sds → StoreRead γ (Option GeoPoint)
  radius : Sds → F64 → F64 → F64 → Str → StoreM γ (List (Str × F64 × GeoPoint))

/-- An index that never holds a point. -/
def GeoIndex.empty : GeoIndex Unit where
  add _ _ _ _ g := (.ok false, g)
  dist _ _ _ _ _ := .ok none
  pos _ _ _ := .ok none
  radius _ _ _ _ _ g := (.ok [], g)

structure InMemoryStore (γ : Type) where
  data : List (Sds × Value)
  geo : γ
  rng : Rng

namespace InMemoryStore

variable {γ : Type}

def new (geo : γ) (rng : Rng) : InMemoryStore γ := ⟨[], geo, rng⟩

def set (key : Sds) (value : Value) : StoreM (InMemoryStore γ) Unit := fun s =>
  (.ok (), { s with data := Assoc.insert s.data key value })

def get (key : Sds) : StoreRead (InMemoryStore γ) (Option Value) := fun s =>
  .ok (Assoc.get s.data key)

def del (key : Sds) : StoreM (InMemoryStore γ) Bool := fun s =>
  (.ok (Assoc.get s.data key).isSome, { s with data := Assoc.erase s.data key })

def mset (entries : List (Sds × Value)) : StoreM (InMemoryStore γ) Unit := fun s =>
  (.ok (), { s with data := entries.foldl (fun data e => Assoc.insert data e.1 e.2) s.data })

def mget (keys : List Sds) : StoreRead (InMemoryStore γ) (List (Option Value)) := fun s =>
  .ok (keys.map (Assoc.get s.data))

def rename (src dst : Sds) : StoreM (InMemoryStore γ) Unit := fun s =>
  match Assoc.get s.data src with
  | some value =>
      (.ok (), { s with data := Assoc.insert (Assoc.erase s.data src) dst value })
  | none => (.error .keyNotFound, s)

def renamenx (src dst : Sds) : StoreM (InMemoryStore γ) Bool := fun s =>
  if (Assoc.get s.data dst).isSome then (.ok false, s)
  else
    match Assoc.get s.data src with
    | some value =>
        (.ok true, { s with data := Assoc.insert (Assoc.erase s.data src) dst value })
    | none => (.error .keyNotFound, s)

def flushdb : StoreM (InMemoryStore γ) Unit := fun s => (.ok (), { s with data := [] })

/-- The members of the hash set of a key, none when there is no such key. -/
def members (command : String) (s : InMemoryStore γ) (key : Sds) : Except StoreError (List Sds) :=
  match Assoc.get s.data key with
  | some (.set members) => .ok members
  | some _ => .error (.wrongType (Str.lit (command ++ ": key is not a set")))
  | none => .ok []

def sadd (key : Sds) (added : List Sds) : StoreM (InMemoryStore γ) Nat := fun s =>
  match s.members "SADD" key with
  | .ok members =>
      let (members, count) := addMembers members added
      (.ok count, { s with data := Assoc.insert s.data key (.set members) })
  | .error e => (.error e, s)

def smembers (key : Sds) : StoreRead (InMemoryStore γ) (List Sds) := fun s =>
  s.members "SMEMBERS" key

def scard (key : Sds) : StoreRead (InMemoryStore γ) Nat := fun s =>
  (s.members "SCARD" key).map List.length

def sismember (key member : Sds) : StoreRead (InMemoryStore γ) Bool := fun s =>
  (s.members "SISMEMBER" key).map fun members => decide (member ∈ members)

/-- The store after a hash set was reduced: an empty one goes with its key. -/
def keep (s : InMemoryStore γ) (key : Sds) (members : List Sds) : InMemoryStore γ :=
  if members = [] then { s with data := Assoc.erase s.data key }
  else { s with data := Assoc.insert s.data key (.set members) }

def srem (key : Sds) (removed : List Sds) : StoreM (InMemoryStore γ) Nat := fun s =>
  match s.members "SREM" key with
  | .ok members =>
      let (members, count) := removeMembers members removed
      (.ok count, s.keep key members)
  | .error e => (.error e, s)

def srandmember (key : Sds) (count : Int64) : StoreM (InMemoryStore γ) (List Sds) := fun s =>
  match s.members "SRANDMEMBER" key with
  | .ok members =>
      let (chosen, rng) := randomMembers members count s.rng
      (.ok chosen, { s with rng := rng })
  | .error e => (.error e, s)

def spop (key : Sds) (count : Int64) : StoreM (InMemoryStore γ) (List Sds) := fun s =>
  match s.members "SPOP" key with
  | .ok members =>
      let (out, members, rng) := popMembers (popCount count) members s.rng
      (.ok out, keep { s with rng := rng } key members)
  | .error e => (.error e, s)

def dbsize : StoreRead (InMemoryStore γ) Nat := fun s => .ok s.data.length

/-- Runs a call of the geographic index on its part of the store. -/
def onGeo {α : Type} (call : StoreM γ α) : StoreM (InMemoryStore γ) α := fun s =>
  let (r, geo) := call s.geo
  (r, { s with geo := geo })

/-- The store behind the interface. -/
def storage (geo : GeoIndex γ) : Storage (InMemoryStore γ) where
  set := set
  get := get
  del := del
  mset := mset
  mget := mget
  rename := rename
  renamenx := renamenx
  flushdb := flushdb
  geoAdd key lon lat member := onGeo (geo.add key lon lat member)
  geoDist key member1 member2 unit s := geo.dist key member1 member2 unit s.geo
  geoPos key member s := geo.pos key member s.geo
  geoRadius key lon lat radius unit := onGeo (geo.radius key lon lat radius unit)
  sadd := sadd
  smembers := smembers
  scard := scard
  sismember := sismember
  srem := srem
  srandmember := srandmember
  spop := spop

end InMemoryStore

section

variable (unit : Str)

/-- A radius in metres. -/
def radiusToMeters (radius : ℚ) : ℚ :=
  if unit = Str.lit "km" then radius * 1000
  else if unit = Str.lit "mi" then radius * (1609344 / 1000)
  else if unit = Str.lit "ft" then radius / (328084 / 100000)
  else radius

/-- A distance in metres, in another unit. -/
def metersToUnit (meters : ℚ) : ℚ :=
  if unit = Str.lit "km" then meters / 1000
  else if unit = Str.lit "mi" then meters / (1609344 / 1000)
  else if unit = Str.lit "ft" then meters * (328084 / 100000)
  else meters

/-- The conversion of `geo_dist`. -/
def distToUnit (meters : ℚ) : ℚ :=
  if unit = Str.lit "km" then meters / 1000
  else if unit = Str.lit "mi" then meters / (1609344 / 1000)
  else if unit = Str.lit "ft" then meters / (328084 / 100000)
  else meters

end

/-- A list of bytes as `{:?}` shows it. -/
def debugBytes : Sds → Str
  | [] => Str.lit "]"
  | [byte] => Str.ofNat byte.toNat ++ Str.lit "]"
  | byte :: rest => Str.ofNat byte.toNat ++ Str.lit ", " ++ debugBytes rest

/-- `to_string` of a byte string: its text or, when it has none, its bytes. -/
def displaySds (b : Sds) : Str :=
  match Str.fromUtf8 b with
  | some text => text
  | none => Str.lit "[" ++ debugBytes b

abbrev GeoHit := Str × ℚ × Geo.GeoPoint

variable (sphere : Geo.Sphere)

/-- The members within a radius, with their points; a member without a point would be a panic. -/
def searchSet (set : Geo.GeoSet) (center : Geo.GeoPoint) (radius : ℚ) (unit : Str) :
    Option (List GeoHit) × Geo.GeoSet :=
  let found := set.radius sphere center (radiusToMeters unit radius)
  (found.1.mapM fun hit => (found.2.get hit.1).map fun point =>
    (hit.1, metersToUnit unit hit.2, point), found.2)

theorem isSome_mapM {α β : Type} {f : α → Option β} {l : List α}
    (each : ∀ x ∈ l, (f x).isSome = true) : ∃ l', l.mapM f = some l' := by
  induction l with
  | nil => exact ⟨[], rfl⟩
  | cons x l ih =>
      obtain ⟨y, here⟩ := Option.isSome_iff_exists.mp (each x List.mem_cons_self)
      obtain ⟨l', others⟩ := ih fun x' member => each x' (List.mem_cons_of_mem x member)
      refine ⟨y :: l', ?_⟩
      rw [List.mapM_cons, here, others]
      rfl

theorem isSome_get_radius {set : Geo.GeoSet} {center : Geo.GeoPoint} {radius : ℚ} {hit : Str × ℚ}
    (found : hit ∈ (set.radius sphere center radius).1) :
    ((set.radius sphere center radius).2.get hit.1).isSome = true := by
  unfold Geo.GeoSet.radius Geo.GeoSet.radiusWithOptions at found ⊢
  by_cases valid : center.valid = true
  · rw [if_pos valid] at found ⊢
    obtain ⟨member, _, bound⟩ := List.mem_filterMap.mp found
    obtain ⟨point, known, near⟩ := Option.bind_eq_some_iff.mp bound
    unfold Geo.GeoSet.within at near
    split at near
    · obtain rfl := Option.some.inj near
      exact Option.isSome_iff_exists.mpr ⟨point, known⟩
    · cases near
  · rw [if_neg valid] at found
    cases found

theorem searchSet_some (set : Geo.GeoSet) (center : Geo.GeoPoint) (radius : ℚ) (unit : Str) :
    ∃ hits, (searchSet sphere set center radius unit).1 = some hits := by
  apply isSome_mapM
  intro hit found
  rw [Option.isSome_map]
  exact isSome_get_radius sphere found

end Zumic.Engine
