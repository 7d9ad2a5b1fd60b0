/- Geohashes (`geo_hash.rs`), which are cells of the globe, and sets of named points with their
indexes (`geo_base.rs`). -/

import Zumic.Database.Nearest

namespace Zumic.Database.Geo

open Lib Lib.ByteString Lib.Utf8

/-- `0123456789bcdefghjkmnpqrstuvwxyz` -/
def base32 : Bytes := [0x30, 0x31, 0x32, 0x33, 0x34, 0x35, 0x36, 0x37, 0x38, 0x39, 0x62, 0x63, 0x64,
  0x65, 0x66, 0x67, 0x68, 0x6A, 0x6B, 0x6D, 0x6E, 0x70, 0x71, 0x72, 0x73, 0x74, 0x75, 0x76, 0x77,
  0x78, 0x79, 0x7A]

/-- The value of a digit; the table of the source also knows the digits without their bit `0x20`. -/
def base32Rev (c : UInt8) : Option Nat :=
  (base32.findIdx? fun d => d = c).or (base32.findIdx? fun d => d &&& ~~~0x20 = c)

inductive GeohashPrecision where
  | veryLow
  | low
  | medium
  | high
  | veryHigh
  | ultraHigh
  | precise
  | veryPrecise
  | ultraPrecise
  deriving DecidableEq

namespace GeohashPrecision

def chars : GeohashPrecision → Nat
  | veryLow => 4
  | low => 5
  | medium => 6
  | high => 7
  | veryHigh => 8
  | ultraHigh => 9
  | precise => 10
  | veryPrecise => 11
  | ultraPrecise => 12

def fromRadius (radius : ℚ) : GeohashPrecision :=
  if 10000 < radius then veryLow
  else if 2500 < radius then low
  else if 600 < radius then medium
  else if 80 < radius then high
  else if 20 < radius then veryHigh
  else if 5 / 2 < radius then ultraHigh
  else if 3 / 5 < radius then precise
  else if 3 / 40 < radius then veryPrecise
  else ultraPrecise

end GeohashPrecision

/-- The loop of `encode_base32`: the cell so far, the digits, and the bits of the next digit. -/
structure Encoding where
  cell : BoundingBox
  hash : Bytes
  bits : Nat
  bitCount : Nat

/-- The whole globe. -/
def globe : BoundingBox := ⟨-180, 180, -90, 90⟩

/-- Halves a cell, by longitude or by latitude, and keeps the upper or the lower half. -/
def halve (isLon upper : Bool) (cell : BoundingBox) : BoundingBox :=
  if isLon then
    let mid := (cell.minLon + cell.maxLon) * (1 / 2)
    if upper then { cell with minLon := mid } else { cell with maxLon := mid }
  else
    let mid := (cell.minLat + cell.maxLat) * (1 / 2)
    if upper then { cell with minLat := mid } else { cell with maxLat := mid }

/-- Whether a point lies in the upper half of a cell. -/
def inUpper (isLon : Bool) (point : GeoPoint) (cell : BoundingBox) : Bool :=
  if isLon then (cell.minLon + cell.maxLon) * (1 / 2) ≤ point.lon
  else (cell.minLat + cell.maxLat) * (1 / 2) ≤ point.lat

def Encoding.step (point : GeoPoint) (e : Encoding) : Encoding :=
  let isLon := e.bitCount % 2 = 0
  let upper := inUpper isLon point e.cell
  let bits := if upper then e.bits ||| 1 <<< (4 - e.bitCount % 5) else e.bits
  let bitCount := e.bitCount + 1
  if bitCount % 5 = 0 then
    ⟨halve isLon upper e.cell, e.hash ++ [base32.getD bits 0], 0, bitCount⟩
  else ⟨halve isLon upper e.cell, e.hash, bits, bitCount⟩

def encodeBase32 (point : GeoPoint) (chars : Nat) : Bytes :=
  ((Encoding.step point)^[chars * 5] ⟨globe, [], 0, 0⟩).hash

structure Geohash where
  hash : Bytes
  precision : Nat
  deriving DecidableEq

namespace Geohash

def encodeWithChars (point : GeoPoint) (chars : Nat) : Geohash :=
  let chars := max 4 (min chars 12)
  ⟨encodeBase32 point chars, chars⟩

def encode (point : GeoPoint) (precision : GeohashPrecision) : Geohash :=
  encodeWithChars point precision.chars

/-- The bits of a digit, the highest first, halve the cell in turn. -/
def decodeDigit (idx : Nat) (state : BoundingBox × Nat) : BoundingBox × Nat :=
  [0, 1, 2, 3, 4].foldl (fun state i =>
    (halve (state.2 % 2 = 0) (idx.testBit (4 - i)) state.1, state.2 + 1)) state

/-- `decode_bbox`, which stops at what is no digit. -/
def decodeLoop : Bytes → BoundingBox × Nat → BoundingBox
  | [], state => state.1
  | c :: rest, state =>
      match base32Rev c with
      | none => state.1
      | some idx => decodeLoop rest (decodeDigit idx state)

def decodeBbox (g : Geohash) : BoundingBox := decodeLoop g.hash (globe, 0)

def decode (g : Geohash) : GeoPoint := g.decodeBbox.center

/-- `prefix` -/
def leading (g : Geohash) (len : Nat) : Bytes := g.hash.take (min len g.precision)

def parent (g : Geohash) : Option Geohash :=
  if g.precision ≤ 1 then none else some ⟨g.leading (g.precision - 1), g.precision - 1⟩

def children (g : Geohash) : List Geohash :=
  if 12 ≤ g.precision then []
  else (List.range 32).map fun i => ⟨g.hash ++ [base32.getD i 0], g.precision + 1⟩

inductive Direction where
  | north
  | south
  | east
  | west
  deriving DecidableEq

/-- The centre of the cell next to a cell; it may lie beyond the globe. -/
def Direction.shift (direction : Direction) (bbox : BoundingBox) : GeoPoint :=
  let cellWidth := bbox.maxLon - bbox.minLon
  let cellHeight := bbox.maxLat - bbox.minLat
  let center := bbox.center
  match direction with
  | north => ⟨center.lon, center.lat + cellHeight⟩
  | south => ⟨center.lon, center.lat - cellHeight⟩
  | east => ⟨center.lon + cellWidth, center.lat⟩
  | west => ⟨center.lon - cellWidth, center.lat⟩

def neighbor (g : Geohash) (direction : Direction) : Geohash :=
  encodeWithChars (direction.shift g.decodeBbox) g.precision

def allNeighbors (g : Geohash) : List Geohash :=
  [g.neighbor .north, g.neighbor .south, g.neighbor .east, g.neighbor .west]

end Geohash

/-- All hashes of a length with a prefix, in the order of the digits. -/
def generateRanges : Nat → Bytes → List Bytes
  | 0, hash => [hash]
  | missing + 1, hash => base32.flatMap fun ch => generateRanges missing (hash ++ [ch])

/-- The digits that two hashes share at their beginning. -/
def commonPrefix : Bytes → Bytes → Bytes
  | a :: rest, b :: rest' => if a = b then a :: commonPrefix rest rest' else []
  | _, _ => []

def geohashRangesForBbox (bbox : BoundingBox) (precision : GeohashPrecision) : List Bytes :=
  let sw := encodeBase32 ⟨bbox.minLon, bbox.minLat⟩ precision.chars
  let ne := encodeBase32 ⟨bbox.maxLon, bbox.maxLat⟩ precision.chars
  let shared := commonPrefix sw ne
  if sw = ne then [sw]
  else if shared = [] then [[]]
  else generateRanges (precision.chars - shared.length) shared

structure RadiusOptions where
  useGeohash : Bool
  geohashPrecision : Option GeohashPrecision
  includeNeighbors : Bool

def RadiusOptions.default : RadiusOptions := ⟨true, none, true⟩

structure GeoSet where
  rtree : RTree
  memberIndex : List (Str × GeoPoint)
  /-- The members of each cell of seven digits. -/
  geohashIndex : List (Bytes × List Str)
  needsRebuild : Bool

/-- `refine_bit` on one of the two coordinates. -/
def refineBit (isLon : Bool) (point : GeoPoint) (s : UInt64 × BoundingBox) : UInt64 × BoundingBox :=
  let upper := inUpper isLon point s.2
  (s.1 <<< 1 ||| (if upper then 1 else 0), halve isLon upper s.2)

def encodeGeohashBits (point : GeoPoint) : UInt64 :=
  ((fun s => refineBit false point (refineBit true point s))^[26] (0, globe)).1

/-- `validate_coords` -/
def GeoPoint.valid (point : GeoPoint) : Bool :=
  (-180 ≤ point.lon ∧ point.lon ≤ 180) ∧ (-90 ≤ point.lat ∧ point.lat ≤ 90)

/-- The entry of a member at a point. -/
def entryAt (p : Str × GeoPoint) : GeoEntry := ⟨p.1, p.2, encodeGeohashBits p.2⟩

/-- The cell under which a point is indexed. -/
def cellOf (point : GeoPoint) : Bytes := (Geohash.encode point .high).hash

/-- Adds a member to its cell. -/
def indexMember (index : List (Bytes × List Str)) (p : Str × GeoPoint) : List (Bytes × List Str) :=
  Assoc.insert index (cellOf p.2) ((Assoc.get index (cellOf p.2)).getD [] ++ [p.1])

/-- `radius_to_bbox`: a degree is taken for 111 km on the equator. -/
def radiusToBbox (sphere : Sphere) (center : GeoPoint) (radius : ℚ) : BoundingBox :=
  let latDelta := radius / 111000
  let lonDelta := radius / (111000 * max |sphere.cos center.lat| (1 / 100))
  ⟨max (center.lon - lonDelta) (-180), min (center.lon + lonDelta) 180,
    max (center.lat - latDelta) (-90), min (center.lat + latDelta) 90⟩

namespace GeoSet

def new : GeoSet := ⟨.new, [], [], false⟩

def get (set : GeoSet) (member : Str) : Option GeoPoint := Assoc.get set.memberIndex member

def len (set : GeoSet) : Nat := set.memberIndex.length

/-- Only a member that is new goes into the cells; every call adds an entry to the tree. -/
def add (set : GeoSet) (member : Str) (point : GeoPoint) : GeoSet :=
  if point.valid then
    let memberIndex := Assoc.insert set.memberIndex member point
    let rtree := set.rtree.insert (entryAt (member, point))
    match set.get member with
    | some oldPoint =>
        ⟨rtree, memberIndex, set.geohashIndex, set.needsRebuild || decide (oldPoint ≠ point)⟩
    | none => ⟨rtree, memberIndex, indexMember set.geohashIndex (member, point), set.needsRebuild⟩
  else set

def rebuildIndex (set : GeoSet) : GeoSet :=
  if set.needsRebuild then
    ⟨.bulkLoad (set.memberIndex.map entryAt), set.memberIndex,
      set.memberIndex.foldl indexMember [], false⟩
  else set

section

variable (sphere : Sphere)

def dist (set : GeoSet) (m1 m2 : Str) : Option ℚ := do
  let p1 ← set.get m1
  let p2 ← set.get m2
  return sphere.haversineDistance p1 p2

/-- What the exact filter does with a candidate: its distance, when that is no more than the
radius. -/
def within (center : GeoPoint) (radius : ℚ) (member : Str) (point : GeoPoint) : Option (Str × ℚ) :=
  if sphere.haversineDistance center point ≤ radius then
    some (member, sphere.haversineDistance center point)
  else none

/-- The members of a cell. -/
def inCell (set : GeoSet) (cell : Geohash) : List Str :=
  (Assoc.get set.geohashIndex cell.hash).getD []

/-- The cells that are looked at: that of the centre and, where they are asked for, its
neighbours. -/
def searchCells (center : GeoPoint) (radius : ℚ) (options : RadiusOptions) : List Geohash :=
  let precision := options.geohashPrecision.getD (.fromRadius radius)
  let centerGh := Geohash.encode center precision
  centerGh :: if options.includeNeighbors then centerGh.allNeighbors else []

def radiusWithGeohash (set : GeoSet) (center : GeoPoint) (radius : ℚ) (options : RadiusOptions) :
    List (Str × ℚ) :=
  ((searchCells center radius options).flatMap set.inCell).filterMap fun member =>
    (set.get member).bind (within sphere center radius member)

/-- The results, and the set, whose indexes may have been rebuilt. -/
def radiusWithOptions (set : GeoSet) (center : GeoPoint) (radius : ℚ) (options : RadiusOptions) :
    List (Str × ℚ) × GeoSet :=
  if center.valid then
    let set := set.rebuildIndex
    if options.useGeohash then (set.radiusWithGeohash sphere center radius options, set)
    else ((set.rtree.rangeQuery (radiusToBbox sphere center radius)).filterMap fun entry =>
      within sphere center radius entry.member entry.point, set)
  else ([], set)

def radius (set : GeoSet) (center : GeoPoint) (radius : ℚ) : List (Str × ℚ) × GeoSet :=
  set.radiusWithOptions sphere center radius .default

/-- Whether the current point of a member lies in a box. -/
def locatedIn (set : GeoSet) (bbox : BoundingBox) (member : Str) : Bool :=
  (set.get member).any bbox.containsPoint

/-- The members of the cells with a prefix that lie in a box. -/
def membersIn (set : GeoSet) (bbox : BoundingBox) (rangePrefix : Bytes) : List Str :=
  set.geohashIndex.flatMap fun cell =>
    if rangePrefix.isPrefixOf cell.1 then cell.2.filter (set.locatedIn bbox) else []

def bboxQuery (set : GeoSet) (bbox : BoundingBox) : List Str :=
  (geohashRangesForBbox bbox .medium).flatMap (set.membersIn bbox)

def nearest (set : GeoSet) (point : GeoPoint) (k : Nat) : List (Str × ℚ) :=
  if ¬ point.valid ∨ k = 0 then []
  else (set.rtree.knn sphere point k).map fun r => (r.1.member, r.2)

/-- One neighbour more is looked for, since the member itself is among them. -/
def nearestByMember (set : GeoSet) (member : Str) (k : Nat) : Option (List (Str × ℚ)) := do
  let point ← set.get member
  return ((set.nearest sphere point (k + 1)).filter fun r => r.1 ≠ member).take k

end

end GeoSet

end Zumic.Database.Geo
