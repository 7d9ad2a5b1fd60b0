/- The cells of geohashes: points lie in the cells of their codes, centres lead back to the codes,
and the children of a cell tile it. -/

import Zumic.Database.GeoTiles

namespace Zumic.Database.Geo

open Lib.Bisection

namespace BoundingBox

/-- The points within the borders of a box. -/
def Interior (b : BoundingBox) (point : GeoPoint) : Prop :=
  (b.minLon < point.lon ∧ point.lon < b.maxLon) ∧ b.minLat < point.lat ∧ point.lat < b.maxLat

/-- The one box lies in the other. -/
structure Inside (b whole : BoundingBox) : Prop where
  west : whole.minLon ≤ b.minLon
  east : b.maxLon ≤ whole.maxLon
  south : whole.minLat ≤ b.minLat
  north : b.maxLat ≤ whole.maxLat

theorem Inside.trans {a b c : BoundingBox} (inner : a.Inside b) (outer : b.Inside c) :
    a.Inside c :=
  ⟨outer.west.trans inner.west, inner.east.trans outer.east, outer.south.trans inner.south,
    inner.north.trans outer.north⟩

/-- Boxes that fill a box, with nothing in common but their borders. -/
structure Tiles (parts : List BoundingBox) (whole : BoundingBox) : Prop where
  inside : ∀ b ∈ parts, b.Inside whole
  covers : ∀ point, whole.containsPoint point = true → ∃ b ∈ parts, b.containsPoint point = true
  apart : parts.Pairwise fun b c => ∀ point, ¬ (b.Interior point ∧ c.Interior point)

theorem containsPoint_iff (b : BoundingBox) (point : GeoPoint) : b.containsPoint point = true ↔
    (b.minLon ≤ point.lon ∧ point.lon ≤ b.maxLon) ∧
      b.minLat ≤ point.lat ∧ point.lat ≤ b.maxLat := by
  unfold containsPoint
  simp only [decide_eq_true_eq, ge_iff_le, and_assoc]

end BoundingBox

open BoundingBox

theorem GeoPoint.valid_iff (point : GeoPoint) : point.valid = true ↔
    (-180 ≤ point.lon ∧ point.lon ≤ 180) ∧ -90 ≤ point.lat ∧ point.lat ≤ 90 := by
  unfold GeoPoint.valid
  simp only [decide_eq_true_eq]

theorem containsPoint_halve {b : BoundingBox} {point : GeoPoint} (isLon : Bool)
    (inside : b.containsPoint point = true) :
    (halve isLon (inUpper isLon point b) b).containsPoint point = true := by
  rw [containsPoint_iff] at inside ⊢
  obtain ⟨⟨west, east⟩, south, north⟩ := inside
  cases isLon with
  | true =>
      by_cases upper : (b.minLon + b.maxLon) * (1 / 2) ≤ point.lon
      · have chosen : inUpper true point b = true := decide_eq_true upper
        rw [chosen]
        exact ⟨⟨upper, east⟩, south, north⟩
      · have chosen : inUpper true point b = false := decide_eq_false upper
        rw [chosen]
        exact ⟨⟨west, le_of_not_ge upper⟩, south, north⟩
  | false =>
      by_cases upper : (b.minLat + b.maxLat) * (1 / 2) ≤ point.lat
      · have chosen : inUpper false point b = true := decide_eq_true upper
        rw [chosen]
        exact ⟨⟨west, east⟩, upper, north⟩
      · have chosen : inUpper false point b = false := decide_eq_false upper
        rw [chosen]
        exact ⟨⟨west, east⟩, south, le_of_not_ge upper⟩

namespace Tile

theorem box_around {point : GeoPoint} (valid : point.valid = true) (turn : Nat) :
    (around point turn).box.containsPoint point = true := by
  obtain ⟨⟨west, east⟩, south, north⟩ := (GeoPoint.valid_iff point).mp valid
  rw [containsPoint_iff]
  exact ⟨edges_slot _ west east, edges_slot _ south north⟩

theorem box_half_inside (upper : Bool) (t : Tile) : (t.half upper).box.Inside t.box := by
  obtain ⟨turn, column, row⟩ := t
  unfold half
  dsimp only
  split
  · have lon : (turn + 1 + 1) / 2 = (turn + 1) / 2 + 1 := by omega
    have lat : (turn + 1) / 2 = turn / 2 := by omega
    have halves := @edge_half ℚ _ _ _ (-180) 180 (by norm_num) ((turn + 1) / 2) column upper
    unfold box
    dsimp only
    rw [lon, ← lat]
    exact ⟨halves.1, halves.2, le_rfl, le_rfl⟩
  · have lon : (turn + 1 + 1) / 2 = (turn + 1) / 2 := by omega
    have lat : (turn + 1) / 2 = turn / 2 + 1 := by omega
    have halves := @edge_half ℚ _ _ _ (-90) 90 (by norm_num) (turn / 2) row upper
    unfold box
    dsimp only
    rw [lon, lat]
    exact ⟨le_rfl, le_rfl, halves.1, halves.2⟩

theorem box_digit_inside (d : Nat) (t : Tile) : (t.digit d).box.Inside t.box := by
  simp only [digit, List.foldl_cons, List.foldl_nil]
  exact (((((box_half_inside _ _).trans (box_half_inside _ _)).trans (box_half_inside _ _)).trans
    (box_half_inside _ _)).trans (box_half_inside _ _))

theorem around_eq {t : Tile} (grid : t.OnGrid) {point : GeoPoint}
    (within : t.box.Interior point) : around point t.turn = t := by
  obtain ⟨⟨west, east⟩, south, north⟩ := within
  unfold around
  rw [slot_of_between (by norm_num) grid.column west.le east,
    slot_of_between (by norm_num) grid.row south.le north]

theorem exists_half {t : Tile} {point : GeoPoint} (inside : t.box.containsPoint point = true) :
    ∃ upper, (t.half upper).box.containsPoint point = true := by
  refine ⟨inUpper (t.turn % 2 = 0) point t.box, ?_⟩
  rw [box_half]
  exact containsPoint_halve _ inside

theorem exists_digit {t : Tile} {point : GeoPoint} (inside : t.box.containsPoint point = true) :
    ∃ d < 32, (t.digit d).box.containsPoint point = true := by
  obtain ⟨a, inside⟩ := exists_half inside
  obtain ⟨b, inside⟩ := exists_half inside
  obtain ⟨c, inside⟩ := exists_half inside
  obtain ⟨d, inside⟩ := exists_half inside
  obtain ⟨e, inside⟩ := exists_half inside
  have packs : ∀ a b c d e : Bool, ∃ n < 32, n.testBit 4 = a ∧ n.testBit 3 = b ∧
      n.testBit 2 = c ∧ n.testBit 1 = d ∧ n.testBit 0 = e := by decide
  obtain ⟨n, below, bit4, bit3, bit2, bit1, bit0⟩ := packs a b c d e
  refine ⟨n, below, ?_⟩
  simp only [digit, List.foldl_cons, List.foldl_nil]
  rw [bit4, bit3, bit2, bit1, bit0]
  exact inside

theorem center_interior (t : Tile) : t.box.Interior t.box.center := by
  unfold BoundingBox.Interior BoundingBox.center box
  dsimp only
  rw [edge_middle, edge_middle]
  exact ⟨edge_lt_middle (by norm_num) _ _, edge_lt_middle (by norm_num) _ _⟩

theorem interior_apart {t t' : Tile} (grid : t.OnGrid) (grid' : t'.OnGrid)
    (turn : t.turn = t'.turn) (other : t ≠ t') (point : GeoPoint) :
    ¬ (t.box.Interior point ∧ t'.box.Interior point) := by
  rintro ⟨here, there⟩
  have one := around_eq grid here
  rw [turn, around_eq grid' there] at one
  exact other one.symm

end Tile

namespace Geohash

/-- A code in lower case, of the length that is kept beside it. -/
structure Valid (h : Geohash) : Prop where
  digits : ∀ c ∈ h.hash, c ∈ base32
  length : h.hash.length = h.precision

instance (h : Geohash) : Decidable h.Valid :=
  haveI : Decidable (∀ c ∈ h.hash, c ∈ base32) := List.decidableBAll _ _
  decidable_of_iff ((∀ c ∈ h.hash, c ∈ base32) ∧ h.hash.length = h.precision)
    ⟨fun both => ⟨both.1, both.2⟩, fun valid => ⟨valid.digits, valid.length⟩⟩

theorem encodeWithChars_eq (point : GeoPoint) {n : Nat} (low : 4 ≤ n) (high : n ≤ 12) :
    encodeWithChars point n = ⟨encodeBase32 point n, n⟩ := by
  have same : max 4 (min n 12) = n := by omega
  unfold encodeWithChars
  rw [same]

theorem Valid.names {h : Geohash} (valid : h.Valid) : ∃ t, Names h.hash t :=
  names_of_digits valid.digits

theorem decodeBbox_eq {h : Geohash} {t : Tile} (names : Names h.hash t) : h.decodeBbox = t.box :=
  names.decode

theorem encode_decode {h : Geohash} (valid : h.Valid) (low : 4 ≤ h.precision)
    (high : h.precision ≤ 12) : encodeWithChars h.decode h.precision = h := by
  obtain ⟨t, names⟩ := valid.names
  have turn : h.precision * 5 = t.turn := by rw [names.turn, valid.length]
  have center : h.decode = t.box.center := by rw [decode, decodeBbox_eq names]
  have falls : Tile.around h.decode (h.precision * 5) = t := by
    rw [turn, center]
    exact Tile.around_eq names.onGrid t.center_interior
  rw [encodeWithChars_eq h.decode low high, names.encode_eq falls]

theorem decodeBbox_parent {h : Geohash} (valid : h.Valid) (longer : 1 < h.precision) :
    ∃ up, h.parent = some up ∧ h.decodeBbox.Inside up.decodeBbox := by
  obtain ⟨t, names⟩ := valid.names
  have size := valid.length
  have some : h.hash ≠ [] := by
    intro none
    rw [none] at size
    change 0 = h.precision at size
    omega
  obtain ⟨t', d, -, names', rfl⟩ := names.dropLast some
  have first : h.leading (h.precision - 1) = h.hash.dropLast := by
    rw [leading, Nat.min_eq_left (Nat.sub_le _ _), List.dropLast_eq_take, size]
  refine ⟨⟨h.hash.dropLast, h.precision - 1⟩, ?_, ?_⟩
  · rw [parent, if_neg (Nat.not_le.mpr longer), first]
  · rw [decodeBbox_eq names, @decodeBbox_eq ⟨_, _⟩ _ names']
    exact Tile.box_digit_inside d t'

theorem children_tile {h : Geohash} (valid : h.Valid) (short : h.precision < 12) :
    h.children.length = 32 ∧ Tiles (h.children.map decodeBbox) h.decodeBbox := by
  obtain ⟨t, names⟩ := valid.names
  have boxes : h.children.map decodeBbox = (List.range 32).map fun d => (t.digit d).box := by
    rw [children, if_neg (Nat.not_le.mpr short), List.map_map]
    refine List.map_congr_left fun d member => ?_
    exact (names.concat (List.mem_range.mp member)).decode
  constructor
  · rw [children, if_neg (Nat.not_le.mpr short), List.length_map, List.length_range]
  · rw [boxes, decodeBbox_eq names]
    refine ⟨fun b member => ?_, fun point inside => ?_, ?_⟩
    · obtain ⟨d, -, rfl⟩ := List.mem_map.mp member
      exact Tile.box_digit_inside d t
    · obtain ⟨d, below, inside⟩ := Tile.exists_digit inside
      exact ⟨_, List.mem_map_of_mem (List.mem_range.mpr below), inside⟩
    · rw [List.pairwise_map]
      refine List.pairwise_lt_range.imp_of_mem fun {d d'} member member' less => ?_
      have below := List.mem_range.mp member
      have below' := List.mem_range.mp member'
      refine Tile.interior_apart (names.onGrid.digit d) (names.onGrid.digit d') ?_ fun same => ?_
      · rw [Tile.turn_digit, Tile.turn_digit]
      · exact Nat.ne_of_lt less (Tile.digit_injective rfl below below' same).2

/-- The cell of a code of a point has the point, and a longer code goes on from a shorter one; the
centre of a cell leads back to its code, and a cell lies in that of its parent and is tiled by
those of its children. -/
theorem cells_nested :
    (∀ (point : GeoPoint) (n : Nat), point.valid = true → 4 ≤ n → n ≤ 12 →
      (encodeWithChars point n).decodeBbox.containsPoint point = true ∧
      ∀ m, n < m → (encodeWithChars point m).leading n = (encodeWithChars point n).hash) ∧
    ∀ h : Geohash, h.Valid → 4 ≤ h.precision → h.precision ≤ 12 →
      encodeWithChars h.decode h.precision = h ∧
      (∃ up, h.parent = some up ∧ h.decodeBbox.Inside up.decodeBbox) ∧
      (h.precision < 12 →
        h.children.length = 32 ∧ Tiles (h.children.map decodeBbox) h.decodeBbox) := by
  constructor
  · intro point n valid low high
    rw [encodeWithChars_eq point low high]
    refine ⟨?_, fun m longer => ?_⟩
    · have box := @decodeBbox_eq ⟨encodeBase32 point n, n⟩ _ (names_encode point n)
      rw [box]
      exact Tile.box_around valid _
    · have shorter : n ≤ max 4 (min m 12) := by omega
      unfold leading encodeWithChars
      dsimp only
      rw [Nat.min_eq_left shorter, take_encodeBase32 point shorter]
  · intro h valid low high
    exact ⟨encode_decode valid low high, decodeBbox_parent valid (by omega), children_tile valid⟩

/-- `s0000`, whose cell has the point where the equator crosses the prime meridian. -/
def origin : Geohash := ⟨[0x73, 0x30, 0x30, 0x30, 0x30], 5⟩

theorem cells_nested_origin :
    ((encodeWithChars ⟨0, 0⟩ 5).decodeBbox.containsPoint ⟨0, 0⟩ = true ∧
      ∀ m, 5 < m → (encodeWithChars ⟨0, 0⟩ m).leading 5 = (encodeWithChars ⟨0, 0⟩ 5).hash) ∧
    encodeWithChars origin.decode 5 = origin ∧
      (∃ up, origin.parent = some up ∧ origin.decodeBbox.Inside up.decodeBbox) ∧
      origin.children.length = 32 ∧ Tiles (origin.children.map decodeBbox) origin.decodeBbox := by
  obtain ⟨back, up, tiled⟩ := cells_nested.2 origin (by decide) (by decide) (by decide)
  have point := cells_nested.1 ⟨0, 0⟩ 5 (by decide) (by decide) (by decide)
  exact ⟨point, back, up, tiled (by decide)⟩

end Geohash

end Zumic.Database.Geo
