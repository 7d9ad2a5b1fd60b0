/- The neighbours of a cell: the next tiles of the grid, which has an edge in the east and in the
west, too. -/

import Zumic.Database.GeohashCells

namespace Zumic.Database.Geo

open Lib.Bisection

open Geohash (Direction)

def Geohash.Direction.opposite : Direction → Direction
  | .north => .south
  | .south => .north
  | .east => .west
  | .west => .east

namespace BoundingBox

/-- The second box is next to the first one; in the east of the last meridian is the first. -/
def Adjacent (b b' : BoundingBox) : Direction → Prop
  | .north => b'.minLat = b.maxLat ∧ b'.minLon = b.minLon ∧ b'.maxLon = b.maxLon
  | .south => b'.maxLat = b.minLat ∧ b'.minLon = b.minLon ∧ b'.maxLon = b.maxLon
  | .east => (b'.minLon = b.maxLon ∨ b.maxLon = 180 ∧ b'.minLon = -180) ∧
      b'.minLat = b.minLat ∧ b'.maxLat = b.maxLat
  | .west => (b'.maxLon = b.minLon ∨ b.minLon = -180 ∧ b'.maxLon = 180) ∧
      b'.minLat = b.minLat ∧ b'.maxLat = b.maxLat

/-- Beyond the box is a pole. -/
def AtPole (b : BoundingBox) : Direction → Prop
  | .north => b.maxLat = 90
  | .south => b.minLat = -90
  | _ => False

/-- Beyond the box is the meridian where the longitudes wrap around. -/
def AtSeam (b : BoundingBox) : Direction → Prop
  | .east => b.maxLon = 180
  | .west => b.minLon = -180
  | _ => False

end BoundingBox

namespace Tile

/-- The next tile of the grid, or the tile itself where there is none. -/
def step (t : Tile) : Direction → Tile
  | .north => { t with row := min (t.row + 1) (2 ^ (t.turn / 2) - 1) }
  | .south => { t with row := t.row - 1 }
  | .east => { t with column := min (t.column + 1) (2 ^ ((t.turn + 1) / 2) - 1) }
  | .west => { t with column := t.column - 1 }

theorem around_shift {t : Tile} (grid : t.OnGrid) (direction : Direction) :
    around (direction.shift t.box) t.turn = t.step direction := by
  have proper : (-180 : ℚ) < 180 := by norm_num
  have proper' : (-90 : ℚ) < 90 := by norm_num
  obtain ⟨turn, column, row⟩ := t
  obtain ⟨inside, inside'⟩ := grid
  cases direction with
  | north =>
      simp only [around, Direction.shift, BoundingBox.center, box, step,
        slot_middle proper inside, slot_above proper' inside']
  | south =>
      simp only [around, Direction.shift, BoundingBox.center, box, step,
        slot_middle proper inside, slot_below proper' inside']
  | east =>
      simp only [around, Direction.shift, BoundingBox.center, box, step,
        slot_above proper inside, slot_middle proper' inside']
  | west =>
      simp only [around, Direction.shift, BoundingBox.center, box, step,
        slot_below proper inside, slot_middle proper' inside']

/-- The tile is the last one of the grid. -/
def AtEdge (t : Tile) : Direction → Prop
  | .north => t.row + 1 = 2 ^ (t.turn / 2)
  | .south => t.row = 0
  | .east => t.column + 1 = 2 ^ ((t.turn + 1) / 2)
  | .west => t.column = 0

/-- The grid ends at the poles and where the longitudes wrap around. -/
theorem atEdge_iff (t : Tile) (direction : Direction) :
    t.AtEdge direction ↔ t.box.AtPole direction ∨ t.box.AtSeam direction := by
  have proper : (-180 : ℚ) < 180 := by norm_num
  have proper' : (-90 : ℚ) < 90 := by norm_num
  cases direction with
  | north => exact (edge_eq_high proper' _ _).symm.trans (or_iff_left id).symm
  | south => exact (edge_eq_low proper' _ _).symm.trans (or_iff_left id).symm
  | east => exact (edge_eq_high proper _ _).symm.trans (or_iff_right id).symm
  | west => exact (edge_eq_low proper _ _).symm.trans (or_iff_right id).symm

theorem step_eq_iff {t : Tile} (grid : t.OnGrid) (direction : Direction) :
    t.step direction = t ↔ t.AtEdge direction := by
  obtain ⟨turn, column, row⟩ := t
  obtain ⟨inside, inside'⟩ := grid
  dsimp only at inside inside'
  cases direction with
  | north =>
      simp only [step, AtEdge, Tile.mk.injEq, true_and]
      omega
  | south =>
      simp only [step, AtEdge, Tile.mk.injEq, true_and]
      omega
  | east =>
      simp only [step, AtEdge, Tile.mk.injEq, true_and, and_true]
      omega
  | west =>
      simp only [step, AtEdge, Tile.mk.injEq, true_and, and_true]
      omega

theorem step_opposite {t : Tile} (grid : t.OnGrid) {direction : Direction}
    (within : ¬ t.AtEdge direction) : (t.step direction).step direction.opposite = t := by
  obtain ⟨turn, column, row⟩ := t
  obtain ⟨inside, inside'⟩ := grid
  dsimp only at inside inside'
  cases direction with
  | north =>
      simp only [step, AtEdge, Direction.opposite, Tile.mk.injEq, true_and] at within ⊢
      omega
  | south =>
      simp only [step, AtEdge, Direction.opposite, Tile.mk.injEq, true_and] at within ⊢
      omega
  | east =>
      simp only [step, AtEdge, Direction.opposite, Tile.mk.injEq, true_and, and_true] at within ⊢
      omega
  | west =>
      simp only [step, AtEdge, Direction.opposite, Tile.mk.injEq, true_and, and_true] at within ⊢
      omega

theorem box_step {t : Tile} (grid : t.OnGrid) {direction : Direction}
    (within : ¬ t.AtEdge direction) : t.box.Adjacent (t.step direction).box direction := by
  obtain ⟨turn, column, row⟩ := t
  obtain ⟨inside, inside'⟩ := grid
  dsimp only at inside inside'
  cases direction with
  | north =>
      have next : min (row + 1) (2 ^ (turn / 2) - 1) = row + 1 := by
        simp only [AtEdge] at within
        omega
      simp only [BoundingBox.Adjacent, step, box, next, and_self]
  | south =>
      have next : row - 1 + 1 = row := Nat.succ_pred within
      simp only [BoundingBox.Adjacent, step, box, next, and_self]
  | east =>
      have next : min (column + 1) (2 ^ ((turn + 1) / 2) - 1) = column + 1 := by
        simp only [AtEdge] at within
        omega
      simp only [BoundingBox.Adjacent, step, box, next, and_self, true_or]
  | west =>
      have next : column - 1 + 1 = column := Nat.succ_pred within
      simp only [BoundingBox.Adjacent, step, box, next, and_self, true_or]

end Tile

namespace Geohash

/-- What is promised of a neighbour: a code of the same length for the adjacent cell, from which
there is a way back; beyond the poles there is no other than the cell itself. -/
structure Meets (h : Geohash) (direction : Direction) : Prop where
  valid : (h.neighbor direction).Valid ∧ (h.neighbor direction).precision = h.precision
  adjacent : ¬ h.decodeBbox.AtPole direction →
    h.decodeBbox.Adjacent (h.neighbor direction).decodeBbox direction
  differs : ¬ h.decodeBbox.AtPole direction → h.neighbor direction ≠ h
  back : ¬ h.decodeBbox.AtPole direction →
    (h.neighbor direction).neighbor direction.opposite = h
  beyond : h.decodeBbox.AtPole direction → h.neighbor direction = h

section

variable {h : Geohash} {t : Tile}

theorem names_neighbor (valid : h.Valid) (low : 4 ≤ h.precision) (high : h.precision ≤ 12)
    (names : Names h.hash t) (direction : Direction) :
    (h.neighbor direction).Valid ∧ (h.neighbor direction).precision = h.precision ∧
      Names (h.neighbor direction).hash (t.step direction) := by
  have turn : h.precision * 5 = t.turn := by rw [names.turn, valid.length]
  have next : h.neighbor direction =
      ⟨encodeBase32 (direction.shift t.box) h.precision, h.precision⟩ := by
    rw [neighbor, decodeBbox_eq names, encodeWithChars_eq _ low high]
  have named := names_encode (direction.shift t.box) h.precision
  rw [turn, Tile.around_shift names.onGrid] at named
  rw [next]
  exact ⟨⟨named.digits, length_encodeBase32 _ _⟩, rfl, named⟩

theorem eq_of_names {h' : Geohash} (precision : h'.precision = h.precision)
    (names : Names h.hash t) (names' : Names h'.hash t) : h' = h := by
  obtain ⟨hash, n⟩ := h
  obtain ⟨hash', n'⟩ := h'
  obtain rfl : n' = n := precision
  obtain rfl : hash' = hash := names'.unique names
  rfl

theorem neighbor_atPole (valid : h.Valid) (low : 4 ≤ h.precision) (high : h.precision ≤ 12)
    {direction : Direction} (pole : h.decodeBbox.AtPole direction) : h.neighbor direction = h := by
  obtain ⟨t, names⟩ := valid.names
  obtain ⟨-, precision, names'⟩ := names_neighbor valid low high names direction
  rw [decodeBbox_eq names] at pole
  have edge := (t.atEdge_iff direction).mpr (.inl pole)
  rw [(Tile.step_eq_iff names.onGrid direction).mpr edge] at names'
  exact eq_of_names precision names names'

/-- For every code and direction: the neighbour is what it is meant to be unless the cell ends
where the longitudes wrap around. There the neighbour is the cell itself. -/
theorem neighbor_meets_iff (h : Geohash) (valid : h.Valid) (low : 4 ≤ h.precision)
    (high : h.precision ≤ 12) (direction : Direction) :
    h.Meets direction ↔ ¬ h.decodeBbox.AtSeam direction := by
  obtain ⟨t, names⟩ := valid.names
  obtain ⟨valid', precision, names'⟩ := names_neighbor valid low high names direction
  have grid := names.onGrid
  have edge := t.atEdge_iff direction
  have box := decodeBbox_eq names
  constructor
  · intro meets seam
    rw [box] at seam
    have pole : ¬ t.box.AtPole direction := by
      cases direction with
      | north => exact seam.elim
      | south => exact seam.elim
      | east => exact id
      | west => exact id
    rw [(Tile.step_eq_iff grid direction).mpr (edge.mpr (.inr seam))] at names'
    exact meets.differs (box ▸ pole) (eq_of_names precision names names')
  · intro noSeam
    rw [box] at noSeam
    have within : ¬ t.box.AtPole direction → ¬ t.AtEdge direction := fun noPole atEdge =>
      (edge.mp atEdge).elim noPole noSeam
    refine ⟨⟨valid', precision⟩, fun noPole => ?_, fun noPole same => ?_, fun noPole => ?_,
      neighbor_atPole valid low high⟩
    · rw [box, decodeBbox_eq names']
      exact Tile.box_step grid (within (box ▸ noPole))
    · rw [same] at names'
      exact within (box ▸ noPole) ((Tile.step_eq_iff grid direction).mp (names'.same names))
    · obtain ⟨-, precision', names''⟩ := names_neighbor valid' (precision ▸ low)
        (precision ▸ high) names' direction.opposite
      rw [Tile.step_opposite grid (within (box ▸ noPole))] at names''
      exact eq_of_names (precision'.trans precision) names names''

theorem neighbor_meets_origin : origin.Meets .east := by
  have ends : origin.decodeBbox.maxLon ≠ 180 := by decide +kernel
  exact (neighbor_meets_iff origin (by decide) (by decide) (by decide) .east).mpr ends

/-- `xbpb`, whose cell ends at the last meridian. -/
def eastmost : Geohash := ⟨[0x78, 0x62, 0x70, 0x62], 4⟩

theorem eastmost_fails : eastmost.Valid ∧ eastmost.decodeBbox.maxLon = 180 ∧
    eastmost.neighbor .east = eastmost ∧
    ¬ eastmost.decodeBbox.Adjacent (eastmost.neighbor .east).decodeBbox .east := by
  have same : eastmost.neighbor .east = eastmost := by decide +kernel
  have ends : eastmost.decodeBbox.maxLon = 180 := by decide +kernel
  have begins : eastmost.decodeBbox.minLon ≠ 180 ∧ eastmost.decodeBbox.minLon ≠ -180 := by
    decide +kernel
  refine ⟨by decide, ends, same, ?_⟩
  rw [same]
  rintro ⟨next | ⟨-, around⟩, -⟩
  · exact begins.1 (next.trans ends)
  · exact begins.2 around

end

end Geohash

end Zumic.Database.Geo
