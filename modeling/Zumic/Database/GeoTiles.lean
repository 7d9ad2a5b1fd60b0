/- The cells of the geohashes as tiles of a grid: a digit is five halvings, by longitude and by
latitude in turn, so that a code names a column and a row. -/

import Zumic.Database.RadiusSearch
import Zumic.Lib.Bisection

namespace Zumic.Database.Geo

open Lib.Bisection Lib.ByteString

/-- A tile after some turns; the longitude is halved first. -/
structure Tile where
  turn : Nat
  column : Nat
  row : Nat
  deriving DecidableEq

namespace Tile

def root : Tile := ⟨0, 0, 0⟩

def box (t : Tile) : BoundingBox :=
  ⟨edge (-180) 180 ((t.turn + 1) / 2) t.column, edge (-180) 180 ((t.turn + 1) / 2) (t.column + 1),
    edge (-90) 90 (t.turn / 2) t.row, edge (-90) 90 (t.turn / 2) (t.row + 1)⟩

/-- The upper or the lower half. -/
def half (upper : Bool) (t : Tile) : Tile :=
  if t.turn % 2 = 0 then ⟨t.turn + 1, 2 * t.column + upper.toNat, t.row⟩
  else ⟨t.turn + 1, t.column, 2 * t.row + upper.toNat⟩

/-- The part that a digit names. -/
def digit (d : Nat) (t : Tile) : Tile :=
  [0, 1, 2, 3, 4].foldl (fun t i => t.half (d.testBit (4 - i))) t

def descend (ds : List Nat) (t : Tile) : Tile := ds.foldl (fun t d => t.digit d) t

/-- The tile that a point falls into. -/
def around (point : GeoPoint) (turn : Nat) : Tile :=
  ⟨turn, slot (-180) 180 point.lon ((turn + 1) / 2), slot (-90) 90 point.lat (turn / 2)⟩

/-- The tile is one of the grid. -/
structure OnGrid (t : Tile) : Prop where
  column : t.column < 2 ^ ((t.turn + 1) / 2)
  row : t.row < 2 ^ (t.turn / 2)

theorem box_root : root.box = globe := by
  unfold box root globe edge
  norm_num

theorem turn_half (upper : Bool) (t : Tile) : (t.half upper).turn = t.turn + 1 := by
  unfold half
  split <;> rfl

theorem turn_digit (d : Nat) (t : Tile) : (t.digit d).turn = t.turn + 5 := by
  simp only [digit, List.foldl_cons, List.foldl_nil, turn_half]

theorem turn_descend (ds : List Nat) (t : Tile) :
    (descend ds t).turn = t.turn + 5 * ds.length := by
  induction ds generalizing t with
  | nil => rfl
  | cons d ds ih =>
      change (descend ds (t.digit d)).turn = _
      rw [ih, turn_digit, List.length_cons]
      omega

theorem box_half (upper : Bool) (t : Tile) :
    (t.half upper).box = halve (t.turn % 2 = 0) upper t.box := by
  obtain ⟨turn, column, row⟩ := t
  by_cases even : turn % 2 = 0
  · have lon : (turn + 1 + 1) / 2 = (turn + 1) / 2 + 1 := by omega
    have lat : (turn + 1) / 2 = turn / 2 := by omega
    cases upper with
    | true =>
        simp only [half, halve, box, even, decide_true, if_true, edge_middle, lon, lat,
          Bool.toNat_true]
        rw [show 2 * column + 1 + 1 = 2 * (column + 1) from rfl, edge_double]
    | false =>
        simp only [half, halve, box, even, decide_true, if_true, edge_middle, lon, lat,
          Bool.toNat_false, Nat.add_zero, edge_double, Bool.false_eq_true, if_false]
  · have lon : (turn + 1 + 1) / 2 = (turn + 1) / 2 := by omega
    have lat : (turn + 1) / 2 = turn / 2 + 1 := by omega
    cases upper with
    | true =>
        simp only [half, halve, box, even, decide_false, if_true, if_false, edge_middle, lon, lat,
          Bool.toNat_true, Bool.false_eq_true]
        rw [show 2 * row + 1 + 1 = 2 * (row + 1) from rfl, edge_double]
    | false =>
        simp only [half, halve, box, even, decide_false, if_false, edge_middle, lon, lat,
          Bool.toNat_false, Nat.add_zero, edge_double, Bool.false_eq_true]

theorem OnGrid.half {t : Tile} (grid : t.OnGrid) (upper : Bool) : (t.half upper).OnGrid := by
  obtain ⟨turn, column, row⟩ := t
  obtain ⟨inside, inside'⟩ := grid
  dsimp only at inside inside'
  have bit : upper.toNat < 2 := upper.toNat_lt
  unfold Tile.half
  dsimp only
  split
  · have lon : (turn + 1 + 1) / 2 = (turn + 1) / 2 + 1 := by omega
    have lat : (turn + 1) / 2 = turn / 2 := by omega
    constructor
    · dsimp only
      rw [lon, pow_succ]
      omega
    · dsimp only
      rw [lat]
      exact inside'
  · have lon : (turn + 1 + 1) / 2 = (turn + 1) / 2 := by omega
    have lat : (turn + 1) / 2 = turn / 2 + 1 := by omega
    constructor
    · dsimp only
      rw [lon]
      exact inside
    · dsimp only
      rw [lat, pow_succ]
      omega

theorem OnGrid.digit {t : Tile} (grid : t.OnGrid) (d : Nat) : (t.digit d).OnGrid := by
  simp only [Tile.digit, List.foldl_cons, List.foldl_nil]
  exact ((((grid.half _).half _).half _).half _).half _

theorem OnGrid.descend {t : Tile} (grid : t.OnGrid) (ds : List Nat) :
    (descend ds t).OnGrid := by
  induction ds generalizing t with
  | nil => exact grid
  | cons d ds ih => exact ih (grid.digit d)

theorem onGrid_root : root.OnGrid := ⟨Nat.one_pos, Nat.one_pos⟩

theorem bit_ext : ∀ {b b' : Bool}, b.toNat = b'.toNat → b = b' := by decide

theorem half_injective {t t' : Tile} {upper upper' : Bool} (turn : t.turn = t'.turn)
    (same : t.half upper = t'.half upper') : t = t' ∧ upper = upper' := by
  obtain ⟨n, column, row⟩ := t
  obtain ⟨n', column', row'⟩ := t'
  obtain rfl : n = n' := turn
  unfold half at same
  dsimp only at same
  have bits : upper.toNat < 2 ∧ upper'.toNat < 2 := ⟨upper.toNat_lt, upper'.toNat_lt⟩
  split at same
  · obtain ⟨-, columns, rows⟩ := Tile.mk.inj same
    have equal : column = column' := by omega
    have bit : upper.toNat = upper'.toNat := by omega
    exact ⟨by rw [equal, rows], bit_ext bit⟩
  · obtain ⟨-, columns, rows⟩ := Tile.mk.inj same
    have equal : row = row' := by omega
    have bit : upper.toNat = upper'.toNat := by omega
    exact ⟨by rw [equal, columns], bit_ext bit⟩

theorem digit_ext {d d' : Nat} (below : d < 32) (below' : d' < 32)
    (bits : ∀ i < 5, d.testBit i = d'.testBit i) : d = d' := by
  refine Nat.eq_of_testBit_eq fun i => ?_
  by_cases low : i < 5
  · exact bits i low
  · have large : 32 ≤ 2 ^ i := Nat.pow_le_pow_right Nat.two_pos (Nat.not_lt.mp low)
    rw [Nat.testBit_lt_two_pow (below.trans_le large),
      Nat.testBit_lt_two_pow (below'.trans_le large)]

theorem digit_injective {t t' : Tile} {d d' : Nat} (turn : t.turn = t'.turn) (below : d < 32)
    (below' : d' < 32) (same : t.digit d = t'.digit d') : t = t' ∧ d = d' := by
  simp only [digit, List.foldl_cons, List.foldl_nil] at same
  obtain ⟨same, bit0⟩ := half_injective (by simp only [turn_half, turn]) same
  obtain ⟨same, bit1⟩ := half_injective (by simp only [turn_half, turn]) same
  obtain ⟨same, bit2⟩ := half_injective (by simp only [turn_half, turn]) same
  obtain ⟨same, bit3⟩ := half_injective (by simp only [turn_half, turn]) same
  obtain ⟨same, bit4⟩ := half_injective turn same
  refine ⟨same, digit_ext below below' fun i low => ?_⟩
  match i, low with
  | 0, _ => exact bit0
  | 1, _ => exact bit1
  | 2, _ => exact bit2
  | 3, _ => exact bit3
  | 4, _ => exact bit4

theorem descend_injective {ds ds' : List Nat} (size : ds.length = ds'.length)
    (below : ∀ d ∈ ds, d < 32) (below' : ∀ d ∈ ds', d < 32) {t t' : Tile}
    (turn : t.turn = t'.turn) (same : descend ds t = descend ds' t') : t = t' ∧ ds = ds' := by
  induction ds generalizing ds' t t' with
  | nil =>
      obtain rfl := List.length_eq_zero_iff.mp size.symm
      exact ⟨same, rfl⟩
  | cons d ds ih =>
      cases ds' with
      | nil => cases size
      | cons d' ds' =>
          have turn' : (t.digit d).turn = (t'.digit d').turn := by
            rw [turn_digit, turn_digit, turn]
          obtain ⟨first, rfl⟩ := ih (Nat.succ.inj size)
            (fun e member => below e (List.mem_cons_of_mem _ member))
            (fun e member => below' e (List.mem_cons_of_mem _ member)) turn' same
          obtain ⟨rfl, rfl⟩ := digit_injective turn (below d List.mem_cons_self)
            (below' d' List.mem_cons_self) first
          exact ⟨rfl, rfl⟩

section

variable (point : GeoPoint)

/-- Whether a point falls into the upper half of its tile. -/
def rises (turn : Nat) : Bool := inUpper (turn % 2 = 0) point (around point turn).box

theorem around_half (turn : Nat) :
    (around point turn).half (rises point turn) = around point (turn + 1) := by
  by_cases even : turn % 2 = 0
  · have lon : (turn + 1 + 1) / 2 = (turn + 1) / 2 + 1 := by omega
    have lat : (turn + 1) / 2 = turn / 2 := by omega
    simp only [around, half, rises, inUpper, box, even, decide_true, if_true, edge_middle, lon,
      slot, lat]
  · have lon : (turn + 1 + 1) / 2 = (turn + 1) / 2 := by omega
    have lat : (turn + 1) / 2 = turn / 2 + 1 := by omega
    simp only [around, half, rises, inUpper, box, even, decide_false, if_false, edge_middle, lon,
      slot, lat, Bool.false_eq_true]

theorem box_around_succ (turn : Nat) : (around point (turn + 1)).box =
    halve (turn % 2 = 0) (rises point turn) (around point turn).box := by
  rw [← around_half, box_half]
  rfl

/-- The bits of a digit after some of its five steps. -/
def packed (bits : Nat → Bool) : Nat → Nat
  | 0 => 0
  | i + 1 => if bits i then packed bits i ||| 1 <<< (4 - i) else packed bits i

theorem packed_five (bits : Nat → Bool) : packed bits 5 < 32 ∧ (packed bits 5).testBit 4 = bits 0 ∧
    (packed bits 5).testBit 3 = bits 1 ∧ (packed bits 5).testBit 2 = bits 2 ∧
    (packed bits 5).testBit 1 = bits 3 ∧ (packed bits 5).testBit 0 = bits 4 := by
  simp only [packed]
  generalize bits 0 = a
  generalize bits 1 = b
  generalize bits 2 = c
  generalize bits 3 = d
  generalize bits 4 = e
  revert a b c d e
  decide

/-- The digit of a point from a turn on. -/
def digitOf (turn : Nat) : Nat := packed (fun i => rises point (turn + i)) 5

theorem digitOf_lt (turn : Nat) : digitOf point turn < 32 := (packed_five _).1

theorem around_digit (turn : Nat) :
    (around point turn).digit (digitOf point turn) = around point (turn + 5) := by
  obtain ⟨-, bit4, bit3, bit2, bit1, bit0⟩ := packed_five fun i => rises point (turn + i)
  simp only [digit, List.foldl_cons, List.foldl_nil]
  unfold digitOf
  rw [bit4, bit3, bit2, bit1, bit0]
  simp only [Nat.add_zero, around_half, Nat.add_assoc, Nat.reduceAdd]

/-- The state of the encoder within a digit. -/
def within (turn : Nat) (hash : Bytes) (i : Nat) : Encoding :=
  ⟨(around point (turn + i)).box, hash, packed (fun i => rises point (turn + i)) i, turn + i⟩

theorem step_within {turn i : Nat} (aligned : turn % 5 = 0) (inner : i < 4) (hash : Bytes) :
    (within point turn hash i).step point = within point turn hash (i + 1) := by
  have place : (turn + i) % 5 = i := by omega
  have inside : ¬ (turn + i + 1) % 5 = 0 := by omega
  unfold within Encoding.step
  dsimp only
  rw [if_neg inside, place]
  change _ = (⟨(around point (turn + i + 1)).box, _, _, _⟩ : Encoding)
  rw [box_around_succ point (turn + i)]
  rfl

theorem step_last {turn : Nat} (aligned : turn % 5 = 0) (hash : Bytes) :
    (within point turn hash 4).step point =
      ⟨(around point (turn + 5)).box, hash ++ [base32.getD (digitOf point turn) 0], 0,
        turn + 5⟩ := by
  have place : (turn + 4) % 5 = 4 := by omega
  have done : (turn + 4 + 1) % 5 = 0 := by omega
  unfold within Encoding.step
  dsimp only
  rw [if_pos done, place]
  change _ = (⟨(around point (turn + 4 + 1)).box, _, _, _⟩ : Encoding)
  rw [box_around_succ point (turn + 4)]
  rfl

theorem steps_digit {turn : Nat} (aligned : turn % 5 = 0) (hash : Bytes) :
    (Encoding.step point)^[5] ⟨(around point turn).box, hash, 0, turn⟩ =
      ⟨(around point (turn + 5)).box, hash ++ [base32.getD (digitOf point turn) 0], 0,
        turn + 5⟩ := by
  have start : (⟨(around point turn).box, hash, 0, turn⟩ : Encoding) = within point turn hash 0 :=
    rfl
  simp only [Function.iterate_succ_apply, Function.iterate_zero_apply]
  rw [start, step_within point aligned (by omega), step_within point aligned (by omega),
    step_within point aligned (by omega), step_within point aligned (by omega),
    step_last point aligned]

/-- The digits of a point. -/
def digits (chars : Nat) : List Nat := (List.range chars).map fun i => digitOf point (i * 5)

theorem steps_digits (chars : Nat) : (Encoding.step point)^[chars * 5] ⟨globe, [], 0, 0⟩ =
    ⟨(around point (chars * 5)).box, (digits point chars).map fun d => base32.getD d 0, 0,
      chars * 5⟩ := by
  induction chars with
  | zero =>
      rw [← box_root]
      rfl
  | succ chars ih =>
      have aligned : chars * 5 % 5 = 0 := Nat.mul_mod_left chars 5
      unfold digits at ih ⊢
      rw [Nat.succ_mul, Nat.add_comm, Function.iterate_add_apply, ih, steps_digit point aligned,
        Nat.add_comm 5, List.range_succ, List.map_append, List.map_append]
      rfl

theorem descend_digits (chars : Nat) :
    descend (digits point chars) root = around point (chars * 5) := by
  induction chars with
  | zero => rfl
  | succ chars ih =>
      unfold descend digits at ih ⊢
      rw [List.range_succ, List.map_append, List.foldl_append, ih, List.map_singleton,
        List.foldl_cons, List.foldl_nil, around_digit, Nat.succ_mul]

end

theorem decodeDigit_box (d : Nat) (t : Tile) :
    Geohash.decodeDigit d (t.box, t.turn) = ((t.digit d).box, (t.digit d).turn) := by
  simp only [Geohash.decodeDigit, digit, List.foldl_cons, List.foldl_nil, box_half, turn_half]

theorem base32Rev_getD : ∀ d < 32, base32Rev (base32.getD d 0) = some d := by decide

theorem decodeLoop_codes {ds : List Nat} (below : ∀ d ∈ ds, d < 32) (t : Tile) :
    Geohash.decodeLoop (ds.map fun d => base32.getD d 0) (t.box, t.turn) = (descend ds t).box := by
  induction ds generalizing t with
  | nil => rfl
  | cons d ds ih =>
      rw [List.map_cons, Geohash.decodeLoop, base32Rev_getD d (below d List.mem_cons_self)]
      dsimp only
      rw [decodeDigit_box, ih fun e member => below e (List.mem_cons_of_mem _ member)]
      rfl

end Tile

/-- The code names the tile. -/
def Names (hash : Bytes) (t : Tile) : Prop :=
  ∃ ds : List Nat, (∀ d ∈ ds, d < 32) ∧ ds.map (fun d => base32.getD d 0) = hash ∧
    Tile.descend ds .root = t

section

open Tile

variable {hash hash' : Bytes} {t t' : Tile}

theorem Names.decode (names : Names hash t) : Geohash.decodeLoop hash (globe, 0) = t.box := by
  obtain ⟨ds, below, rfl, rfl⟩ := names
  rw [← box_root]
  exact decodeLoop_codes below root

theorem Names.turn (names : Names hash t) : t.turn = hash.length * 5 := by
  obtain ⟨ds, below, rfl, rfl⟩ := names
  rw [turn_descend, List.length_map]
  change 0 + _ = _
  omega

theorem Names.onGrid (names : Names hash t) : t.OnGrid := by
  obtain ⟨ds, below, rfl, rfl⟩ := names
  exact onGrid_root.descend ds

theorem Names.unique (names : Names hash t) (names' : Names hash' t) : hash = hash' := by
  have size : hash.length = hash'.length := by
    have one := names.turn
    have other := names'.turn
    omega
  obtain ⟨ds, below, rfl, same⟩ := names
  obtain ⟨ds', below', rfl, same'⟩ := names'
  rw [List.length_map, List.length_map] at size
  obtain ⟨-, rfl⟩ := descend_injective size below below' rfl (same.trans same'.symm)
  rfl

theorem Names.same (names : Names hash t) (names' : Names hash t') : t = t' := by
  have reads : ∀ {ds : List Nat}, (∀ d ∈ ds, d < 32) →
      (ds.map fun d => base32.getD d 0).map base32Rev = ds.map some := by
    intro ds below
    rw [List.map_map]
    exact List.map_congr_left fun d member => base32Rev_getD d (below d member)
  obtain ⟨ds, below, rfl, rfl⟩ := names
  obtain ⟨ds', below', code, rfl⟩ := names'
  have equal : ds.map some = ds'.map some := by rw [← reads below, ← reads below', code]
  rw [List.map_injective_iff.mpr (Option.some_injective Nat) equal]

theorem names_of_digits (digits : ∀ c ∈ hash, c ∈ base32) : ∃ t, Names hash t := by
  have known : ∀ c ∈ base32, ∃ d < 32, base32.getD d 0 = c := by decide +kernel
  have read : ∃ ds : List Nat, (∀ d ∈ ds, d < 32) ∧ ds.map (fun d => base32.getD d 0) = hash := by
    induction hash with
    | nil => exact ⟨[], nofun, rfl⟩
    | cons c rest ih =>
        obtain ⟨d, small, rfl⟩ := known c (digits c List.mem_cons_self)
        obtain ⟨ds, below, rfl⟩ := ih fun e member => digits e (List.mem_cons_of_mem _ member)
        exact ⟨d :: ds, List.forall_mem_cons.mpr ⟨small, below⟩, rfl⟩
  obtain ⟨ds, below, same⟩ := read
  exact ⟨_, ds, below, same, rfl⟩

theorem Names.digits (names : Names hash t) : ∀ c ∈ hash, c ∈ base32 := by
  have known : ∀ d < 32, base32.getD d 0 ∈ base32 := by decide
  obtain ⟨ds, below, rfl, rfl⟩ := names
  intro c member
  obtain ⟨d, listed, rfl⟩ := List.mem_map.mp member
  exact known d (below d listed)

theorem names_encode (point : GeoPoint) (chars : Nat) :
    Names (encodeBase32 point chars) (around point (chars * 5)) := by
  refine ⟨Tile.digits point chars, fun d member => ?_, ?_, descend_digits point chars⟩
  · obtain ⟨i, -, rfl⟩ := List.mem_map.mp member
    exact digitOf_lt point _
  · rw [encodeBase32, steps_digits]

theorem Names.encode_eq (names : Names hash t) {point : GeoPoint} {chars : Nat}
    (falls : around point (chars * 5) = t) : encodeBase32 point chars = hash :=
  (falls ▸ names_encode point chars).unique names

theorem Names.concat (names : Names hash t) {d : Nat} (below : d < 32) :
    Names (hash ++ [base32.getD d 0]) (t.digit d) := by
  obtain ⟨ds, below', rfl, rfl⟩ := names
  refine ⟨ds ++ [d], ?_, List.map_append, ?_⟩
  · exact List.forall_mem_append.mpr ⟨below', List.forall_mem_singleton.mpr below⟩
  · unfold descend
    rw [List.foldl_append]
    rfl

/-- Without its last digit a code names the tile of which it named a part. -/
theorem Names.dropLast (names : Names hash t) (some : hash ≠ []) :
    ∃ (t' : Tile) (d : Nat), d < 32 ∧ Names hash.dropLast t' ∧ t'.digit d = t := by
  obtain ⟨ds, below, rfl, rfl⟩ := names
  rcases List.eq_nil_or_concat ds with rfl | ⟨before, d, rfl⟩
  · exact absurd rfl some
  · rw [List.concat_eq_append] at below ⊢
    obtain ⟨below, last⟩ := List.forall_mem_append.mp below
    refine ⟨descend before root, d, last d List.mem_cons_self, ⟨before, below, ?_, rfl⟩, ?_⟩
    · rw [List.map_append, List.map_singleton, List.dropLast_concat]
    · unfold descend
      rw [List.foldl_append]
      rfl

/-- A shorter code of a point is the beginning of a longer one. -/
theorem take_encodeBase32 (point : GeoPoint) {n m : Nat} (shorter : n ≤ m) :
    (encodeBase32 point m).take n = encodeBase32 point n := by
  unfold encodeBase32
  rw [steps_digits, steps_digits]
  dsimp only
  unfold Tile.digits
  rw [← List.map_take, ← List.map_take, List.take_range, Nat.min_eq_left shorter]

end

end Zumic.Database.Geo
