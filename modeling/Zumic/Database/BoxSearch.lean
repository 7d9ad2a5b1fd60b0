/- The search for the members in a box: the beginning that the codes of two corners share is shared
by all that lies between them. -/

import Zumic.Database.GeohashCells

namespace Zumic.Database.Geo

open Lib Lib.Bisection Lib.ByteString Lib.Utf8

theorem commonPrefix_prefix (a b : Bytes) : commonPrefix a b <+: a ∧ commonPrefix a b <+: b := by
  induction a generalizing b with
  | nil => exact ⟨List.nil_prefix, List.nil_prefix⟩
  | cons x a ih =>
      cases b with
      | nil => exact ⟨List.nil_prefix, List.nil_prefix⟩
      | cons y b =>
          rw [commonPrefix]
          split
          · rename_i same
            subst same
            obtain ⟨one, other⟩ := ih b
            exact ⟨List.cons_prefix_cons.mpr ⟨rfl, one⟩, List.cons_prefix_cons.mpr ⟨rfl, other⟩⟩
          · exact ⟨List.nil_prefix, List.nil_prefix⟩

theorem mem_generateRanges (hash : Bytes) {tail : Bytes} (digits : ∀ c ∈ tail, c ∈ base32) :
    hash ++ tail ∈ generateRanges tail.length hash := by
  induction tail generalizing hash with
  | nil => exact List.mem_singleton.mpr (List.append_nil hash)
  | cons c tail ih =>
      refine List.mem_flatMap.mpr ⟨c, digits c List.mem_cons_self, ?_⟩
      have found := ih (hash ++ [c]) fun d member => digits d (List.mem_cons_of_mem _ member)
      rw [List.append_assoc] at found
      exact found

section

variable {low high point : GeoPoint}

theorem around_between (lon : low.lon ≤ point.lon ∧ point.lon ≤ high.lon)
    (lat : low.lat ≤ point.lat ∧ point.lat ≤ high.lat) {turn : Nat}
    (same : Tile.around low turn = Tile.around high turn) :
    Tile.around point turn = Tile.around low turn := by
  obtain ⟨-, columns, rows⟩ := Tile.mk.inj same
  have proper : (-180 : ℚ) < 180 := by norm_num
  have proper' : (-90 : ℚ) < 90 := by norm_num
  have column := Nat.le_antisymm
    ((slot_le_slot proper lon.2 ((turn + 1) / 2)).trans_eq columns.symm)
    (slot_le_slot proper lon.1 ((turn + 1) / 2))
  have row := Nat.le_antisymm ((slot_le_slot proper' lat.2 (turn / 2)).trans_eq rows.symm)
    (slot_le_slot proper' lat.1 (turn / 2))
  unfold Tile.around
  rw [column, row]

/-- What the codes of the corners share, the code of a point between them begins with. -/
theorem prefix_between (lon : low.lon ≤ point.lon ∧ point.lon ≤ high.lon)
    (lat : low.lat ≤ point.lat ∧ point.lat ≤ high.lat) {shared : Bytes} {n m : Nat}
    (longer : n ≤ m) (first : shared <+: encodeBase32 low n)
    (second : shared <+: encodeBase32 high n) : shared <+: encodeBase32 point m := by
  have size : shared.length ≤ n := first.length_le.trans_eq (length_encodeBase32 low n)
  have low' : encodeBase32 low shared.length = shared := by
    rw [← take_encodeBase32 low size]
    exact (List.prefix_iff_eq_take.mp first).symm
  have high' : encodeBase32 high shared.length = shared := by
    rw [← take_encodeBase32 high size]
    exact (List.prefix_iff_eq_take.mp second).symm
  have names : Names shared (Tile.around low (shared.length * 5)) := by
    have own := names_encode low shared.length
    rwa [low'] at own
  have names' : Names shared (Tile.around high (shared.length * 5)) := by
    have own := names_encode high shared.length
    rwa [high'] at own
  have here := names.encode_eq (around_between lon lat (names.same names'))
  rw [List.prefix_iff_eq_take, take_encodeBase32 point (size.trans longer), here]

end

theorem countP_eq_one {α : Type} [DecidableEq α] {p : α → Bool} {l : List α} (distinct : l.Nodup)
    {a : α} (member : a ∈ l) (holds : p a = true) (only : ∀ b ∈ l, p b = true → b = a) :
    l.countP p = 1 := by
  rw [← List.count_eq_one_of_mem distinct member, List.count]
  refine List.countP_congr fun b listed => ?_
  rw [beq_iff_eq]
  constructor
  · exact only b listed
  · rintro rfl
    exact holds

theorem exists_range {bbox : BoundingBox} {point : GeoPoint}
    (inside : bbox.containsPoint point = true) {precision : GeohashPrecision} {n : Nat}
    (longer : precision.chars ≤ n) :
    ∃ range ∈ geohashRangesForBbox bbox precision, range <+: encodeBase32 point n := by
  obtain ⟨lon, lat⟩ := (BoundingBox.containsPoint_iff bbox point).mp inside
  unfold geohashRangesForBbox
  dsimp only
  generalize corner : encodeBase32 ⟨bbox.minLon, bbox.minLat⟩ precision.chars = sw
  generalize corner' : encodeBase32 ⟨bbox.maxLon, bbox.maxLat⟩ precision.chars = ne
  obtain ⟨first, second⟩ := commonPrefix_prefix sw ne
  split
  · rename_i same
    refine ⟨sw, List.mem_singleton_self sw, ?_⟩
    refine @prefix_between ⟨bbox.minLon, bbox.minLat⟩ ⟨bbox.maxLon, bbox.maxLat⟩ point lon lat sw
      precision.chars n longer ?_ ?_
    · rw [corner]
    · rw [corner', same]
  · split
    · exact ⟨[], List.mem_singleton_self [], List.nil_prefix⟩
    · have shared := @prefix_between ⟨bbox.minLon, bbox.minLat⟩ ⟨bbox.maxLon, bbox.maxLat⟩ point
        lon lat (commonPrefix sw ne) precision.chars precision.chars le_rfl (by rwa [corner])
        (by rwa [corner'])
      obtain ⟨tail, rest⟩ := shared
      have size : tail.length = precision.chars - (commonPrefix sw ne).length := by
        have whole := congrArg List.length rest
        rw [List.length_append, length_encodeBase32] at whole
        omega
      have digits : ∀ c ∈ tail, c ∈ base32 := fun c member =>
        (names_encode point precision.chars).digits c (rest ▸ List.mem_append_right _ member)
      refine ⟨encodeBase32 point precision.chars, ?_, ?_⟩
      · rw [← rest, ← size]
        exact mem_generateRanges _ digits
      · rw [← take_encodeBase32 point longer]
        exact List.take_prefix _ _

/-- The code of a point of the box begins with exactly one of the ranges. -/
theorem countP_ranges {bbox : BoundingBox} {point : GeoPoint}
    (inside : bbox.containsPoint point = true) {precision : GeohashPrecision} {n : Nat}
    (longer : precision.chars ≤ n) :
    ((geohashRangesForBbox bbox precision).countP fun range =>
      range.isPrefixOf (encodeBase32 point n)) = 1 := by
  obtain ⟨distinct, size, lengths⟩ := geohashRangesForBbox_spec bbox precision
  obtain ⟨range, listed, begins⟩ := exists_range inside longer
  refine countP_eq_one distinct listed (List.isPrefixOf_iff_prefix.mpr begins) ?_
  intro other listed' begins'
  have equal : other.length = range.length := by rw [lengths other listed', lengths range listed]
  have within := List.prefix_of_prefix_length_le (List.isPrefixOf_iff_prefix.mp begins') begins
    (le_of_eq equal)
  exact within.eq_of_length equal

namespace GeoSet

/-- A set that was filled by calls of `add`. -/
def filled (calls : List (Str × GeoPoint)) : GeoSet :=
  calls.foldl (fun set p => set.add p.1 p.2) .new

theorem history_fresh {calls : List (Str × GeoPoint)} {h : History}
    (distinct : (Assoc.keys (h.points ++ calls)).Nodup) :
    (calls.map fun p => GeoCall.add p.1 p.2).foldl History.next h =
      ⟨h.points ++ calls.filter fun p => p.2.valid, h.moved, h.again⟩ := by
  induction calls generalizing h with
  | nil => simp
  | cons p calls ih =>
      have fresh : Assoc.get h.points p.1 = none := by
        refine Assoc.get_eq_none_iff.mpr fun known => ?_
        unfold Assoc.keys at distinct known
        rw [List.map_append, List.map_cons] at distinct
        exact (List.nodup_append.mp distinct).2.2 p.1 known p.1 List.mem_cons_self rfl
      rw [List.map_cons, List.foldl_cons]
      change List.foldl History.next (h.add p.1 p.2) _ = _
      by_cases valid : p.2.valid = true
      · have next : h.add p.1 p.2 = ⟨h.points ++ [p], h.moved, h.again⟩ := by
          unfold History.add
          rw [if_pos valid, fresh, Assoc.insert_of_not_mem (Assoc.get_eq_none_iff.mp fresh)]
          simp
        have distinct' : (Assoc.keys ((h.points ++ [p]) ++ calls)).Nodup := by
          rw [List.append_assoc]
          exact distinct
        rw [next, ih distinct', List.filter_cons, if_pos valid]
        simp
      · have same : h.add p.1 p.2 = h := if_neg valid
        have part : (h.points ++ calls).Sublist (h.points ++ p :: calls) :=
          (List.sublist_cons_self p calls).append_left h.points
        rw [same, ih ((part.map Prod.fst).nodup distinct), List.filter_cons, if_neg valid]

theorem filled_indexed {calls : List (Str × GeoPoint)} (distinct : (Assoc.keys calls).Nodup) :
    (filled calls).Agrees ⟨calls.filter fun p => p.2.valid, false, false⟩ ∧
      (filled calls).Indexed ⟨calls.filter fun p => p.2.valid, false, false⟩ := by
  have history := @history_fresh calls .new distinct
  have same : filled calls = after flat (calls.map fun p => .add p.1 p.2) := by
    unfold filled after
    rw [List.foldl_map]
    rfl
  have agrees := agrees_after flat (calls.map fun p => .add p.1 p.2)
  have indexed := indexed_after flat (calls.map fun p => .add p.1 p.2)
  unfold History.of at agrees indexed
  rw [history, ← same] at agrees indexed
  exact ⟨agrees, indexed⟩

theorem hash_encode (point : GeoPoint) :
    (Geohash.encode point .high).hash = encodeBase32 point GeohashPrecision.high.chars := by
  unfold Geohash.encode
  rw [Geohash.encodeWithChars_eq point (by decide) (by decide)]

theorem bboxQuery_perm (calls : List (Str × GeoPoint)) (distinct : (Assoc.keys calls).Nodup)
    (bbox : BoundingBox) : ((filled calls).bboxQuery bbox).Perm
      ((calls.filter fun p => p.2.valid && bbox.containsPoint p.2).map Prod.fst) := by
  obtain ⟨agrees, indexed⟩ := filled_indexed distinct
  generalize filled calls = set at agrees indexed ⊢
  have once := agrees.cells.nodup_iff.mpr agrees.distinct
  have members := agrees.members
  have inTurn : ((calls.filter fun p => p.2.valid && bbox.containsPoint p.2).map Prod.fst).Nodup :=
    (List.filter_sublist.map Prod.fst).nodup distinct
  refine (List.perm_ext_iff_of_nodup (set.nodup_bboxQuery bbox once) inTurn).mpr fun member => ?_
  constructor
  · intro found
    obtain ⟨point, known, inside⟩ := set.bboxQuery_current bbox members found
    obtain ⟨listed, valid⟩ := List.mem_filter.mp (Assoc.mem_of_get known)
    refine List.mem_map.mpr ⟨(member, point), List.mem_filter.mpr ⟨listed, ?_⟩, rfl⟩
    exact Bool.and_eq_true_iff.mpr ⟨valid, inside⟩
  · intro listed
    obtain ⟨p, chosen, rfl⟩ := List.mem_map.mp listed
    obtain ⟨called, holds⟩ := List.mem_filter.mp chosen
    obtain ⟨valid, inside⟩ := Bool.and_eq_true_iff.mp holds
    have kept : p ∈ calls.filter fun p => p.2.valid := List.mem_filter.mpr ⟨called, valid⟩
    have located : set.locatedIn bbox p.1 = true := by
      unfold locatedIn get
      rw [members, Assoc.get_of_mem agrees.distinct kept]
      exact inside
    have here : p.1 ∈ (Assoc.get set.geohashIndex (cellOf p.2)).getD [] := by
      rw [indexed rfl]
      exact List.mem_map.mpr ⟨p, List.mem_filter.mpr ⟨kept, decide_eq_true rfl⟩, rfl⟩
    obtain ⟨range, ranged, begins⟩ :=
      @exists_range bbox p.2 inside .medium GeohashPrecision.high.chars (by decide)
    have begins' : range <+: cellOf p.2 := by
      unfold cellOf
      rwa [hash_encode]
    refine List.mem_flatMap.mpr ⟨range, ranged, (mem_membersIn bbox).mpr ?_⟩
    cases read : Assoc.get set.geohashIndex (cellOf p.2) with
    | none =>
        rw [read] at here
        cases here
    | some cell =>
        rw [read] at here
        refine ⟨(cellOf p.2, cell), Assoc.mem_of_get read, ?_, here, located⟩
        dsimp only
        exact begins'

/-- The code of every point of a box begins with exactly one of the ranges of the box, and the
search finds exactly the members whose points lie in the box, each once. -/
theorem bboxQuery_exact (calls : List (Str × GeoPoint)) (distinct : (Assoc.keys calls).Nodup)
    (bbox : BoundingBox) :
    (∀ point, bbox.containsPoint point = true →
      (Geohash.encode point .high).hash.length = 7 ∧
      ((geohashRangesForBbox bbox .medium).countP fun range =>
        range.isPrefixOf (Geohash.encode point .high).hash) = 1) ∧
    ((filled calls).bboxQuery bbox).Perm
      ((calls.filter fun p => p.2.valid && bbox.containsPoint p.2).map Prod.fst) := by
  constructor
  · intro point inside
    refine ⟨Geohash.length_encode point .high, ?_⟩
    rw [hash_encode]
    exact countP_ranges inside (by decide)
  · exact bboxQuery_perm calls distinct bbox

/-- Two members on both sides of the prime meridian. -/
def astride : List (Str × GeoPoint) := [(Str.lit "east", ⟨1, 1⟩), (Str.lit "west", ⟨-1, 1⟩)]

theorem bboxQuery_exact_astride :
    (∀ point, BoundingBox.containsPoint ⟨-2, 2, 0, 2⟩ point = true →
      (Geohash.encode point .high).hash.length = 7 ∧
      ((geohashRangesForBbox ⟨-2, 2, 0, 2⟩ .medium).countP fun range =>
        range.isPrefixOf (Geohash.encode point .high).hash) = 1) ∧
    ((filled astride).bboxQuery ⟨-2, 2, 0, 2⟩).Perm
      ((astride.filter fun p => p.2.valid && BoundingBox.containsPoint ⟨-2, 2, 0, 2⟩ p.2).map
        Prod.fst) :=
  bboxQuery_exact astride (by decide) ⟨-2, 2, 0, 2⟩

end GeoSet

end Zumic.Database.Geo
