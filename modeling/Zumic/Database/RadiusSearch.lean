/- The search by radius through the cells, against a filter over all members. -/

import Zumic.Database.GeoIndexes
import Zumic.Lib.Grouping

namespace Zumic.Database.Geo

open Lib Lib.ByteString Lib.Utf8

/-- What a search by radius is to find: the members that are near, with their distances. -/
def exactFilter (sphere : Sphere) (points : List (Str × GeoPoint)) (center : GeoPoint) (radius : ℚ) :
    List (Str × ℚ) :=
  (points.filter fun p => sphere.haversineDistance center p.2 ≤ radius).map fun p =>
    (p.1, sphere.haversineDistance center p.2)

section

variable (point : GeoPoint)

theorem Encoding.bitCount_step (e : Encoding) : (e.step point).bitCount = e.bitCount + 1 := by
  unfold Encoding.step
  dsimp only
  split
  · rfl
  · rfl

theorem Encoding.length_hash_step (e : Encoding) : (e.step point).hash.length =
    e.hash.length + if (e.bitCount + 1) % 5 = 0 then 1 else 0 := by
  unfold Encoding.step
  dsimp only
  split
  · exact List.length_append
  · rfl

theorem Encoding.steps (n : Nat) :
    ((Encoding.step point)^[n] ⟨globe, [], 0, 0⟩).bitCount = n ∧
      ((Encoding.step point)^[n] ⟨globe, [], 0, 0⟩).hash.length = n / 5 := by
  induction n with
  | zero => exact ⟨rfl, rfl⟩
  | succ n ih =>
      rw [Function.iterate_succ_apply', bitCount_step, length_hash_step, ih.1, ih.2]
      refine ⟨rfl, ?_⟩
      split
      · omega
      · omega

theorem length_encodeBase32 (chars : Nat) : (encodeBase32 point chars).length = chars := by
  unfold encodeBase32
  rw [(Encoding.steps point _).2]
  omega

end

namespace Geohash

theorem length_encodeWithChars (point : GeoPoint) {chars : Nat} (range : 4 ≤ chars ∧ chars ≤ 12) :
    (encodeWithChars point chars).hash.length = chars := by
  unfold encodeWithChars
  rw [length_encodeBase32]
  omega

theorem chars_bounds (precision : GeohashPrecision) : 4 ≤ precision.chars ∧ precision.chars ≤ 12 := by
  cases precision <;> decide

theorem precision_encode (point : GeoPoint) (precision : GeohashPrecision) :
    (encode point precision).precision = precision.chars := by
  have bounds := chars_bounds precision
  change max 4 (min precision.chars 12) = _
  omega

theorem length_encode (point : GeoPoint) (precision : GeohashPrecision) :
    (encode point precision).hash.length = precision.chars :=
  length_encodeWithChars point (chars_bounds precision)

theorem length_allNeighbors {point : GeoPoint} {precision : GeohashPrecision} {cell : Geohash}
    (member : cell ∈ (encode point precision).allNeighbors) :
    cell.hash.length = precision.chars := by
  have each : ∀ direction, ((encode point precision).neighbor direction).hash.length =
      precision.chars := by
    intro direction
    unfold neighbor
    rw [precision_encode]
    exact length_encodeWithChars _ (chars_bounds precision)
  simp only [allNeighbors, List.mem_cons, List.not_mem_nil, or_false] at member
  rcases member with rfl | rfl | rfl | rfl
  · exact each .north
  · exact each .south
  · exact each .east
  · exact each .west

end Geohash

theorem chars_injective {precision : GeohashPrecision} (seven : precision.chars = 7) :
    precision = .high := by
  cases precision <;> first | rfl | cases seven

/-- The hashes of the cells that are looked at. -/
def searchHashes (center : GeoPoint) (precision : GeohashPrecision) : List Bytes :=
  (Geohash.encode center precision :: (Geohash.encode center precision).allNeighbors).map
    Geohash.hash

theorem length_searchHashes {center : GeoPoint} {precision : GeohashPrecision} {hash : Bytes}
    (member : hash ∈ searchHashes center precision) : hash.length = precision.chars := by
  obtain ⟨cell, listed, rfl⟩ := List.mem_map.mp member
  rcases List.mem_cons.mp listed with rfl | listed
  · exact Geohash.length_encode center precision
  · exact Geohash.length_allNeighbors listed

/-- Only the hashes of one precision have the length of those in the index. -/
theorem count_searchHashes (center point : GeoPoint) {precision : GeohashPrecision}
    (other : precision ≠ .high) : (searchHashes center precision).count (cellOf point) = 0 := by
  apply List.count_eq_zero.mpr
  intro member
  have length := length_searchHashes member
  unfold cellOf at length
  rw [Geohash.length_encode] at length
  exact other (chars_injective length.symm)

/-- The members in a cell. -/
def membersAt (points : List (Str × GeoPoint)) (hash : Bytes) : List Str :=
  (points.filter fun p => cellOf p.2 = hash).map Prod.fst

/-- While no member was moved, the cells hold the members at their places. -/
def GeoSet.Indexed (h : History) (set : GeoSet) : Prop :=
  h.moved = false → ∀ hash, (Assoc.get set.geohashIndex hash).getD [] = membersAt h.points hash

section

variable {h : History} {set : GeoSet}

theorem membersAt_append (points points' : List (Str × GeoPoint)) (hash : Bytes) :
    membersAt (points ++ points') hash = membersAt points hash ++ membersAt points' hash := by
  unfold membersAt
  rw [List.filter_append, List.map_append]

theorem get_indexMember (index : List (Bytes × List Str)) (p : Str × GeoPoint) (hash : Bytes) :
    (Assoc.get (indexMember index p) hash).getD [] =
      (Assoc.get index hash).getD [] ++ membersAt [p] hash := by
  unfold indexMember membersAt
  rw [Assoc.get_insert]
  by_cases here : cellOf p.2 = hash
  · have inside : [p].filter (fun q => cellOf q.2 = hash) = [p] := by simp [here]
    rw [if_pos here, inside, here]
    rfl
  · have outside : [p].filter (fun q => cellOf q.2 = hash) = [] := by simp [here]
    rw [if_neg here, outside]
    exact (List.append_nil _).symm

theorem get_foldl_indexMember (points : List (Str × GeoPoint)) (index : List (Bytes × List Str))
    (hash : Bytes) : (Assoc.get (points.foldl indexMember index) hash).getD [] =
      (Assoc.get index hash).getD [] ++ membersAt points hash := by
  induction points generalizing index with
  | nil => exact (List.append_nil _).symm
  | cons p points ih =>
      rw [List.foldl_cons, ih, get_indexMember, List.append_assoc, ← membersAt_append]
      rfl

theorem GeoSet.Indexed.add (indexed : set.Indexed h) (agrees : set.Agrees h) (member : Str)
    (point : GeoPoint) : (set.add member point).Indexed (h.add member point) := by
  unfold GeoSet.add History.add GeoSet.get
  by_cases valid : point.valid = true
  · rw [if_pos valid, if_pos valid, agrees.members]
    cases known : Assoc.get h.points member with
    | some old =>
        intro still hash
        simp only [Option.any_some, Bool.or_eq_false_iff, decide_eq_false_iff_not, not_not] at still
        obtain ⟨still, rfl⟩ := still
        dsimp only
        rw [Assoc.insert_of_get known]
        exact indexed still hash
    | none =>
        intro still hash
        simp only [Option.any_none, Bool.or_false] at still
        dsimp only
        rw [get_indexMember, indexed still hash,
          Assoc.insert_of_not_mem (Assoc.get_eq_none_iff.mp known), membersAt_append]
  · rw [if_neg valid, if_neg valid]
    exact indexed

theorem GeoSet.Indexed.rebuildIndex (indexed : set.Indexed h) (agrees : set.Agrees h) :
    set.rebuildIndex.Indexed h.rebuilt := by
  unfold GeoSet.rebuildIndex History.rebuilt
  rw [agrees.flag]
  cases moved : h.moved with
  | false => exact indexed
  | true =>
      intro _ hash
      rw [if_pos rfl, if_pos rfl, agrees.members]
      exact get_foldl_indexMember h.points [] hash

theorem GeoSet.Indexed.apply (indexed : set.Indexed h) (agrees : set.Agrees h) (sphere : Sphere)
    (call : GeoCall) : (set.apply sphere call).Indexed (h.next call) := by
  cases call with
  | add member point => exact indexed.add agrees member point
  | rebuildIndex => exact indexed.rebuildIndex agrees
  | radius center radius options =>
      unfold GeoSet.apply History.next
      dsimp only
      rw [GeoSet.radiusWithOptions_snd]
      by_cases valid : center.valid = true
      · rw [if_pos valid, if_pos valid]
        exact indexed.rebuildIndex agrees
      · rw [if_neg valid, if_neg valid]
        exact indexed

theorem GeoSet.indexed_after (sphere : Sphere) (calls : List GeoCall) :
    (GeoSet.after sphere calls).Indexed (History.of calls) := by
  suffices all : ∀ (set : GeoSet) (h : History), set.Agrees h → set.Indexed h →
      (calls.foldl (GeoSet.apply sphere) set).Indexed (calls.foldl History.next h) from
    all .new .new GeoSet.agrees_new fun _ _ => rfl
  induction calls with
  | nil => exact fun set h _ indexed => indexed
  | cons call calls ih =>
      exact fun set h agrees indexed =>
        ih _ _ (agrees.apply sphere call) (indexed.apply agrees sphere call)

end

section

variable {sphere : Sphere} {points : List (Str × GeoPoint)} {center : GeoPoint} {radius : ℚ}

theorem filterMap_members {part : List (Str × GeoPoint)}
    (known : ∀ p ∈ part, Assoc.get points p.1 = some p.2) :
    ((part.map Prod.fst).filterMap fun member =>
      (Assoc.get points member).bind (GeoSet.within sphere center radius member)) =
      exactFilter sphere part center radius := by
  unfold exactFilter
  induction part with
  | nil => rfl
  | cons p part ih =>
      have rest := ih fun q member => known q (List.mem_cons_of_mem p member)
      rw [List.map_cons, List.filterMap_cons, known p List.mem_cons_self, Option.bind_some,
        List.filter_cons, rest]
      unfold GeoSet.within
      by_cases near : sphere.haversineDistance center p.2 ≤ radius
      · rw [if_pos near, if_pos (decide_eq_true near)]
        rfl
      · rw [if_neg near, if_neg (by simpa using near)]

theorem flatMap_members (distinct : (Assoc.keys points).Nodup) (hashes : List Bytes) :
    ((hashes.flatMap (membersAt points)).filterMap fun member =>
      (Assoc.get points member).bind (GeoSet.within sphere center radius member)) =
      (hashes.flatMap fun hash => (points.filter fun p => sphere.haversineDistance center p.2 ≤
        radius).filter fun p => cellOf p.2 = hash).map fun p =>
          (p.1, sphere.haversineDistance center p.2) := by
  induction hashes with
  | nil => rfl
  | cons hash hashes ih =>
      have cell : ((membersAt points hash).filterMap fun member =>
          (Assoc.get points member).bind (GeoSet.within sphere center radius member)) =
          exactFilter sphere (points.filter fun p => cellOf p.2 = hash) center radius :=
        filterMap_members fun p member => Assoc.get_of_mem distinct (List.mem_of_mem_filter member)
      rw [List.flatMap_cons, List.filterMap_append, cell, ih, List.flatMap_cons, List.map_append]
      unfold exactFilter
      rw [List.filter_comm]

end

section

variable {sphere : Sphere} {h : History} {set : GeoSet} {center : GeoPoint}

theorem GeoSet.radius_eq (agrees : set.Agrees h) (indexed : set.Indexed h)
    (valid : center.valid = true) (radius : ℚ) :
    (set.radius sphere center radius).1 =
      ((searchHashes center (.fromRadius radius)).flatMap fun hash =>
        (h.points.filter fun p => sphere.haversineDistance center p.2 ≤ radius).filter fun p =>
          cellOf p.2 = hash).map fun p => (p.1, sphere.haversineDistance center p.2) := by
  have agrees' := agrees.rebuildIndex
  have same : h.rebuilt.points = h.points ∧ h.rebuilt.moved = false := by
    unfold History.rebuilt
    by_cases moved : h.moved = true
    · rw [if_pos moved]
      exact ⟨rfl, rfl⟩
    · rw [if_neg moved]
      exact ⟨rfl, Bool.eq_false_of_not_eq_true moved⟩
  have cells : (searchCells center radius .default).flatMap set.rebuildIndex.inCell =
      (searchHashes center (.fromRadius radius)).flatMap (membersAt h.points) := by
    have each : set.rebuildIndex.inCell = fun cell => membersAt h.points cell.hash := by
      funext cell
      have exact := indexed.rebuildIndex agrees same.2 cell.hash
      rw [same.1] at exact
      exact exact
    rw [each]
    exact (List.flatMap_map Geohash.hash (membersAt h.points) _).symm
  unfold GeoSet.radius GeoSet.radiusWithOptions
  rw [if_pos valid]
  change ((searchCells center radius .default).flatMap set.rebuildIndex.inCell).filterMap _ = _
  rw [cells]
  unfold GeoSet.get
  rw [agrees'.members, same.1]
  exact flatMap_members agrees.distinct _

/-- A radius for which the cells are smaller or larger than those of the index finds nothing. -/
theorem GeoSet.radius_eq_nil (agrees : set.Agrees h) (indexed : set.Indexed h)
    (valid : center.valid = true) {radius : ℚ}
    (other : GeohashPrecision.fromRadius radius ≠ .high) :
    (set.radius sphere center radius).1 = [] := by
  rw [GeoSet.radius_eq agrees indexed valid]
  apply List.map_eq_nil_iff.mpr
  apply List.flatMap_eq_nil_iff.mpr
  intro hash searched
  apply List.filter_eq_nil_iff.mpr
  intro p _ here
  have absent := count_searchHashes center p.2 other
  rw [of_decide_eq_true here] at absent
  exact List.count_eq_zero.mp absent searched

end

/-- The search finds what a filter over all members finds exactly when every near member is in one
of the cells that are looked at, and in no two of them; for this the radius must be one for which
the cells are those of the index. -/
theorem GeoSet.radius_exact_iff (sphere : Sphere) (calls : List GeoCall) (center : GeoPoint)
    (radius : ℚ) (valid : center.valid = true) :
    ((GeoSet.after sphere calls).radius sphere center radius).1.Perm
      (exactFilter sphere (History.of calls).points center radius) ↔
    ∀ p ∈ (History.of calls).points, sphere.haversineDistance center p.2 ≤ radius →
      GeohashPrecision.fromRadius radius = .high ∧
        (searchHashes center .high).count (cellOf p.2) = 1 := by
  have agrees := GeoSet.agrees_after sphere calls
  have distinct : (((History.of calls).points.filter fun p =>
      sphere.haversineDistance center p.2 ≤ radius).map fun p =>
        (p.1, sphere.haversineDistance center p.2)).Nodup := by
    apply List.Nodup.of_map Prod.fst
    rw [List.map_map]
    exact ((List.filter_sublist).map Prod.fst).nodup agrees.distinct
  rw [GeoSet.radius_eq agrees (GeoSet.indexed_after sphere calls) valid]
  unfold exactFilter
  rw [Grouping.flatMap_filter_perm_iff distinct]
  constructor
  · intro each p member near
    have once := each p (List.mem_filter.mpr ⟨member, decide_eq_true near⟩)
    by_cases high : GeohashPrecision.fromRadius radius = .high
    · rw [high] at once
      exact ⟨high, once⟩
    · rw [count_searchHashes center p.2 high] at once
      cases once
  · intro each p found
    obtain ⟨member, near⟩ := List.mem_filter.mp found
    obtain ⟨high, once⟩ := each p member (of_decide_eq_true near)
    rw [high]
    exact once

/-- A member at the centre, one in the cell to the north of it and one beyond the radius. -/
def scattered : List GeoCall :=
  [.add (Str.lit "a") ⟨0, 0⟩, .add (Str.lit "c") ⟨80, 60⟩, .add (Str.lit "b") ⟨0, 1 / 500⟩]

theorem GeoSet.radius_exact_scattered :
    ((GeoSet.after flat scattered).radius flat ⟨0, 0⟩ 100).1.Perm
      [(Str.lit "a", 0), (Str.lit "b", 1 / 500)] := by
  have near : exactFilter flat (History.of scattered).points ⟨0, 0⟩ 100 =
      [(Str.lit "a", 0), (Str.lit "b", 1 / 500)] := by
    decide +kernel
  have high : GeohashPrecision.fromRadius 100 = .high := by
    unfold GeohashPrecision.fromRadius
    norm_num
  have once : ∀ p ∈ (History.of scattered).points, flat.haversineDistance ⟨0, 0⟩ p.2 ≤ 100 →
      (searchHashes ⟨0, 0⟩ .high).count (cellOf p.2) = 1 := by
    decide +kernel
  rw [← near]
  exact (GeoSet.radius_exact_iff flat scattered ⟨0, 0⟩ 100 (by decide)).mpr
    fun p member within => ⟨high, once p member within⟩

/-- A member at the centre, which the search does not find. -/
theorem GeoSet.radius_zero_misses :
    ((GeoSet.after flat [.add (Str.lit "a") ⟨0, 0⟩]).radius flat ⟨0, 0⟩ 0).1 = [] ∧
      exactFilter flat [(Str.lit "a", ⟨0, 0⟩)] ⟨0, 0⟩ 0 = [(Str.lit "a", 0)] := by
  constructor
  · refine GeoSet.radius_eq_nil (GeoSet.agrees_after flat _) (GeoSet.indexed_after flat _)
      (by decide) ?_
    have finest : GeohashPrecision.fromRadius 0 = .ultraPrecise := by
      unfold GeohashPrecision.fromRadius
      norm_num
    rw [finest]
    exact GeohashPrecision.noConfusion
  · simp [exactFilter, flat]

end Zumic.Database.Geo
