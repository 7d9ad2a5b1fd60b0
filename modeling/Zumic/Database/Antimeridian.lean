/- The search for the nearest entries across the antimeridian. -/

import Mathlib.Data.Rat.Floor
import Zumic.Database.GeoSet
import Zumic.Database.NearestExact

namespace Zumic.Database.Geo

open Lib.BestFirst

/-- The difference of two longitudes, taken the shorter way round. -/
def lonDifference (a b : ℚ) : ℚ :=
  let turn := |a - b| - 360 * ⌊|a - b| / 360⌋
  min turn (360 - turn)

/-- A distance is at least the planar one in degrees. -/
def Sphere.Planar (sphere : Sphere) : Prop :=
  ∀ p q, lonDifference p.lon q.lon * lonDifference p.lon q.lon +
    (p.lat - q.lat) * (p.lat - q.lat) ≤
      sphere.haversineDistance p q * sphere.haversineDistance p q

theorem lonDifference_nonneg (a b : ℚ) : 0 ≤ lonDifference a b := by
  have low := Int.floor_le (|a - b| / 360)
  have high := Int.lt_floor_add_one (|a - b| / 360)
  unfold lonDifference
  refine le_min ?_ ?_
  · linarith
  · linarith

theorem lonDifference_of_le {a b : ℚ} (near : |a - b| ≤ 180) : lonDifference a b = |a - b| := by
  have once : ⌊|a - b| / 360⌋ = 0 := by
    refine Int.floor_eq_zero_iff.mpr ⟨div_nonneg (abs_nonneg _) (by norm_num), ?_⟩
    rw [div_lt_one (by norm_num)]
    linarith
  unfold lonDifference
  simp only [once, Int.cast_zero, mul_zero, sub_zero]
  exact min_eq_left (by linarith)

theorem outside_le_abs {low high y : ℚ} (above : low ≤ y) (below : y ≤ high) (x : ℚ) :
    outside low high x ≤ |x - y| := by
  unfold outside
  split
  · have left := neg_abs_le (x - y)
    linarith
  · split
    · have right := le_abs_self (x - y)
      linarith
    · exact abs_nonneg _

theorem RTreeNode.Sound.leaf_encloses {node : RTreeNode} (sound : node.Sound)
    {leaf : BoundingBox × List GeoEntry} (member : leaf ∈ node.leaves) :
    Encloses leaf.1 (pointsOf leaf.2) := by
  induction node using RTreeNode.induct with
  | leaf entries bbox =>
      obtain rfl := List.mem_singleton.mp member
      exact sound.encloses
  | internal children bbox ih =>
      rw [RTreeNode.leaves_internal] at member
      obtain ⟨child, inside, under⟩ := List.mem_flatMap.mp member
      cases sound with
      | internal _ each _ => exact ih child inside (each child inside) under

/-- A box is no farther than an entry in it that need not be reached the other way round. -/
theorem Encloses.minDistanceToPoint_le_dist {sphere : Sphere} (planar : sphere.Planar)
    (root : ∀ x y, 0 ≤ y → x ≤ y * y → sphere.sqrt x ≤ y) {b : BoundingBox}
    {points : List GeoPoint} (encloses : Encloses b points) {point q : GeoPoint}
    (member : q ∈ points) (near : |point.lon - q.lon| ≤ 180) :
    b.minDistanceToPoint sphere point ≤ sphere.haversineDistance point q := by
  have inLon := List.mem_map_of_mem (f := GeoPoint.lon) member
  have inLat := List.mem_map_of_mem (f := GeoPoint.lat) member
  have lon := mul_self_le_mul_self (outside_nonneg _ _ _)
    (outside_le_abs (encloses.lon.le inLon) (encloses.lon.ge inLon) point.lon)
  have lat := mul_self_le_mul_self (outside_nonneg _ _ _)
    (outside_le_abs (encloses.lat.le inLat) (encloses.lat.ge inLat) point.lat)
  have least := planar point q
  rw [lonDifference_of_le near, ← abs_mul_abs_self (point.lat - q.lat)] at least
  rw [minDistanceToPoint_eq]
  exact root _ _ (sphere.nonneg point q) ((add_le_add lon lat).trans least)

theorem RTree.Holds.not_misled {sphere : Sphere} (planar : sphere.Planar)
    (root : ∀ x y, 0 ≤ y → x ≤ y * y → sphere.sqrt x ≤ y) {t : RTree} {entries : List GeoEntry}
    (holds : t.Holds entries) {point : GeoPoint}
    (near : ∀ e ∈ entries, |point.lon - e.point.lon| ≤ 180) : ¬ t.Misled sphere point := by
  rintro ⟨node, rooted, far, other, others, split, -, e, inFar, e', -, less, beyond⟩
  have inside : far ∈ node.leaves := split.subset List.mem_cons_self
  have leaves := holds.leaves
  have sound := holds.sound node rooted
  obtain rooted : t.root = some node := rooted
  unfold RTree.entries at leaves
  rw [rooted] at leaves
  have listed : e ∈ entries := by
    refine leaves.subset ?_
    change e ∈ node.entries
    rw [RTreeNode.entries_eq]
    exact List.mem_flatMap.mpr ⟨far, inside, inFar⟩
  have low := (sound.leaf_encloses inside).minDistanceToPoint_le_dist planar root
    (List.mem_map_of_mem inFar) (near e listed)
  exact absurd (less.trans beyond) (not_lt_of_ge low)

/-- The search finds the nearest entries where none of them is more than half a turn away. -/
theorem RTree.Holds.knn_nearest {sphere : Sphere} (ascends : Monotone sphere.sqrt)
    (zero : sphere.sqrt 0 = 0) (planar : sphere.Planar)
    (root : ∀ x y, 0 ≤ y → x ≤ y * y → sphere.sqrt x ≤ y) {t : RTree} {entries : List GeoEntry}
    (holds : t.Holds entries) {point : GeoPoint}
    (near : ∀ e ∈ entries, |point.lon - e.point.lon| ≤ 180) (k : Nat) :
    Nearest sphere point k entries (t.knn sphere point k) :=
  (holds.nearest_iff ascends zero).mpr (holds.not_misled planar root near) k _ (t.answers_knn k)

/-- On the equator a degree is about 111195 metres; the root is taken to six decimals. -/
def equator : Sphere where
  haversineDistance p q := 111195 * (lonDifference p.lon q.lon + |p.lat - q.lat|)
  sqrt x := Nat.sqrt ⌊x * 10 ^ 12⌋₊ / 10 ^ 6
  cos _ := 1
  nonneg p q := mul_nonneg (by norm_num) (add_nonneg (lonDifference_nonneg _ _) (abs_nonneg _))
  self p := by simp [lonDifference]

theorem equator_ascends : Monotone equator.sqrt := by
  intro x y le
  have floors : ⌊x * 10 ^ 12⌋₊ ≤ ⌊y * 10 ^ 12⌋₊ :=
    Nat.floor_mono (mul_le_mul_of_nonneg_right le (by norm_num))
  have roots : (Nat.sqrt ⌊x * 10 ^ 12⌋₊ : ℚ) ≤ Nat.sqrt ⌊y * 10 ^ 12⌋₊ :=
    Nat.cast_le.mpr (Nat.sqrt_le_sqrt floors)
  exact div_le_div_of_nonneg_right roots (by norm_num)

theorem equator_zero : equator.sqrt 0 = 0 := by
  simp [equator]

theorem equator_planar : equator.Planar := by
  intro p q
  have lon := lonDifference_nonneg p.lon q.lon
  have lat := abs_nonneg (p.lat - q.lat)
  rw [← abs_mul_abs_self (p.lat - q.lat)]
  change _ ≤ 111195 * (lonDifference p.lon q.lon + |p.lat - q.lat|) *
    (111195 * (lonDifference p.lon q.lon + |p.lat - q.lat|))
  nlinarith [mul_nonneg lon lat, mul_nonneg lon lon, mul_nonneg lat lat]

theorem equator_root (x y : ℚ) (nonneg : 0 ≤ y) (small : x ≤ y * y) : equator.sqrt x ≤ y := by
  have square : ((Nat.sqrt ⌊x * 10 ^ 12⌋₊ : ℚ)) ^ 2 ≤ (y * 10 ^ 6) ^ 2 := by
    rcases le_total 0 x with above | below
    · have floor := Nat.floor_le (mul_nonneg above (show (0 : ℚ) ≤ 10 ^ 12 by norm_num))
      have root : ((Nat.sqrt ⌊x * 10 ^ 12⌋₊ : ℚ)) ^ 2 ≤ ⌊x * 10 ^ 12⌋₊ := by
        exact_mod_cast Nat.sqrt_le' _
      nlinarith
    · rw [Nat.floor_of_nonpos (by linarith)]
      simpa using sq_nonneg _
  have root := abs_le_of_sq_le_sq square (by positivity)
  have scaled := (le_abs_self _).trans root
  change (_ : ℚ) / 10 ^ 6 ≤ y
  rw [div_le_iff₀ (by norm_num)]
  exact scaled

/-- The loop for some turns, or until the queue is empty. -/
def Search.after (sphere : Sphere) (point : GeoPoint) (k : Nat) : Nat → Search → Search
  | 0, s => s
  | turns + 1, s =>
      match s.next sphere point k with
      | none => s
      | some s' => s'.after sphere point k turns

theorem Search.run_eq_of_empty {sphere : Sphere} {point : GeoPoint} {k : Nat} (turns : Nat)
    {s : Search} (empty : (s.after sphere point k turns).pq.isEmpty = true) :
    s.run sphere point k = (s.after sphere point k turns).results := by
  induction turns generalizing s with
  | zero =>
      have none : s.next sphere point k = none :=
        (Search.next_eq_none_iff sphere).mpr (List.isEmpty_iff.mp empty)
      unfold Search.run
      split
      · rfl
      · rename_i s' next
        rw [none] at next
        cases next
  | succ turns ih =>
      unfold Search.run
      unfold Search.after at empty ⊢
      split
      · rename_i next
        rw [next]
      · rename_i s' next
        rw [next] at empty ⊢
        exact ih empty

/-- An entry on one side of the antimeridian, and eight around it on both sides. -/
def acrossEntries : List GeoEntry :=
  [(180, 1 / 500), (-180, 1 / 1000), (180, 10), (-180, 15), (180, -10), (-180, -15), (180, 20),
    (-180, -20), (-180, 25)].map fun (lon, lat) => ⟨Lib.Utf8.Str.lit "a", ⟨lon, lat⟩, 0⟩

/-- None of them is more than half a turn away from the middle. -/
theorem knn_nearest_middle :
    Nearest equator ⟨0, 0⟩ 1 acrossEntries ((RTree.bulkLoad acrossEntries).knn equator ⟨0, 0⟩ 1) :=
  RTree.Holds.knn_nearest equator_ascends equator_zero equator_planar equator_root
    (RTree.holds_bulkLoad _) (by simp [acrossEntries]) 1

/-- A tree that was loaded and then grew by insertions finds the nearest of its entries, however
many are asked for and in whatever order equal distances are taken, exactly where nothing misleads
the search. -/
theorem knn_nearest_iff (sphere : Sphere) (ascends : Monotone sphere.sqrt)
    (zero : sphere.sqrt 0 = 0) (point : GeoPoint) (loaded inserted : List GeoEntry) :
    (∀ k, (inserted.foldl RTree.insert (.bulkLoad loaded)).Answers sphere point k
      ((inserted.foldl RTree.insert (.bulkLoad loaded)).knn sphere point k)) ∧
    ((∀ k out, (inserted.foldl RTree.insert (.bulkLoad loaded)).Answers sphere point k out →
      Nearest sphere point k (loaded ++ inserted) out) ↔
      ¬ (inserted.foldl RTree.insert (.bulkLoad loaded)).Misled sphere point) := by
  have holds := (RTree.holds_bulkLoad loaded).foldl_insert inserted
  exact ⟨RTree.answers_knn _, holds.nearest_iff ascends zero⟩

theorem knn_nearest_iff_across :
    (∀ k, (acrossEntries.foldl RTree.insert (.bulkLoad [])).Answers equator ⟨180, 0⟩ k
      ((acrossEntries.foldl RTree.insert (.bulkLoad [])).knn equator ⟨180, 0⟩ k)) ∧
    ((∀ k out, (acrossEntries.foldl RTree.insert (.bulkLoad [])).Answers equator ⟨180, 0⟩ k out →
      Nearest equator ⟨180, 0⟩ k ([] ++ acrossEntries) out) ↔
      ¬ (acrossEntries.foldl RTree.insert (.bulkLoad [])).Misled equator ⟨180, 0⟩) :=
  knn_nearest_iff equator equator_ascends equator_zero ⟨180, 0⟩ [] acrossEntries

theorem across_run :
    ∀ root ∈ (acrossEntries.foldl RTree.insert (.bulkLoad [])).root,
      (Search.after equator ⟨180, 0⟩ 1 8 ⟨[⟨0, root, none⟩], []⟩).pq.isEmpty = true ∧
      (Search.after equator ⟨180, 0⟩ 1 8 ⟨[⟨0, root, none⟩], []⟩).results.map ResultItem.dist =
        [22239 / 100] := by
  decide +kernel

theorem across_knn :
    ((acrossEntries.foldl RTree.insert (.bulkLoad [])).knn equator ⟨180, 0⟩ 1).map Prod.snd =
      [22239 / 100] := by
  have rooted : (acrossEntries.foldl RTree.insert (.bulkLoad [])).root.isSome = true := by
    decide +kernel
  obtain ⟨root, rooted⟩ := Option.isSome_iff_exists.mp rooted
  obtain ⟨empty, dists⟩ := across_run root rooted
  unfold RTree.knn
  rw [rooted]
  dsimp only
  rw [if_neg Nat.one_ne_zero, Search.run_eq_of_empty 8 empty]
  refine List.perm_singleton.mp ?_
  rw [← dists]
  exact (output_perm (List.Perm.refl _)).2

/-- The point at 180 degrees of longitude is 222 metres from one entry and 111 from another one, at
-180 degrees, whose leaf is taken to be 360 degrees away. -/
theorem knn_misses_across : ¬ ∀ sphere : Sphere, Monotone sphere.sqrt → sphere.sqrt 0 = 0 →
    sphere.Planar → ∀ (loaded inserted : List GeoEntry) (point : GeoPoint) (k : Nat),
      (∀ e ∈ loaded ++ inserted, e.point.valid = true) → point.valid = true →
        Nearest sphere point k (loaded ++ inserted)
          ((inserted.foldl RTree.insert (.bulkLoad loaded)).knn sphere point k) := by
  intro exact
  have nearest := exact equator equator_ascends equator_zero equator_planar [] acrossEntries
    ⟨180, 0⟩ 1 (by decide +kernel) (by decide +kernel)
  have least := nearest.least
  rw [across_knn, List.nil_append] at least
  have split : [22239 / 100] ++ acrossEntries.tail.map (fun e =>
      equator.haversineDistance ⟨180, 0⟩ e.point) =
        acrossEntries.map fun e => equator.haversineDistance ⟨180, 0⟩ e.point := by
    decide +kernel
  have nearer := ((eq_take_mergeSort_iff (List.Perm.of_eq split) (List.pairwise_singleton _ _)).mp
    least).2
  have other : ∃ d ∈ acrossEntries.tail.map (fun e =>
      equator.haversineDistance ⟨180, 0⟩ e.point), d < 22239 / 100 := by
    decide +kernel
  obtain ⟨d, member, less⟩ := other
  exact absurd (nearer (22239 / 100) (List.mem_singleton_self _) d member) (not_le_of_gt less)

end Zumic.Database.Geo
