/- An R-tree holds exactly what was loaded and inserted, under exact boxes. -/

import Zumic.Lib.Sorted
import Zumic.Database.RTree

namespace Zumic.Database.Geo

open Lib

/-- The smallest box around some points. -/
structure Encloses (b : BoundingBox) (points : List GeoPoint) : Prop where
  lon : Bounds (points.map GeoPoint.lon) b.minLon b.maxLon
  lat : Bounds (points.map GeoPoint.lat) b.minLat b.maxLat

namespace Encloses

variable {b b' : BoundingBox} {points points' : List GeoPoint}

theorem fromPoint (point : GeoPoint) : Encloses (.fromPoint point) [point] :=
  ⟨Bounds.singleton point.lon, Bounds.singleton point.lat⟩

theorem expand (encloses : Encloses b points) (encloses' : Encloses b' points') :
    Encloses (b.expand b') (points ++ points') := by
  constructor
  · rw [List.map_append]
    exact encloses.lon.append encloses'.lon
  · rw [List.map_append]
    exact encloses.lat.append encloses'.lat

theorem foldl_expand {α : Type} (box : α → BoundingBox) (pointsOf : α → List GeoPoint)
    {items : List α} (each : ∀ item ∈ items, Encloses (box item) (pointsOf item))
    (encloses : Encloses b points) :
    Encloses ((items.map box).foldl BoundingBox.expand b) (points ++ items.flatMap pointsOf) := by
  induction items generalizing b points with
  | nil => simpa using encloses
  | cons item rest ih =>
      have first := encloses.expand (each item List.mem_cons_self)
      have others := ih (fun other member => each other (List.mem_cons_of_mem _ member)) first
      rw [List.append_assoc] at others
      exact others

theorem around {α : Type} {box : α → BoundingBox} {pointsOf : α → List GeoPoint}
    {items : List α} (nonempty : items ≠ [])
    (each : ∀ item ∈ items, Encloses (box item) (pointsOf item)) :
    Encloses (.around (items.map box)) (items.flatMap pointsOf) := by
  cases items with
  | nil => exact absurd rfl nonempty
  | cons item rest =>
      exact foldl_expand box pointsOf
        (fun other member => each other (List.mem_cons_of_mem _ member))
        (each item List.mem_cons_self)

theorem intersects (encloses : Encloses b points) {query : BoundingBox} {point : GeoPoint}
    (member : point ∈ points) (inside : query.containsPoint point = true) :
    b.intersects query = true := by
  have lon := List.mem_map_of_mem (f := GeoPoint.lon) member
  have lat := List.mem_map_of_mem (f := GeoPoint.lat) member
  unfold BoundingBox.containsPoint at inside
  obtain ⟨west, east, south, north⟩ := of_decide_eq_true inside
  unfold BoundingBox.intersects
  apply decide_eq_true
  exact ⟨le_trans (encloses.lon.le lon) east, le_trans west (encloses.lon.ge lon),
    le_trans (encloses.lat.le lat) north, le_trans south (encloses.lat.ge lat)⟩

end Encloses

theorem RTreeNode.induct {motive : RTreeNode → Prop}
    (leaf : ∀ entries bbox, motive (.leaf entries bbox))
    (internal : ∀ children bbox, (∀ child ∈ children, motive child) →
      motive (.internal children bbox)) (node : RTreeNode) : motive node := by
  refine @RTreeNode.rec motive (fun children => ∀ child ∈ children, motive child) leaf
    (fun children bbox all => internal children bbox all) ?_ ?_ node
  · intro child member
    cases member
  · intro first rest here others child member
    rcases List.mem_cons.mp member with rfl | member
    · exact here
    · exact others child member

theorem RTreeNode.entries_all (children : List RTreeNode) :
    RTreeNode.entries.all children = children.flatMap RTreeNode.entries := by
  induction children with
  | nil => rfl
  | cons child rest ih =>
      unfold RTreeNode.entries.all
      rw [ih]
      rfl

def pointsOf (entries : List GeoEntry) : List GeoPoint := entries.map GeoEntry.point

/-- No node below is empty, and every box is that of the entries below it. -/
inductive RTreeNode.Sound : RTreeNode → Prop where
  | leaf {entries : List GeoEntry} {bbox : BoundingBox} (nonempty : entries ≠ [])
      (exact : Encloses bbox (pointsOf entries)) : Sound (.leaf entries bbox)
  | internal {children : List RTreeNode} {bbox : BoundingBox} (nonempty : children ≠ [])
      (sound : ∀ child ∈ children, Sound child)
      (exact : Encloses bbox (pointsOf (children.flatMap RTreeNode.entries))) :
      Sound (.internal children bbox)

namespace RTreeNode

theorem Sound.encloses {node : RTreeNode} (sound : node.Sound) :
    Encloses node.bbox (pointsOf node.entries) := by
  cases sound with
  | leaf nonempty exact => exact exact
  | internal nonempty sound exact =>
      unfold RTreeNode.entries
      rw [entries_all]
      exact exact

theorem sound_newLeaf {entries : List GeoEntry} (nonempty : entries ≠ []) :
    (newLeaf entries).Sound := by
  refine .leaf nonempty ?_
  have boxes : Encloses (.around (entries.map GeoEntry.bbox))
      (entries.flatMap fun e => [e.point]) :=
    Encloses.around nonempty fun e _ => Encloses.fromPoint e.point
  have points : entries.flatMap (fun e => [e.point]) = pointsOf entries :=
    List.flatMap_pure_eq_map GeoEntry.point entries
  rw [points] at boxes
  exact boxes

theorem sound_newInternal {children : List RTreeNode} (nonempty : children ≠ [])
    (sound : ∀ child ∈ children, child.Sound) : (newInternal children).Sound := by
  refine .internal nonempty sound ?_
  have boxes : Encloses (.around (children.map bbox))
      (children.flatMap fun child => pointsOf child.entries) :=
    Encloses.around nonempty fun child member => (sound child member).encloses
  have points : children.flatMap (fun child => pointsOf child.entries) =
      pointsOf (children.flatMap RTreeNode.entries) := (List.map_flatMap ..).symm
  rw [points] at boxes
  exact boxes

@[simp] theorem entries_newLeaf (entries : List GeoEntry) :
    (newLeaf entries).entries = entries := rfl

@[simp] theorem entries_newInternal (children : List RTreeNode) :
    (newInternal children).entries = children.flatMap RTreeNode.entries :=
  entries_all children

end RTreeNode

section

variable {α : Type} {box : α → BoundingBox}

theorem distribute_spec {group1 group2 : List α} (rest : List α) (some1 : group1 ≠ [])
    (some2 : group2 ≠ []) :
    (distribute box group1 group2 rest).1 ≠ [] ∧ (distribute box group1 group2 rest).2 ≠ [] ∧
      ((distribute box group1 group2 rest).1 ++ (distribute box group1 group2 rest).2).Perm
        (group1 ++ group2 ++ rest) := by
  induction rest generalizing group1 group2 with
  | nil => exact ⟨some1, some2, by rw [List.append_nil]; exact List.Perm.refl _⟩
  | cons item rest ih =>
      unfold distribute
      by_cases less : ((groupBox box group1).expand (box item)).area - (groupBox box group1).area <
          ((groupBox box group2).expand (box item)).area - (groupBox box group2).area
      · simp only [if_pos less]
        obtain ⟨left, right, same⟩ := @ih (group1 ++ [item]) group2 (by simp) some2
        refine ⟨left, right, same.trans ?_⟩
        have moved : (item :: (group2 ++ rest)).Perm (group2 ++ item :: rest) :=
          List.perm_middle.symm
        rw [List.append_assoc, List.append_assoc, List.append_assoc]
        exact moved.append_left group1
      · simp only [if_neg less]
        obtain ⟨left, right, same⟩ := @ih group1 (group2 ++ [item]) some1 (by simp)
        refine ⟨left, right, same.trans ?_⟩
        simp

theorem mem_indexPairs {n : Nat} {pair : Nat × Nat} (member : pair ∈ indexPairs n) :
    pair.1 < pair.2 ∧ pair.2 < n := by
  obtain ⟨i, row, inside⟩ := List.mem_flatMap.mp member
  obtain ⟨j, column, rfl⟩ := List.mem_map.mp inside
  have low := List.mem_range.mp row
  have high := List.mem_range'_1.mp column
  simp only
  omega

theorem betterSeeds_eq (distance : α → α → ℚ) (items : List α) (best : ℚ × Nat × Nat)
    (pair : Nat × Nat) : betterSeeds distance items best pair = best ∨
      (betterSeeds distance items best pair).2 = pair := by
  unfold betterSeeds
  cases items[pair.1]? with
  | none => exact .inl rfl
  | some a =>
      cases items[pair.2]? with
      | none => exact .inl rfl
      | some b =>
          by_cases farther : best.1 < distance a b
          · right
            simp only [if_pos farther]
          · left
            simp only [if_neg farther]

theorem pickSeeds_lt (distance : α → α → ℚ) {items : List α} (two : 2 ≤ items.length) :
    (pickSeeds distance items).1 < (pickSeeds distance items).2 ∧
      (pickSeeds distance items).2 < items.length := by
  have kept : ∀ (pairs : List (Nat × Nat)) (best : ℚ × Nat × Nat),
      (∀ pair ∈ pairs, pair.1 < pair.2 ∧ pair.2 < items.length) →
      best.2.1 < best.2.2 ∧ best.2.2 < items.length →
      (pairs.foldl (betterSeeds distance items) best).2.1 <
        (pairs.foldl (betterSeeds distance items) best).2.2 ∧
      (pairs.foldl (betterSeeds distance items) best).2.2 < items.length := by
    intro pairs
    induction pairs with
    | nil => exact fun best _ start => start
    | cons pair pairs ih =>
        intro best all start
        refine ih _ (fun other member => all other (List.mem_cons_of_mem _ member)) ?_
        rcases betterSeeds_eq distance items best pair with same | same
        · rw [same]
          exact start
        · rw [same]
          exact all pair List.mem_cons_self
  exact kept (indexPairs items.length) (0, 0, 1) (fun pair member => mem_indexPairs member)
    ⟨Nat.zero_lt_one, two⟩

theorem takeSeeds_spec {seeds : Nat × Nat} {items : List α} (apart : seeds.1 < seeds.2)
    (inRange : seeds.2 < items.length) : ∃ first second rest,
      takeSeeds seeds items = some (first, second, rest) ∧
        (first :: second :: rest).Perm items := by
  have high : max seeds.1 seeds.2 = seeds.2 := Nat.max_eq_right (Nat.le_of_lt apart)
  have low : min seeds.1 seeds.2 = seeds.1 := Nat.min_eq_left (Nat.le_of_lt apart)
  have shorter : seeds.1 < (items.eraseIdx seeds.2).length := by
    rw [List.length_eraseIdx_of_lt inRange]
    omega
  have outer := List.getElem_cons_eraseIdx_perm inRange
  have inner := List.getElem_cons_eraseIdx_perm shorter
  refine ⟨items[seeds.2], (items.eraseIdx seeds.2)[seeds.1], _, ?_, (inner.cons _).trans outer⟩
  unfold takeSeeds
  simp only [high, low, List.getElem?_eq_getElem inRange, List.getElem?_eq_getElem shorter]

theorem split_spec {seeds : Nat × Nat} {items : List α} (apart : seeds.1 < seeds.2)
    (inRange : seeds.2 < items.length) :
    (split box seeds items).1 ≠ [] ∧ (split box seeds items).2 ≠ [] ∧
      ((split box seeds items).1 ++ (split box seeds items).2).Perm items := by
  obtain ⟨first, second, rest, taken, same⟩ := takeSeeds_spec apart inRange
  have groups := @distribute_spec _ box [first] [second] rest (List.cons_ne_nil first [])
    (List.cons_ne_nil second [])
  have both : split box seeds items = distribute box [first] [second] rest := by
    unfold split
    rw [taken]
  rw [both]
  exact ⟨groups.1, groups.2.1, groups.2.2.trans same⟩

end

/-- The entries of a node and of the one that was split off. -/
def entriesOfBoth (nodes : RTreeNode × Option RTreeNode) : List GeoEntry :=
  nodes.1.entries ++ nodes.2.toList.flatMap RTreeNode.entries

/-- An insertion leaves sound nodes, which hold one entry more. -/
structure Inserted (before : List GeoEntry) (entry : GeoEntry)
    (nodes : RTreeNode × Option RTreeNode) : Prop where
  first : nodes.1.Sound
  second : ∀ node ∈ nodes.2, node.Sound
  entries : (entriesOfBoth nodes).Perm (entry :: before)

theorem insertLeaf_spec (entries : List GeoEntry) (entry : GeoEntry) :
    Inserted entries entry (insertLeaf entries entry) := by
  have joined : (entries ++ [entry]).Perm (entry :: entries) := List.perm_append_singleton ..
  unfold insertLeaf
  by_cases fits : (entries ++ [entry]).length ≤ maxEntries
  · simp only [if_pos fits]
    refine ⟨RTreeNode.sound_newLeaf (by simp), by simp, ?_⟩
    simp [entriesOfBoth]
  · simp only [if_neg fits]
    have many : 8 < (entries ++ [entry]).length := Nat.lt_of_not_le fits
    have seeds := pickSeeds_lt (fun e e' => pointDistance e.point e'.point)
      (show 2 ≤ (entries ++ [entry]).length by omega)
    obtain ⟨left, right, same⟩ := @split_spec _ GeoEntry.bbox _ _ seeds.1 seeds.2
    refine ⟨RTreeNode.sound_newLeaf left, ?_, ?_⟩
    · intro node member
      obtain rfl := Option.some.inj member
      exact RTreeNode.sound_newLeaf right
    · refine List.Perm.trans ?_ (same.trans joined)
      simp [entriesOfBoth, pickSeedsLeaf]

/-- What an insertion into one child leaves of all children. -/
structure InsertedBelow (before : List GeoEntry) (entry : GeoEntry)
    (nodes : List RTreeNode × Option RTreeNode) : Prop where
  nonempty : nodes.1 ≠ []
  children : ∀ child ∈ nodes.1, child.Sound
  second : ∀ node ∈ nodes.2, node.Sound
  entries : ((nodes.1 ++ nodes.2.toList).flatMap RTreeNode.entries).Perm (entry :: before)

theorem insertInternal_spec {before : List GeoEntry} {entry : GeoEntry}
    {nodes : List RTreeNode × Option RTreeNode} (inserted : InsertedBelow before entry nodes) :
    Inserted before entry (insertInternal nodes.1 nodes.2) := by
  have sound : ∀ child ∈ nodes.1 ++ nodes.2.toList, child.Sound := by
    intro child member
    rcases List.mem_append.mp member with old | new
    · exact inserted.children child old
    · exact inserted.second child (Option.mem_toList.mp new)
  have nonempty : nodes.1 ++ nodes.2.toList ≠ [] := by
    intro empty
    exact inserted.nonempty (List.append_eq_nil_iff.mp empty).1
  unfold insertInternal
  by_cases fits : (nodes.1 ++ nodes.2.toList).length ≤ maxEntries
  · simp only [if_pos fits]
    refine ⟨RTreeNode.sound_newInternal nonempty sound, by simp, ?_⟩
    simpa [entriesOfBoth] using inserted.entries
  · simp only [if_neg fits]
    have many : 8 < (nodes.1 ++ nodes.2.toList).length := Nat.lt_of_not_le fits
    have seeds := pickSeeds_lt
      (fun c c' : RTreeNode => pointDistance c.bbox.center c'.bbox.center)
      (show 2 ≤ (nodes.1 ++ nodes.2.toList).length by omega)
    obtain ⟨left, right, same⟩ := @split_spec _ RTreeNode.bbox _ _ seeds.1 seeds.2
    refine ⟨RTreeNode.sound_newInternal left fun child member =>
      sound child (same.mem_iff.mp (List.mem_append_left _ member)), ?_, ?_⟩
    · intro node member
      obtain rfl := Option.some.inj member
      exact RTreeNode.sound_newInternal right fun child member =>
        sound child (same.mem_iff.mp (List.mem_append_right _ member))
    · refine List.Perm.trans ?_ ((same.flatMap_right RTreeNode.entries).trans inserted.entries)
      simp [entriesOfBoth, pickSeedsInternal]

theorem betterChild_eq (entry : GeoEntry) (best : Option ℚ × Nat) (child : RTreeNode × Nat) :
    betterChild entry best child = best ∨ (betterChild entry best child).2 = child.2 := by
  unfold betterChild
  by_cases less : best.1.all (fun least =>
      (child.1.bbox.expand entry.bbox).area - child.1.bbox.area < least) = true
  · right
    simp only [if_pos less]
  · left
    simp only [if_neg less]

theorem chooseSubtree_lt {children : List RTreeNode} (nonempty : children ≠ [])
    (entry : GeoEntry) : chooseSubtree children entry < children.length := by
  have kept : ∀ (others : List (RTreeNode × Nat)) (best : Option ℚ × Nat),
      (∀ child ∈ others, child.2 < children.length) → best.2 < children.length →
      (others.foldl (betterChild entry) best).2 < children.length := by
    intro others
    induction others with
    | nil => exact fun best _ start => start
    | cons child rest ih =>
        intro best all start
        refine ih _ (fun other member => all other (List.mem_cons_of_mem _ member)) ?_
        rcases betterChild_eq entry best child with same | same
        · rw [same]
          exact start
        · rw [same]
          exact all child List.mem_cons_self
  refine kept children.zipIdx (none, 0) (fun child member => ?_) (List.length_pos_iff.mpr nonempty)
  exact (List.mem_zipIdx' member).1

/-- The entries of the second node may be read before those of the children between. -/
theorem perm_around_rest (node : RTreeNode) (rest : List RTreeNode) (second : Option RTreeNode) :
    ((node :: rest ++ second.toList).flatMap RTreeNode.entries).Perm
      (entriesOfBoth (node, second) ++ rest.flatMap RTreeNode.entries) := by
  have swapped : (rest.flatMap RTreeNode.entries ++
      second.toList.flatMap RTreeNode.entries).Perm
        (second.toList.flatMap RTreeNode.entries ++ rest.flatMap RTreeNode.entries) :=
    List.perm_append_comm
  have both := swapped.append_left node.entries
  unfold entriesOfBoth
  rw [List.cons_append, List.flatMap_cons, List.flatMap_append, List.append_assoc]
  exact both

theorem insertRecursive_spec (entry : GeoEntry) {node : RTreeNode} (sound : node.Sound) :
    Inserted node.entries entry (insertRecursive entry node) := by
  induction node using RTreeNode.induct with
  | leaf entries bbox => exact insertLeaf_spec entries entry
  | internal children bbox ih =>
      cases sound with
      | internal nonempty sound exact =>
          have below : ∀ (others : List RTreeNode) (i : Nat), i < others.length →
              (∀ child ∈ others, child ∈ children) →
              InsertedBelow (others.flatMap RTreeNode.entries) entry
                (insertRecursive.insertChild entry i others) := by
            intro others
            induction others with
            | nil =>
                intro i inRange
                exact absurd inRange (Nat.not_lt_zero i)
            | cons child rest restIh =>
                intro i inRange inside
                have member := inside child List.mem_cons_self
                cases i with
                | zero =>
                    have inserted := ih child member (sound child member)
                    refine ⟨List.cons_ne_nil _ _, ?_, inserted.second, ?_⟩
                    · intro other here
                      rcases List.mem_cons.mp here with rfl | here
                      · exact inserted.first
                      · exact sound other (inside other (List.mem_cons_of_mem _ here))
                    · exact (perm_around_rest _ _ _).trans
                        (inserted.entries.append_right (rest.flatMap RTreeNode.entries))
                | succ i =>
                    have inserted := restIh i (Nat.lt_of_succ_lt_succ inRange)
                      fun other here => inside other (List.mem_cons_of_mem _ here)
                    refine ⟨List.cons_ne_nil _ _, ?_, inserted.second, ?_⟩
                    · intro other here
                      rcases List.mem_cons.mp here with rfl | here
                      · exact sound other member
                      · exact inserted.children other here
                    · have moved : (child.entries ++ entry :: rest.flatMap RTreeNode.entries).Perm
                          (entry :: (child.entries ++ rest.flatMap RTreeNode.entries)) :=
                        List.perm_middle
                      exact (inserted.entries.append_left child.entries).trans moved
          have inserted := below children _ (chooseSubtree_lt nonempty entry) fun _ here => here
          have whole := insertInternal_spec inserted
          unfold insertRecursive RTreeNode.entries
          rw [RTreeNode.entries_all]
          exact whole

theorem flatten_slices {α : Type} (size : Nat) (current items : List α) :
    (slices size current items).flatten = current ++ items := by
  induction items generalizing current with
  | nil =>
      unfold slices
      by_cases empty : current = []
      · rw [if_pos empty, empty]
        rfl
      · rw [if_neg empty]
        simp
  | cons item rest ih =>
      unfold slices
      by_cases full : size ≤ (current ++ [item]).length
      · rw [if_pos full, List.flatten_cons, ih]
        simp
      · rw [if_neg full, ih]
        simp

theorem buildStrTree_spec {entries : List GeoEntry} (nonempty : entries ≠ []) :
    (buildStrTree entries).Sound ∧ (buildStrTree entries).entries.Perm entries := by
  induction count : entries.length using Nat.strong_induction_on generalizing entries with
  | _ n ih =>
      subst count
      rw [buildStrTree]
      by_cases fits : entries.length ≤ maxEntries
      · rw [dif_pos fits]
        exact ⟨RTreeNode.sound_newLeaf nonempty, List.Perm.refl _⟩
      · rw [dif_neg fits, @List.attach_map_val _ _
          (slices (sliceSize entries.length) [] entries) fun slice =>
            buildStrTree (slice.mergeSort latLe)]
        have bounds := sliceSize_bounds (Nat.lt_of_not_le fits)
        have children : ∀ slice ∈ slices (sliceSize entries.length) [] entries,
            (buildStrTree (slice.mergeSort latLe)).Sound ∧
              (buildStrTree (slice.mergeSort latLe)).entries.Perm slice := by
          intro slice member
          have short := length_le_of_mem_slices bounds.1 member
          have sorted := List.mergeSort_perm slice latLe
          have some : slice.mergeSort latLe ≠ [] := by
            intro empty
            rw [empty] at sorted
            exact (slice_bounds member).1 sorted.nil_eq.symm
          obtain ⟨sound, same⟩ := ih (slice.mergeSort latLe).length
            (by rw [sorted.length_eq]; omega) some rfl
          exact ⟨sound, same.trans sorted⟩
        have whole := flatten_slices (sliceSize entries.length) [] entries
        constructor
        · refine RTreeNode.sound_newInternal ?_ ?_
          · intro empty
            rw [List.map_eq_nil_iff.mp empty] at whole
            exact nonempty whole.symm
          · intro child member
            obtain ⟨slice, here, rfl⟩ := List.mem_map.mp member
            exact (children slice here).1
        · rw [RTreeNode.entries_newInternal, List.flatMap_map]
          have parts := List.Perm.flatMap_left (slices (sliceSize entries.length) [] entries)
            fun slice member => (children slice member).2
          have together : (slices (sliceSize entries.length) [] entries).flatMap
              (fun slice => slice) = entries := by
            exact (List.flatten_eq_flatMap ..).symm.trans whole
          rw [together] at parts
          exact parts

theorem Inserted.newRoot {before : List GeoEntry} {entry : GeoEntry}
    {nodes : RTreeNode × Option RTreeNode} (inserted : Inserted before entry nodes) :
    (RTree.newRoot nodes.1 nodes.2).Sound ∧
      (RTree.newRoot nodes.1 nodes.2).entries.Perm (entry :: before) := by
  obtain ⟨node, split⟩ := nodes
  obtain ⟨first, second, same⟩ := inserted
  cases split with
  | none =>
      refine ⟨first, ?_⟩
      unfold entriesOfBoth at same
      rw [Option.toList_none, List.flatMap_nil, List.append_nil] at same
      exact same
  | some newNode =>
      constructor
      · refine RTreeNode.sound_newInternal (List.cons_ne_nil _ _) fun child here => ?_
        rcases List.mem_cons.mp here with rfl | here
        · exact first
        · rw [List.mem_singleton.mp here]
          exact second newNode rfl
      · show (RTreeNode.newInternal [node, newNode]).entries.Perm (entry :: before)
        rw [RTreeNode.entries_newInternal]
        simpa [entriesOfBoth] using same

namespace RTree

variable {query : BoundingBox}

theorem queryAll_eq (children : List RTreeNode) :
    rangeQueryRecursive.queryAll query children = children.flatMap (rangeQueryRecursive query) := by
  induction children with
  | nil => rfl
  | cons child rest ih =>
      unfold rangeQueryRecursive.queryAll
      rw [ih]
      rfl

theorem filter_eq_nil {b : BoundingBox} {entries : List GeoEntry}
    (encloses : Encloses b (pointsOf entries)) (apart : ¬ b.intersects query = true) :
    entries.filter (fun e => query.containsPoint e.point) = [] := by
  apply List.filter_eq_nil_iff.mpr
  intro e member inside
  exact apart (encloses.intersects (List.mem_map_of_mem member) inside)

/-- Pruning loses no entry, by induction over the tree. -/
theorem rangeQueryRecursive_eq {node : RTreeNode} (sound : node.Sound) :
    rangeQueryRecursive query node =
      node.entries.filter fun e => query.containsPoint e.point := by
  induction node using RTreeNode.induct with
  | leaf entries bbox =>
      unfold rangeQueryRecursive
      by_cases touches : bbox.intersects query = true
      · rw [if_pos touches]
        rfl
      · rw [if_neg touches]
        exact (filter_eq_nil sound.encloses touches).symm
  | internal children bbox ih =>
      unfold rangeQueryRecursive
      by_cases touches : bbox.intersects query = true
      · rw [if_pos touches, queryAll_eq]
        unfold RTreeNode.entries
        rw [RTreeNode.entries_all, List.filter_flatMap]
        cases sound with
        | internal nonempty sound exact =>
            exact List.flatMap_congr fun child member => ih child member (sound child member)
      · rw [if_neg touches]
        exact (filter_eq_nil sound.encloses touches).symm

/-- What is true of a tree of these entries. -/
structure Holds (t : RTree) (entries : List GeoEntry) : Prop where
  leaves : t.entries.Perm entries
  size : t.size = entries.length
  sound : ∀ root ∈ t.root, root.Sound

theorem Holds.of_perm {t : RTree} {entries entries' : List GeoEntry} (holds : t.Holds entries)
    (same : entries.Perm entries') : t.Holds entries' :=
  ⟨holds.leaves.trans same, holds.size.trans same.length_eq, holds.sound⟩

theorem holds_new : new.Holds [] :=
  ⟨List.Perm.refl _, rfl, fun root member => by cases member⟩

theorem holds_bulkLoad (entries : List GeoEntry) : (bulkLoad entries).Holds entries := by
  unfold bulkLoad
  by_cases empty : entries = []
  · rw [if_pos empty, empty]
    exact holds_new
  · rw [if_neg empty]
    have sorted := List.mergeSort_perm entries lonLe
    have some : entries.mergeSort lonLe ≠ [] := by
      intro none
      rw [none] at sorted
      exact empty sorted.nil_eq.symm
    obtain ⟨sound, same⟩ := buildStrTree_spec some
    refine ⟨same.trans sorted, rfl, fun root member => ?_⟩
    obtain rfl := Option.some.inj member
    exact sound

theorem Holds.insert {t : RTree} {entries : List GeoEntry} (holds : t.Holds entries)
    (entry : GeoEntry) : (t.insert entry).Holds (entry :: entries) := by
  obtain ⟨leaves, size, sound⟩ := holds
  unfold RTree.insert
  cases rooted : t.root with
  | none =>
      have none : entries = [] := by
        unfold RTree.entries at leaves
        rw [rooted] at leaves
        exact leaves.nil_eq.symm
      rw [none]
      refine ⟨List.Perm.refl _, rfl, fun root member => ?_⟩
      obtain rfl := Option.some.inj member
      exact RTreeNode.sound_newLeaf (List.cons_ne_nil entry [])
  | some root =>
      have inserted := insertRecursive_spec entry (sound root rooted)
      have before : root.entries.Perm entries := by
        unfold RTree.entries at leaves
        rw [rooted] at leaves
        exact leaves
      refine ⟨inserted.newRoot.2.trans (before.cons entry), ?_, fun root member => ?_⟩
      · show t.size + 1 = (entry :: entries).length
        rw [size, List.length_cons]
      · obtain rfl := Option.some.inj member
        exact inserted.newRoot.1

theorem Holds.rangeQuery {t : RTree} {entries : List GeoEntry} (holds : t.Holds entries)
    (query : BoundingBox) :
    (t.rangeQuery query).Perm (entries.filter fun e => query.containsPoint e.point) := by
  have found : t.rangeQuery query = t.entries.filter fun e => query.containsPoint e.point := by
    unfold RTree.rangeQuery RTree.entries
    cases rooted : t.root with
    | none => rfl
    | some root => exact rangeQueryRecursive_eq (holds.sound root rooted)
  rw [found]
  exact holds.leaves.filter _

theorem Holds.foldl_insert {t : RTree} {before : List GeoEntry} (holds : t.Holds before)
    (inserted : List GeoEntry) : (inserted.foldl RTree.insert t).Holds (before ++ inserted) := by
  induction inserted generalizing t before with
  | nil => rwa [List.append_nil]
  | cons entry rest ih =>
      have after := ih (holds.insert entry)
      exact after.of_perm List.perm_middle.symm

/-- A tree that was loaded and then grew by insertions holds exactly these entries, each node's box
is that of the entries below it, no node is empty, and a range query finds exactly the entries whose
points lie in the box, each as often as it occurs. -/
theorem holds_exactly (loaded inserted : List GeoEntry) (query : BoundingBox) :
    ((inserted.foldl RTree.insert (bulkLoad loaded)).entries).Perm (loaded ++ inserted) ∧
    (inserted.foldl RTree.insert (bulkLoad loaded)).len = (loaded ++ inserted).length ∧
    (∀ root ∈ (inserted.foldl RTree.insert (bulkLoad loaded)).root, root.Sound) ∧
    ((inserted.foldl RTree.insert (bulkLoad loaded)).rangeQuery query).Perm
      ((loaded ++ inserted).filter fun e => query.containsPoint e.point) := by
  have holds := (holds_bulkLoad loaded).foldl_insert inserted
  exact ⟨holds.leaves, holds.size, holds.sound, holds.rangeQuery query⟩

end RTree

end Zumic.Database.Geo
