/- The shape of the R-tree: how many entries and children its nodes have, and how deep its leaves
lie. -/

import Zumic.Database.RTreeSound

namespace Zumic.Database.Geo

/-- Every node has at most `maxEntries` entries or children, and every leaf lies that deep. -/
inductive RTreeNode.Shaped : Nat → RTreeNode → Prop where
  | leaf {entries : List GeoEntry} {bbox : BoundingBox} (few : entries.length ≤ maxEntries) :
      Shaped 0 (.leaf entries bbox)
  | internal {depth : Nat} {children : List RTreeNode} {bbox : BoundingBox}
      (few : children.length ≤ maxEntries) (even : ∀ child ∈ children, Shaped depth child) :
      Shaped (depth + 1) (.internal children bbox)

def RTree.Shaped (t : RTree) : Prop := ∀ root ∈ t.root, ∃ depth, root.Shaped depth

/-- An insertion leaves nodes of the same depth. -/
def ShapedBoth (depth : Nat) (nodes : RTreeNode × Option RTreeNode) : Prop :=
  nodes.1.Shaped depth ∧ ∀ node ∈ nodes.2, node.Shaped depth

theorem split_few {α : Type} {box : α → BoundingBox} (distance : α → α → ℚ) {items : List α}
    (excess : items.length = maxEntries + 1) :
    (split box (pickSeeds distance items) items).1.length ≤ maxEntries ∧
      (split box (pickSeeds distance items) items).2.length ≤ maxEntries ∧
      (∀ item ∈ (split box (pickSeeds distance items) items).1, item ∈ items) ∧
      ∀ item ∈ (split box (pickSeeds distance items) items).2, item ∈ items := by
  have two : 2 ≤ items.length := by
    rw [excess]
    decide
  have seeds := pickSeeds_lt distance two
  obtain ⟨some1, some2, same⟩ := @split_spec _ box _ _ seeds.1 seeds.2
  have sum := same.length_eq
  rw [List.length_append, excess] at sum
  have first := List.length_pos_of_ne_nil some1
  have second := List.length_pos_of_ne_nil some2
  refine ⟨by omega, by omega, ?_, ?_⟩
  · intro item member
    exact same.mem_iff.mp (List.mem_append_left _ member)
  · intro item member
    exact same.mem_iff.mp (List.mem_append_right _ member)

theorem insertLeaf_shaped {entries : List GeoEntry} (few : entries.length ≤ maxEntries)
    (entry : GeoEntry) : ShapedBoth 0 (insertLeaf entries entry) := by
  unfold insertLeaf
  by_cases fits : (entries ++ [entry]).length ≤ maxEntries
  · simp only [if_pos fits]
    exact ⟨.leaf fits, by simp⟩
  · simp only [if_neg fits]
    have excess : (entries ++ [entry]).length = maxEntries + 1 := by
      rw [List.length_append, List.length_singleton] at fits ⊢
      omega
    obtain ⟨few1, few2, -, -⟩ := @split_few _ GeoEntry.bbox
      (fun e e' : GeoEntry => pointDistance e.point e'.point) _ excess
    refine ⟨.leaf few1, ?_⟩
    intro node member
    obtain rfl := Option.some.inj member
    exact .leaf few2

theorem insertInternal_shaped {depth : Nat} {children : List RTreeNode}
    {splitChild : Option RTreeNode} (few : children.length ≤ maxEntries)
    (even : ∀ child ∈ children, child.Shaped depth)
    (second : ∀ node ∈ splitChild, node.Shaped depth) :
    ShapedBoth (depth + 1) (insertInternal children splitChild) := by
  have all : ∀ child ∈ children ++ splitChild.toList, child.Shaped depth := by
    intro child member
    rcases List.mem_append.mp member with old | new
    · exact even child old
    · exact second child (Option.mem_toList.mp new)
  unfold insertInternal
  by_cases fits : (children ++ splitChild.toList).length ≤ maxEntries
  · simp only [if_pos fits]
    exact ⟨.internal fits all, by simp⟩
  · simp only [if_neg fits]
    have atMost : splitChild.toList.length ≤ 1 := by cases splitChild <;> simp
    have excess : (children ++ splitChild.toList).length = maxEntries + 1 := by
      rw [List.length_append] at fits ⊢
      omega
    obtain ⟨few1, few2, left, right⟩ := @split_few _ RTreeNode.bbox
      (fun c c' : RTreeNode => pointDistance c.bbox.center c'.bbox.center) _ excess
    refine ⟨.internal few1 fun child member => all child (left child member), ?_⟩
    intro node member
    obtain rfl := Option.some.inj member
    exact .internal few2 fun child member => all child (right child member)

theorem insertRecursive_shaped (entry : GeoEntry) {node : RTreeNode} {depth : Nat}
    (shaped : node.Shaped depth) : ShapedBoth depth (insertRecursive entry node) := by
  induction node using RTreeNode.induct generalizing depth with
  | leaf entries bbox =>
      cases shaped with
      | leaf few => exact insertLeaf_shaped few entry
  | internal children bbox ih =>
      cases shaped with
      | @internal depth _ _ few even =>
          have below : ∀ (others : List RTreeNode) (i : Nat), (∀ child ∈ others, child ∈ children) →
              (insertRecursive.insertChild entry i others).1.length = others.length ∧
                (∀ child ∈ (insertRecursive.insertChild entry i others).1, child.Shaped depth) ∧
                ∀ node ∈ (insertRecursive.insertChild entry i others).2, node.Shaped depth := by
            intro others
            induction others with
            | nil =>
                intro i _
                cases i <;> exact ⟨rfl, by simp [insertRecursive.insertChild],
                  by simp [insertRecursive.insertChild]⟩
            | cons child rest restIh =>
                intro i inside
                have member := inside child List.mem_cons_self
                have later : ∀ other ∈ rest, other ∈ children :=
                  fun other here => inside other (List.mem_cons_of_mem _ here)
                cases i with
                | zero =>
                    obtain ⟨first, second⟩ := ih child member (even child member)
                    refine ⟨rfl, ?_, second⟩
                    intro other here
                    rcases List.mem_cons.mp here with rfl | here
                    · exact first
                    · exact even other (later other here)
                | succ i =>
                    obtain ⟨long, others, second⟩ := restIh i later
                    refine ⟨congrArg (· + 1) long, ?_, second⟩
                    intro other here
                    rcases List.mem_cons.mp here with rfl | here
                    · exact even other member
                    · exact others other here
          obtain ⟨long, others, second⟩ :=
            below children (chooseSubtree children entry) fun _ here => here
          unfold insertRecursive
          exact insertInternal_shaped (long ▸ few) others second

theorem RTree.Shaped.insert {t : RTree} (shaped : t.Shaped) (entry : GeoEntry) :
    (t.insert entry).Shaped := by
  intro node member
  unfold RTree.insert at member
  cases rooted : t.root with
  | none =>
      rw [rooted] at member
      obtain rfl := Option.some.inj member
      exact ⟨0, .leaf (show 1 ≤ 8 by decide)⟩
  | some root =>
      rw [rooted] at member
      obtain rfl := Option.some.inj member
      obtain ⟨depth, below⟩ := shaped root rooted
      obtain ⟨first, second⟩ := insertRecursive_shaped entry below
      cases split : (insertRecursive entry root).2 with
      | none => exact ⟨depth, first⟩
      | some newNode =>
          refine ⟨depth + 1, .internal (show 2 ≤ 8 by decide) ?_⟩
          intro child here
          rcases List.mem_pair.mp here with rfl | rfl
          · exact first
          · exact second child split

theorem length_slices {α : Type} {size : Nat} (current items : List α)
    (short : current.length < size) :
    (slices size current items).length = (current.length + items.length + size - 1) / size := by
  induction items generalizing current with
  | nil =>
      unfold slices
      by_cases empty : current = []
      · subst empty
        rw [if_pos rfl]
        exact (Nat.div_eq_of_lt (by simp; omega)).symm
      · have some := List.length_pos_of_ne_nil empty
        rw [if_neg empty]
        refine (Nat.div_eq_of_lt_le ?_ ?_).symm
        · simp
          omega
        · simp
          omega
  | cons item rest ih =>
      unfold slices
      have longer : (current ++ [item]).length = current.length + 1 := by simp
      by_cases full : size ≤ (current ++ [item]).length
      · have one : current.length + (item :: rest).length + size - 1 =
            rest.length + size - 1 + size := by
          rw [List.length_cons]
          omega
        rw [if_pos full, List.length_cons, ih [] (by simp; omega), one,
          Nat.add_div_right _ (by omega)]
        simp
      · rw [if_neg full, ih _ (by omega), longer, List.length_cons]
        congr 1
        omega

theorem sliceCount_square (n : Nat) : n ≤ sliceCount n * sliceCount n := by
  have above : n < (n.sqrt + 1) * (n.sqrt + 1) := Nat.lt_succ_sqrt n
  unfold sliceCount
  by_cases square : n.sqrt * n.sqrt = n
  · rw [if_pos square]
    have wider := Nat.le_max_left n.sqrt 2
    exact square.symm.le.trans (Nat.mul_le_mul wider wider)
  · rw [if_neg square]
    have wider := Nat.le_max_left (n.sqrt + 1) 2
    exact above.le.trans (Nat.mul_le_mul wider wider)

theorem sliceCount_le {n : Nat} (few : n ≤ maxEntries * maxEntries) :
    sliceCount n ≤ maxEntries := by
  have small : n ≤ 8 * 8 := few
  have below : n.sqrt * n.sqrt ≤ n := Nat.sqrt_le n
  have root : n.sqrt ≤ 8 := by
    have mono := Nat.sqrt_le_sqrt small
    rwa [Nat.sqrt_eq] at mono
  unfold sliceCount
  change max _ 2 ≤ 8
  by_cases square : n.sqrt * n.sqrt = n
  · rw [if_pos square]
    omega
  · rw [if_neg square]
    have less : n.sqrt ≠ 8 := by
      intro same
      rw [same] at below square
      omega
    omega

theorem lt_sliceCount {n : Nat} (many : maxEntries * maxEntries < n) :
    maxEntries < sliceCount n := by
  have large : 8 * 8 < n := many
  have root : 8 ≤ n.sqrt := Nat.le_sqrt.mpr large.le
  unfold sliceCount
  change 8 < max _ 2
  by_cases square : n.sqrt * n.sqrt = n
  · rw [if_pos square]
    have more : n.sqrt ≠ 8 := by
      intro same
      rw [same] at square
      omega
    omega
  · rw [if_neg square]
    omega

theorem ceil_bounds (n : Nat) {c : Nat} (positive : 0 < c) :
    n ≤ (n + c - 1) / c * c ∧ (n + c - 1) / c * c ≤ n + c - 1 := by
  have above : n + c - 1 < (n + c - 1) / c * c + c := Nat.lt_div_mul_add positive
  have below : (n + c - 1) / c * c ≤ n + c - 1 := Nat.div_mul_le_self _ _
  omega

/-- The number of slices, each but the last of the slice size. -/
def childCount (n : Nat) : Nat := (n + sliceSize n - 1) / sliceSize n

theorem childCount_le {n : Nat} (large : maxEntries < n) (few : n ≤ maxEntries * maxEntries) :
    childCount n ≤ maxEntries ∧ sliceSize n ≤ maxEntries := by
  have count := sliceCount_le few
  have square := sliceCount_square n
  have positive : 0 < sliceCount n := Nat.lt_of_lt_of_le (by decide) (Nat.le_max_right _ 2)
  obtain ⟨enough, fitting⟩ := ceil_bounds n positive
  obtain ⟨-, fewest⟩ := ceil_bounds n (sliceSize_bounds large).1
  change n ≤ sliceSize n * sliceCount n at enough
  change sliceSize n * sliceCount n ≤ n + sliceCount n - 1 at fitting
  change childCount n * sliceSize n ≤ n + sliceSize n - 1 at fewest
  constructor
  · have less : childCount n * sliceSize n < (sliceCount n + 1) * sliceSize n := by
      rw [Nat.succ_mul, Nat.mul_comm (sliceCount n)]
      have some := (sliceSize_bounds large).1
      omega
    have fewer := Nat.lt_of_mul_lt_mul_right less
    omega
  · have less : sliceSize n * sliceCount n < (sliceCount n + 1) * sliceCount n := by
      rw [Nat.succ_mul]
      omega
    have fewer := Nat.lt_of_mul_lt_mul_right less
    omega

theorem lt_childCount {n : Nat} (many : maxEntries * maxEntries < n) :
    maxEntries < childCount n := by
  have large : 8 * 8 < n := many
  have wide : maxEntries < n := by
    change 8 < n
    omega
  have count : 8 < sliceCount n := lt_sliceCount many
  obtain ⟨-, fitting⟩ := ceil_bounds n (Nat.zero_lt_of_lt count)
  obtain ⟨covered, -⟩ := ceil_bounds n (sliceSize_bounds wide).1
  change sliceSize n * sliceCount n ≤ n + sliceCount n - 1 at fitting
  change n ≤ childCount n * sliceSize n at covered
  refine Nat.lt_of_not_le fun few => ?_
  have eight : n ≤ 8 * sliceSize n := covered.trans (Nat.mul_le_mul_right _ few)
  have wider : n * sliceCount n ≤ 8 * (sliceSize n * sliceCount n) := by
    rw [← Nat.mul_assoc]
    exact Nat.mul_le_mul_right _ eight
  obtain ⟨m, rfl⟩ := Nat.exists_eq_add_of_lt large
  obtain ⟨d, same⟩ := Nat.exists_eq_add_of_lt count
  rw [same] at wider fitting
  have product : (8 * 8 + m + 1) * (8 + d + 1) = m * d + 9 * m + 65 * d + 585 := by ring
  rw [product] at wider
  omega

theorem buildStrTree_of_large {entries : List GeoEntry} (large : maxEntries < entries.length) :
    buildStrTree entries = .newInternal ((slices (sliceSize entries.length) [] entries).map
      fun slice => buildStrTree (slice.mergeSort latLe)) := by
  rw [buildStrTree, dif_neg (Nat.not_le_of_lt large), @List.attach_map_val _ _
    (slices (sliceSize entries.length) [] entries) fun slice =>
      buildStrTree (slice.mergeSort latLe)]

theorem length_slices_all {entries : List GeoEntry} (large : maxEntries < entries.length) :
    (slices (sliceSize entries.length) [] entries).length = childCount entries.length := by
  have counted := length_slices [] entries (sliceSize_bounds large).1
  rwa [List.length_nil, Nat.zero_add] at counted

theorem buildStrTree_shaped {entries : List GeoEntry}
    (few : entries.length ≤ maxEntries * maxEntries) :
    ∃ depth, (buildStrTree entries).Shaped depth := by
  by_cases fits : entries.length ≤ maxEntries
  · rw [buildStrTree, dif_pos fits]
    exact ⟨0, .leaf fits⟩
  · have large := Nat.lt_of_not_le fits
    obtain ⟨children, size⟩ := childCount_le large few
    rw [buildStrTree_of_large large]
    refine ⟨1, .internal ?_ ?_⟩
    · rw [List.length_map, length_slices_all large]
      exact children
    · intro child member
      obtain ⟨slice, here, rfl⟩ := List.mem_map.mp member
      have short := length_le_of_mem_slices (sliceSize_bounds large).1 here
      have leaf : (slice.mergeSort latLe).length ≤ maxEntries := by
        rw [List.length_mergeSort]
        exact short.trans size
      rw [buildStrTree, dif_pos leaf]
      exact .leaf leaf

theorem not_shaped_buildStrTree {entries : List GeoEntry}
    (many : maxEntries * maxEntries < entries.length) (depth : Nat) :
    ¬ (buildStrTree entries).Shaped depth := by
  have large : maxEntries < entries.length := Nat.lt_of_le_of_lt (by decide) many
  rw [buildStrTree_of_large large]
  intro shaped
  cases shaped with
  | internal few even =>
      rw [List.length_map, length_slices_all large] at few
      exact Nat.not_le_of_lt (lt_childCount many) few

namespace RTree

theorem shaped_bulkLoad_iff (loaded : List GeoEntry) :
    (bulkLoad loaded).Shaped ↔ loaded.length ≤ maxEntries * maxEntries := by
  have sorted : (loaded.mergeSort lonLe).length = loaded.length := List.length_mergeSort ..
  unfold bulkLoad
  by_cases empty : loaded = []
  · subst empty
    rw [if_pos rfl]
    refine iff_of_true ?_ (Nat.zero_le _)
    intro root member
    cases member
  · rw [if_neg empty]
    constructor
    · intro shaped
      obtain ⟨depth, below⟩ := shaped _ rfl
      refine Nat.le_of_not_lt fun many => ?_
      exact not_shaped_buildStrTree (sorted ▸ many) depth below
    · intro few root member
      obtain rfl := Option.some.inj member
      exact buildStrTree_shaped (sorted ▸ few)

theorem Shaped.foldl_insert {t : RTree} (shaped : t.Shaped) (inserted : List GeoEntry) :
    (inserted.foldl RTree.insert t).Shaped := by
  induction inserted generalizing t with
  | nil => exact shaped
  | cons entry inserted ih => exact ih (shaped.insert entry)

/-- Insertions keep the shape, so that a tree has it at every time exactly when bulk loading gave it
no more entries than two levels hold. -/
theorem shaped_always_iff (loaded inserted : List GeoEntry) :
    (∀ n, ((inserted.take n).foldl RTree.insert (bulkLoad loaded)).Shaped) ↔
      loaded.length ≤ maxEntries * maxEntries := by
  rw [← shaped_bulkLoad_iff]
  constructor
  · intro always
    exact always 0
  · intro shaped n
    exact shaped.foldl_insert (inserted.take n)

/-- A tree of 65 entries has nine leaves under its root. -/
theorem bulkLoad_too_wide : ¬ ∀ loaded inserted : List GeoEntry,
    (inserted.foldl RTree.insert (bulkLoad loaded)).Shaped := by
  intro shaped
  let entry : GeoEntry := ⟨Zumic.Lib.Utf8.Str.lit "a", ⟨0, 0⟩, 0⟩
  have loaded := (shaped_bulkLoad_iff _).mp (shaped (List.replicate 65 entry) [])
  rw [List.length_replicate] at loaded
  exact absurd loaded (by decide)

end RTree

end Zumic.Database.Geo
