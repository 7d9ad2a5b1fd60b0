/- When the search of an R-tree finds the nearest entries, and what leads it past them. -/

import Zumic.Lib.BestFirst
import Zumic.Database.Nearest

namespace Zumic.Database.Geo

open Lib Lib.BestFirst

section

variable (sphere : Sphere) (point : GeoPoint)

/-- What an item of the queue stands for: a result, or the items that it is expanded to. -/
def PqItem.opened (item : PqItem) : ResultItem ⊕ List PqItem :=
  match item.entry with
  | some entry => .inl ⟨entry, item.dist⟩
  | none => .inr (item.expand sphere point)

/-- The items of the queue, taken by their distance. -/
def searched : Space PqItem ResultItem ℚ where
  opened := PqItem.opened sphere point
  key := PqItem.dist
  dist := ResultItem.dist
  size := PqItem.turns
  key_entry := by
    intro item result opened
    unfold PqItem.opened at opened
    split at opened
    · rw [← Sum.inl.inj opened]
    · cases opened
  size_pos := PqItem.turns_pos
  smaller := by
    intro item items opened
    unfold PqItem.opened at opened
    split at opened
    · cases opened
    · rename_i node
      rw [← Sum.inr.inj opened]
      exact item.turns_expand sphere point node

/-- An answer of `knn`, with equal distances taken out of the heaps in any order. -/
def RTree.Answers (t : RTree) (k : Nat) (out : List (GeoEntry × ℚ)) : Prop :=
  match t.root with
  | none => out = []
  | some root =>
      if k = 0 then out = []
      else ∃ results vec : List ResultItem,
        Finds (searched sphere point) k ⟨0, root, none⟩ results ∧ vec.Perm results ∧
          out = (vec.map fun r => (r.entry, r.dist)).mergeSort nearLe

variable {sphere} {point} {k : Nat}

theorem Search.pruned_iff (positive : 0 < k) {s : Search} {item : PqItem} :
    s.pruned k item = true ↔ Far (searched sphere point) k s.results item := by
  unfold Search.pruned Far Heap.peek
  rw [decide_eq_true_eq]
  refine and_congr_right fun enough => ?_
  have some : s.results ≠ [] := by
    intro none
    rw [none] at enough
    exact absurd enough (Nat.not_le_of_gt positive)
  obtain ⟨farthest, others, taken⟩ := @Heap.pop_isSome _ _ _ ResultItem.dist _ some
  have same := Heap.pop_perm taken
  have greatest := Heap.pop_greatest taken
  rw [taken]
  change decide (farthest.dist < item.dist) = true ↔ _
  rw [decide_eq_true_eq]
  constructor
  · intro beyond r member
    rcases List.mem_cons.mp (same.mem_iff.mpr member) with rfl | other
    · exact beyond
    · exact (greatest r other).trans_lt beyond
  · intro beyond
    exact beyond farthest (same.subset List.mem_cons_self)

theorem keeps_keep (item : ResultItem) (results : List ResultItem) :
    Keeps (searched sphere point) k item results (keep k item results) := by
  unfold Keeps keep
  by_cases less : results.length < k
  · rw [if_pos less, if_neg (by omega)]
  · rw [if_neg less, if_pos (by omega)]
    obtain ⟨farthest, others, taken⟩ :=
      @Heap.pop_isSome _ _ _ ResultItem.dist (item :: results) (List.cons_ne_nil item results)
    rw [taken]
    exact ⟨farthest, Heap.pop_perm taken, Heap.pop_greatest taken⟩

theorem Search.step_of_next (positive : 0 < k) {s s' : Search}
    (next : s.next sphere point k = some s') :
    Step (searched sphere point) k ⟨s.pq, s.results⟩ ⟨s'.pq, s'.results⟩ := by
  unfold Search.next at next
  cases taken : Heap.pop PqItem.priority s.pq with
  | none =>
      rw [taken] at next
      cases next
  | some parts =>
      obtain ⟨item, rest⟩ := parts
      rw [taken] at next
      obtain rfl := Option.some.inj next
      have popped : Pops (searched sphere point) s.pq item rest := by
        refine ⟨Heap.pop_perm taken, fun other member => ?_⟩
        have greatest := Heap.pop_greatest taken other member
        unfold PqItem.priority at greatest
        exact neg_le_neg_iff.mp greatest
      unfold Search.visit
      by_cases pruned : s.pruned k item = true
      · rw [if_pos pruned]
        exact .prune popped ((Search.pruned_iff positive).mp pruned)
      · rw [if_neg pruned]
        have near : ¬ Far (searched sphere point) k s.results item :=
          mt (Search.pruned_iff positive).mpr pruned
        cases kind : item.entry with
        | some entry =>
            refine .keep popped near ?_ (keeps_keep ⟨entry, item.dist⟩ s.results)
            change item.opened sphere point = _
            unfold PqItem.opened
            rw [kind]
        | none =>
            refine .expand popped near ?_
            change item.opened sphere point = _
            unfold PqItem.opened
            rw [kind]

theorem Search.finds_run (positive : 0 < k) (s : Search) :
    Relation.ReflTransGen (Step (searched sphere point) k) ⟨s.pq, s.results⟩
      ⟨[], s.run sphere point k⟩ := by
  induction left : s.turns using Nat.strong_induction_on generalizing s with
  | _ n ih =>
      subst left
      unfold Search.run
      cases turn : s.next sphere point k with
      | none =>
          rw [(Search.next_eq_none_iff sphere).mp turn]
      | some s' =>
          exact .head (Search.step_of_next positive turn)
            (ih s'.turns (Search.turns_next sphere turn) s' rfl)

theorem RTree.answers_knn (t : RTree) (k : Nat) :
    t.Answers sphere point k (t.knn sphere point k) := by
  unfold RTree.Answers RTree.knn
  cases t.root with
  | none => rfl
  | some root =>
      dsimp only
      by_cases zero : k = 0
      · rw [if_pos zero, if_pos zero]
      · rw [if_neg zero, if_neg zero]
        exact ⟨_, _, Search.finds_run (Nat.pos_of_ne_zero zero) ⟨[⟨0, root, none⟩], []⟩,
          List.Perm.refl _, rfl⟩

end

section

variable {sphere : Sphere}

/-- How far a coordinate lies outside of a range. -/
def outside (low high x : ℚ) : ℚ :=
  if x < low then low - x else if high < x then x - high else 0

theorem outside_nonneg (low high x : ℚ) : 0 ≤ outside low high x := by
  unfold outside
  split
  · rename_i less
    exact sub_nonneg.mpr less.le
  · split
    · rename_i greater
      exact sub_nonneg.mpr greater.le
    · exact le_refl 0

theorem outside_mono {low high low' high' : ℚ} (above : low ≤ low') (below : high' ≤ high)
    (range : low' ≤ high') (x : ℚ) : outside low high x ≤ outside low' high' x := by
  by_cases less : x < low
  · have less' := less.trans_le above
    unfold outside
    rw [if_pos less, if_pos less']
    exact sub_le_sub_right above x
  · by_cases greater : high < x
    · have greater' := below.trans_lt greater
      unfold outside
      rw [if_neg less, if_pos greater, if_neg (range.trans greater'.le).not_gt, if_pos greater']
      exact sub_le_sub_left below x
    · have zero : outside low high x = 0 := by
        unfold outside
        rw [if_neg less, if_neg greater]
      rw [zero]
      exact outside_nonneg low' high' x

theorem minDistanceToPoint_eq (b : BoundingBox) (point : GeoPoint) :
    b.minDistanceToPoint sphere point =
      sphere.sqrt (outside b.minLon b.maxLon point.lon * outside b.minLon b.maxLon point.lon +
        outside b.minLat b.maxLat point.lat * outside b.minLat b.maxLat point.lat) := rfl

variable (ascends : Monotone sphere.sqrt)
include ascends

theorem Encloses.minDistanceToPoint_le {b b' : BoundingBox} {points points' : List GeoPoint}
    (encloses : Encloses b points) (encloses' : Encloses b' points') (part : points' ⊆ points)
    (point : GeoPoint) :
    b.minDistanceToPoint sphere point ≤ b'.minDistanceToPoint sphere point := by
  have lon := outside_mono (encloses.lon.le (List.map_subset _ part encloses'.lon.least.1))
    (encloses.lon.ge (List.map_subset _ part encloses'.lon.greatest.1))
    (encloses'.lon.le encloses'.lon.greatest.1) point.lon
  have lat := outside_mono (encloses.lat.le (List.map_subset _ part encloses'.lat.least.1))
    (encloses.lat.ge (List.map_subset _ part encloses'.lat.greatest.1))
    (encloses'.lat.le encloses'.lat.greatest.1) point.lat
  rw [minDistanceToPoint_eq, minDistanceToPoint_eq]
  apply ascends
  apply add_le_add
  · exact mul_self_le_mul_self (outside_nonneg _ _ _) lon
  · exact mul_self_le_mul_self (outside_nonneg _ _ _) lat

theorem RTreeNode.Sound.child_le {children : List RTreeNode} {bbox : BoundingBox}
    (sound : (RTreeNode.internal children bbox).Sound) {child : RTreeNode}
    (member : child ∈ children) (point : GeoPoint) :
    bbox.minDistanceToPoint sphere point ≤ child.bbox.minDistanceToPoint sphere point := by
  cases sound with
  | internal nonempty each exact =>
      refine exact.minDistanceToPoint_le ascends (each child member).encloses ?_ point
      refine List.map_subset _ fun e under => ?_
      exact List.mem_flatMap.mpr ⟨child, member, under⟩

end

/-- The leaves of a tree, with their boxes and entries. -/
def RTreeNode.leaves : RTreeNode → List (BoundingBox × List GeoEntry)
  | .leaf entries bbox => [(bbox, entries)]
  | .internal children _ => all children
where
  all : List RTreeNode → List (BoundingBox × List GeoEntry)
    | [] => []
    | child :: rest => child.leaves ++ all rest

theorem RTreeNode.leaves_internal (children : List RTreeNode) (bbox : BoundingBox) :
    (RTreeNode.internal children bbox).leaves = children.flatMap RTreeNode.leaves := by
  unfold RTreeNode.leaves
  induction children with
  | nil => rfl
  | cons child rest ih =>
      unfold RTreeNode.leaves.all
      rw [ih]
      rfl

theorem RTreeNode.entries_eq (node : RTreeNode) : node.entries = node.leaves.flatMap Prod.snd := by
  induction node using RTreeNode.induct with
  | leaf entries bbox => exact (List.flatMap_singleton Prod.snd (bbox, entries)).symm
  | internal children bbox ih =>
      rw [RTreeNode.leaves_internal, List.flatMap_assoc]
      unfold RTreeNode.entries
      rw [RTreeNode.entries_all]
      exact List.flatMap_congr ih

section

variable (sphere : Sphere) (point : GeoPoint)

/-- The items that are queued for a child and for an entry of a leaf. -/
def PqItem.ofNode (child : RTreeNode) : PqItem :=
  ⟨child.bbox.minDistanceToPoint sphere point, child, none⟩

def PqItem.ofEntry (leaf : RTreeNode) (entry : GeoEntry) : PqItem :=
  ⟨sphere.haversineDistance point entry.point, leaf, some entry⟩

/-- The result for an entry. -/
def ResultItem.of (entry : GeoEntry) : ResultItem :=
  ⟨entry, sphere.haversineDistance point entry.point⟩

variable {sphere point}

theorem opened_leaf (dist : ℚ) (entries : List GeoEntry) (bbox : BoundingBox) :
    (searched sphere point).opened ⟨dist, .leaf entries bbox, none⟩ =
      .inr (entries.map (PqItem.ofEntry sphere point (.leaf entries bbox))) := rfl

theorem opened_internal (dist : ℚ) (children : List RTreeNode) (bbox : BoundingBox) :
    (searched sphere point).opened ⟨dist, .internal children bbox, none⟩ =
      .inr (children.map (PqItem.ofNode sphere point)) := rfl

theorem opened_ofEntry (leaf : RTreeNode) (entry : GeoEntry) :
    (searched sphere point).opened (PqItem.ofEntry sphere point leaf entry) =
      .inl (ResultItem.of sphere point entry) := rfl

theorem gather_leaf (pass : PqItem → Bool) (dist : ℚ) (entries : List GeoEntry)
    (bbox : BoundingBox) :
    gather (searched sphere point) pass ⟨dist, .leaf entries bbox, none⟩ =
      if pass ⟨dist, .leaf entries bbox, none⟩ then entries.map (ResultItem.of sphere point)
      else [] := by
  rw [gather_node (opened_leaf dist entries bbox), List.flatMap_map]
  have single : ∀ entry ∈ entries, gather (searched sphere point) pass
      (PqItem.ofEntry sphere point (.leaf entries bbox) entry) =
        [ResultItem.of sphere point entry] :=
    fun entry _ => gather_entry (opened_ofEntry _ entry)
  have whole := (List.flatMap_congr single).trans
    (List.flatMap_pure_eq_map (ResultItem.of sphere point) entries)
  rw [whole]

theorem gather_internal (pass : PqItem → Bool) (dist : ℚ) (children : List RTreeNode)
    (bbox : BoundingBox) :
    gather (searched sphere point) pass ⟨dist, .internal children bbox, none⟩ =
      if pass ⟨dist, .internal children bbox, none⟩ then children.flatMap fun child =>
        gather (searched sphere point) pass (PqItem.ofNode sphere point child)
      else [] := by
  rw [gather_node (opened_internal dist children bbox), List.flatMap_map]

theorem below_node (dist : ℚ) (node : RTreeNode) :
    below (searched sphere point) ⟨dist, node, none⟩ =
      node.entries.map (ResultItem.of sphere point) := by
  unfold below
  induction node using RTreeNode.induct generalizing dist with
  | leaf entries bbox =>
      rw [gather_leaf, if_pos rfl]
      rfl
  | internal children bbox ih =>
      rw [gather_internal, if_pos rfl]
      unfold RTreeNode.entries
      rw [RTreeNode.entries_all, List.map_flatMap]
      exact List.flatMap_congr fun child member => ih child member _

theorem RTreeNode.Sound.leaf_ge (ascends : Monotone sphere.sqrt) {node : RTreeNode}
    (sound : node.Sound) {leaf : BoundingBox × List GeoEntry} (member : leaf ∈ node.leaves) :
    node.bbox.minDistanceToPoint sphere point ≤ leaf.1.minDistanceToPoint sphere point := by
  induction node using RTreeNode.induct with
  | leaf entries bbox =>
      obtain rfl := List.mem_singleton.mp member
      exact le_refl _
  | internal children bbox ih =>
      rw [RTreeNode.leaves_internal] at member
      obtain ⟨child, inside, under⟩ := List.mem_flatMap.mp member
      have first := sound.child_le ascends inside point
      cases sound with
      | internal _ each _ => exact first.trans (ih child inside (each child inside) under)

theorem mem_within_iff (ascends : Monotone sphere.sqrt) {node : RTreeNode} (sound : node.Sound)
    {x : ℚ} {r : ResultItem} :
    r ∈ within (searched sphere point) x (PqItem.ofNode sphere point node) ↔
      ∃ leaf ∈ node.leaves, leaf.1.minDistanceToPoint sphere point ≤ x ∧
        ∃ e ∈ leaf.2, r = ResultItem.of sphere point e := by
  unfold within PqItem.ofNode
  induction node using RTreeNode.induct with
  | leaf entries bbox =>
      rw [gather_leaf]
      change (r ∈ if decide (bbox.minDistanceToPoint sphere point ≤ x) = true then
        entries.map (ResultItem.of sphere point) else []) ↔ ∃ leaf ∈ [(bbox, entries)], _
      by_cases low : bbox.minDistanceToPoint sphere point ≤ x
      · simp [low, eq_comm]
      · simp [low]
  | internal children bbox ih =>
      rw [gather_internal, RTreeNode.leaves_internal]
      have first : ∀ child ∈ children, bbox.minDistanceToPoint sphere point ≤
          child.bbox.minDistanceToPoint sphere point :=
        fun child member => sound.child_le ascends member point
      cases sound with
      | internal nonempty each exact =>
          change (r ∈ if decide (bbox.minDistanceToPoint sphere point ≤ x) = true then _ else _) ↔ _
          by_cases low : bbox.minDistanceToPoint sphere point ≤ x
          · rw [if_pos (decide_eq_true low), List.mem_flatMap]
            constructor
            · rintro ⟨child, member, under⟩
              obtain ⟨leaf, inside, rest⟩ := (ih child member (each child member)).mp under
              exact ⟨leaf, List.mem_flatMap.mpr ⟨child, member, inside⟩, rest⟩
            · rintro ⟨leaf, inside, rest⟩
              obtain ⟨child, member, inside⟩ := List.mem_flatMap.mp inside
              exact ⟨child, member, (ih child member (each child member)).mpr ⟨leaf, inside, rest⟩⟩
          · rw [if_neg (by simpa using low)]
            refine iff_of_false List.not_mem_nil ?_
            rintro ⟨leaf, inside, near, -⟩
            obtain ⟨child, member, inside⟩ := List.mem_flatMap.mp inside
            exact low ((first child member).trans
              (((each child member).leaf_ge ascends inside).trans near))

/-- An item for a node that is not nearer than the item says. -/
structure PqItem.Fits (sphere : Sphere) (point : GeoPoint) (item : PqItem) : Prop where
  node : item.entry = none
  sound : item.node.Sound
  low : item.dist ≤ item.node.bbox.minDistanceToPoint sphere point

/-- An item of the queue for a node below the root. -/
structure PqItem.Queued (sphere : Sphere) (point : GeoPoint) (item : PqItem) : Prop where
  made : item = PqItem.ofNode sphere point item.node
  sound : item.node.Sound

theorem PqItem.Queued.fits {item : PqItem} (queued : item.Queued sphere point) :
    item.Fits sphere point := by
  obtain ⟨made, sound⟩ := queued
  rw [made]
  exact ⟨rfl, sound, le_refl _⟩

theorem PqItem.Fits.expand {item : PqItem} {items : List PqItem} (fits : item.Fits sphere point)
    (opened : (searched sphere point).opened item = .inr items) :
    (∀ c ∈ items, c.entry ≠ none) ∨
      (∀ c ∈ items, c.Queued sphere point) ∧
        item.node.leaves = items.flatMap fun c => c.node.leaves := by
  obtain ⟨dist, node, entry⟩ := item
  obtain ⟨rfl, sound, -⟩ := fits
  cases node with
  | leaf entries bbox =>
      rw [opened_leaf] at opened
      obtain rfl := Sum.inr.inj opened
      refine .inl fun c member => ?_
      obtain ⟨entry, -, rfl⟩ := List.mem_map.mp member
      exact Option.some_ne_none entry
  | internal children bbox =>
      rw [opened_internal] at opened
      obtain rfl := Sum.inr.inj opened
      refine .inr ⟨fun c member => ?_, ?_⟩
      · obtain ⟨child, inside, rfl⟩ := List.mem_map.mp member
        cases sound with
        | internal _ each _ => exact ⟨rfl, each child inside⟩
      · rw [List.flatMap_map]
        exact RTreeNode.leaves_internal children bbox

theorem entry_eq_none {item : PqItem} {items : List PqItem}
    (opened : (searched sphere point).opened item = .inr items) : item.entry = none := by
  change item.opened sphere point = _ at opened
  unfold PqItem.opened at opened
  split at opened
  · cases opened
  · assumption

theorem leaves_of_branch {a n : PqItem} {side items : List PqItem}
    (branch : Branch (searched sphere point) a side n) (fits : a.Fits sphere point)
    (opened : (searched sphere point).opened n = .inr items) :
    n.Fits sphere point ∧ (∀ c ∈ side, c.Queued sphere point) ∧
      a.node.leaves.Perm (n.node.leaves ++ side.flatMap fun c => c.node.leaves) := by
  induction branch with
  | refl q => exact ⟨fits, by simp, by simp⟩
  | @step a b n inner others side above split further ih =>
      have inside := split.mem_iff.mpr List.mem_cons_self
      rcases fits.expand above with entries | ⟨nodes, whole⟩
      · obtain ⟨items', opened'⟩ := further.opens opened
        exact absurd (entry_eq_none opened') (entries b inside)
      · obtain ⟨fits', queued, leaves⟩ := ih (nodes b inside).fits opened
        refine ⟨fits', fun c member => ?_, ?_⟩
        · rcases List.mem_append.mp member with other | later
          · exact nodes c (split.mem_iff.mpr (List.mem_cons_of_mem b other))
          · exact queued c later
        · have parts := split.flatMap_right fun c : PqItem => c.node.leaves
          rw [List.flatMap_cons] at parts
          rw [whole, List.flatMap_append]
          refine (parts.trans (leaves.append_right _)).trans ?_
          rw [List.append_assoc]
          exact List.perm_append_comm.append_left _

theorem rises (ascends : Monotone sphere.sqrt) {root : PqItem} (fits : root.Fits sphere point) :
    Rises (searched sphere point) root := by
  intro side q items branch opened c member items' opened'
  obtain ⟨⟨node, sound, low⟩, -, -⟩ := leaves_of_branch branch fits opened
  obtain ⟨dist, node, entry⟩ := q
  dsimp only at node sound low
  subst node
  cases node with
  | leaf entries bbox =>
      rw [opened_leaf] at opened
      obtain rfl := Sum.inr.inj opened
      obtain ⟨entry, -, rfl⟩ := List.mem_map.mp member
      cases entry_eq_none opened'
  | internal children bbox =>
      rw [opened_internal] at opened
      obtain rfl := Sum.inr.inj opened
      obtain ⟨child, inside, rfl⟩ := List.mem_map.mp member
      exact low.trans (sound.child_le ascends inside point)

theorem exists_branch {node : RTreeNode} {leaf : BoundingBox × List GeoEntry}
    (member : leaf ∈ node.leaves) :
    ∃ side, Branch (searched sphere point) (PqItem.ofNode sphere point node) side
      (PqItem.ofNode sphere point (.leaf leaf.2 leaf.1)) := by
  induction node using RTreeNode.induct with
  | leaf entries bbox =>
      obtain rfl := List.mem_singleton.mp member
      exact ⟨[], .refl _⟩
  | internal children bbox ih =>
      rw [RTreeNode.leaves_internal] at member
      obtain ⟨child, inside, under⟩ := List.mem_flatMap.mp member
      obtain ⟨side, branch⟩ := ih child inside under
      obtain ⟨others, split⟩ :=
        exists_perm_cons (List.mem_map_of_mem (f := PqItem.ofNode sphere point) inside)
      exact ⟨others ++ side, .step (opened_internal _ children bbox) split branch⟩

variable (sphere point) in
/-- An entry of a leaf is nearer than an entry of another leaf, which comes no later, but the box of
the first leaf seems farther than both. -/
def RTreeNode.Misled (root : RTreeNode) : Prop :=
  ∃ far near others, (far :: near :: others).Perm root.leaves ∧
    near.1.minDistanceToPoint sphere point ≤ far.1.minDistanceToPoint sphere point ∧
    ∃ e ∈ far.2, ∃ e' ∈ near.2,
      sphere.haversineDistance point e.point < sphere.haversineDistance point e'.point ∧
      sphere.haversineDistance point e'.point < far.1.minDistanceToPoint sphere point

theorem misled_of_leaves (ascends : Monotone sphere.sqrt) {dist : ℚ} {root : RTreeNode}
    (fits : PqItem.Fits sphere point ⟨dist, root, none⟩) (misled : root.Misled sphere point) :
    Misled (searched sphere point) ⟨dist, root, none⟩ := by
  obtain ⟨far, near, others, split, before, e, inFar, e', inNear, less, beyond⟩ := misled
  have inside : far ∈ root.leaves := split.subset List.mem_cons_self
  cases root with
  | leaf entries bbox =>
      have single := split.length_eq
      unfold RTreeNode.leaves at single
      simp at single
  | internal children bbox =>
      rw [RTreeNode.leaves_internal] at inside
      obtain ⟨child, member, under⟩ := List.mem_flatMap.mp inside
      obtain ⟨side, branch⟩ := @exists_branch sphere point _ _ under
      obtain ⟨beside, halved⟩ :=
        exists_perm_cons (List.mem_map_of_mem (f := PqItem.ofNode sphere point) member)
      have whole := Branch.step (opened_internal dist children bbox) halved branch
      obtain ⟨-, queued, leaves⟩ := leaves_of_branch whole fits (opened_leaf _ far.2 far.1)
      have rest : (near :: others).Perm ((beside ++ side).flatMap fun c => c.node.leaves) :=
        (List.perm_cons far).mp (split.trans leaves)
      obtain ⟨c, hanging, holds⟩ := List.mem_flatMap.mp (rest.subset List.mem_cons_self)
      obtain ⟨made, sound⟩ := queued c hanging
      refine ⟨_, _, _, whole, opened_leaf _ far.2 far.1, ResultItem.of sphere point e, ?_,
        ResultItem.of sphere point e', ?_, less, beyond⟩
      · unfold PqItem.ofNode
        rw [below_node]
        exact List.mem_map_of_mem inFar
      · refine List.mem_flatMap.mpr ⟨c, hanging, ?_⟩
        rw [made]
        exact (mem_within_iff ascends sound).mpr ⟨near, holds, before, e', inNear, rfl⟩

theorem leaves_of_misled (ascends : Monotone sphere.sqrt) {dist : ℚ} {root : RTreeNode}
    (fits : PqItem.Fits sphere point ⟨dist, root, none⟩)
    (misled : Misled (searched sphere point) ⟨dist, root, none⟩) : root.Misled sphere point := by
  obtain ⟨n, side, items, branch, opened, r, under, r', beside, less, beyond⟩ := misled
  obtain ⟨⟨node, sound, low⟩, queued, leaves⟩ := leaves_of_branch branch fits opened
  obtain ⟨key, n, entry⟩ := n
  dsimp only at node sound low leaves
  subst node
  rw [below_node, RTreeNode.entries_eq] at under
  obtain ⟨e, listed, rfl⟩ := List.mem_map.mp under
  obtain ⟨far, inside, inFar⟩ := List.mem_flatMap.mp listed
  obtain ⟨c, hanging, reached⟩ := List.mem_flatMap.mp beside
  obtain ⟨made, sound'⟩ := queued c hanging
  rw [made] at reached
  obtain ⟨near, inside', before, e', inNear, rfl⟩ := (mem_within_iff ascends sound').mp reached
  have above : key ≤ far.1.minDistanceToPoint sphere point :=
    low.trans (sound.leaf_ge ascends inside)
  obtain ⟨others, split⟩ := exists_perm_cons inside
  obtain ⟨others', split'⟩ := exists_perm_cons
    (List.mem_flatMap.mpr ⟨c, hanging, inside'⟩ : near ∈ side.flatMap fun c => c.node.leaves)
  refine ⟨far, near, others ++ others', ?_, before.trans above, e, inFar, e', inNear, less,
    beyond.trans_le above⟩
  refine List.Perm.symm (leaves.trans ((split.append split').trans ?_))
  rw [List.cons_append]
  exact List.perm_middle.cons far

end

theorem nearLe_iff {a b : GeoEntry × ℚ} :
    nearLe a b = true ↔ a.2 < b.2 ∨ a.2 = b.2 ∧ ¬ b.1.member.bytes < a.1.member.bytes := by
  unfold nearLe
  exact decide_eq_true_iff

theorem nearLe_trans (a b c : GeoEntry × ℚ) (first : nearLe a b = true)
    (second : nearLe b c = true) : nearLe a c = true := by
  rw [nearLe_iff] at first second ⊢
  rcases first with less | ⟨same, before⟩
  · rcases second with less' | ⟨same', -⟩
    · exact .inl (less.trans less')
    · exact .inl (same' ▸ less)
  · rcases second with less' | ⟨same', before'⟩
    · exact .inl (same ▸ less')
    · exact .inr ⟨same.trans same', List.le_trans before before'⟩

theorem nearLe_total (a b : GeoEntry × ℚ) : (nearLe a b || nearLe b a) = true := by
  rw [Bool.or_eq_true, nearLe_iff, nearLe_iff]
  rcases lt_trichotomy a.2 b.2 with less | same | greater
  · exact .inl (.inl less)
  · rcases List.le_total a.1.member.bytes b.1.member.bytes with before | before
    · exact .inl (.inr ⟨same, before⟩)
    · exact .inr (.inr ⟨same.symm, before⟩)
  · exact .inr (.inl greater)

theorem sorted_dists (found : List (GeoEntry × ℚ)) :
    ((found.mergeSort nearLe).map Prod.snd).Pairwise (· ≤ ·) := by
  have sorted := List.pairwise_mergeSort nearLe_trans nearLe_total found
  refine List.pairwise_map.mpr (sorted.imp fun {a b} before => ?_)
  rcases nearLe_iff.mp before with less | ⟨same, -⟩
  · exact less.le
  · exact same.le

theorem output_perm {results vec : List ResultItem} (same : vec.Perm results) :
    (((vec.map fun r => (r.entry, r.dist)).mergeSort nearLe).map Prod.fst).Perm
        (results.map ResultItem.entry) ∧
      (((vec.map fun r => (r.entry, r.dist)).mergeSort nearLe).map Prod.snd).Perm
        (results.map ResultItem.dist) := by
  have sorted := (List.mergeSort_perm (vec.map fun r => (r.entry, r.dist)) nearLe).trans
    (same.map fun r => (r.entry, r.dist))
  have firsts := sorted.map Prod.fst
  have seconds := sorted.map Prod.snd
  rw [List.map_map] at firsts seconds
  exact ⟨firsts, seconds⟩

section

variable (sphere : Sphere) (point : GeoPoint)

/-- The `k` nearest of some entries, or all of them, in the order of their distances. -/
structure Nearest (k : Nat) (entries : List GeoEntry) (out : List (GeoEntry × ℚ)) : Prop where
  count : out.length = min k entries.length
  taken : ∃ dropped, (out.map Prod.fst ++ dropped).Perm entries
  measured : ∀ r ∈ out, r.2 = sphere.haversineDistance point r.1.point
  least : out.map Prod.snd =
    ((entries.map fun e => sphere.haversineDistance point e.point).mergeSort
      fun a b => decide (a ≤ b)).take k

/-- No entry is passed over for the sake of a farther one. -/
def RTree.Misled (t : RTree) : Prop := ∃ root ∈ t.root, root.Misled sphere point

variable {sphere point} {k : Nat}

theorem nearest_of_best {dist : ℚ} {root : RTreeNode} {entries : List GeoEntry}
    {results vec : List ResultItem} (holds : root.entries.Perm entries)
    (best : Best (searched sphere point) ⟨dist, root, none⟩ k results) (same : vec.Perm results) :
    Nearest sphere point k entries ((vec.map fun r => (r.entry, r.dist)).mergeSort nearLe) := by
  obtain ⟨count, dropped, all, nearer⟩ := best
  rw [below_node] at count all
  have sorted := (List.mergeSort_perm (vec.map fun r => (r.entry, r.dist)) nearLe).trans
    (same.map fun r => (r.entry, r.dist))
  have length : results.length = min k entries.length := by
    rw [count, List.length_map, holds.length_eq]
  have all' := all.trans (holds.map (ResultItem.of sphere point))
  obtain ⟨firsts, dists⟩ := output_perm same
  refine ⟨?_, ⟨dropped.map ResultItem.entry, ?_⟩, ?_, ?_⟩
  · rw [sorted.length_eq, List.length_map, length]
  · have listed := all'.map ResultItem.entry
    have entries' : entries.map (ResultItem.entry ∘ ResultItem.of sphere point) = entries :=
      List.map_id entries
    rw [List.map_append, List.map_map, entries'] at listed
    exact (firsts.append_right _).trans listed
  · intro r member
    obtain ⟨item, inside, rfl⟩ := List.mem_map.mp (sorted.subset member)
    obtain ⟨e, -, rfl⟩ := List.mem_map.mp (all'.subset (List.mem_append_left dropped inside))
    rfl
  · have split : (((vec.map fun r => (r.entry, r.dist)).mergeSort nearLe).map Prod.snd ++
        dropped.map ResultItem.dist).Perm
        (entries.map fun e => sphere.haversineDistance point e.point) := by
      have listed := all'.map ResultItem.dist
      rw [List.map_append, List.map_map] at listed
      exact (dists.append_right _).trans listed
    refine (eq_take_mergeSort_iff split (sorted_dists _)).mpr ⟨?_, ?_⟩
    · rw [List.length_map, sorted.length_eq, List.length_map, List.length_map, length]
    · intro x member y other
      obtain ⟨r, found, rfl⟩ := List.mem_map.mp (dists.subset member)
      obtain ⟨e, missing, rfl⟩ := List.mem_map.mp other
      exact nearer r found e missing

theorem best_of_nearest {dist : ℚ} {root : RTreeNode} {entries : List GeoEntry}
    {results : List ResultItem} (holds : root.entries.Perm entries)
    (nearest : Nearest sphere point k entries
      ((results.map fun r => (r.entry, r.dist)).mergeSort nearLe)) :
    Best (searched sphere point) ⟨dist, root, none⟩ k results := by
  have sorted := List.mergeSort_perm (results.map fun r => (r.entry, r.dist)) nearLe
  obtain ⟨count, ⟨dropped, taken⟩, measured, least⟩ := nearest
  have made : results.map (ResultItem.of sphere point ∘ ResultItem.entry) = results := by
    refine (List.map_congr_left fun r found => ?_).trans (List.map_id results)
    have dist := measured (r.entry, r.dist) (sorted.mem_iff.mpr (List.mem_map_of_mem found))
    obtain ⟨entry, dist'⟩ := r
    dsimp only at dist
    rw [dist]
    rfl
  obtain ⟨firsts, dists⟩ := output_perm (List.Perm.refl results)
  have split : (results ++ dropped.map (ResultItem.of sphere point)).Perm
      (root.entries.map (ResultItem.of sphere point)) := by
    have listed := ((firsts.symm.append_right dropped).trans (taken.trans holds.symm)).map
      (ResultItem.of sphere point)
    rw [List.map_append, List.map_map] at listed
    rwa [made] at listed
  have parts : (((results.map fun r => (r.entry, r.dist)).mergeSort nearLe).map Prod.snd ++
      dropped.map fun e => sphere.haversineDistance point e.point).Perm
      (entries.map fun e => sphere.haversineDistance point e.point) := by
    have listed := (split.trans (holds.map (ResultItem.of sphere point))).map ResultItem.dist
    rw [List.map_append, List.map_map, List.map_map] at listed
    exact (dists.append_right _).trans listed
  have nearer := ((eq_take_mergeSort_iff parts (sorted_dists _)).mp least).2
  refine ⟨?_, dropped.map (ResultItem.of sphere point), ?_, ?_⟩
  · rw [below_node, List.length_map, holds.length_eq, ← count, sorted.length_eq, List.length_map]
  · rwa [below_node]
  · intro r found x missing
    obtain ⟨e, listed, rfl⟩ := List.mem_map.mp missing
    exact nearer r.dist (dists.mem_iff.mpr (List.mem_map_of_mem found)) _
      (List.mem_map_of_mem listed)

/-- A tree finds the nearest of its entries, in whatever order equal distances are taken, exactly
where nothing misleads the search. -/
theorem RTree.Holds.nearest_iff {t : RTree} {entries : List GeoEntry} (holds : t.Holds entries)
    (ascends : Monotone sphere.sqrt) (zero : sphere.sqrt 0 = 0) :
    (∀ k out, t.Answers sphere point k out → Nearest sphere point k entries out) ↔
      ¬ t.Misled sphere point := by
  have leaves := holds.leaves
  have sound := holds.sound
  unfold RTree.entries at leaves
  unfold RTree.Answers RTree.Misled
  cases rooted : t.root with
  | none =>
      rw [rooted] at leaves
      refine iff_of_true ?_ (by simp)
      rintro k out rfl
      obtain rfl := leaves.nil_eq
      exact ⟨(Nat.min_zero k).symm, ⟨[], List.Perm.refl _⟩, by simp, by simp⟩
  | some root =>
      rw [rooted] at leaves
      dsimp only at leaves ⊢
      have fits : PqItem.Fits sphere point ⟨0, root, none⟩ := by
        refine ⟨rfl, sound root rooted, ?_⟩
        rw [minDistanceToPoint_eq, ← zero]
        exact ascends (add_nonneg (mul_self_nonneg _) (mul_self_nonneg _))
      have misled : Lib.BestFirst.Misled (searched sphere point) ⟨0, root, none⟩ ↔
          ∃ node ∈ some root, node.Misled sphere point := by
        constructor
        · intro misled
          exact ⟨root, rfl, leaves_of_misled ascends fits misled⟩
        · rintro ⟨node, member, misled⟩
          obtain rfl := Option.some.inj member
          exact misled_of_leaves ascends fits misled
      rw [← misled, ← best_iff (searched sphere point) (rises ascends fits)]
      constructor
      · intro nearest k results finds
        refine best_of_nearest leaves (nearest k _ ?_)
        by_cases none : k = 0
        · have few := finds.length_le
          rw [none, Nat.le_zero, List.length_eq_zero_iff] at few
          rw [if_pos none, few, List.map_nil, List.mergeSort_nil]
        · rw [if_neg none]
          exact ⟨results, results, finds, List.Perm.refl _, rfl⟩
      · intro best k out answers
        by_cases none : k = 0
        · rw [if_pos none] at answers
          subst none answers
          exact ⟨(Nat.zero_min _).symm, ⟨entries, List.Perm.refl _⟩, by simp, by simp⟩
        · rw [if_neg none] at answers
          obtain ⟨results, vec, finds, same, rfl⟩ := answers
          exact nearest_of_best leaves (best k results finds) same

end

end Zumic.Database.Geo
