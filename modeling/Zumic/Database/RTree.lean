/- The R-tree of geographic entries (`geo_rtree.rs`). Coordinates are rational numbers. -/

import Zumic.Lib.Utf8

namespace Zumic.Database.Geo

open Lib.Utf8

structure GeoPoint where
  lon : ℚ
  lat : ℚ
  deriving DecidableEq

structure GeoEntry where
  member : Str
  point : GeoPoint
  score : UInt64
  deriving DecidableEq

structure BoundingBox where
  minLon : ℚ
  maxLon : ℚ
  minLat : ℚ
  maxLat : ℚ
  deriving DecidableEq

namespace BoundingBox

def fromPoint (point : GeoPoint) : BoundingBox := ⟨point.lon, point.lon, point.lat, point.lat⟩

def expand (b other : BoundingBox) : BoundingBox :=
  ⟨min b.minLon other.minLon, max b.maxLon other.maxLon, min b.minLat other.minLat,
    max b.maxLat other.maxLat⟩

def area (b : BoundingBox) : ℚ := (b.maxLon - b.minLon) * (b.maxLat - b.minLat)

def intersects (b other : BoundingBox) : Bool :=
  b.minLon ≤ other.maxLon ∧ b.maxLon ≥ other.minLon ∧ b.minLat ≤ other.maxLat ∧
    b.maxLat ≥ other.minLat

def containsPoint (b : BoundingBox) (point : GeoPoint) : Bool :=
  point.lon ≥ b.minLon ∧ point.lon ≤ b.maxLon ∧ point.lat ≥ b.minLat ∧ point.lat ≤ b.maxLat

def center (b : BoundingBox) : GeoPoint :=
  ⟨(b.minLon + b.maxLon) * (1 / 2), (b.minLat + b.maxLat) * (1 / 2)⟩

/-- The box of `update_bbox`: the first box expanded by the others. -/
def around : List BoundingBox → BoundingBox
  | [] => ⟨0, 0, 0, 0⟩
  | b :: rest => rest.foldl expand b

end BoundingBox

def maxEntries : Nat := 8

inductive RTreeNode where
  | leaf (entries : List GeoEntry) (bbox : BoundingBox)
  | internal (children : List RTreeNode) (bbox : BoundingBox)

/-- The box of a single entry. -/
def GeoEntry.bbox (e : GeoEntry) : BoundingBox := .fromPoint e.point

namespace RTreeNode

def bbox : RTreeNode → BoundingBox
  | leaf _ bbox => bbox
  | internal _ bbox => bbox

/-- A node with the box that `update_bbox` gives it. -/
def newLeaf (entries : List GeoEntry) : RTreeNode :=
  leaf entries (.around (entries.map GeoEntry.bbox))

def newInternal (children : List RTreeNode) : RTreeNode :=
  internal children (.around (children.map bbox))

/-- The entries below a node, in the order of the leaves. -/
def entries : RTreeNode → List GeoEntry
  | leaf es _ => es
  | internal children _ => all children
where
  all : List RTreeNode → List GeoEntry
    | [] => []
    | child :: rest => child.entries ++ all rest

end RTreeNode

section

variable {α : Type} (distance : α → α → ℚ)

/-- The pairs of indices `i < j` below `n`, in the order of the loops. -/
def indexPairs (n : Nat) : List (Nat × Nat) :=
  (List.range n).flatMap fun i => (List.range' (i + 1) (n - (i + 1))).map fun j => (i, j)

/-- The better of the best pair so far, with its distance, and another one. -/
def betterSeeds (items : List α) (best : ℚ × Nat × Nat) (pair : Nat × Nat) : ℚ × Nat × Nat :=
  match items[pair.1]?, items[pair.2]? with
  | some a, some b => if best.1 < distance a b then (distance a b, pair) else best
  | _, _ => best

/-- The pair that is farthest apart, the first of several; `0` and `1` when none is apart at all.
Distances are compared by their squares. -/
def pickSeeds (items : List α) : Nat × Nat :=
  ((indexPairs items.length).foldl (betterSeeds distance items) (0, 0, 1)).2

end

/-- The square of `point_distance`. -/
def pointDistance (p1 p2 : GeoPoint) : ℚ :=
  (p2.lon - p1.lon) * (p2.lon - p1.lon) + (p2.lat - p1.lat) * (p2.lat - p1.lat)

def pickSeedsLeaf (entries : List GeoEntry) : Nat × Nat :=
  pickSeeds (fun e e' => pointDistance e.point e'.point) entries

def pickSeedsInternal (children : List RTreeNode) : Nat × Nat :=
  pickSeeds (fun c c' => pointDistance c.bbox.center c'.bbox.center) children

section

variable {α : Type} (box : α → BoundingBox)

/-- The box of a group, which is expanded by all of its items. -/
def groupBox : List α → BoundingBox
  | [] => ⟨0, 0, 0, 0⟩
  | first :: rest => (first :: rest).foldl (fun b item => b.expand (box item)) (box first)

/-- Gives each item to the group that it enlarges less. -/
def distribute (group1 group2 : List α) : List α → List α × List α
  | [] => (group1, group2)
  | item :: rest =>
      let bbox1 := groupBox box group1
      let bbox2 := groupBox box group2
      let enlargement1 := (bbox1.expand (box item)).area - bbox1.area
      let enlargement2 := (bbox2.expand (box item)).area - bbox2.area
      if enlargement1 < enlargement2 then distribute (group1 ++ [item]) group2 rest
      else distribute group1 (group2 ++ [item]) rest

/-- Takes two items out, the one with the higher index first. -/
def takeSeeds (seeds : Nat × Nat) (items : List α) : Option (α × α × List α) :=
  let high := max seeds.1 seeds.2
  let low := min seeds.1 seeds.2
  match items[high]? with
  | none => none
  | some first =>
      let rest := items.eraseIdx high
      match rest[low]? with
      | none => none
      | some second => some (first, second, rest.eraseIdx low)

/-- The two groups of a full node; without two items the program would panic. -/
def split (seeds : Nat × Nat) (items : List α) : List α × List α :=
  match takeSeeds seeds items with
  | some (first, second, rest) => distribute box [first] [second] rest
  | none => (items, [])

end

/-- The better of the best child so far, with its enlargement, and another one. -/
def betterChild (entry : GeoEntry) (best : Option ℚ × Nat) (child : RTreeNode × Nat) :
    Option ℚ × Nat :=
  let enlargement := (child.1.bbox.expand entry.bbox).area - child.1.bbox.area
  if best.1.all (fun least => enlargement < least) then (some enlargement, child.2) else best

/-- The child that an entry enlarges least, the first of several. -/
def chooseSubtree (children : List RTreeNode) (entry : GeoEntry) : Nat :=
  (children.zipIdx.foldl (betterChild entry) (none, 0)).2

/-- A leaf with one entry more, split when it holds too many. -/
def insertLeaf (entries : List GeoEntry) (entry : GeoEntry) : RTreeNode × Option RTreeNode :=
  let allEntries := entries ++ [entry]
  if allEntries.length ≤ maxEntries then (.newLeaf allEntries, none)
  else
    let groups := split GeoEntry.bbox (pickSeedsLeaf allEntries) allEntries
    (.newLeaf groups.1, some (.newLeaf groups.2))

/-- An internal node after an insertion into one of its children, which may have been split. -/
def insertInternal (children : List RTreeNode) (splitChild : Option RTreeNode) :
    RTreeNode × Option RTreeNode :=
  let allChildren := children ++ splitChild.toList
  if allChildren.length ≤ maxEntries then (.newInternal allChildren, none)
  else
    let groups := split RTreeNode.bbox (pickSeedsInternal allChildren) allChildren
    (.newInternal groups.1, some (.newInternal groups.2))

/-- `insert_recursive`; the second node is there when the first was split. -/
def insertRecursive (entry : GeoEntry) : RTreeNode → RTreeNode × Option RTreeNode
  | .leaf entries _ => insertLeaf entries entry
  | .internal children _ =>
      let inserted := insertChild (chooseSubtree children entry) children
      insertInternal inserted.1 inserted.2
where
  insertChild : Nat → List RTreeNode → List RTreeNode × Option RTreeNode
    | _, [] => ([], none)
    | 0, child :: rest =>
        let inserted := insertRecursive entry child
        (inserted.1 :: rest, inserted.2)
    | i + 1, child :: rest =>
        let inserted := insertChild i rest
        (child :: inserted.1, inserted.2)

/-- Whether an entry is at most as far east as another, or at most as far north. -/
def lonLe (a b : GeoEntry) : Bool := a.point.lon ≤ b.point.lon

def latLe (a b : GeoEntry) : Bool := a.point.lat ≤ b.point.lat

/-- Cuts a list into slices of a size; the last one may be shorter. -/
def slices {α : Type} (size : Nat) : List α → List α → List (List α)
  | current, [] => if current = [] then [] else [current]
  | current, entry :: rest =>
      if size ≤ (current ++ [entry]).length then (current ++ [entry]) :: slices size [] rest
      else slices size (current ++ [entry]) rest

/-- The number of slices: the square root rounded up, and no fewer than two. -/
def sliceCount (n : Nat) : Nat :=
  max (if n.sqrt * n.sqrt = n then n.sqrt else n.sqrt + 1) 2

def sliceSize (n : Nat) : Nat := (n + sliceCount n - 1) / sliceCount n

theorem slice_bounds {α : Type} {size : Nat} {current items slice : List α}
    (member : slice ∈ slices size current items) :
    slice ≠ [] ∧ (current.length < size → slice.length ≤ size) := by
  induction items generalizing current with
  | nil =>
      unfold slices at member
      by_cases empty : current = []
      · rw [if_pos empty] at member
        cases member
      · rw [if_neg empty] at member
        rw [List.mem_singleton.mp member]
        exact ⟨empty, Nat.le_of_lt⟩
  | cons item rest ih =>
      unfold slices at member
      have longer : (current ++ [item]).length = current.length + 1 := by simp
      by_cases full : size ≤ (current ++ [item]).length
      · rw [if_pos full] at member
        rcases List.mem_cons.mp member with rfl | later
        · exact ⟨by simp, fun short => by omega⟩
        · obtain ⟨some, fits⟩ := ih later
          exact ⟨some, fun short => fits (Nat.zero_lt_of_lt short)⟩
      · rw [if_neg full] at member
        obtain ⟨some, fits⟩ := ih member
        exact ⟨some, fun _ => fits (Nat.lt_of_not_le full)⟩

theorem length_le_of_mem_slices {α : Type} {size : Nat} {current items slice : List α}
    (short : current.length < size) (member : slice ∈ slices size current items) :
    slice.length ≤ size :=
  (slice_bounds member).2 short

theorem sliceSize_bounds {n : Nat} (large : maxEntries < n) :
    0 < sliceSize n ∧ sliceSize n < n := by
  have many : 2 ≤ sliceCount n := Nat.le_max_right _ _
  have wide : 8 < n := large
  unfold sliceSize
  constructor
  · apply Nat.div_pos
    · omega
    · omega
  · apply (Nat.div_lt_iff_lt_mul (by omega)).mpr
    have grown : n * 2 ≤ n * sliceCount n := Nat.mul_le_mul_left n many
    have step : sliceCount n * 1 ≤ sliceCount n * n := Nat.mul_le_mul_left _ (by omega)
    have split : n * sliceCount n = n + n * (sliceCount n - 1) := by
      obtain ⟨k, same⟩ := Nat.exists_eq_add_of_le many
      rw [same]
      have less : 2 + k - 1 = k + 1 := by omega
      rw [less]
      ring
    have others : 2 * (sliceCount n - 1) ≤ n * (sliceCount n - 1) :=
      Nat.mul_le_mul_right _ (by omega)
    omega

/-- `build_str_tree`: slices of the entries, each sorted by latitude, become the children. -/
def buildStrTree (entries : List GeoEntry) : RTreeNode :=
  if _large : entries.length ≤ maxEntries then .newLeaf entries
  else .newInternal ((slices (sliceSize entries.length) [] entries).attach.map fun slice =>
    buildStrTree (slice.1.mergeSort latLe))
termination_by entries.length
decreasing_by
  have bounds := sliceSize_bounds (Nat.lt_of_not_le _large)
  have short := length_le_of_mem_slices bounds.1 slice.2
  rw [List.length_mergeSort]
  omega

structure RTree where
  root : Option RTreeNode
  size : Nat

namespace RTree

def new : RTree := ⟨none, 0⟩

def bulkLoad (entries : List GeoEntry) : RTree :=
  if entries = [] then new
  else ⟨some (buildStrTree (entries.mergeSort lonLe)), entries.length⟩

/-- The root after an insertion: a node that was split gets a new root above it. -/
def newRoot (node : RTreeNode) : Option RTreeNode → RTreeNode
  | none => node
  | some newNode => .newInternal [node, newNode]

def insert (t : RTree) (entry : GeoEntry) : RTree :=
  match t.root with
  | none => ⟨some (.newLeaf [entry]), 1⟩
  | some root =>
      let inserted := insertRecursive entry root
      ⟨some (newRoot inserted.1 inserted.2), t.size + 1⟩

def len (t : RTree) : Nat := t.size

/-- The entries in the leaves. -/
def entries (t : RTree) : List GeoEntry :=
  match t.root with
  | none => []
  | some root => root.entries

/-- `range_query_recursive`: a node is passed over when its box misses the query. -/
def rangeQueryRecursive (query : BoundingBox) : RTreeNode → List GeoEntry
  | .leaf entries bbox =>
      if bbox.intersects query then entries.filter fun e => query.containsPoint e.point else []
  | .internal children bbox => if bbox.intersects query then queryAll children else []
where
  queryAll : List RTreeNode → List GeoEntry
    | [] => []
    | child :: rest => rangeQueryRecursive query child ++ queryAll rest

def rangeQuery (t : RTree) (query : BoundingBox) : List GeoEntry :=
  match t.root with
  | none => []
  | some root => rangeQueryRecursive query root

end RTree

end Zumic.Database.Geo
