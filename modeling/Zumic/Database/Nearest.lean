/- The search for the nearest entries of an R-tree (`knn` in `geo_rtree.rs`). -/

import Zumic.Database.RTreeSound
import Zumic.Lib.Heap

namespace Zumic.Database.Geo

open Lib

/-- The functions of geometry that are not rational, and what is used of distances. -/
structure Sphere where
  haversineDistance : GeoPoint → GeoPoint → ℚ
  sqrt : ℚ → ℚ
  /-- The cosine of a latitude in degrees. -/
  cos : ℚ → ℚ
  nonneg : ∀ p q, 0 ≤ haversineDistance p q
  self : ∀ p, haversineDistance p p = 0

variable (sphere : Sphere)

/-- In degrees. -/
def BoundingBox.minDistanceToPoint (b : BoundingBox) (point : GeoPoint) : ℚ :=
  let dx := if point.lon < b.minLon then b.minLon - point.lon
    else if b.maxLon < point.lon then point.lon - b.maxLon else 0
  let dy := if point.lat < b.minLat then b.minLat - point.lat
    else if b.maxLat < point.lat then point.lat - b.maxLat else 0
  sphere.sqrt (dx * dx + dy * dy)

structure PqItem where
  dist : ℚ
  node : RTreeNode
  entry : Option GeoEntry

structure ResultItem where
  entry : GeoEntry
  dist : ℚ

/-- The queue gives the nearest item first. -/
def PqItem.priority (item : PqItem) : ℚ := -item.dist

/-- The entries that an item stands for. -/
def PqItem.entries (item : PqItem) : List GeoEntry :=
  match item.entry with
  | some entry => [entry]
  | none => item.node.entries

/-- The items for the entries of a leaf, or for the children of another node. -/
def PqItem.expand (point : GeoPoint) (item : PqItem) : List PqItem :=
  match item.node with
  | .leaf entries _ =>
      entries.map fun entry => ⟨sphere.haversineDistance point entry.point, item.node, some entry⟩
  | .internal children _ =>
      children.map fun child => ⟨child.bbox.minDistanceToPoint sphere point, child, none⟩

/-- The queue, and the best entries so far. -/
structure Search where
  pq : List PqItem
  results : List ResultItem

/-- Whether there are enough results and the farthest of them is nearer than an item. -/
def Search.pruned (s : Search) (k : Nat) (item : PqItem) : Bool :=
  k ≤ s.results.length ∧
    (Heap.peek ResultItem.dist s.results).any fun farthest => farthest.dist < item.dist

/-- Puts a result in, and drops the farthest one when there are too many. -/
def keep (k : Nat) (item : ResultItem) (results : List ResultItem) : List ResultItem :=
  if k < results.length + 1 then ((Heap.pop ResultItem.dist (item :: results)).map Prod.snd).getD []
  else item :: results

/-- What the loop does with an item. -/
def Search.visit (point : GeoPoint) (k : Nat) (s : Search) (item : PqItem) (rest : List PqItem) :
    Search :=
  if s.pruned k item then ⟨rest, s.results⟩
  else match item.entry with
    | some entry => ⟨rest, keep k ⟨entry, item.dist⟩ s.results⟩
    | none => ⟨item.expand sphere point ++ rest, s.results⟩

/-- One turn of the loop, until the queue is empty. -/
def Search.next (point : GeoPoint) (k : Nat) (s : Search) : Option Search :=
  match Heap.pop PqItem.priority s.pq with
  | none => none
  | some (item, rest) => some (s.visit sphere point k item rest)

/-- The number of turns that a node takes. -/
def RTreeNode.turns : RTreeNode → Nat
  | .leaf entries _ => entries.length + 1
  | .internal children _ => all children + 1
where
  all : List RTreeNode → Nat
    | [] => 0
    | child :: rest => child.turns + all rest

def PqItem.turns (item : PqItem) : Nat :=
  match item.entry with
  | some _ => 1
  | none => item.node.turns

def Search.turns (s : Search) : Nat := (s.pq.map PqItem.turns).sum

theorem RTreeNode.turns_pos (node : RTreeNode) : 0 < node.turns := by
  cases node with
  | leaf entries bbox => exact Nat.succ_pos _
  | internal children bbox => exact Nat.succ_pos _

theorem RTreeNode.turns_all (children : List RTreeNode) :
    RTreeNode.turns.all children = (children.map RTreeNode.turns).sum := by
  induction children with
  | nil => rfl
  | cons child rest ih =>
      unfold RTreeNode.turns.all
      rw [ih, List.map_cons, List.sum_cons]

theorem PqItem.turns_pos (item : PqItem) : 0 < item.turns := by
  unfold PqItem.turns
  cases item.entry with
  | some entry => exact Nat.one_pos
  | none => exact item.node.turns_pos

theorem PqItem.turns_expand (point : GeoPoint) {item : PqItem} (node : item.entry = none) :
    ((item.expand sphere point).map PqItem.turns).sum < item.turns := by
  have whole : item.turns = item.node.turns := by
    unfold PqItem.turns
    rw [node]
  rw [whole]
  unfold PqItem.expand
  cases item.node with
  | leaf entries bbox =>
      dsimp only
      have ones : (List.map PqItem.turns (entries.map fun entry => PqItem.mk
          (sphere.haversineDistance point entry.point) (.leaf entries bbox) (some entry))) =
          entries.map fun _ => 1 := by
        rw [List.map_map]
        rfl
      rw [ones, List.map_const', List.sum_replicate_nat, Nat.mul_one]
      exact Nat.lt_succ_self _
  | internal children bbox =>
      dsimp only
      have each : (List.map PqItem.turns (children.map fun child => PqItem.mk
          (child.bbox.minDistanceToPoint sphere point) child none)) =
          children.map RTreeNode.turns := by
        rw [List.map_map]
        rfl
      rw [each, ← RTreeNode.turns_all]
      exact Nat.lt_succ_self _

theorem Search.next_eq_none_iff {point : GeoPoint} {k : Nat} {s : Search} :
    s.next sphere point k = none ↔ s.pq = [] := by
  rw [← @Heap.pop_eq_none_iff _ _ _ PqItem.priority]
  unfold Search.next
  cases Heap.pop PqItem.priority s.pq with
  | none => exact iff_of_true rfl rfl
  | some parts => exact iff_of_false (Option.some_ne_none _) (Option.some_ne_none _)

theorem Search.turns_next {point : GeoPoint} {k : Nat} {s s' : Search}
    (next : s.next sphere point k = some s') : s'.turns < s.turns := by
  unfold Search.next at next
  cases taken : Heap.pop PqItem.priority s.pq with
  | none =>
      rw [taken] at next
      cases next
  | some popped =>
      obtain ⟨item, rest⟩ := popped
      rw [taken] at next
      obtain rfl := Option.some.inj next
      have total : s.turns = item.turns + (rest.map PqItem.turns).sum := by
        have same := ((Heap.pop_perm taken).map PqItem.turns).sum_eq
        rw [List.map_cons, List.sum_cons] at same
        exact same.symm
      have pos := item.turns_pos
      rw [total]
      unfold Search.visit
      split
      · change (rest.map PqItem.turns).sum < _
        omega
      · cases kind : item.entry with
        | some entry =>
            change (rest.map PqItem.turns).sum < _
            omega
        | none =>
            have fewer := item.turns_expand sphere point kind
            change ((item.expand sphere point ++ rest).map PqItem.turns).sum < _
            rw [List.map_append, List.sum_append]
            omega

def Search.run (point : GeoPoint) (k : Nat) (s : Search) : List ResultItem :=
  match _turn : s.next sphere point k with
  | none => s.results
  | some s' => s'.run point k
termination_by s.turns
decreasing_by exact Search.turns_next sphere _turn

/-- By distance, and by member where distances agree. -/
def nearLe (a b : GeoEntry × ℚ) : Bool :=
  a.2 < b.2 ∨ a.2 = b.2 ∧ ¬ b.1.member.bytes < a.1.member.bytes

def RTree.knn (t : RTree) (point : GeoPoint) (k : Nat) : List (GeoEntry × ℚ) :=
  match t.root with
  | none => []
  | some root =>
      if k = 0 then []
      else ((Search.run sphere point k ⟨[⟨0, root, none⟩], []⟩).map fun r => (r.entry, r.dist)).mergeSort
        nearLe

/-- What the loop keeps: nothing is lost before there are enough results. -/
structure Search.Keeps (point : GeoPoint) (k : Nat) (entries : List GeoEntry) (s : Search) :
    Prop where
  few : s.results.length ≤ k
  all : ∃ dropped, (s.results.map ResultItem.entry ++ s.pq.flatMap PqItem.entries ++ dropped).Perm
    entries ∧ (dropped ≠ [] → s.results.length = k)
  found : ∀ r ∈ s.results, r.dist = sphere.haversineDistance point r.entry.point
  queued : ∀ item ∈ s.pq, ∀ e ∈ item.entry, item.dist = sphere.haversineDistance point e.point

section

variable {sphere} {point : GeoPoint} {k : Nat} {entries : List GeoEntry}

theorem PqItem.entries_expand {item : PqItem} (node : item.entry = none) :
    (item.expand sphere point).flatMap PqItem.entries = item.entries := by
  unfold PqItem.entries
  rw [node]
  unfold PqItem.expand
  cases item.node with
  | leaf entries bbox =>
      dsimp only
      rw [List.flatMap_map]
      exact List.flatMap_singleton' entries
  | internal children bbox =>
      dsimp only
      rw [List.flatMap_map, RTreeNode.entries, RTreeNode.entries_all]

theorem PqItem.dist_expand {item queued : PqItem}
    (member : queued ∈ item.expand sphere point) {e : GeoEntry} (leaf : e ∈ queued.entry) :
    queued.dist = sphere.haversineDistance point e.point := by
  unfold PqItem.expand at member
  cases kind : item.node with
  | leaf entries bbox =>
      rw [kind] at member
      obtain ⟨entry, _, rfl⟩ := List.mem_map.mp member
      obtain rfl := Option.some.inj leaf
      rfl
  | internal children bbox =>
      rw [kind] at member
      obtain ⟨child, _, rfl⟩ := List.mem_map.mp member
      cases leaf

theorem keep_spec (item : ResultItem) {results : List ResultItem} (few : results.length ≤ k) :
    (keep k item results).length ≤ k ∧
      ∃ dropped, (keep k item results ++ dropped).Perm (item :: results) ∧
        (dropped ≠ [] → (keep k item results).length = k) := by
  unfold keep
  by_cases full : k < results.length + 1
  · rw [if_pos full]
    obtain ⟨farthest, others, taken⟩ :=
      @Heap.pop_isSome _ _ _ ResultItem.dist (item :: results) (List.cons_ne_nil item results)
    have same := Heap.pop_perm taken
    have count := same.length_eq
    simp only [List.length_cons] at count
    rw [taken]
    change others.length ≤ k ∧ ∃ dropped, (others ++ dropped).Perm (item :: results) ∧
      (dropped ≠ [] → others.length = k)
    refine ⟨by omega, [farthest], ?_, fun _ => by omega⟩
    exact List.perm_append_singleton farthest others |>.trans same
  · rw [if_neg full]
    refine ⟨by rw [List.length_cons]; omega, [], by rw [List.append_nil], fun some => ?_⟩
    exact absurd rfl some

theorem Search.Keeps.prune {s : Search} {item : PqItem} {rest : List PqItem}
    (keeps : s.Keeps sphere point k entries) (taken : (item :: rest).Perm s.pq)
    (enough : k ≤ s.results.length) : Search.Keeps sphere point k entries ⟨rest, s.results⟩ := by
  obtain ⟨few, ⟨dropped, all, _⟩, found, queued⟩ := keeps
  refine ⟨few, ⟨item.entries ++ dropped, ?_, fun _ => Nat.le_antisymm few enough⟩, found, ?_⟩
  · apply List.perm_iff_count.mpr
    intro e
    have counted := all.count_eq e
    have queue := (taken.flatMap_right PqItem.entries).count_eq e
    simp only [List.flatMap_cons, List.count_append] at counted queue ⊢
    omega
  · intro other member
    exact queued other (taken.subset (List.mem_cons_of_mem item member))

theorem Search.Keeps.keep {s : Search} {item : PqItem} {rest : List PqItem} {entry : GeoEntry}
    (keeps : s.Keeps sphere point k entries) (taken : (item :: rest).Perm s.pq)
    (leaf : item.entry = some entry) :
    Search.Keeps sphere point k entries ⟨rest, Geo.keep k ⟨entry, item.dist⟩ s.results⟩ := by
  obtain ⟨few, ⟨dropped, all, full⟩, found, queued⟩ := keeps
  obtain ⟨few', dropped', kept, full'⟩ := keep_spec ⟨entry, item.dist⟩ few
  have known : item.entries = [entry] := by
    unfold PqItem.entries
    rw [leaf]
  refine ⟨few', ⟨dropped'.map ResultItem.entry ++ dropped, ?_, ?_⟩, ?_, ?_⟩
  · apply List.perm_iff_count.mpr
    intro e
    have counted := all.count_eq e
    have queue := (taken.flatMap_right PqItem.entries).count_eq e
    have results := (kept.map ResultItem.entry).count_eq e
    simp only [List.flatMap_cons, List.map_append, List.map_cons, List.count_append,
      List.count_cons, List.count_nil, known] at counted queue results ⊢
    omega
  · intro some
    have lengths := kept.length_eq
    rw [List.length_append, List.length_cons] at lengths
    by_cases none' : dropped' = []
    · have full := full fun empty => some (by rw [none', empty, List.map_nil, List.nil_append])
      rw [none', List.length_nil] at lengths
      change (Geo.keep k ⟨entry, item.dist⟩ s.results).length = k
      omega
    · exact full' none'
  · intro r member
    rcases List.mem_cons.mp (kept.subset (List.mem_append_left dropped' member)) with rfl | old
    · exact queued item (taken.subset List.mem_cons_self) entry leaf
    · exact found r old
  · intro other member
    exact queued other (taken.subset (List.mem_cons_of_mem item member))

theorem Search.Keeps.expand {s : Search} {item : PqItem} {rest : List PqItem}
    (keeps : s.Keeps sphere point k entries) (taken : (item :: rest).Perm s.pq)
    (node : item.entry = none) :
    Search.Keeps sphere point k entries ⟨item.expand sphere point ++ rest, s.results⟩ := by
  obtain ⟨few, ⟨dropped, all, full⟩, found, queued⟩ := keeps
  refine ⟨few, ⟨dropped, ?_, full⟩, found, ?_⟩
  · have queue : ((item.expand sphere point ++ rest).flatMap PqItem.entries).Perm
        (s.pq.flatMap PqItem.entries) := by
      rw [List.flatMap_append, PqItem.entries_expand node, ← List.flatMap_cons]
      exact taken.flatMap_right PqItem.entries
    exact ((queue.append_left _).append_right dropped).trans all
  · intro other member e leaf
    rcases List.mem_append.mp member with new | old
    · exact PqItem.dist_expand new leaf
    · exact queued other (taken.subset (List.mem_cons_of_mem item old)) e leaf

theorem Search.Keeps.next {s s' : Search} (keeps : s.Keeps sphere point k entries)
    (next : s.next sphere point k = some s') : s'.Keeps sphere point k entries := by
  unfold Search.next at next
  cases popped : Heap.pop PqItem.priority s.pq with
  | none =>
      rw [popped] at next
      cases next
  | some parts =>
      obtain ⟨item, rest⟩ := parts
      rw [popped] at next
      obtain rfl := Option.some.inj next
      have taken := Heap.pop_perm popped
      unfold Search.visit
      by_cases pruned : s.pruned k item = true
      · rw [if_pos pruned]
        unfold Search.pruned at pruned
        rw [decide_eq_true_eq] at pruned
        exact keeps.prune taken pruned.1
      · rw [if_neg pruned]
        cases kind : item.entry with
        | some entry => exact keeps.keep taken kind
        | none => exact keeps.expand taken kind

theorem Search.Keeps.run {s : Search} (keeps : s.Keeps sphere point k entries) :
    ∃ dropped, ((s.run sphere point k).map ResultItem.entry ++ dropped).Perm entries ∧
      (s.run sphere point k).length = min k entries.length ∧
      ∀ r ∈ s.run sphere point k, r.dist = sphere.haversineDistance point r.entry.point := by
  induction left : s.turns using Nat.strong_induction_on generalizing s with
  | _ n ih =>
      subst left
      unfold Search.run
      cases turn : s.next sphere point k with
      | none =>
          have empty := (Search.next_eq_none_iff sphere).mp turn
          obtain ⟨few, ⟨dropped, all, full⟩, found, _⟩ := keeps
          rw [empty, List.flatMap_nil, List.append_nil] at all
          refine ⟨dropped, all, ?_, found⟩
          have total := all.length_eq
          rw [List.length_append, List.length_map] at total
          change s.results.length = min k entries.length
          by_cases none : dropped = []
          · rw [none, List.length_nil] at total
            omega
          · have exact := full none
            omega
      | some s' => exact ih s'.turns (Search.turns_next sphere turn) (keeps.next turn) rfl

end

theorem RTree.Holds.knn {t : RTree} {entries : List GeoEntry} (holds : t.Holds entries)
    (point : GeoPoint) (k : Nat) :
    ∃ dropped, ((t.knn sphere point k).map Prod.fst ++ dropped).Perm entries ∧
      (t.knn sphere point k).length = min k entries.length ∧
      ∀ r ∈ t.knn sphere point k, r.2 = sphere.haversineDistance point r.1.point := by
  have leaves := holds.leaves
  unfold RTree.entries at leaves
  unfold RTree.knn
  cases rooted : t.root with
  | none =>
      rw [rooted] at leaves
      have empty := List.perm_nil.mp leaves.symm
      rw [empty]
      exact ⟨[], List.Perm.refl _, (Nat.min_zero k).symm, fun r member => by cases member⟩
  | some root =>
      rw [rooted] at leaves
      dsimp only at leaves ⊢
      by_cases zero : k = 0
      · rw [if_pos zero]
        refine ⟨entries, List.Perm.refl _, ?_, fun r member => by cases member⟩
        rw [zero, Nat.zero_min, List.length_nil]
      · rw [if_neg zero]
        have start : Search.Keeps sphere point k entries ⟨[⟨0, root, none⟩], []⟩ := by
          refine ⟨Nat.zero_le k, ⟨[], ?_, fun some => absurd rfl some⟩, ?_, ?_⟩
          · have below : [PqItem.mk 0 root none].flatMap PqItem.entries = root.entries :=
              List.append_nil root.entries
            rw [List.map_nil, List.nil_append, List.append_nil, below]
            exact leaves
          · intro r member
            cases member
          · intro item member e leaf
            rw [List.mem_singleton.mp member] at leaf
            cases leaf
        obtain ⟨dropped, all, count, found⟩ := start.run
        have sorted := List.mergeSort_perm
          ((Search.run sphere point k ⟨[⟨0, root, none⟩], []⟩).map fun r => (r.entry, r.dist)) nearLe
        refine ⟨dropped, ?_, ?_, ?_⟩
        · have firsts := sorted.map Prod.fst
          rw [List.map_map] at firsts
          exact (firsts.append_right dropped).trans all
        · rw [sorted.length_eq, List.length_map]
          exact count
        · intro r member
          obtain ⟨item, inside, rfl⟩ := List.mem_map.mp (sorted.subset member)
          exact found item inside

end Zumic.Database.Geo
