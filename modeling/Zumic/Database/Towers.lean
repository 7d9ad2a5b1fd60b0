/- The shape of a skip list, and how nodes are found, put in and taken out. -/

import Zumic.Database.SkipLinks

namespace Zumic.Database

open Lib.Buffer Lib.Successor

namespace SkipList

variable {K V : Type} [LinearOrder K] [Inhabited K] [Inhabited V]

/-- The head is on all levels. -/
def headCell (s : SkipList K V) : Cell K V where
  addr := s.head
  key := default
  value := default
  height := maxLevel

/-- The nodes of a list in their order, with the links and the level that their heights ask for. -/
structure Shape (s : SkipList K V) (cells : List (Cell K V)) : Prop where
  depicts : Depicts s.memory (s.headCell :: cells) (ahead (s.headCell :: cells))
    (behind (s.headCell :: cells))
  distinct : ((s.headCell :: cells).map Cell.addr).Nodup
  heights : ∀ c ∈ cells, 0 < c.height ∧ c.height ≤ s.level
  level : 1 ≤ s.level ∧ s.level ≤ maxLevel
  top : s.level = 1 ∨ ∃ c ∈ cells, c.height = s.level
  length : s.length = cells.length
  sorted : cells.Pairwise fun a b => a.key < b.key
  fresh : ∀ a, s.nextAddr ≤ a → s.memory a = none

variable {s : SkipList K V} {cells A R : List (Cell K V)}

theorem Shape.tall (shape : s.Shape cells) : ∀ c ∈ s.headCell :: cells, 0 < c.height := by
  intro c member
  rcases List.mem_cons.mp member with rfl | later
  · exact (by decide : 0 < maxLevel)
  · exact (shape.heights c later).1

/-- The last node of a part on a level; the head, if there is no other. -/
def edgeOf (s : SkipList K V) (A : List (Cell K V)) (i : Nat) : Cell K V :=
  (((s.headCell :: A).filter fun c => i < c.height).getLast?).getD s.headCell

omit [LinearOrder K] in
theorem edgeOf_spec (s : SkipList K V) (A : List (Cell K V)) {i : Nat} (low : i < maxLevel) :
    s.edgeOf A i ∈ s.headCell :: A ∧
      (lane (s.headCell :: A) i).getLast? = some (s.edgeOf A i).addr := by
  have some' : (s.headCell :: A).filter (fun c => i < c.height) ≠ [] := by
    have first : decide (i < s.headCell.height) = true := decide_eq_true low
    rw [List.filter_cons, if_pos first]
    exact List.cons_ne_nil _ _
  obtain ⟨c, last⟩ := Option.ne_none_iff_exists'.mp (mt List.getLast?_eq_none_iff.mp some')
  rw [lane, List.getLast?_map, edgeOf, last]
  exact ⟨List.mem_of_mem_filter (List.mem_of_getLast? last), rfl⟩

omit [LinearOrder K] in
theorem mem_of_front {c : Cell K V} (member : c ∈ s.headCell :: A) :
    c ∈ s.headCell :: (A ++ R) :=
  List.mem_append_left R member

/-- The predecessors that a descent leaves behind. -/
def updateOf (s : SkipList K V) (A : List (Cell K V)) : Update :=
  fun i => if i < s.level then (lane (s.headCell :: A) i).getLast? else none

theorem Shape.descend (shape : s.Shape (A ++ R)) (passes : K → Bool)
    (passed : ∀ c ∈ A, passes c.key = true) (stopped : ∀ r ∈ R, passes r.key = false) :
    ∃ last, s.descend passes s.level s.head (fun _ => none) =
        .ok (last, s.updateOf A) ∧
      ((s.headCell :: A).map Cell.addr).getLast? = some last := by
  have cut : Cut (s.headCell :: (A ++ R)) (s.headCell :: A) R passes :=
    ⟨rfl, ⟨s.headCell, A, rfl, Nat.le_refl _, passed⟩, stopped⟩
  have size : (s.headCell :: (A ++ R)).length ≤ s.length + 1 := by
    have cells := shape.length
    rw [List.length_cons]
    omega
  obtain ⟨last, descended, lowest⟩ := descend_ok shape.depicts shape.distinct cut size
    shape.level.2 List.mem_cons_self shape.level.2 fun _ => none
  refine ⟨last, descended, ?_⟩
  have tall : ∀ c ∈ s.headCell :: A, 0 < c.height := fun c member =>
    shape.tall c (mem_of_front member)
  rw [← lane_zero tall]
  exact lowest (Nat.ne_of_gt shape.level.1)

theorem Shape.behind_last (shape : s.Shape (A ++ R)) {last : Addr}
    (edge : ((s.headCell :: A).map Cell.addr).getLast? = some last) :
    s.memory.forward last 0 = .ok ((R.map Cell.addr).head?) := by
  obtain ⟨P, listed⟩ := List.getLast?_eq_some_iff.mp edge
  have whole : (s.headCell :: (A ++ R)).map Cell.addr = P ++ last :: R.map Cell.addr := by
    have parts : (s.headCell :: (A ++ R)).map Cell.addr =
        (s.headCell :: A).map Cell.addr ++ R.map Cell.addr := by simp
    rw [parts, listed]
    simp
  have member : last ∈ (s.headCell :: A).map Cell.addr := List.mem_of_getLast? edge
  obtain ⟨c, inA, rfl⟩ := List.mem_map.mp member
  have inAll : c ∈ s.headCell :: (A ++ R) := mem_of_front inA
  have nodup : (P ++ c.addr :: R.map Cell.addr).Nodup := whole ▸ shape.distinct
  have first : c.addr ∉ P := fun within =>
    (List.nodup_append.mp nodup).2.2 _ within _ List.mem_cons_self rfl
  rw [shape.depicts.forward inAll (by decide), ahead, lane_zero shape.tall, whole,
    after_middle first]

theorem Shape.nodeOf_nil (shape : s.Shape (A ++ [])) {last : Addr}
    (edge : ((s.headCell :: A).map Cell.addr).getLast? = some last) (key : K) :
    s.nodeOf last key = .ok none := by
  rw [nodeOf, shape.behind_last edge]
  rfl

theorem Shape.nodeOf_cons {r : Cell K V} (shape : s.Shape (A ++ r :: R)) {last : Addr}
    (edge : ((s.headCell :: A).map Cell.addr).getLast? = some last) (key : K) :
    s.nodeOf last key = .ok (if r.key = key then some r.addr else none) := by
  have member : r ∈ s.headCell :: (A ++ r :: R) := by simp
  rw [nodeOf, shape.behind_last edge, ok_bind, List.map_cons, List.head?_cons]
  simp only [shape.depicts.deref member, ok_bind, Cell.node]
  rfl

omit [Inhabited K] [Inhabited V] in
theorem exists_cut {cells : List (Cell K V)} (sorted : cells.Pairwise fun a b => a.key < b.key)
    (key : K) :
    ∃ A R, cells = A ++ R ∧ (∀ c ∈ A, c.key < key) ∧ ∀ c ∈ R, key ≤ c.key := by
  induction cells with
  | nil => exact ⟨[], [], rfl, by simp, by simp⟩
  | cons c cells ih =>
      rw [List.pairwise_cons] at sorted
      by_cases below : c.key < key
      · obtain ⟨A, R, rfl, low, high⟩ := ih sorted.2
        refine ⟨c :: A, R, rfl, fun b member => ?_, high⟩
        rcases List.mem_cons.mp member with rfl | later
        · exact below
        · exact low b later
      · have above : key ≤ c.key := not_lt.mp below
        refine ⟨[], c :: cells, rfl, by simp, fun b member => ?_⟩
        rcases List.mem_cons.mp member with rfl | later
        · exact above
        · exact le_trans above (le_of_lt (sorted.1 b later))

/-- Where a descent for a key ends: in front of the node of the key, or in the gap for it. -/
theorem Shape.find (shape : s.Shape cells) (key : K) :
    ∃ A last, s.descend (fun k => decide (k < key)) s.level s.head (fun _ => none) =
        .ok (last, s.updateOf A) ∧
      ((s.headCell :: A).map Cell.addr).getLast? = some last ∧ (∀ c ∈ A, c.key < key) ∧
      ((∃ R, cells = A ++ R ∧ (∀ c ∈ R, key < c.key) ∧ s.nodeOf last key = .ok none) ∨
        ∃ r R, cells = A ++ r :: R ∧ r.key = key ∧ (∀ c ∈ R, key < c.key) ∧
          s.nodeOf last key = .ok (some r.addr)) := by
  obtain ⟨A, R, rfl, low, high⟩ := exists_cut shape.sorted key
  obtain ⟨last, descended, edge⟩ := shape.descend (fun k => decide (k < key))
    (fun c member => decide_eq_true (low c member))
    (fun r member => decide_eq_false (not_lt.mpr (high r member)))
  refine ⟨A, last, descended, edge, low, ?_⟩
  cases R with
  | nil => exact Or.inl ⟨[], rfl, by simp, shape.nodeOf_nil edge key⟩
  | cons r R =>
      have later : ∀ c ∈ R, r.key < c.key :=
        (List.pairwise_cons.mp (List.pairwise_append.mp shape.sorted).2.1).1
      have above := high r List.mem_cons_self
      have found := shape.nodeOf_cons edge key
      by_cases same : r.key = key
      · rw [if_pos same] at found
        exact Or.inr ⟨r, R, rfl, same, fun c member => same ▸ later c member, found⟩
      · rw [if_neg same] at found
        refine Or.inl ⟨r :: R, rfl, fun c member => ?_, found⟩
        have beyond : key < r.key := lt_of_le_of_ne above (Ne.symm same)
        rcases List.mem_cons.mp member with rfl | after
        · exact beyond
        · exact lt_trans beyond (later c after)

theorem Shape.unused (shape : s.Shape cells) :
    s.nextAddr ∉ (s.headCell :: cells).map Cell.addr := by
  intro member
  obtain ⟨c, inCells, same⟩ := List.mem_map.mp member
  have held := shape.depicts c inCells
  rw [same, shape.fresh _ (Nat.le_refl _)] at held
  cases held

/-- The predecessors of a new node on its levels: above the list, the head. -/
theorem Shape.raised (shape : s.Shape (A ++ R)) {lvl i : Nat} (bound : lvl ≤ maxLevel)
    (below : i < lvl) :
    s.raiseUpdate lvl (s.updateOf A) i = some (s.edgeOf A i).addr := by
  have low : i < s.headCell.height := Nat.lt_of_lt_of_le below bound
  have edge := (s.edgeOf_spec A low).2
  rw [raiseUpdate]
  by_cases above : s.level ≤ i
  · have none' : lane A i = [] := by
      refine List.eq_nil_iff_forall_not_mem.mpr fun a inLane => ?_
      obtain ⟨c, member, high, -⟩ := mem_lane.mp inLane
      have height := (shape.heights c (List.mem_append_left _ member)).2
      omega
    rw [lane_cons, if_pos low, none'] at edge
    rw [if_pos ⟨above, below⟩]
    exact edge
  · rw [if_neg (fun both => above both.1), updateOf, if_pos (Nat.lt_of_not_le above), edge]

theorem Shape.last_eq_edge (shape : s.Shape (A ++ R)) :
    ((s.headCell :: A).getLast?).map Cell.addr = some (s.edgeOf A 0).addr := by
  have edge := (s.edgeOf_spec A (show 0 < maxLevel by decide)).2
  rw [lane_zero fun c member => shape.tall c (mem_of_front member), List.getLast?_map] at edge
  exact edge

theorem Shape.insertNew (shape : s.Shape (A ++ R)) {key : K} (value : V) {lvl : Nat}
    (low : ∀ c ∈ A, c.key < key) (high : ∀ c ∈ R, key < c.key) (positive : 1 ≤ lvl)
    (bound : lvl ≤ maxLevel) :
    ∃ s', s.insertNew key value lvl (s.updateOf A) = .ok s' ∧
      s'.Shape (A ++ { addr := s.nextAddr, key := key, value := value, height := lvl } :: R) := by
  let x : Cell K V := { addr := s.nextAddr, key := key, value := value, height := lvl }
  let front := s.headCell :: A
  have distinct : ((front ++ x :: R).map Cell.addr).Nodup :=
    nodup_addr_insert.mpr ⟨shape.unused, shape.distinct⟩
  have edges : Edges front (s.raiseUpdate lvl (s.updateOf A)) (s.edgeOf A) (List.range x.height) := by
    refine ⟨fun i inRange => ?_, fun i inRange => ?_, List.nodup_range⟩
    · exact Nat.lt_of_lt_of_le (List.mem_range.mp inRange) bound
    · have below : i < lvl := List.mem_range.mp inRange
      exact ⟨(s.edgeOf_spec A (Nat.lt_of_lt_of_le below bound)).1, shape.raised bound below⟩
  have last : ∀ i < x.height, (lane front i).getLast? = some (s.edgeOf A i).addr :=
    fun i below => (s.edgeOf_spec A (Nat.lt_of_lt_of_le below bound)).2
  have depicts₁ := @Depicts.alloc K V s.memory front R x shape.depicts distinct
  obtain ⟨mem₂, linked, confined₂, depicts₂⟩ := linkLevels_ahead depicts₁ distinct edges last
  obtain ⟨mem₃, mem₄, back, depicts₃, back', confined₄, depicts₄⟩ :=
    linkBackward depicts₂ distinct shape.last_eq_edge
  have pred : (s.raiseUpdate lvl (s.updateOf A)).get 0 = .ok (s.edgeOf A 0).addr := by
    rw [Update.get, shape.raised bound positive]
  have tall : ∀ c ∈ front ++ x :: R, 0 < c.height := by
    intro c member
    rcases List.mem_append.mp member with inFront | later
    · exact shape.tall c (mem_of_front inFront)
    · rcases List.mem_cons.mp later with rfl | inR
      · exact positive
      · exact shape.tall c (List.mem_append_right front inR)
  have next : mem₃.forward x.addr 0 = .ok ((R.map Cell.addr).head?) := by
    rw [depicts₃.forward (show x ∈ front ++ x :: R by simp) (by decide), ahead_zero tall distinct]
  refine ⟨{ s with memory := mem₄, nextAddr := s.nextAddr + 1, level := max s.level lvl,
                   length := s.length + 1 }, ?_, ⟨depicts₄, distinct, ?_, ?_, ?_, ?_, ?_, ?_⟩⟩
  · rw [SkipList.insertNew]
    simp only [x] at linked back next back'
    simp only [linked, ok_bind, pred, back, next, back']
    rfl
  · intro c member
    rcases List.mem_append.mp member with inA | later
    · have height := shape.heights c (List.mem_append_left _ inA)
      exact ⟨height.1, Nat.le_trans height.2 (Nat.le_max_left _ _)⟩
    · rcases List.mem_cons.mp later with rfl | inR
      · exact ⟨positive, Nat.le_max_right _ _⟩
      · have height := shape.heights c (List.mem_append_right _ inR)
        exact ⟨height.1, Nat.le_trans height.2 (Nat.le_max_left _ _)⟩
  · exact ⟨Nat.le_trans shape.level.1 (Nat.le_max_left _ _), Nat.max_le.mpr ⟨shape.level.2, bound⟩⟩
  · show max s.level lvl = 1 ∨ ∃ c ∈ A ++ x :: R, c.height = max s.level lvl
    by_cases higher : s.level ≤ lvl
    · exact Or.inr ⟨x, by simp, (Nat.max_eq_right higher).symm⟩
    · have same : max s.level lvl = s.level := Nat.max_eq_left (Nat.le_of_not_le higher)
      rw [same]
      rcases shape.top with one | ⟨c, member, height⟩
      · exact absurd positive (by omega)
      · refine Or.inr ⟨c, ?_, height⟩
        rcases List.mem_append.mp member with inA | inR
        · exact List.mem_append_left _ inA
        · exact List.mem_append_right _ (List.mem_cons_of_mem _ inR)
  · show s.length + 1 = (A ++ x :: R).length
    rw [shape.length, List.length_append, List.length_append, List.length_cons]
    omega
  · obtain ⟨sortedA, sortedR, across⟩ := List.pairwise_append.mp shape.sorted
    refine List.pairwise_append.mpr ⟨sortedA, List.pairwise_cons.mpr ⟨high, sortedR⟩, ?_⟩
    intro a inA b later
    rcases List.mem_cons.mp later with rfl | inR
    · exact low a inA
    · exact across a inA b inR
  · intro a beyond
    have beyond' : s.nextAddr + 1 ≤ a := beyond
    refine confined₄ a (confined₂ a ?_)
    rw [Memory.store, if_neg (show a ≠ x.addr from Nat.ne_of_gt beyond')]
    exact shape.fresh a (Nat.le_of_succ_le beyond')

omit [LinearOrder K] in
theorem ahead_head (s : SkipList K V) (cells : List (Cell K V)) {i : Nat} (low : i < maxLevel) :
    ahead (s.headCell :: cells) i s.headCell.addr = (lane cells i).head? := by
  have high : i < s.headCell.height := low
  rw [ahead, lane_cons, if_pos high, after, if_pos rfl]

omit [LinearOrder K] [Inhabited K] [Inhabited V] in
/-- The levels that are given up are those that no node is on. -/
theorem lowered {first : Nat → Option Addr} {n l : Nat} (low : n ≤ maxLevel) (positive : 1 ≤ l)
    (bound : l ≤ n) (heads : ∀ i < maxLevel, first i = (lane cells i).head?)
    (heights : ∀ c ∈ cells, c.height ≤ n) (given : ∀ i, l ≤ i → i < n → first i = none)
    (top : l = 1 ∨ first (l - 1) ≠ none) :
    (∀ c ∈ cells, c.height ≤ l) ∧ (l = 1 ∨ ∃ c ∈ cells, c.height = l) := by
  have capped : ∀ c ∈ cells, c.height ≤ l := by
    intro c inside
    refine Nat.le_of_not_lt fun higher => ?_
    have bound' := heights c inside
    have below : c.height - 1 < n := by omega
    have none' := given (c.height - 1) (by omega) below
    rw [heads _ (Nat.lt_of_lt_of_le below low), List.head?_eq_none_iff] at none'
    have inLane : c.addr ∈ lane cells (c.height - 1) := mem_lane.mpr ⟨c, inside, by omega, rfl⟩
    rw [none'] at inLane
    exact List.not_mem_nil inLane
  refine ⟨capped, top.imp id fun some' => ?_⟩
  have below : l - 1 < maxLevel := by omega
  rw [heads _ below, ne_eq, List.head?_eq_none_iff] at some'
  obtain ⟨a, inLane⟩ := List.exists_mem_of_ne_nil _ some'
  obtain ⟨c, inside, high, -⟩ := mem_lane.mp inLane
  exact ⟨c, inside, Nat.le_antisymm (capped c inside) (by omega)⟩

theorem Shape.removeNode {x : Cell K V} (shape : s.Shape (A ++ x :: R)) :
    ∃ s', s.removeNode x.addr (s.updateOf A) = .ok (x.value, s') ∧ s'.Shape (A ++ R) := by
  let front := s.headCell :: A
  have distinct : ((front ++ x :: R).map Cell.addr).Nodup := shape.distinct
  have member : x ∈ front ++ x :: R := by simp
  have kept : ∀ c ∈ A ++ R, c ∈ A ++ x :: R := by
    intro c inside
    rcases List.mem_append.mp inside with inA | inR
    · exact List.mem_append_left _ inA
    · exact List.mem_append_right _ (List.mem_cons_of_mem _ inR)
  have edges : Edges front (s.updateOf A) (s.edgeOf A) (List.range s.level) := by
    refine ⟨fun i inRange => ?_, fun i inRange => ?_, List.nodup_range⟩
    · exact Nat.lt_of_lt_of_le (List.mem_range.mp inRange) shape.level.2
    · have below : i < s.level := List.mem_range.mp inRange
      have edge := s.edgeOf_spec A (Nat.lt_of_lt_of_le below shape.level.2)
      exact ⟨edge.1, (if_pos below).trans edge.2⟩
  have last : ∀ i < s.level, (lane front i).getLast? = some (s.edgeOf A i).addr :=
    fun i below => (s.edgeOf_spec A (Nat.lt_of_lt_of_le below shape.level.2)).2
  obtain ⟨mem₁, next, unlinked, confined₁, depicts₁, links, own⟩ := unlinkLevels_ahead
    shape.depicts distinct edges last (shape.heights x (by simp)).2
  obtain ⟨mem₂, prev, back, confined₂, depicts₂, backs⟩ := unlinkBackward depicts₁ distinct
  obtain ⟨l, lowered₂, positive, bound, given, top⟩ := lowerLevel_ok depicts₂
    (show s.headCell ∈ front ++ x :: R from List.mem_cons_self) shape.level.2 shape.level.1
  have heads : ∀ i < maxLevel, next i s.headCell.addr = (lane (A ++ R) i).head? := fun i low =>
    (links s.headCell List.mem_cons_self i).trans (ahead_head s (A ++ R) low)
  have back' : SkipList.setBackwardOf mem₁ ((R.map Cell.addr).head?)
      (behind (s.headCell :: (A ++ x :: R)) x.addr) = .ok mem₂ := back
  have behind' : mem₁.forward x.addr 0 = .ok ((R.map Cell.addr).head?) := by
    rw [depicts₁.forward member (by decide), own, ahead_zero shape.tall distinct]
  have some' : 1 ≤ s.length := by
    rw [shape.length, List.length_append, List.length_cons]
    omega
  have lowered' : SkipList.lowerLevel mem₂ s.head s.level = .ok l := lowered₂
  obtain ⟨capped, top'⟩ := lowered shape.level.2 positive bound heads
    (fun c inside => (shape.heights c (kept c inside)).2) given top
  refine ⟨{ s with memory := mem₂.store x.addr none, level := l, length := s.length - 1 }, ?_,
    ⟨?_, (nodup_addr_insert.mp distinct).2,
      fun c inside => ⟨(shape.heights c (kept c inside)).1, capped c inside⟩,
      ⟨positive, Nat.le_trans bound shape.level.2⟩, top', ?_, ?_, ?_⟩⟩
  · rw [SkipList.removeNode, unlinked, ok_bind, depicts₁.deref member, ok_bind, behind', ok_bind]
    simp only [Cell.node]
    rw [back', ok_bind, lowered', ok_bind, sub_of_le some', ok_bind, depicts₂.deref member]
    rfl
  · have unused := (nodup_addr_insert.mp distinct).1
    have rest : Depicts (mem₂.store x.addr none) (front ++ R) next prev := by
      intro c inside
      have other : c.addr ≠ x.addr := fun same => unused (same ▸ List.mem_map_of_mem inside)
      rw [Memory.store, if_neg other]
      refine depicts₂ c ?_
      rcases List.mem_append.mp inside with inFront | inR
      · exact List.mem_append_left _ inFront
      · exact List.mem_append_right _ (List.mem_cons_of_mem _ inR)
    exact rest.congr links backs
  · show s.length - 1 = (A ++ R).length
    rw [shape.length, List.length_append, List.length_append, List.length_cons]
    omega
  · refine shape.sorted.sublist ?_
    exact (List.sublist_cons_self x R).append_left A
  · intro a beyond
    exact depicts₂.confined_store member none a (confined₂ a (confined₁ a (shape.fresh a beyond)))

theorem Shape.setValue {x : Cell K V} (shape : s.Shape (A ++ x :: R)) (value : V) :
    ∃ mem, s.memory.setValue x.addr value = .ok mem ∧
      Shape { s with memory := mem } (A ++ { x with value := value } :: R) := by
  let y : Cell K V := { x with value := value }
  have lanes : ∀ i, lane (s.headCell :: (A ++ y :: R)) i = lane (s.headCell :: (A ++ x :: R)) i := by
    intro i
    rw [lane_cons, lane_cons, lane_append, lane_append, lane_cons, lane_cons]
  have addrs : (s.headCell :: (A ++ y :: R)).map Cell.addr =
      (s.headCell :: (A ++ x :: R)).map Cell.addr := by simp [y]
  have forward : ahead (s.headCell :: (A ++ y :: R)) = ahead (s.headCell :: (A ++ x :: R)) := by
    funext i a
    rw [ahead, ahead, lanes]
  have backward : behind (s.headCell :: (A ++ y :: R)) = behind (s.headCell :: (A ++ x :: R)) := by
    funext a
    rw [behind, behind, addrs]
  have heights : ∀ c ∈ A ++ y :: R, ∃ c' ∈ A ++ x :: R, c'.height = c.height := by
    intro c inside
    rcases List.mem_append.mp inside with inA | later
    · exact ⟨c, List.mem_append_left _ inA, rfl⟩
    · rcases List.mem_cons.mp later with rfl | inR
      · exact ⟨x, by simp, rfl⟩
      · exact ⟨c, List.mem_append_right _ (List.mem_cons_of_mem _ inR), rfl⟩
  obtain ⟨mem, written, confined, depicts⟩ :=
    @Depicts.setValue K V (s.headCell :: A) R x _ _ _ shape.depicts shape.distinct value
  refine ⟨mem, written, ⟨?_, ?_, ?_, shape.level, ?_, ?_, ?_,
    fun a beyond => confined a (shape.fresh a beyond)⟩⟩
  · show Depicts mem (s.headCell :: (A ++ y :: R)) (ahead (s.headCell :: (A ++ y :: R)))
      (behind (s.headCell :: (A ++ y :: R)))
    rw [forward, backward]
    exact depicts
  · show ((s.headCell :: (A ++ y :: R)).map Cell.addr).Nodup
    rw [addrs]
    exact shape.distinct
  · intro c inside
    obtain ⟨c', inside', same⟩ := heights c inside
    exact same ▸ shape.heights c' inside'
  · refine shape.top.imp id ?_
    rintro ⟨c, inside, height⟩
    rcases List.mem_append.mp inside with inA | later
    · exact ⟨c, List.mem_append_left _ inA, height⟩
    · rcases List.mem_cons.mp later with rfl | inR
      · exact ⟨y, List.mem_append_right _ List.mem_cons_self, height⟩
      · exact ⟨c, List.mem_append_right _ (List.mem_cons_of_mem _ inR), height⟩
  · show s.length = (A ++ y :: R).length
    rw [shape.length]
    simp
  · obtain ⟨sortedA, sortedR, across⟩ := List.pairwise_append.mp shape.sorted
    obtain ⟨later, sortedR'⟩ := List.pairwise_cons.mp sortedR
    refine List.pairwise_append.mpr ⟨sortedA, List.pairwise_cons.mpr ⟨later, sortedR'⟩, ?_⟩
    intro a inA b inside
    rcases List.mem_cons.mp inside with rfl | inR
    · exact across a inA x List.mem_cons_self
    · exact across a inA b (List.mem_cons_of_mem _ inR)

end SkipList

end Zumic.Database
