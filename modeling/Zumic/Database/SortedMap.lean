/- The skip list is a sorted map, whatever levels its nodes get. -/

import Mathlib.Data.List.Induction
import Zumic.Database.Towers
import Zumic.Lib.Sorted

namespace Zumic.Database

open Lib Lib.Buffer Lib.Successor

namespace SkipList

variable {K V : Type}

theorem levelLoop_bounds (draws : Nat → UInt32) (left lvl : Nat) :
    lvl ≤ levelLoop draws left lvl ∧ levelLoop draws left lvl ≤ lvl + left := by
  induction left generalizing lvl with
  | zero => exact ⟨Nat.le_refl _, Nat.le_refl _⟩
  | succ left ih =>
      rw [levelLoop]
      split
      · have next := ih (lvl + 1)
        omega
      · omega

theorem randomLevel_bounds (draws : Nat → UInt32) :
    1 ≤ randomLevel draws ∧ randomLevel draws ≤ maxLevel :=
  levelLoop_bounds draws (maxLevel - 1) 1

/-- What a node shows. -/
def itemOf (c : Cell K V) : K × V := (c.key, c.value)

variable [LinearOrder K] [Inhabited K] [Inhabited V] {s : SkipList K V}
  {cells A R : List (Cell K V)}

theorem Shape.forward_zero {x : Cell K V} (shape : s.Shape (A ++ x :: R)) :
    s.memory.forward x.addr 0 = .ok ((R.map Cell.addr).head?) := by
  have member : x ∈ s.headCell :: (A ++ x :: R) := by simp
  rw [shape.depicts.forward member (by decide)]
  exact congrArg Except.ok (@ahead_zero K V (s.headCell :: A) R x shape.tall shape.distinct)

theorem Shape.forward_head (shape : s.Shape cells) :
    s.memory.forward s.head 0 = .ok ((cells.map Cell.addr).head?) := by
  have link := shape.depicts.forward List.mem_cons_self (show 0 < maxLevel by decide)
  rw [ahead_head s cells (by decide), lane_zero fun c member => (shape.heights c member).1] at link
  exact link

theorem Shape.nextItem {x : Cell K V} (shape : s.Shape (A ++ x :: R)) :
    s.nextItem (some x.addr) = .ok (some (itemOf x, (R.map Cell.addr).head?)) := by
  have member : x ∈ s.headCell :: (A ++ x :: R) := by simp
  rw [SkipList.nextItem, shape.depicts.deref member, ok_bind, shape.forward_zero]
  rfl

theorem Shape.nextInRange {x : Cell K V} (shape : s.Shape (A ++ x :: R)) (stop : K) :
    s.nextInRange stop (some x.addr) =
      .ok (if stop ≤ x.key then none else some (itemOf x, (R.map Cell.addr).head?)) := by
  have member : x ∈ s.headCell :: (A ++ x :: R) := by simp
  rw [SkipList.nextInRange, shape.depicts.deref member, ok_bind, shape.forward_zero, ok_bind]
  by_cases large : stop ≤ x.key
  · rw [if_pos large]
    exact if_pos large
  · rw [if_neg large]
    exact if_neg large

theorem Shape.addr_ne_head {x : Cell K V} (shape : s.Shape (A ++ x :: R)) : x.addr ≠ s.head := by
  intro same
  have distinct : (((s.headCell :: A) ++ x :: R).map Cell.addr).Nodup := shape.distinct
  refine (nodup_addr_insert.mp distinct).1 ?_
  rw [same]
  exact List.mem_cons_self

theorem Shape.nextBack {x : Cell K V} (shape : s.Shape (A ++ x :: R)) :
    s.nextBack (some x.addr) =
      .ok (some (itemOf x, ((s.headCell :: A).map Cell.addr).getLast?)) := by
  have member : x ∈ s.headCell :: (A ++ x :: R) := by simp
  have distinct : (((s.headCell :: A) ++ x :: R).map Cell.addr).Nodup := shape.distinct
  have back : behind (s.headCell :: (A ++ x :: R)) x.addr =
      ((s.headCell :: A).map Cell.addr).getLast? := by
    have links := behind_insert distinct x.addr
    rw [if_pos rfl, ← List.getLast?_map] at links
    exact links
  rw [SkipList.nextBack, if_neg shape.addr_ne_head, shape.depicts.deref member, ok_bind]
  simp only [Cell.node, back]
  rfl

omit [LinearOrder K] [Inhabited K] [Inhabited V] in
theorem collect_cons {next : Option Addr → Except Fault (Option ((K × V) × Option Addr))}
    {fuel : Nat} {current link : Option Addr} {item : K × V} {items : List (K × V)}
    (read : next current = .ok (some (item, link))) (rest : collect next fuel link = .ok items) :
    collect next (fuel + 1) current = .ok (item :: items) := by
  rw [collect, read, ok_bind]
  simp only [rest, ok_bind]
  rfl

omit [LinearOrder K] [Inhabited K] [Inhabited V] in
theorem collect_nil {next : Option Addr → Except Fault (Option ((K × V) × Option Addr))}
    {fuel : Nat} {current : Option Addr} (read : next current = .ok none) :
    collect next (fuel + 1) current = .ok [] := by
  rw [collect, read]
  rfl

theorem Shape.collect_items (shape : s.Shape (A ++ R)) {fuel : Nat} (enough : R.length ≤ fuel) :
    collect s.nextItem (fuel + 1) ((R.map Cell.addr).head?) = .ok (R.map itemOf) := by
  induction R generalizing A fuel with
  | nil => exact collect_nil rfl
  | cons r R ih =>
      obtain ⟨fuel, rfl⟩ := Nat.exists_eq_add_of_le' enough
      have shape' : s.Shape ((A ++ [r]) ++ R) := by simpa using shape
      exact collect_cons shape.nextItem (ih shape' (Nat.le_add_left _ _))

theorem Shape.collect_range (shape : s.Shape (A ++ R)) (stop : K) {fuel : Nat}
    (enough : R.length ≤ fuel) :
    collect (s.nextInRange stop) (fuel + 1) ((R.map Cell.addr).head?) =
      .ok ((R.map itemOf).filter fun p => p.1 < stop) := by
  induction R generalizing A fuel with
  | nil => exact collect_nil rfl
  | cons r R ih =>
      obtain ⟨fuel, rfl⟩ := Nat.exists_eq_add_of_le' enough
      have read := shape.nextInRange stop
      by_cases large : stop ≤ r.key
      · rw [if_pos large] at read
        have later : ∀ c ∈ R, r.key < c.key :=
          (List.pairwise_cons.mp (List.pairwise_append.mp shape.sorted).2.1).1
        have none' : ((r :: R).map itemOf).filter (fun p => p.1 < stop) = [] := by
          refine List.filter_eq_nil_iff.mpr fun p inside => ?_
          obtain ⟨c, inR, rfl⟩ := List.mem_map.mp inside
          have above : stop ≤ c.key := by
            rcases List.mem_cons.mp inR with rfl | inR
            · exact large
            · exact le_trans large (le_of_lt (later c inR))
          exact fun low => not_lt.mpr above (of_decide_eq_true low)
        rw [none']
        exact collect_nil read
      · rw [if_neg large] at read
        have small : decide ((itemOf r).1 < stop) = true := decide_eq_true (not_le.mp large)
        have shape' : s.Shape ((A ++ [r]) ++ R) := by simpa using shape
        rw [List.map_cons, List.map_cons, List.filter_cons, if_pos small]
        exact collect_cons read (ih shape' (Nat.le_add_left _ _))

theorem Shape.collect_back (shape : s.Shape (A ++ R)) {fuel : Nat} (enough : A.length ≤ fuel) :
    collect s.nextBack (fuel + 1) ((s.headCell :: A).map Cell.addr).getLast? =
      .ok (A.map itemOf).reverse := by
  induction A using List.reverseRecOn generalizing R fuel with
  | nil => exact collect_nil (if_pos rfl)
  | append_singleton A x ih =>
      rw [List.length_append] at enough
      obtain ⟨fuel, rfl⟩ := Nat.exists_eq_add_of_le' enough
      have shape' : s.Shape (A ++ x :: R) := by simpa using shape
      have last : ((s.headCell :: (A ++ [x])).map Cell.addr).getLast? = some x.addr := by
        rw [← List.cons_append, List.map_append]
        exact List.getLast?_concat
      rw [last, List.map_append, List.reverse_append]
      exact collect_cons shape'.nextBack (ih shape' (Nat.le_add_left _ _))

theorem Shape.iter (shape : s.Shape cells) : s.iter = .ok (cells.map itemOf) := by
  rw [SkipList.iter, shape.forward_head, ok_bind]
  exact @Shape.collect_items K V _ _ _ s [] cells shape _ (Nat.le_of_eq shape.length.symm)

theorem Shape.lastNode (shape : s.Shape cells) :
    s.lastNode = .ok ((cells.map Cell.addr).getLast?) := by
  have shape' : s.Shape (cells ++ []) := by rwa [List.append_nil]
  obtain ⟨last, descended, edge⟩ := shape'.descend (fun _ => true) (fun _ _ => rfl) (by simp)
  rw [SkipList.lastNode, descended, ok_bind]
  rcases List.eq_nil_or_concat cells with rfl | ⟨A, x, rfl⟩
  · obtain rfl : s.head = last := Option.some.inj edge
    simp only [if_true]
    rfl
  · rw [List.concat_eq_append] at shape edge ⊢
    have ends : ((A ++ [x]).map Cell.addr).getLast? = some x.addr := by
      rw [List.map_append]
      exact List.getLast?_concat
    have ends' : ((s.headCell :: (A ++ [x])).map Cell.addr).getLast? = some x.addr := by
      rw [← List.cons_append, List.map_append]
      exact List.getLast?_concat
    obtain rfl : x.addr = last := Option.some.inj (ends'.symm.trans edge)
    rw [ends]
    simp only [shape.addr_ne_head, if_false]
    rfl

theorem Shape.iterRev (shape : s.Shape cells) : s.iterRev = .ok (cells.map itemOf).reverse := by
  have shape' : s.Shape (cells ++ []) := by rwa [List.append_nil]
  have back := shape'.collect_back (Nat.le_of_eq shape.length.symm)
  rw [SkipList.iterRev, shape.lastNode, ok_bind]
  cases cells with
  | nil => rfl
  | cons c cells =>
      rw [List.map_cons, List.map_cons, List.getLast?_cons_cons, ← List.map_cons] at back
      exact back

theorem Shape.first (shape : s.Shape cells) : s.first = .ok ((cells.map itemOf).head?) := by
  rw [SkipList.first, shape.forward_head, ok_bind]
  cases cells with
  | nil => rfl
  | cons c cells =>
      have member : c ∈ s.headCell :: c :: cells := by simp
      simp only [List.map_cons, List.head?_cons]
      rw [shape.depicts.deref member]
      rfl

theorem Shape.last (shape : s.Shape cells) : s.last = .ok ((cells.map itemOf).getLast?) := by
  rw [SkipList.last, shape.lastNode, ok_bind]
  rcases List.eq_nil_or_concat cells with rfl | ⟨A, x, rfl⟩
  · rfl
  · rw [List.concat_eq_append] at shape ⊢
    have member : x ∈ s.headCell :: (A ++ [x]) := by simp
    rw [List.getLast?_map, List.getLast?_map, List.getLast?_concat]
    simp only [Option.map_some]
    rw [shape.depicts.deref member]
    rfl

section

open Sorted

variable {m : List (K × V)}

/-- The list shows a map. -/
def Holds (s : SkipList K V) (m : List (K × V)) : Prop :=
  ∃ cells, s.Shape cells ∧ cells.map itemOf = m

theorem Shape.locate (shape : s.Shape cells) (key : K) :
    ∃ A last, s.descend (fun k => decide (k < key)) s.level s.head (fun _ => none) =
        .ok (last, s.updateOf A) ∧ (s.updateOf A).get 0 = .ok last ∧
      ((∃ R, cells = A ++ R ∧ Gap (A.map itemOf) (R.map itemOf) key ∧
          s.nodeOf last key = .ok none) ∨
        ∃ r R, cells = A ++ r :: R ∧ itemOf r = (key, r.value) ∧
          Gap (A.map itemOf) (R.map itemOf) key ∧ s.nodeOf last key = .ok (some r.addr)) := by
  obtain ⟨A, last, descended, edge, low, place⟩ := shape.find key
  have below : ∀ p ∈ A.map itemOf, p.1 < key := by
    intro p inside
    obtain ⟨c, member, rfl⟩ := List.mem_map.mp inside
    exact low c member
  have above : ∀ R : List (Cell K V), (∀ c ∈ R, key < c.key) → ∀ p ∈ R.map itemOf, key < p.1 := by
    intro R high p inside
    obtain ⟨c, member, rfl⟩ := List.mem_map.mp inside
    exact high c member
  have get : (∀ c ∈ A, c ∈ cells) → (s.updateOf A).get 0 = .ok last := by
    intro part
    have tall : ∀ c ∈ s.headCell :: A, 0 < c.height := by
      intro c member
      rcases List.mem_cons.mp member with rfl | inA
      · exact (by decide : 0 < maxLevel)
      · exact (shape.heights c (part c inA)).1
    rw [Update.get, updateOf, if_pos (show 0 < s.level from shape.level.1), lane_zero tall, edge]
  rcases place with ⟨R, rfl, high, missing⟩ | ⟨r, R, rfl, same, high, found⟩
  · exact ⟨A, last, descended, get fun c inA => List.mem_append_left _ inA,
      Or.inl ⟨R, rfl, ⟨below, above R high⟩, missing⟩⟩
  · exact ⟨A, last, descended, get fun c inA => List.mem_append_left _ inA,
      Or.inr ⟨r, R, rfl, by rw [itemOf, same], ⟨below, above R high⟩, found⟩⟩

omit [Inhabited K] [Inhabited V] in
theorem findUpdate_of_descend {key : K} {last : Addr} {update : Update}
    (descended : s.descend (fun k => decide (k < key)) s.level s.head (fun _ => none) =
      .ok (last, update)) : s.findUpdate key = .ok update := by
  rw [findUpdate, descended]
  rfl

theorem Holds.insert (holds : s.Holds m) (key : K) (value : V) (draws : Nat → UInt32) :
    ∃ s', s.insert key value draws = .ok s' ∧ s'.Holds (Sorted.insert m key value) := by
  obtain ⟨cells, shape, rfl⟩ := holds
  obtain ⟨A, last, descended, get, place⟩ := shape.locate key
  rw [SkipList.insert, findUpdate_of_descend descended, ok_bind, get, ok_bind]
  rcases place with ⟨R, rfl, gap, missing⟩ | ⟨r, R, rfl, item, gap, found⟩
  · obtain ⟨positive, bound⟩ := randomLevel_bounds draws
    obtain ⟨s', inserted, shape'⟩ := shape.insertNew value
      (fun c member => gap.below (itemOf c) (List.mem_map_of_mem member))
      (fun c member => gap.above (itemOf c) (List.mem_map_of_mem member)) positive bound
    refine ⟨s', ?_, _, shape', ?_⟩
    · rw [missing]
      exact inserted
    · rw [List.map_append, List.map_append, gap.insert_new]
      rfl
  · obtain ⟨mem, written, shape'⟩ := shape.setValue value
    refine ⟨_, ?_, _, shape', ?_⟩
    · rw [found, ok_bind]
      simp only [written, ok_bind]
      rfl
    · rw [List.map_append, List.map_append, List.map_cons, List.map_cons, item, gap.insert_old]
      have key' : r.key = key := congrArg Prod.fst item
      rw [itemOf, key']

theorem Holds.search (holds : s.Holds m) (key : K) : s.search key = .ok (Assoc.get m key) := by
  obtain ⟨cells, shape, rfl⟩ := holds
  obtain ⟨A, last, descended, -, place⟩ := shape.locate key
  rw [SkipList.search, descended, ok_bind]
  rcases place with ⟨R, rfl, gap, missing⟩ | ⟨r, R, rfl, item, gap, found⟩
  · rw [List.map_append, gap.get_none]
    simp only [missing, ok_bind]
    rfl
  · have member : r ∈ s.headCell :: (A ++ r :: R) := by simp
    rw [List.map_append, List.map_cons, item, gap.get_some]
    simp only [found, ok_bind]
    rw [shape.depicts.deref member]
    rfl

theorem Holds.searchMut (holds : s.Holds m) (key : K) (change : V → V) :
    ∃ s', s.searchMut key change = .ok (Assoc.get m key, s') ∧
      s'.Holds (Sorted.modify m key change) := by
  obtain ⟨cells, shape, rfl⟩ := holds
  obtain ⟨A, last, descended, get, place⟩ := shape.locate key
  rw [SkipList.searchMut, findUpdate_of_descend descended, ok_bind, get, ok_bind]
  rcases place with ⟨R, rfl, gap, missing⟩ | ⟨r, R, rfl, item, gap, found⟩
  · refine ⟨s, ?_, _, shape, ?_⟩
    · rw [List.map_append, gap.get_none, missing]
      rfl
    · rw [List.map_append, gap.modify_none]
  · have member : r ∈ s.headCell :: (A ++ r :: R) := by simp
    obtain ⟨mem, written, shape'⟩ := shape.setValue (change r.value)
    refine ⟨_, ?_, _, shape', ?_⟩
    · rw [found, ok_bind]
      simp only [shape.depicts.deref member, ok_bind, Cell.node, written]
      rw [List.map_append, List.map_cons, item, gap.get_some]
      rfl
    · have key' : r.key = key := congrArg Prod.fst item
      rw [List.map_append, List.map_append, List.map_cons, List.map_cons, item, gap.modify_some,
        itemOf, key']

theorem Holds.remove (holds : s.Holds m) (key : K) :
    ∃ s', s.remove key = .ok (Assoc.get m key, s') ∧ s'.Holds (Assoc.erase m key) := by
  obtain ⟨cells, shape, rfl⟩ := holds
  obtain ⟨A, last, descended, get, place⟩ := shape.locate key
  rw [SkipList.remove, findUpdate_of_descend descended, ok_bind, get, ok_bind]
  rcases place with ⟨R, rfl, gap, missing⟩ | ⟨r, R, rfl, item, gap, found⟩
  · refine ⟨s, ?_, _, shape, ?_⟩
    · rw [List.map_append, gap.get_none, missing]
      rfl
    · rw [List.map_append, gap.erase_none]
  · obtain ⟨s', removed, shape'⟩ := shape.removeNode
    refine ⟨s', ?_, _, shape', ?_⟩
    · rw [found, ok_bind]
      simp only [removed, ok_bind]
      rw [List.map_append, List.map_cons, item, gap.get_some]
      rfl
    · rw [List.map_append, List.map_append, List.map_cons, item, gap.erase_some]

theorem Holds.contains (holds : s.Holds m) (key : K) :
    s.contains key = .ok (Assoc.get m key).isSome := by
  rw [SkipList.contains, holds.search]
  rfl

/-- A range starts where the descent for its first key ends. -/
theorem Holds.range (holds : s.Holds m) (start stop : K) :
    s.range start stop = .ok (Sorted.range m start stop) := by
  obtain ⟨cells, shape, rfl⟩ := holds
  obtain ⟨A, R, rfl, low, high⟩ := exists_cut shape.sorted start
  obtain ⟨last, descended, edge⟩ := shape.descend (fun k => decide (k < start))
    (fun c member => decide_eq_true (low c member))
    (fun r member => decide_eq_false (not_lt.mpr (high r member)))
  have enough : R.length ≤ s.length := by
    rw [shape.length, List.length_append]
    omega
  have before : (A.map itemOf).filter (fun p => start ≤ p.1 ∧ p.1 < stop) = [] := by
    refine List.filter_eq_nil_iff.mpr fun p inside => ?_
    obtain ⟨c, member, rfl⟩ := List.mem_map.mp inside
    exact fun within => not_le.mpr (low c member) (of_decide_eq_true within).1
  have behind' : (R.map itemOf).filter (fun p => start ≤ p.1 ∧ p.1 < stop) =
      (R.map itemOf).filter fun p => p.1 < stop := by
    refine List.filter_congr fun p inside => ?_
    obtain ⟨c, member, rfl⟩ := List.mem_map.mp inside
    exact decide_eq_decide.mpr ⟨And.right, fun below => ⟨high c member, below⟩⟩
  rw [SkipList.range, descended, ok_bind]
  simp only [shape.behind_last edge, ok_bind]
  rw [shape.collect_range stop enough, Sorted.range, List.map_append, List.filter_append, before,
    behind', List.nil_append]

theorem Holds.clear (holds : s.Holds m) : ∃ s', s.clear = .ok s' ∧ s'.Holds [] := by
  obtain ⟨cells, shape, rfl⟩ := holds
  have depicts : Depicts s.memory cells (ahead ([s.headCell] ++ cells))
      (behind (s.headCell :: cells)) := shape.depicts.subset fun c => List.mem_cons_of_mem _
  obtain ⟨mem, freed, confined, kept⟩ := freeLoop_ok depicts shape.distinct shape.tall
    (show cells.length < s.length + 1 from Nat.lt_succ_of_le (Nat.le_of_eq shape.length.symm))
  have outside : s.headCell.addr ∉ cells.map Cell.addr := (List.nodup_cons.mp shape.distinct).1
  have head : mem.deref s.head = .ok (s.headCell.node (ahead (s.headCell :: cells))
      (behind (s.headCell :: cells))) :=
    deref_of_eq ((kept s.headCell.addr outside).trans (shape.depicts _ List.mem_cons_self))
  -- the array of the links ends at the highest level
  have beyond : ∀ i, ¬i < maxLevel → ahead (s.headCell :: cells) i s.head = none := by
    intro i high
    refine after_of_not_mem fun inLane => ?_
    obtain ⟨c, member, below, -⟩ := mem_lane.mp inLane
    rcases List.mem_cons.mp member with rfl | inCells
    · exact high below
    · exact high (Nat.lt_of_lt_of_le below
        (Nat.le_trans (shape.heights c inCells).2 shape.level.2))
  let empty : SkipList K V := { s with
    memory := mem.store s.head (some (s.headCell.node (ahead [s.headCell]) (behind [s.headCell])))
    level := 1
    length := 0 }
  refine ⟨empty, ?_, [], ⟨?_, ?_, by simp, ⟨Nat.le_refl 1, show 1 ≤ maxLevel by decide⟩, Or.inl rfl, rfl,
    List.Pairwise.nil, ?_⟩, rfl⟩
  · have links : (fun i => if i < maxLevel then none
        else ahead (s.headCell :: cells) i s.head) = fun i => ahead [s.headCell] i s.head := by
      funext i
      rw [ahead_singleton]
      split
      · rfl
      · rename_i high
        exact beyond i high
    rw [SkipList.clear, shape.forward_head, ok_bind, freed, ok_bind, head, ok_bind]
    simp only [Cell.node]
    have links' : (fun i => if i < maxLevel then none
        else ahead (s.headCell :: cells) i s.headCell.addr) =
        fun i => ahead [s.headCell] i s.headCell.addr := links
    rw [links', ← behind_singleton s.headCell s.headCell.addr]
    rfl
  · intro c member
    obtain rfl := List.mem_singleton.mp member
    show mem.store s.head _ s.head = _
    rw [Memory.store, if_pos rfl]
    rfl
  · exact List.nodup_singleton _
  · intro a unused
    have free : mem a = none := confined a (shape.fresh a unused)
    show mem.store s.head _ a = none
    rw [Memory.store, if_neg, free]
    rintro rfl
    have held := (kept s.headCell.addr outside).trans (shape.depicts _ List.mem_cons_self)
    exact absurd (held.symm.trans free) (by simp)

theorem holds_new : (new : SkipList K V).Holds [] := by
  refine ⟨[], ⟨?_, List.nodup_singleton _, by simp, ⟨Nat.le_refl 1, show 1 ≤ maxLevel by decide⟩,
    Or.inl rfl, rfl, List.Pairwise.nil, ?_⟩, rfl⟩
  · intro c member
    obtain rfl := List.mem_singleton.mp member
    simp only [Cell.node, ahead_singleton, behind_singleton]
    rfl
  · intro a unused
    exact if_neg (Nat.ne_of_gt unused)

/-- The same use of a sorted map. -/
def sortedStep (m : List (K × V)) : Call K V → Reply K V × List (K × V)
  | .insert key value _ => (.done, Sorted.insert m key value)
  | .remove key => (.value (Assoc.get m key), Assoc.erase m key)
  | .search key => (.value (Assoc.get m key), m)
  | .searchMut key change => (.value (Assoc.get m key), Sorted.modify m key change)
  | .contains key => (.flag (Assoc.get m key).isSome, m)
  | .first => (.item m.head?, m)
  | .last => (.item m.getLast?, m)
  | .range start stop => (.items (Sorted.range m start stop), m)
  | .iter => (.items m, m)
  | .iterRev => (.items m.reverse, m)
  | .clear => (.done, [])
  | .len => (.count m.length, m)
  | .isEmpty => (.flag (m.length == 0), m)

def sortedRun : List (K × V) → List (Call K V) → List (Reply K V) × List (K × V)
  | m, [] => ([], m)
  | m, c :: calls =>
      let (reply, m) := sortedStep m c
      let (replies, m) := sortedRun m calls
      (reply :: replies, m)

theorem Holds.length (holds : s.Holds m) : s.length = m.length := by
  obtain ⟨cells, shape, rfl⟩ := holds
  rw [shape.length, List.length_map]

theorem Holds.step (holds : s.Holds m) (c : Call K V) :
    ∃ s', s.step c = .ok ((sortedStep m c).1, s') ∧ s'.Holds (sortedStep m c).2 := by
  cases c with
  | insert key value draws =>
      obtain ⟨s', done, holds'⟩ := holds.insert key value draws
      refine ⟨s', ?_, holds'⟩
      rw [SkipList.step, done]
      rfl
  | remove key =>
      obtain ⟨s', done, holds'⟩ := holds.remove key
      refine ⟨s', ?_, holds'⟩
      rw [SkipList.step, done]
      rfl
  | search key =>
      refine ⟨s, ?_, holds⟩
      rw [SkipList.step, holds.search key]
      rfl
  | searchMut key change =>
      obtain ⟨s', done, holds'⟩ := holds.searchMut key change
      refine ⟨s', ?_, holds'⟩
      rw [SkipList.step, done]
      rfl
  | contains key =>
      refine ⟨s, ?_, holds⟩
      rw [SkipList.step, holds.contains key]
      rfl
  | first =>
      refine ⟨s, ?_, holds⟩
      obtain ⟨cells, shape, rfl⟩ := holds
      rw [SkipList.step, shape.first]
      rfl
  | last =>
      refine ⟨s, ?_, holds⟩
      obtain ⟨cells, shape, rfl⟩ := holds
      rw [SkipList.step, shape.last]
      rfl
  | range start stop =>
      refine ⟨s, ?_, holds⟩
      rw [SkipList.step, holds.range start stop]
      rfl
  | iter =>
      refine ⟨s, ?_, holds⟩
      obtain ⟨cells, shape, rfl⟩ := holds
      rw [SkipList.step, shape.iter]
      rfl
  | iterRev =>
      refine ⟨s, ?_, holds⟩
      obtain ⟨cells, shape, rfl⟩ := holds
      rw [SkipList.step, shape.iterRev]
      rfl
  | clear =>
      obtain ⟨s', done, holds'⟩ := holds.clear
      refine ⟨s', ?_, holds'⟩
      rw [SkipList.step, done]
      rfl
  | len =>
      refine ⟨s, ?_, holds⟩
      rw [SkipList.step, holds.length]
      rfl
  | isEmpty =>
      refine ⟨s, ?_, holds⟩
      rw [SkipList.step, holds.length]
      rfl

theorem Holds.run (holds : s.Holds m) (calls : List (Call K V)) :
    ∃ s', s.run calls = .ok ((sortedRun m calls).1, s') ∧ s'.Holds (sortedRun m calls).2 := by
  induction calls generalizing s m with
  | nil => exact ⟨s, rfl, holds⟩
  | cons c calls ih =>
      obtain ⟨s₁, stepped, holds₁⟩ := holds.step c
      obtain ⟨s₂, ran, holds₂⟩ := ih holds₁
      refine ⟨s₂, ?_, holds₂⟩
      rw [SkipList.run, stepped, ok_bind]
      simp only [ran, ok_bind]
      rfl

end

/-- The nodes behind an address on a level. -/
def chainFrom (mem : Memory K V) (i : Nat) : Nat → Addr → Except Fault (List Addr)
  | 0, _ => .error .endless
  | fuel + 1, a => do
      match ← mem.forward a i with
      | none => pure []
      | some next => do
          let rest ← chainFrom mem i fuel next
          pure (next :: rest)

/-- The chain of a level, as its links have it. -/
def chain (s : SkipList K V) (i : Nat) : Except Fault (List Addr) :=
  chainFrom s.memory i (s.length + 1) s.head

/-- The pair that a node holds. -/
def pairAt (s : SkipList K V) (a : Addr) : Option (K × V) :=
  (s.memory a).map fun n => (n.key, n.value)

/-- One node comes before another one in the order of their keys. -/
def Precedes (s : SkipList K V) (a b : Addr) : Prop :=
  ∃ p q, s.pairAt a = some p ∧ s.pairAt b = some q ∧ p.1 < q.1

/-- The chains of all levels: each is a part of the one below and goes up in the keys, none is on a
level that is not in use, the highest level in use is not empty unless it is the only one, and the
backward links lead to the nodes in front. -/
structure Linked (s : SkipList K V) (chains : Nat → List Addr) : Prop where
  chain : ∀ i < maxLevel, s.chain i = .ok (chains i)
  nested : ∀ i, i + 1 < maxLevel → (chains (i + 1)).Sublist (chains i)
  increasing : ∀ i < maxLevel, (chains i).Pairwise s.Precedes
  level : 1 ≤ s.level ∧ s.level ≤ maxLevel
  unused : ∀ i < maxLevel, s.level ≤ i → chains i = []
  highest : s.level ≠ 1 → chains (s.level - 1) ≠ []
  backward : ∀ before p a behind, s.head :: chains 0 = before ++ p :: a :: behind →
    (s.memory a).map Node.backward = some (some p)

/-- The list shows a sorted map, and its nodes are linked in the order of the keys. -/
structure InOrder (s : SkipList K V) (m : List (K × V)) : Prop where
  sorted : m.Pairwise fun p q => p.1 < q.1
  length : s.length = m.length
  iter : s.iter = .ok m
  linked : ∃ chains, s.Linked chains ∧ (chains 0).map s.pairAt = m.map some

theorem Shape.pairAt {c : Cell K V} (shape : s.Shape cells) (member : c ∈ cells) :
    s.pairAt c.addr = some (itemOf c) := by
  rw [SkipList.pairAt, shape.depicts c (List.mem_cons_of_mem _ member)]
  rfl

theorem Shape.forward_lane (shape : s.Shape cells) {i : Nat} (low : i < maxLevel)
    {P Q : List Addr} {a : Addr} (listed : lane (s.headCell :: cells) i = P ++ a :: Q) :
    s.memory.forward a i = .ok Q.head? := by
  have inLane : a ∈ lane (s.headCell :: cells) i := by simp [listed]
  obtain ⟨c, member, -, rfl⟩ := mem_lane.mp inLane
  have nodup := (lane_sublist (s.headCell :: cells) i).nodup shape.distinct
  have first : c.addr ∉ P := fun within =>
    (List.nodup_append.mp (listed ▸ nodup)).2.2 _ within _ List.mem_cons_self rfl
  rw [shape.depicts.forward member low, ahead, listed, after_middle first]

theorem Shape.chainFrom (shape : s.Shape cells) {i : Nat} (low : i < maxLevel) {P Q : List Addr}
    {a : Addr} (listed : lane (s.headCell :: cells) i = P ++ a :: Q) {fuel : Nat}
    (enough : Q.length ≤ fuel) : chainFrom s.memory i (fuel + 1) a = .ok Q := by
  induction Q generalizing P a fuel with
  | nil =>
      rw [SkipList.chainFrom, shape.forward_lane low listed]
      rfl
  | cons b Q ih =>
      obtain ⟨fuel, rfl⟩ := Nat.exists_eq_add_of_le' enough
      have listed' : lane (s.headCell :: cells) i = (P ++ [a]) ++ b :: Q := by simp [listed]
      have rest : SkipList.chainFrom s.memory i (fuel + Q.length + 1) b = .ok Q :=
        ih listed' (Nat.le_add_left _ _)
      rw [SkipList.chainFrom, shape.forward_lane low listed, ok_bind, List.head?_cons]
      show (SkipList.chainFrom s.memory i (fuel + Q.length + 1) b >>= _) = _
      rw [rest]
      rfl

theorem Shape.linked (shape : s.Shape cells) : s.Linked (lane cells) where
  chain i low := by
    have high : i < s.headCell.height := low
    have listed : lane (s.headCell :: cells) i = [] ++ s.head :: lane cells i := by
      rw [lane_cons, if_pos high]
      rfl
    have enough : (lane cells i).length ≤ s.length := by
      have fewer := (lane_sublist cells i).length_le
      rwa [List.length_map, ← shape.length] at fewer
    exact shape.chainFrom low listed enough
  nested i _ := lane_succ_sublist cells i
  increasing i _ := by
    rw [lane, List.pairwise_map]
    refine (shape.sorted.sublist List.filter_sublist).imp_of_mem ?_
    intro c c' member member' before
    exact ⟨itemOf c, itemOf c', shape.pairAt (List.mem_of_mem_filter member),
      shape.pairAt (List.mem_of_mem_filter member'), before⟩
  level := shape.level
  unused i _ above := by
    refine List.eq_nil_iff_forall_not_mem.mpr fun a inLane => ?_
    obtain ⟨c, member, high, -⟩ := mem_lane.mp inLane
    have bound := (shape.heights c member).2
    omega
  highest several := by
    obtain ⟨c, member, height⟩ := shape.top.resolve_left several
    have positive := (shape.heights c member).1
    have inLane : c.addr ∈ lane cells (s.level - 1) :=
      mem_lane.mpr ⟨c, member, by omega, rfl⟩
    exact List.ne_nil_of_mem inLane
  backward before p a behind listed := by
    rw [lane_zero fun c member => (shape.heights c member).1] at listed
    have listed' : (s.headCell :: cells).map Cell.addr = before ++ p :: a :: behind := listed
    have inList : a ∈ (s.headCell :: cells).map Cell.addr := by simp [listed']
    obtain ⟨c, member, rfl⟩ := List.mem_map.mp inList
    have nodup := shape.distinct
    rw [listed', ← List.nodup_reverse] at nodup
    have turned : (before ++ p :: c.addr :: behind).reverse =
        behind.reverse ++ c.addr :: p :: before.reverse := by simp
    rw [turned] at nodup
    have first : c.addr ∉ behind.reverse := (neighbours_once nodup).1
    rw [shape.depicts c member]
    show some (Zumic.Database.behind (s.headCell :: cells) c.addr) = _
    rw [Zumic.Database.behind, listed', turned, after_middle first]
    rfl

theorem Holds.inOrder {m : List (K × V)} (holds : s.Holds m) : s.InOrder m := by
  obtain ⟨cells, shape, rfl⟩ := holds
  refine ⟨List.pairwise_map.mpr shape.sorted, by rw [shape.length, List.length_map], shape.iter,
    lane cells, shape.linked, ?_⟩
  rw [lane_zero fun c member => (shape.heights c member).1, List.map_map, List.map_map]
  exact List.map_congr_left fun c member => shape.pairAt member

/-- Whatever levels are drawn for the nodes, every sequence of uses returns what it returns on a
sorted map, without a fault, and leaves a list in order. -/
theorem sortedMap_run (calls : List (Call K V)) :
    ∃ s', (new : SkipList K V).run calls = .ok ((sortedRun [] calls).1, s') ∧
      s'.InOrder (sortedRun [] calls).2 := by
  obtain ⟨s', ran, holds⟩ := holds_new.run calls
  exact ⟨s', ran, holds.inOrder⟩

end SkipList

end Zumic.Database
