/- The nodes of a skip list in their order, the lanes that their heights make, and the walks along
them. -/

import Mathlib.Data.List.Nodup
import Zumic.Database.SkipList
import Zumic.Lib.Successor

namespace Zumic.Database

open Lib.Buffer Lib.Successor

/-- A node and the number of levels that it is linked on. -/
structure Cell (K V : Type) where
  addr : Addr
  key : K
  value : V
  height : Nat

variable {K V : Type}

/-- The addresses on a level. -/
def lane (cells : List (Cell K V)) (i : Nat) : List Addr :=
  (cells.filter fun c => i < c.height).map Cell.addr

/-- The forward link that the lanes ask for. -/
def ahead (cells : List (Cell K V)) (i : Nat) (a : Addr) : Option Addr := after (lane cells i) a

/-- The backward link that the order asks for. -/
def behind (cells : List (Cell K V)) (a : Addr) : Option Addr :=
  after (cells.map Cell.addr).reverse a

/-- The node of a cell in memory, with these links. -/
def Cell.node (c : Cell K V) (next : Nat → Addr → Option Addr) (prev : Addr → Option Addr) :
    Node K V where
  key := c.key
  value := c.value
  forward := fun i => next i c.addr
  backward := prev c.addr

/-- The memory holds the cells, with these links. -/
def Depicts (mem : Memory K V) (cells : List (Cell K V)) (next : Nat → Addr → Option Addr)
    (prev : Addr → Option Addr) : Prop :=
  ∀ c ∈ cells, mem c.addr = some (c.node next prev)

section

variable {mem : Memory K V} {cells : List (Cell K V)} {next : Nat → Addr → Option Addr}
  {prev : Addr → Option Addr} {c : Cell K V} {i : Nat}

theorem deref_of_eq {a : Addr} {n : Node K V} (held : mem a = some n) : mem.deref a = .ok n := by
  rw [Memory.deref, held]

theorem Depicts.deref (depicts : Depicts mem cells next prev) (member : c ∈ cells) :
    mem.deref c.addr = .ok (c.node next prev) :=
  deref_of_eq (depicts c member)

theorem Depicts.forward (depicts : Depicts mem cells next prev) (member : c ∈ cells)
    (low : i < maxLevel) : mem.forward c.addr i = .ok (next i c.addr) := by
  rw [Memory.forward, if_pos low, depicts.deref member]
  rfl

/-- Nothing becomes allocated. -/
def Confined (mem mem' : Memory K V) : Prop := ∀ a, mem a = none → mem' a = none

theorem Confined.trans {mem' mem'' : Memory K V} (left : Confined mem mem')
    (right : Confined mem' mem'') : Confined mem mem'' :=
  fun a unused => right a (left a unused)

theorem Depicts.confined_store (depicts : Depicts mem cells next prev) (member : c ∈ cells)
    (n : Option (Node K V)) : Confined mem (mem.store c.addr n) := by
  intro a unused
  have other : a ≠ c.addr := by
    rintro rfl
    rw [depicts c member] at unused
    cases unused
  rw [Memory.store, if_neg other, unused]

theorem Depicts.store {next' : Nat → Addr → Option Addr} {prev' : Addr → Option Addr}
    (depicts : Depicts mem cells next prev) (member : c ∈ cells)
    (forward : ∀ a ≠ c.addr, ∀ i, next' i a = next i a)
    (backward : ∀ a ≠ c.addr, prev' a = prev a) :
    Depicts (mem.store c.addr (some (c.node next' prev'))) cells next' prev' := by
  intro c' member'
  rw [Memory.store]
  split
  · rename_i same
    have node := (depicts c' member').symm.trans (same ▸ depicts c member)
    simp only [Cell.node, Option.some.injEq, Node.mk.injEq] at node
    simp [Cell.node, same, node.1, node.2.1]
  · rename_i other
    rw [depicts c' member']
    simp [Cell.node, forward _ other, backward _ other]

theorem Depicts.setForward (depicts : Depicts mem cells next prev) (member : c ∈ cells)
    (low : i < maxLevel) (link : Option Addr) :
    ∃ mem', mem.setForward c.addr i link = .ok mem' ∧ Confined mem mem' ∧
      Depicts mem' cells (fun j b => if j = i ∧ b = c.addr then link else next j b) prev := by
  refine ⟨_, ?_, depicts.confined_store member (some (c.node
    (fun j b => if j = i ∧ b = c.addr then link else next j b) prev)),
    depicts.store member (fun a other j => by simp [other]) fun _ _ => rfl⟩
  rw [Memory.setForward, if_pos low, depicts.deref member]
  simp only [ok_bind, Cell.node, and_true]
  rfl

theorem Depicts.setBackward (depicts : Depicts mem cells next prev) (member : c ∈ cells)
    (link : Option Addr) :
    ∃ mem', mem.setBackward c.addr link = .ok mem' ∧ Confined mem mem' ∧
      Depicts mem' cells next (fun b => if b = c.addr then link else prev b) := by
  refine ⟨_, ?_, depicts.confined_store member (some (c.node next
    fun b => if b = c.addr then link else prev b)),
    depicts.store member (fun _ _ _ => rfl) fun a other => by simp [other]⟩
  rw [Memory.setBackward, depicts.deref member]
  simp only [ok_bind, Cell.node, if_true]
  rfl

theorem Depicts.congr {next' : Nat → Addr → Option Addr} {prev' : Addr → Option Addr}
    (depicts : Depicts mem cells next prev)
    (forward : ∀ c ∈ cells, ∀ i, next i c.addr = next' i c.addr)
    (backward : ∀ c ∈ cells, prev c.addr = prev' c.addr) : Depicts mem cells next' prev' := by
  intro c member
  rw [depicts c member]
  simp only [Cell.node, forward c member, backward c member]

theorem Depicts.subset {cells' : List (Cell K V)} (depicts : Depicts mem cells next prev)
    (fewer : ∀ c ∈ cells', c ∈ cells) : Depicts mem cells' next prev :=
  fun c member => depicts c (fewer c member)

end

section

variable {A B : List (Cell K V)} {x : Cell K V} {i : Nat}

theorem lane_append (A B : List (Cell K V)) (i : Nat) :
    lane (A ++ B) i = lane A i ++ lane B i := by
  simp [lane]

theorem lane_cons (c : Cell K V) (cells : List (Cell K V)) (i : Nat) :
    lane (c :: cells) i = if i < c.height then c.addr :: lane cells i else lane cells i := by
  rw [lane, List.filter_cons]
  by_cases high : i < c.height <;> simp [high, lane]

theorem mem_lane {cells : List (Cell K V)} {a : Addr} :
    a ∈ lane cells i ↔ ∃ c ∈ cells, i < c.height ∧ c.addr = a := by
  simp [lane, and_assoc]

theorem lane_sublist (cells : List (Cell K V)) (i : Nat) :
    (lane cells i).Sublist (cells.map Cell.addr) :=
  List.filter_sublist.map _

theorem lane_succ_sublist (cells : List (Cell K V)) (i : Nat) :
    (lane cells (i + 1)).Sublist (lane cells i) := by
  induction cells with
  | nil => exact List.Sublist.slnil
  | cons c cells ih =>
      rw [lane_cons, lane_cons]
      by_cases high : i + 1 < c.height
      · rw [if_pos high, if_pos (Nat.lt_of_succ_lt high)]
        exact ih.cons_cons _
      · rw [if_neg high]
        split
        · exact ih.cons _
        · exact ih

theorem lane_zero {cells : List (Cell K V)} (tall : ∀ c ∈ cells, 0 < c.height) :
    lane cells 0 = cells.map Cell.addr := by
  rw [lane, List.filter_eq_self.mpr fun c member => by simpa using tall c member]

theorem nodup_addr_insert : ((A ++ x :: B).map Cell.addr).Nodup ↔
    x.addr ∉ (A ++ B).map Cell.addr ∧ ((A ++ B).map Cell.addr).Nodup := by
  rw [List.map_append, List.map_cons, List.nodup_middle, List.nodup_cons, List.map_append]

theorem ahead_singleton (c : Cell K V) (i : Nat) (a : Addr) : ahead [c] i a = none := by
  rw [ahead, lane_cons]
  split
  · show after [c.addr] a = none
    rw [after]
    split <;> rfl
  · rfl

theorem behind_singleton (c : Cell K V) (a : Addr) : behind [c] a = none := by
  show after [c.addr] a = none
  rw [after]
  split <;> rfl

theorem Depicts.setValue {mem : Memory K V} {next : Nat → Addr → Option Addr}
    {prev : Addr → Option Addr} (depicts : Depicts mem (A ++ x :: B) next prev)
    (distinct : ((A ++ x :: B).map Cell.addr).Nodup) (value : V) :
    ∃ mem', mem.setValue x.addr value = .ok mem' ∧ Confined mem mem' ∧
      Depicts mem' (A ++ { x with value := value } :: B) next prev := by
  have member : x ∈ A ++ x :: B := by simp
  have unused := (nodup_addr_insert.mp distinct).1
  refine ⟨_, ?_, depicts.confined_store member
    (some (Cell.node { x with value := value } next prev)), ?_⟩
  · rw [Memory.setValue, depicts.deref member]
    rfl
  · intro c inside
    have parts : c = { x with value := value } ∨ c ∈ A ++ B := by
      simp only [List.mem_append, List.mem_cons] at inside ⊢
      tauto
    rw [Memory.store]
    rcases parts with rfl | old
    · rw [if_pos rfl]
    · have other : c.addr ≠ x.addr := fun same => unused (same ▸ List.mem_map_of_mem old)
      rw [if_neg other]
      refine depicts c ?_
      simp only [List.mem_append, List.mem_cons] at old ⊢
      tauto

theorem ahead_zero (tall : ∀ c ∈ A ++ x :: B, 0 < c.height)
    (distinct : ((A ++ x :: B).map Cell.addr).Nodup) :
    ahead (A ++ x :: B) 0 x.addr = (B.map Cell.addr).head? := by
  have first : x.addr ∉ A.map Cell.addr := by
    intro member
    rw [nodup_addr_insert, List.map_append, List.mem_append, not_or] at distinct
    exact distinct.1.1 member
  rw [ahead, lane_zero tall, List.map_append, List.map_cons, after_middle first]

theorem ahead_insert {u : Addr} (high : i < x.height) (edge : (lane A i).getLast? = some u)
    (distinct : ((A ++ x :: B).map Cell.addr).Nodup) (a : Addr) :
    ahead (A ++ x :: B) i a =
      if a = x.addr then ahead (A ++ B) i u
      else if a = u then some x.addr
      else ahead (A ++ B) i a := by
  obtain ⟨P, listed⟩ := List.getLast?_eq_some_iff.mp edge
  have whole : lane (A ++ x :: B) i = P ++ u :: x.addr :: lane B i := by
    rw [lane_append, lane_cons, if_pos high, listed]
    simp
  have without : lane (A ++ B) i = P ++ u :: lane B i := by
    rw [lane_append, listed]
    simp
  have nodup : (P ++ u :: x.addr :: lane B i).Nodup :=
    whole ▸ (lane_sublist (A ++ x :: B) i).nodup distinct
  rw [ahead, whole, after_insert nodup, ahead, ahead, without]

theorem ahead_skip (high : ¬i < x.height) (a : Addr) :
    ahead (A ++ x :: B) i a = ahead (A ++ B) i a := by
  rw [ahead, ahead, lane_append, lane_append, lane_cons, if_neg high]

/-- A node between two parts is behind the first node of the second one, and the last node of the
first part is behind it. -/
theorem behind_insert (distinct : ((A ++ x :: B).map Cell.addr).Nodup) (a : Addr) :
    behind (A ++ x :: B) a =
      if a = x.addr then (A.getLast?).map Cell.addr
      else if (B.head?).map Cell.addr = some a then some x.addr
      else behind (A ++ B) a := by
  have last : (A.map Cell.addr).reverse.head? = (A.getLast?).map Cell.addr := by
    rw [List.head?_reverse, List.getLast?_map]
  cases B with
  | nil =>
      have whole : ((A ++ [x]).map Cell.addr).reverse = x.addr :: (A.map Cell.addr).reverse := by
        simp
      rw [behind, whole, behind, List.append_nil, after]
      by_cases new : x.addr = a
      · rw [if_pos new, if_pos new.symm, last]
      · rw [if_neg new, if_neg (Ne.symm new)]
        simp
  | cons q B =>
      have whole : ((A ++ x :: q :: B).map Cell.addr).reverse =
          (B.map Cell.addr).reverse ++ q.addr :: x.addr :: (A.map Cell.addr).reverse := by
        simp
      have without : ((A ++ q :: B).map Cell.addr).reverse =
          (B.map Cell.addr).reverse ++ q.addr :: (A.map Cell.addr).reverse := by
        simp
      have nodup : ((B.map Cell.addr).reverse ++ q.addr :: x.addr ::
          (A.map Cell.addr).reverse).Nodup := whole ▸ List.nodup_reverse.mpr distinct
      have first : q.addr ∉ (B.map Cell.addr).reverse := (neighbours_once nodup).1
      rw [behind, whole, after_insert nodup, after_middle first, last, behind, without]
      by_cases here : q.addr = a
      · simp [here]
      · simp [here, Ne.symm here]

end

end Zumic.Database
