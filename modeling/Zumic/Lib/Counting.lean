/- Counting: in a window of the indices, and over the whole blocks of a list with what is left.
Vectors of 256 bits, with the operations on their lanes as the processor documents them. -/

import Mathlib.Algebra.BigOperators.Group.List.Basic
import Mathlib.Algebra.GroupWithZero.Nat
import Mathlib.Data.Nat.Count

namespace Zumic.Lib.Counting

theorem sum_set {xs : List Nat} {i x : Nat} (read : xs[i]? = some x) (y : Nat) :
    (xs.set i y).sum + x = xs.sum + y := by
  obtain ⟨inside, rfl⟩ := List.getElem?_eq_some_iff.mp read
  have old := List.sum_set xs i xs[i]
  rw [List.set_getElem_self, if_pos inside] at old
  rw [List.sum_set, if_pos inside, old]
  omega

theorem length_le_sum {places : List Nat} (distinct : places.Nodup) {xs : List Nat}
    (positive : ∀ i ∈ places, ∃ x, xs[i]? = some x ∧ 0 < x) : places.length ≤ xs.sum := by
  induction places generalizing xs with
  | nil => exact Nat.zero_le _
  | cons i places ih =>
      obtain ⟨apart, distinct⟩ := List.nodup_cons.mp distinct
      obtain ⟨x, read, here⟩ := positive i List.mem_cons_self
      have rest := @ih distinct (xs.set i 0) fun j member => by
        obtain ⟨y, read', there⟩ := positive j (List.mem_cons_of_mem _ member)
        refine ⟨y, ?_, there⟩
        have other : i ≠ j := fun same => apart (same ▸ member)
        rw [List.getElem?_set_ne other]
        exact read'
      have sum := sum_set read 0
      rw [List.length_cons]
      omega

section

variable (p : Nat → Prop) [DecidablePred p]

theorem count_window (lo hi n : Nat) :
    Nat.count (fun i => lo ≤ i ∧ i < hi ∧ p i) n + Nat.count p (min lo (min hi n)) =
      Nat.count p (min hi n) := by
  induction n with
  | zero => simp
  | succ n ih =>
      rw [Nat.count_succ]
      by_cases below : n < hi
      · have shorter : min hi n = n := by omega
        have longer : min hi (n + 1) = n + 1 := by omega
        rw [shorter] at ih
        rw [longer]
        by_cases inside : lo ≤ n
        · have same : min lo (n + 1) = min lo n := by omega
          rw [same, Nat.count_succ, ← ih]
          simp only [inside, below, true_and]
          omega
        · have all : min lo (n + 1) = n + 1 := by omega
          have none : min lo n = n := by omega
          rw [none] at ih
          rw [all]
          simp only [inside, false_and, if_false]
          omega
      · have same : min hi (n + 1) = min hi n := by omega
        rw [same, ← ih]
        simp only [below, false_and, and_false, if_false]
        omega

end

section

variable {α : Type}

/-- The loop over the whole blocks of `n` elements; it hands on the elements that are left. -/
def blocks (n : Nat) (f : List α → Nat) (count : Nat) (rest : List α) : Nat × List α :=
  if 0 < n ∧ n ≤ rest.length then blocks n f (count + f (rest.take n)) (rest.drop n)
  else (count, rest)
termination_by rest.length
decreasing_by
  rw [List.length_drop]
  omega

/-- The sum of the weights of all elements. -/
def total (weight : α → Nat) (l : List α) : Nat := (l.map weight).sum

variable {weight : α → Nat}

theorem total_append (a b : List α) : total weight (a ++ b) = total weight a + total weight b := by
  unfold total
  rw [List.map_append, List.sum_append]

theorem total_eq_range (l : List α) (d : α) :
    total weight l = ((List.range l.length).map fun i => weight (l.getD i d)).sum := by
  unfold total
  congr 1
  apply List.ext_getElem
  · simp
  · intro i short long
    have inside : i < l.length := by simpa using short
    simp [List.getD_eq_getElem?_getD, inside]

theorem blocks_total {n : Nat} {f : List α → Nat}
    (exact : ∀ block, block.length = n → f block = total weight block) (count : Nat)
    (rest : List α) :
    (blocks n f count rest).1 + total weight (blocks n f count rest).2 =
      count + total weight rest := by
  fun_induction blocks n f count rest with
  | case1 count rest whole ih =>
      have block : (rest.take n).length = n := by
        rw [List.length_take]
        omega
      rw [ih, exact _ block, Nat.add_assoc, ← total_append, List.take_append_drop]
  | case2 count rest => rfl

end

end Zumic.Lib.Counting

namespace Zumic.Lib.Avx2

/-- A register as 32 lanes of a byte each, the lowest first. -/
abbrev M256 := Fin 32 → UInt8

def loadu (bytes : List UInt8) : M256 := fun i => bytes.getD i 0

def set1Epi8 (x : UInt8) : M256 := fun _ => x

def andSi256 (a b : M256) : M256 := fun i => a i &&& b i

def addEpi8 (a b : M256) : M256 := fun i => a i + b i

/-- The two bytes of a lane of 16 bits. -/
def pair (a : M256) (k : Nat) : Nat :=
  (a (Fin.ofNat 32 (2 * k))).toNat + 2 ^ 8 * (a (Fin.ofNat 32 (2 * k + 1))).toNat

/-- Shifts each lane of 16 bits to the right and fills up with zeros. -/
def srliEpi16 (a : M256) (n : Nat) : M256 := fun i =>
  UInt8.ofNat (pair a (i.val / 2) / 2 ^ n / 2 ^ (8 * (i.val % 2)))

/-- Reads the table, each half of 128 bits its own one; an index with its highest bit set gives
zero. -/
def shuffleEpi8 (table index : M256) : M256 := fun i =>
  if index i &&& 0x80 != 0 then 0
  else table (Fin.ofNat 32 (16 * (i.val / 16) + (index i &&& 0x0F).toNat))

def absDiff (x y : UInt8) : Nat := max x.toNat y.toNat - min x.toNat y.toNat

/-- The sums of the absolute differences, eight lanes each, in four lanes of 64 bits. -/
def sadEpu8 (a b : M256) (k : Nat) : Nat :=
  ((List.range 8).map fun j =>
    absDiff (a (Fin.ofNat 32 (8 * k + j))) (b (Fin.ofNat 32 (8 * k + j)))).sum

theorem and_low (x : UInt8) : (x &&& 0x0F).toNat = x.toNat % 16 := by
  rw [UInt8.toNat_and]
  exact Nat.and_two_pow_sub_one_eq_mod x.toNat 4

theorem shuffle_low (table a : M256) (i : Fin 32) :
    shuffleEpi8 table (andSi256 a (set1Epi8 0x0F)) i =
      table (Fin.ofNat 32 (16 * (i.val / 16) + (a i &&& 0x0F).toNat)) := by
  have clear : a i &&& 0x0F &&& 0x80 = 0 := by
    rw [UInt8.and_assoc]
    exact UInt8.and_zero
  have same : a i &&& 0x0F &&& 0x0F = a i &&& 0x0F := by
    rw [UInt8.and_assoc, UInt8.and_self]
  unfold shuffleEpi8 andSi256 set1Epi8
  rw [clear, same]
  rfl

/-- Of a byte that is shifted with its neighbour, the low half is the high half of what it was. -/
theorem high_half (a : M256) (i : Fin 32) :
    (srliEpi16 a 4 i &&& 0x0F).toNat = (a i).toNat / 16 := by
  have low := (a (Fin.ofNat 32 (2 * (i.val / 2)))).toNat_lt
  have high := (a (Fin.ofNat 32 (2 * (i.val / 2) + 1))).toNat_lt
  rw [and_low]
  unfold srliEpi16 pair
  rw [UInt8.toNat_ofNat']
  rcases Nat.mod_two_eq_zero_or_one i.val with even | odd
  · have here : Fin.ofNat 32 (2 * (i.val / 2)) = i := by
      apply Fin.ext
      rw [Fin.val_ofNat]
      omega
    rw [even]
    rw [here] at low ⊢
    omega
  · have here : Fin.ofNat 32 (2 * (i.val / 2) + 1) = i := by
      apply Fin.ext
      rw [Fin.val_ofNat]
      omega
    rw [odd]
    rw [here] at high ⊢
    omega

@[simp] theorem absDiff_zero (x : UInt8) : absDiff x 0 = x.toNat := by
  unfold absDiff
  rw [UInt8.toNat_zero, Nat.max_zero, Nat.min_zero, Nat.sub_zero]

theorem sad_zero (a : M256) :
    sadEpu8 a (set1Epi8 0) 0 + sadEpu8 a (set1Epi8 0) 1 + sadEpu8 a (set1Epi8 0) 2 +
      sadEpu8 a (set1Epi8 0) 3 = ((List.range 32).map fun i => (a (Fin.ofNat 32 i)).toNat).sum := by
  unfold sadEpu8 set1Epi8
  simp only [absDiff_zero, List.range, List.range.loop, List.map_cons, List.map_nil, List.sum_cons,
    List.sum_nil, Nat.mul_zero, Nat.zero_add, Nat.add_zero, Nat.mul_one, Nat.reduceMul,
    Nat.reduceAdd, Nat.add_assoc]

end Zumic.Lib.Avx2
