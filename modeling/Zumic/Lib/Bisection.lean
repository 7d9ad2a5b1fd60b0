/- A segment that is halved again and again: where its slots begin, and the slot of a value. A value
beyond the segment falls into the slot at that end. -/

import Mathlib.Tactic.Linarith
import Mathlib.Tactic.FieldSimp
import Mathlib.Tactic.Ring

namespace Zumic.Lib.Bisection

variable {α : Type} [Field α] [LinearOrder α] [IsStrictOrderedRing α] (low high : α)

/-- Where slot `m` begins after `k` halvings. -/
def edge (k m : Nat) : α := low + (high - low) * m / 2 ^ k

/-- The slot that a value falls into after `k` halvings. -/
def slot (v : α) : Nat → Nat
  | 0 => 0
  | k + 1 => 2 * slot v k + (decide (edge low high (k + 1) (2 * slot v k + 1) ≤ v)).toNat

variable {low high}

omit [LinearOrder α] [IsStrictOrderedRing α] in
theorem edge_zero (k : Nat) : edge low high k 0 = low := by
  simp [edge]

theorem edge_last (k : Nat) : edge low high k (2 ^ k) = high := by
  have positive : (0 : α) < 2 ^ k := by positivity
  unfold edge
  push_cast
  field_simp
  ring

theorem edge_double (k m : Nat) : edge low high (k + 1) (2 * m) = edge low high k m := by
  have positive : (0 : α) < 2 ^ k := by positivity
  unfold edge
  push_cast
  rw [pow_succ]
  field_simp

theorem edge_middle (k m : Nat) : (edge low high k m + edge low high k (m + 1)) * (1 / 2) =
    edge low high (k + 1) (2 * m + 1) := by
  have positive : (0 : α) < 2 ^ k := by positivity
  unfold edge
  push_cast
  rw [pow_succ]
  field_simp
  ring

theorem edge_le_edge (proper : low < high) (k : Nat) {m m' : Nat} :
    edge low high k m ≤ edge low high k m' ↔ m ≤ m' := by
  have width : 0 < (high - low) / 2 ^ k := div_pos (sub_pos.mpr proper) (by positivity)
  have spread : ∀ n : Nat, edge low high k n = low + (high - low) / 2 ^ k * n := by
    intro n
    unfold edge
    ring
  rw [spread, spread, add_le_add_iff_left, mul_le_mul_iff_right₀ width, Nat.cast_le]

theorem edge_lt_edge (proper : low < high) (k : Nat) {m m' : Nat} :
    edge low high k m < edge low high k m' ↔ m < m' := by
  rw [← not_le, edge_le_edge proper, not_le]

theorem edge_eq_edge (proper : low < high) (k : Nat) {m m' : Nat} :
    edge low high k m = edge low high k m' ↔ m = m' := by
  rw [le_antisymm_iff, edge_le_edge proper, edge_le_edge proper, le_antisymm_iff]

theorem edge_eq_low (proper : low < high) (k m : Nat) : edge low high k m = low ↔ m = 0 := by
  have first := @edge_eq_edge _ _ _ _ low high proper k m 0
  rwa [edge_zero] at first

theorem edge_eq_high (proper : low < high) (k m : Nat) :
    edge low high k m = high ↔ m = 2 ^ k := by
  have last := @edge_eq_edge _ _ _ _ low high proper k m (2 ^ k)
  rwa [edge_last] at last

theorem edge_half (proper : low < high) (k m : Nat) (upper : Bool) :
    edge low high k m ≤ edge low high (k + 1) (2 * m + upper.toNat) ∧
      edge low high (k + 1) (2 * m + upper.toNat + 1) ≤ edge low high k (m + 1) := by
  have bit : upper.toNat ≤ 1 := upper.toNat_le
  rw [← edge_double k m, ← edge_double k (m + 1), edge_le_edge proper, edge_le_edge proper]
  omega

theorem edge_lt_middle (proper : low < high) (k m : Nat) :
    edge low high k m < edge low high (k + 1) (2 * m + 1) ∧
      edge low high (k + 1) (2 * m + 1) < edge low high k (m + 1) := by
  rw [← edge_double k m, ← edge_double k (m + 1), edge_lt_edge proper, edge_lt_edge proper]
  omega

/-- The value falls into the slot: between its edges, but for those of the segment. -/
structure InSlot (low high : α) (k m : Nat) (v : α) : Prop where
  bound : m < 2 ^ k
  above : m ≠ 0 → edge low high k m ≤ v
  below : m + 1 ≠ 2 ^ k → v < edge low high k (m + 1)

theorem inSlot_slot (v : α) (k : Nat) : InSlot low high k (slot low high v k) v := by
  induction k with
  | zero => exact ⟨Nat.one_pos, fun positive => absurd rfl positive, fun other => absurd rfl other⟩
  | succ k ih =>
      obtain ⟨bound, above, below⟩ := ih
      rw [slot]
      generalize slot low high v k = m at *
      have twice : 2 ^ (k + 1) = 2 * 2 ^ k := by rw [pow_succ, Nat.mul_comm]
      by_cases upper : edge low high (k + 1) (2 * m + 1) ≤ v
      · rw [decide_eq_true upper, Bool.toNat_true]
        refine ⟨by omega, fun _ => upper, fun inside => ?_⟩
        rw [show 2 * m + 1 + 1 = 2 * (m + 1) from rfl, edge_double]
        exact below (by omega)
      · rw [decide_eq_false upper, Bool.toNat_false]
        refine ⟨by omega, fun positive => ?_, fun _ => not_le.mp upper⟩
        change edge low high (k + 1) (2 * m) ≤ v
        rw [edge_double]
        exact above (by omega)

variable {k m m' : Nat} {v v' : α}

theorem InSlot.le (proper : low < high) (here : InSlot low high k m v)
    (there : InSlot low high k m' v') (ordered : v ≤ v') : m ≤ m' := by
  by_contra before
  have last := here.bound
  have start := here.above (by omega)
  have stop := there.below (by omega)
  have between : edge low high k (m' + 1) ≤ edge low high k m :=
    (edge_le_edge proper k).mpr (by omega)
  linarith

theorem InSlot.slot_eq (proper : low < high) (here : InSlot low high k m v) :
    slot low high v k = m := by
  have own : InSlot low high k (slot low high v k) v := inSlot_slot v k
  exact Nat.le_antisymm (own.le proper here le_rfl) (here.le proper own le_rfl)

theorem slot_le_slot (proper : low < high) (ordered : v ≤ v') (k : Nat) :
    slot low high v k ≤ slot low high v' k :=
  (inSlot_slot v k).le proper (inSlot_slot v' k) ordered

theorem edges_slot (k : Nat) (above : low ≤ v) (below : v ≤ high) :
    edge low high k (slot low high v k) ≤ v ∧ v ≤ edge low high k (slot low high v k + 1) := by
  obtain ⟨-, start, stop⟩ := @inSlot_slot _ _ _ _ low high v k
  constructor
  · by_cases first : slot low high v k = 0
    · rw [first, edge_zero]
      exact above
    · exact start first
  · by_cases last : slot low high v k + 1 = 2 ^ k
    · rw [last, edge_last]
      exact below
    · exact le_of_lt (stop last)

theorem slot_of_between (proper : low < high) (bound : m < 2 ^ k) (above : edge low high k m ≤ v)
    (below : v < edge low high k (m + 1)) : slot low high v k = m :=
  InSlot.slot_eq proper ⟨bound, fun _ => above, fun _ => below⟩

theorem slot_of_beyond (proper : low < high) (last : m + 1 = 2 ^ k)
    (beyond : edge low high k m ≤ v) : slot low high v k = m :=
  InSlot.slot_eq proper ⟨by omega, fun _ => beyond, fun other => absurd last other⟩

theorem slot_of_before (proper : low < high) (before : v < edge low high k 1) :
    slot low high v k = 0 :=
  InSlot.slot_eq proper ⟨Nat.two_pow_pos k, fun first => absurd rfl first, fun _ => before⟩

theorem slot_middle (proper : low < high) (bound : m < 2 ^ k) :
    slot low high ((edge low high k m + edge low high k (m + 1)) * (1 / 2)) k = m := by
  rw [edge_middle]
  have inside := edge_lt_middle proper k m
  exact slot_of_between proper bound inside.1.le inside.2

theorem edge_step (k m m' : Nat) : edge low high k (m + 1) - edge low high k m =
    edge low high k (m' + 1) - edge low high k m' := by
  unfold edge
  push_cast
  ring

theorem slot_above (proper : low < high) (bound : m < 2 ^ k) :
    slot low high ((edge low high k m + edge low high k (m + 1)) * (1 / 2) +
      (edge low high k (m + 1) - edge low high k m)) k = min (m + 1) (2 ^ k - 1) := by
  have width := (edge_lt_edge proper k).mpr (Nat.lt_succ_self m)
  by_cases last : m + 1 = 2 ^ k
  · rw [Nat.min_eq_right (by omega)]
    have same : 2 ^ k - 1 = m := by omega
    rw [same]
    refine slot_of_beyond proper last ?_
    linarith
  · rw [Nat.min_eq_left (by omega)]
    have next := @edge_step α _ _ _ low high k m (m + 1)
    refine slot_of_between proper (by omega) ?_ ?_ <;> linarith

theorem slot_below (proper : low < high) (bound : m < 2 ^ k) :
    slot low high ((edge low high k m + edge low high k (m + 1)) * (1 / 2) -
      (edge low high k (m + 1) - edge low high k m)) k = m - 1 := by
  have width := (edge_lt_edge proper k).mpr (Nat.lt_succ_self m)
  cases m with
  | zero =>
      refine slot_of_before proper ?_
      linarith
  | succ m =>
      have next := @edge_step α _ _ _ low high k m (m + 1)
      rw [Nat.add_sub_cancel]
      refine slot_of_between proper (by omega) ?_ ?_ <;> linarith

end Zumic.Lib.Bisection
