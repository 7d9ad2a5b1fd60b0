/- Fields of a few bits packed into bytes, read and written through two neighbouring bytes. -/

import Mathlib.Tactic.Ring
import Mathlib.Data.List.GetD

namespace Zumic.Lib.BitFields

/-- The bits of a list of bytes, the lowest of the first byte first. -/
def bitAt (data : List UInt8) (k : Nat) : Bool :=
  (data.getD (k / 8) 0).toBitVec.getLsbD (k % 8)

/-- Two neighbouring bytes as one word; nothing stands beyond the end. -/
def window (data : List UInt8) (j : Nat) : BitVec 16 :=
  (data.getD j 0).toBitVec.setWidth 16 ||| ((data.getD (j + 1) 0).toBitVec.setWidth 16 <<< 8)

/-- Writes a word back; what would stand beyond the end is lost. -/
def store (data : List UInt8) (j : Nat) (word : BitVec 16) : List UInt8 :=
  (data.set j (UInt8.ofBitVec (word.setWidth 8))).set (j + 1)
    (UInt8.ofBitVec ((word >>> 8).setWidth 8))

def mask (w : Nat) : BitVec 16 := BitVec.ofNat 16 (2 ^ w - 1)

/-- A field of `w` bits at an offset of a word. -/
def readField (w offset : Nat) (word : BitVec 16) : BitVec 16 := (word >>> offset) &&& mask w

def writeField (w offset : Nat) (word value : BitVec 16) : BitVec 16 :=
  (word &&& ~~~(mask w <<< offset)) ||| ((value &&& mask w) <<< offset)

/-- The field of a number among fields of `w` bits. -/
def getField (w : Nat) (data : List UInt8) (i : Nat) : BitVec 16 :=
  readField w (i * w % 8) (window data (i * w / 8))

def setField (w : Nat) (data : List UInt8) (i : Nat) (value : BitVec 16) : List UInt8 :=
  store data (i * w / 8) (writeField w (i * w % 8) (window data (i * w / 8)) value)

@[simp] theorem length_store (data : List UInt8) (j : Nat) (word : BitVec 16) :
    (store data j word).length = data.length := by
  simp [store]

@[simp] theorem length_setField (w : Nat) (data : List UInt8) (i : Nat) (value : BitVec 16) :
    (setField w data i value).length = data.length := length_store data _ _

theorem getLsbD_mask {w n : Nat} (inside : n < 16) : (mask w).getLsbD n = decide (n < w) := by
  unfold mask
  rw [BitVec.getLsbD_ofNat, Nat.testBit_two_pow_sub_one]
  simp [inside]

theorem bitAt_beyond {data : List UInt8} {k : Nat} (beyond : 8 * data.length ≤ k) :
    bitAt data k = false := by
  have out : data.length ≤ k / 8 := by omega
  unfold bitAt
  rw [List.getD_eq_default _ _ out]
  simp

theorem getLsbD_window (data : List UInt8) (j : Nat) {n : Nat} (inside : n < 16) :
    (window data j).getLsbD n = bitAt data (8 * j + n) := by
  unfold window bitAt
  rw [BitVec.getLsbD_or, BitVec.getLsbD_shiftLeft, BitVec.getLsbD_setWidth, BitVec.getLsbD_setWidth]
  by_cases low : n < 8
  · have byte : (8 * j + n) / 8 = j := by omega
    have bit : (8 * j + n) % 8 = n := by omega
    simp [byte, bit, inside, low]
  · have byte : (8 * j + n) / 8 = j + 1 := by omega
    have bit : (8 * j + n) % 8 = n - 8 := by omega
    have none : (data.getD j 0).toBitVec.getLsbD n = false :=
      BitVec.getLsbD_of_ge _ _ (by omega)
    have small : n - 8 < 16 := by omega
    rw [byte, bit, none]
    simp [inside, low, small]

theorem bitAt_store (data : List UInt8) (j : Nat) (word : BitVec 16) (k : Nat) :
    bitAt (store data j word) k =
      if 8 * j ≤ k ∧ k < 8 * j + 16 ∧ k < 8 * data.length then word.getLsbD (k - 8 * j)
      else bitAt data k := by
  have kept : (store data j word).length = data.length := length_store data j word
  by_cases exist : k < 8 * data.length
  · have byte : k / 8 < data.length := by omega
    unfold bitAt
    rw [List.getD_eq_getElem _ _ (by rw [kept]; exact byte), List.getD_eq_getElem _ _ byte]
    unfold store
    rw [List.getElem_set, List.getElem_set]
    by_cases second : j + 1 = k / 8
    · have bit : k % 8 + 8 = k - 8 * j := by omega
      rw [if_pos second, if_pos (by omega), ← bit]
      simp [BitVec.getLsbD_ushiftRight, Nat.mod_lt, Nat.add_comm]
    · rw [if_neg second]
      by_cases first : j = k / 8
      · have bit : k % 8 = k - 8 * j := by omega
        rw [if_pos first, if_pos (by omega), ← bit]
        simp [Nat.mod_lt]
      · rw [if_neg first, if_neg (by omega)]
  · rw [if_neg (fun inside => exist inside.2.2), bitAt_beyond (by rw [kept]; omega),
      bitAt_beyond (by omega)]

theorem getLsbD_readField {w offset n : Nat} (word : BitVec 16) (inside : n < 16) :
    (readField w offset word).getLsbD n = (decide (n < w) && word.getLsbD (offset + n)) := by
  unfold readField
  rw [BitVec.getLsbD_and, BitVec.getLsbD_ushiftRight, getLsbD_mask inside, Bool.and_comm]

theorem getLsbD_writeField {w offset n : Nat} (word value : BitVec 16) (inside : n < 16) :
    (writeField w offset word value).getLsbD n =
      if offset ≤ n ∧ n < offset + w then value.getLsbD (n - offset) else word.getLsbD n := by
  have small : n - offset < 16 := by omega
  unfold writeField
  rw [BitVec.getLsbD_or, BitVec.getLsbD_and, BitVec.getLsbD_not, BitVec.getLsbD_shiftLeft,
    BitVec.getLsbD_shiftLeft, BitVec.getLsbD_and, getLsbD_mask small]
  by_cases below : n < offset
  · rw [if_neg (by omega)]
    simp [inside, below]
  · by_cases above : n - offset < w
    · rw [if_pos (by omega)]
      simp [inside, below, above]
    · rw [if_neg (by omega)]
      simp [inside, below, above]

section

variable {w : Nat} {data : List UInt8} {i : Nat}

theorem getLsbD_getField (narrow : w ≤ 8) {n : Nat} (inside : n < 16) :
    (getField w data i).getLsbD n = (decide (n < w) && bitAt data (i * w + n)) := by
  unfold getField
  rw [getLsbD_readField _ inside]
  by_cases short : n < w
  · rw [getLsbD_window data _ (by omega)]
    have place : 8 * (i * w / 8) + (i * w % 8 + n) = i * w + n := by omega
    rw [place]
  · simp [short]

theorem bitAt_setField (narrow : w ≤ 8) (positive : 0 < w) (room : i * w + w ≤ 8 * data.length)
    (value : BitVec 16) (k : Nat) : bitAt (setField w data i value) k =
      if i * w ≤ k ∧ k < i * w + w then value.getLsbD (k - i * w) else bitAt data k := by
  unfold setField
  rw [bitAt_store]
  by_cases touched : 8 * (i * w / 8) ≤ k ∧ k < 8 * (i * w / 8) + 16 ∧ k < 8 * data.length
  · rw [if_pos touched, getLsbD_writeField _ _ (by omega), getLsbD_window data _ (by omega)]
    have place : 8 * (i * w / 8) + (k - 8 * (i * w / 8)) = k := by omega
    have offset : k - 8 * (i * w / 8) - i * w % 8 = k - i * w := by omega
    rw [place, offset]
    by_cases own : i * w ≤ k ∧ k < i * w + w
    · rw [if_pos own, if_pos (by omega)]
    · rw [if_neg own, if_neg (by omega)]
  · rw [if_neg touched, if_neg (by omega)]

theorem getField_setField (narrow : w ≤ 8) (positive : 0 < w)
    (room : i * w + w ≤ 8 * data.length) (value : BitVec 16) :
    getField w (setField w data i value) i = value &&& mask w := by
  apply BitVec.eq_of_getLsbD_eq
  intro n inside
  rw [getLsbD_getField narrow inside, bitAt_setField narrow positive room, BitVec.getLsbD_and,
    getLsbD_mask inside]
  by_cases short : n < w
  · rw [if_pos (by omega)]
    have offset : i * w + n - i * w = n := by omega
    simp [short, offset]
  · simp [short]

theorem getField_setField_of_ne (narrow : w ≤ 8) (positive : 0 < w)
    (room : i * w + w ≤ 8 * data.length) (value : BitVec 16) {i' : Nat} (other : i' ≠ i) :
    getField w (setField w data i value) i' = getField w data i' := by
  apply BitVec.eq_of_getLsbD_eq
  intro n inside
  rw [getLsbD_getField narrow inside, getLsbD_getField narrow inside,
    bitAt_setField narrow positive room]
  by_cases short : n < w
  · have apart : ¬ (i * w ≤ i' * w + n ∧ i' * w + n < i * w + w) := by
      rintro ⟨above, below⟩
      rcases Nat.lt_or_gt_of_ne other with less | greater
      · have gap : (i' + 1) * w ≤ i * w := Nat.mul_le_mul_right w less
        rw [Nat.add_mul, Nat.one_mul] at gap
        omega
      · have gap : (i + 1) * w ≤ i' * w := Nat.mul_le_mul_right w greater
        rw [Nat.add_mul, Nat.one_mul] at gap
        omega
    rw [if_neg apart]
  · simp [short]

end

end Zumic.Lib.BitFields
