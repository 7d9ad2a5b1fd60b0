/- Byte strings: text literals and big-endian machine words. -/

import Mathlib.Data.List.Basic
import Mathlib.Tactic.Ring

namespace Zumic.Lib.ByteString

abbrev Bytes := List UInt8

instance lawfulBEq_bytes : LawfulBEq Bytes := inferInstance

/-- The bytes of a text literal. -/
def bytesOf (s : String) : Bytes := s.toByteArray.data.toList

/-- The `w` big-endian bytes of `n`, the high bits beyond them cut off. -/
def beBytes : Nat → Nat → Bytes
  | 0, _ => []
  | w + 1, n => UInt8.ofNat (n / 256 ^ w) :: beBytes w n

/-- The number a byte string denotes in big-endian order. -/
def beNat (b : Bytes) : Nat := b.foldl (fun acc x => acc * 256 + x.toNat) 0

@[simp] theorem length_beBytes (w n : Nat) : (beBytes w n).length = w := by
  induction w with
  | zero => rfl
  | succ w ih => simp [beBytes, ih]

theorem foldl_beBytes (w n acc : Nat) :
    (beBytes w n).foldl (fun acc x => acc * 256 + x.toNat) acc =
      acc * 256 ^ w + n % 256 ^ w := by
  induction w generalizing acc with
  | zero => simp [beBytes, Nat.mod_one]
  | succ w ih =>
      simp only [beBytes, List.foldl_cons]
      rw [ih]
      have high : (UInt8.ofNat (n / 256 ^ w)).toNat = n / 256 ^ w % 256 := by simp
      have split : n % 256 ^ (w + 1) = n / 256 ^ w % 256 * 256 ^ w + n % 256 ^ w := by
        rw [Nat.pow_succ, Nat.mod_mul]
        ring
      rw [high, split]
      ring

theorem beNat_beBytes (w n : Nat) : beNat (beBytes w n) = n % 256 ^ w := by
  simpa [beNat] using foldl_beBytes w n 0

theorem beNat_beBytes_of_lt {w n : Nat} (fits : n < 256 ^ w) : beNat (beBytes w n) = n := by
  rw [beNat_beBytes, Nat.mod_eq_of_lt fits]

theorem foldl_beNat (b : Bytes) (acc : Nat) :
    b.foldl (fun acc x => acc * 256 + x.toNat) acc = acc * 256 ^ b.length + beNat b := by
  induction b generalizing acc with
  | nil => simp [beNat]
  | cons x b ih =>
      rw [beNat, List.foldl_cons, List.foldl_cons, ih, ih, List.length_cons, Nat.pow_succ]
      ring

theorem beNat_cons (x : UInt8) (b : Bytes) :
    beNat (x :: b) = x.toNat * 256 ^ b.length + beNat b := by
  rw [beNat, List.foldl_cons, foldl_beNat, Nat.zero_mul, Nat.zero_add]

theorem beNat_lt (b : Bytes) : beNat b < 256 ^ b.length := by
  induction b with
  | nil => exact Nat.one_pos
  | cons x b ih =>
      have digit : x.toNat + 1 ≤ 256 := UInt8.toNat_lt x
      calc beNat (x :: b) = x.toNat * 256 ^ b.length + beNat b := beNat_cons x b
        _ < x.toNat * 256 ^ b.length + 256 ^ b.length := Nat.add_lt_add_left ih _
        _ = (x.toNat + 1) * 256 ^ b.length := by ring
        _ ≤ 256 * 256 ^ b.length := Nat.mul_le_mul_right _ digit
        _ = 256 ^ (x :: b).length := by rw [List.length_cons, Nat.pow_succ, Nat.mul_comm]

theorem beBytes_add (w a n : Nat) : beBytes w (a * 256 ^ w + n) = beBytes w n := by
  induction w generalizing a with
  | zero => rfl
  | succ w ih =>
      have shape : a * 256 ^ (w + 1) + n = n + 256 ^ w * (a * 256) := by
        rw [Nat.pow_succ]
        ring
      have high : UInt8.ofNat ((n + 256 ^ w * (a * 256)) / 256 ^ w) = UInt8.ofNat (n / 256 ^ w) := by
        rw [Nat.add_mul_div_left _ _ (Nat.pow_pos (by omega))]
        apply UInt8.toNat_inj.mp
        simp
      rw [beBytes, beBytes, shape, high]
      have tail := ih (a * 256)
      rw [Nat.add_comm, Nat.mul_comm] at tail
      rw [tail]

theorem beBytes_beNat (b : Bytes) : beBytes b.length (beNat b) = b := by
  induction b with
  | nil => rfl
  | cons x b ih =>
      have low := beNat_lt b
      have high : UInt8.ofNat ((x.toNat * 256 ^ b.length + beNat b) / 256 ^ b.length) = x := by
        rw [Nat.mul_comm, Nat.mul_add_div (Nat.pow_pos (by omega)), Nat.div_eq_of_lt low,
          Nat.add_zero, UInt8.ofNat_toNat]
      rw [List.length_cons, beBytes, beNat_cons, high, beBytes_add, ih]

theorem length_le_flatMap {β γ : Type} (encode : β → List γ) {l : List β}
    (some' : ∀ x ∈ l, encode x ≠ []) : l.length ≤ (l.flatMap encode).length := by
  induction l with
  | nil => exact Nat.le_refl 0
  | cons x l ih =>
      have head := List.length_pos_iff.mpr (some' x (by simp))
      have tail := ih fun y member => some' y (List.mem_cons_of_mem _ member)
      rw [List.flatMap_cons, List.length_append, List.length_cons]
      omega

theorem length_le_of_mem_flatMap {β γ : Type} (encode : β → List γ) {l : List β} {x : β}
    (member : x ∈ l) : (encode x).length ≤ (l.flatMap encode).length :=
  (List.sublist_flatten_of_mem (List.mem_map_of_mem member)).length_le

end Zumic.Lib.ByteString
