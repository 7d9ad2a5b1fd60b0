/- Checksums: the CRC-32 of the ISO standard, a byte at a time (what `crc32fast` computes), and
those of 16 bits that take the highest bit first, bit by bit and by a table. -/

import Mathlib.Data.Nat.Bitwise
import Zumic.Lib.ByteString

namespace Zumic.Lib.Crc

open Lib.ByteString

def polynomial : UInt32 := 0xEDB88320

def initial : UInt32 := 0xFFFFFFFF

def shiftBit (crc : UInt32) : UInt32 :=
  if crc &&& 1 ≠ 0 then (crc >>> 1) ^^^ polynomial else crc >>> 1

def step (crc : UInt32) (byte : UInt8) : UInt32 := Nat.iterate shiftBit 8 (crc ^^^ byte.toUInt32)

/-- The register after more bytes. -/
def update (crc : UInt32) (data : Bytes) : UInt32 := data.foldl step crc

def finalize (crc : UInt32) : UInt32 := crc ^^^ 0xFFFFFFFF

def checksum (data : Bytes) : UInt32 := finalize (update initial data)

theorem update_append (crc : UInt32) (a b : Bytes) :
    update crc (a ++ b) = update (update crc a) b := List.foldl_append

theorem odd_iff (c : UInt32) : c &&& 1 ≠ 0 ↔ c.toNat.testBit 0 = true := by
  have masked : (c &&& 1).toNat = c.toNat % 2 := by
    rw [UInt32.toNat_and]
    exact Nat.and_one_is_mod c.toNat
  rw [Nat.testBit_zero, decide_eq_true_eq, ← masked, ne_eq, ← UInt32.toNat_inj]
  have small := masked ▸ Nat.mod_lt c.toNat (show 2 > 0 by omega)
  simp only [UInt32.toNat_zero]
  omega

/-- The bits after a shift: those above, changed where the polynomial has a bit if a bit was
shifted out. -/
theorem testBit_shiftBit (c : UInt32) (i : Nat) : (shiftBit c).toNat.testBit i =
    (c.toNat.testBit (i + 1) ^^ (c.toNat.testBit 0 && polynomial.toNat.testBit i)) := by
  have moved : (c >>> 1).toNat.testBit i = c.toNat.testBit (i + 1) := by
    rw [UInt32.toNat_shiftRight]
    exact (Nat.testBit_shiftRight c.toNat).trans (congrArg _ (Nat.add_comm 1 i))
  unfold shiftBit
  by_cases odd : c &&& 1 ≠ 0
  · rw [if_pos odd, UInt32.toNat_xor, Nat.testBit_xor, moved, (odd_iff c).mp odd, Bool.true_and]
  · have even := mt (odd_iff c).mpr odd
    rw [Bool.not_eq_true] at even
    rw [if_neg odd, moved, even, Bool.false_and, Bool.xor_false]

theorem testBit_shiftBit_top (c : UInt32) :
    (shiftBit c).toNat.testBit 31 = c.toNat.testBit 0 := by
  have top : c.toNat.testBit 32 = false := Nat.testBit_lt_two_pow c.toNat_lt
  have poly : polynomial.toNat.testBit 31 = true := by decide
  rw [testBit_shiftBit, top, poly, Bool.false_xor, Bool.and_true]

theorem shiftBit_injective : Function.Injective shiftBit := by
  intro c d same
  have low : c.toNat.testBit 0 = d.toNat.testBit 0 := by
    rw [← testBit_shiftBit_top, ← testBit_shiftBit_top, same]
  have shifted : c >>> 1 = d >>> 1 := by
    unfold shiftBit at same
    by_cases odd : c &&& 1 ≠ 0
    · have odd' : d &&& 1 ≠ 0 := (odd_iff d).mpr (low ▸ (odd_iff c).mp odd)
      rw [if_pos odd, if_pos odd'] at same
      exact (UInt32.xor_left_inj _).mp same
    · have even' : ¬ d &&& 1 ≠ 0 := fun odd' => odd ((odd_iff c).mpr (low ▸ (odd_iff d).mp odd'))
      rwa [if_neg odd, if_neg even'] at same
  have high : c.toNat / 2 = d.toNat / 2 := by
    have halves := congrArg UInt32.toNat shifted
    simpa [UInt32.toNat_shiftRight, Nat.shiftRight_eq_div_pow] using halves
  simp only [Nat.testBit_zero, decide_eq_decide] at low
  apply UInt32.toNat_inj.mp
  omega

theorem step_injective (byte : UInt8) : Function.Injective fun crc => step crc byte := by
  intro c d same
  have shifted := (shiftBit_injective.iterate 8) same
  exact (UInt32.xor_left_inj _).mp shifted

theorem update_injective (data : Bytes) : Function.Injective fun crc => update crc data := by
  induction data with
  | nil => exact fun _ _ same => same
  | cons byte data ih =>
      intro c d same
      exact step_injective byte (ih same)

theorem finalize_injective : Function.Injective finalize :=
  fun _ _ same => (UInt32.xor_left_inj _).mp same

theorem checksum_append_eq_iff (a b : Bytes) :
    checksum (a ++ b) = checksum b ↔ checksum a = 0 := by
  have zero : finalize initial = 0 := by decide
  rw [checksum, checksum, update_append, finalize_injective.eq_iff,
    (update_injective b).eq_iff, checksum, ← zero, finalize_injective.eq_iff]

end Zumic.Lib.Crc

namespace Zumic.Lib.Crc16

open Lib.ByteString

variable (polynomial : UInt16)

/-- The remainder when one more bit is brought down. -/
def shiftBit (crc : UInt16) : UInt16 :=
  if crc &&& 0x8000 ≠ 0 then (crc <<< 1) ^^^ polynomial else crc <<< 1

def step (crc : UInt16) (byte : UInt8) : UInt16 :=
  (shiftBit polynomial)^[8] (crc ^^^ (byte.toUInt16 <<< 8))

def checksum (data : Bytes) : UInt16 := data.foldl (step polynomial) 0

/-- What a byte in the upper half of the register comes to. -/
def tableWord (index : UInt16) : UInt16 := (shiftBit polynomial)^[8] (index <<< 8)

section

theorem top_eq (c : UInt16) : (c &&& 0x8000 ≠ 0) ↔ c.toBitVec.msb = true := by
  have masked : (c &&& 0x8000).toNat = 2 ^ 15 * (c.toNat.testBit 15).toNat := by
    rw [UInt16.toNat_and, show (0x8000 : UInt16).toNat = 2 ^ 15 from rfl, Nat.and_two_pow,
      Nat.mul_comm]
  rw [BitVec.msb_eq_getLsbD_last, ne_eq, ← UInt16.toNat_inj, masked]
  change _ ↔ c.toNat.testBit 15 = true
  cases c.toNat.testBit 15 <;> simp

theorem shiftBit_eq (c : UInt16) : shiftBit polynomial c =
    (c <<< 1) ^^^ (if c.toBitVec.msb then polynomial else 0) := by
  rw [shiftBit]
  by_cases top : c &&& 0x8000 ≠ 0
  · rw [if_pos top, if_pos ((top_eq c).mp top)]
  · rw [if_neg top, if_neg (mt (top_eq c).mpr top), UInt16.xor_zero]

theorem shiftLeft_xor (c d k : UInt16) : (c ^^^ d) <<< k = (c <<< k) ^^^ (d <<< k) := by
  apply UInt16.toBitVec_inj.mp
  simp [BitVec.shiftLeft_xor_distrib]

theorem shiftBit_xor (c d : UInt16) :
    shiftBit polynomial (c ^^^ d) = shiftBit polynomial c ^^^ shiftBit polynomial d := by
  rw [shiftBit_eq, shiftBit_eq, shiftBit_eq, shiftLeft_xor, UInt16.toBitVec_xor, BitVec.msb_xor]
  generalize c <<< 1 = a, d <<< 1 = b
  cases c.toBitVec.msb with
  | false =>
      cases d.toBitVec.msb with
      | false => simp
      | true => simp [UInt16.xor_assoc]
  | true =>
      cases d.toBitVec.msb with
      | false =>
          change a ^^^ b ^^^ polynomial = (a ^^^ polynomial) ^^^ (b ^^^ 0)
          rw [UInt16.xor_zero]
          ac_rfl
      | true =>
          change a ^^^ b ^^^ 0 = (a ^^^ polynomial) ^^^ (b ^^^ polynomial)
          have apart : (a ^^^ polynomial) ^^^ (b ^^^ polynomial) =
              a ^^^ b ^^^ (polynomial ^^^ polynomial) := by ac_rfl
          rw [apart, UInt16.xor_self]

theorem iterate_shiftBit_xor (n : Nat) (c d : UInt16) : (shiftBit polynomial)^[n] (c ^^^ d) =
    (shiftBit polynomial)^[n] c ^^^ (shiftBit polynomial)^[n] d := by
  induction n generalizing c d with
  | zero => rfl
  | succ n ih => rw [Function.iterate_succ_apply, shiftBit_xor, ih]; rfl

/-- The lower half of the register comes up before any of its bits is divided. -/
theorem iterate_shiftBit_low {c : UInt16} (low : c.toNat < 256) {n : Nat} (few : n ≤ 8) :
    ((shiftBit polynomial)^[n] c).toNat = c.toNat * 2 ^ n := by
  induction n with
  | zero => simp
  | succ n ih =>
      have before := ih (by omega)
      have small : c.toNat * 2 ^ n < 2 ^ 15 := by
        have powers : 2 ^ n ≤ 2 ^ 7 := Nat.pow_le_pow_right (by decide) (by omega)
        calc c.toNat * 2 ^ n ≤ 255 * 2 ^ 7 := Nat.mul_le_mul (by omega) powers
          _ < 2 ^ 15 := by decide
      rw [Function.iterate_succ_apply', shiftBit_eq]
      generalize (shiftBit polynomial)^[n] c = d at before
      have plain : d.toBitVec.msb = false := by
        rw [BitVec.msb_eq_decide]
        exact decide_eq_false (by change ¬ 2 ^ 15 ≤ d.toNat; omega)
      have shifted : (d <<< 1).toNat = d.toNat * 2 % 2 ^ 16 := by
        rw [UInt16.toNat_shiftLeft]
        exact congrArg (· % 2 ^ 16) (Nat.shiftLeft_eq d.toNat 1)
      have double : c.toNat * 2 ^ (n + 1) = c.toNat * 2 ^ n * 2 := by
        rw [Nat.pow_succ, Nat.mul_assoc]
      rw [plain, if_neg Bool.false_ne_true, UInt16.xor_zero, shifted, before, double]
      exact Nat.mod_eq_of_lt (by omega)

variable (crc : UInt16) (byte : UInt8)

theorem toNat_low : (crc &&& 0xFF).toNat = crc.toNat % 2 ^ 8 := by
  rw [UInt16.toNat_and]
  exact Nat.and_two_pow_sub_one_eq_mod crc.toNat 8

theorem toNat_high : (crc >>> 8).toNat = crc.toNat / 2 ^ 8 := by
  rw [UInt16.toNat_shiftRight]
  exact Nat.shiftRight_eq_div_pow crc.toNat 8

theorem toNat_shifted (c : UInt16) : (c <<< 8).toNat = c.toNat * 2 ^ 8 % 2 ^ 16 := by
  rw [UInt16.toNat_shiftLeft]
  exact congrArg (· % 2 ^ 16) (Nat.shiftLeft_eq c.toNat 8)

theorem register_split : crc ^^^ (byte.toUInt16 <<< 8) =
    (((crc >>> 8) ^^^ byte.toUInt16) <<< 8) ^^^ (crc &&& 0xFF) := by
  have bound := crc.toNat_lt
  have halves : crc = ((crc >>> 8) <<< 8) ^^^ (crc &&& 0xFF) := by
    apply UInt16.toNat_inj.mp
    have small : crc.toNat / 2 ^ 8 * 2 ^ 8 < 2 ^ 16 := by omega
    rw [UInt16.toNat_xor, toNat_low, toNat_shifted, toNat_high, Nat.mod_eq_of_lt small]
    apply Nat.eq_of_testBit_eq
    intro i
    rw [Nat.testBit_xor, Nat.mul_comm, Nat.testBit_two_pow_mul, Nat.testBit_mod_two_pow,
      Nat.testBit_div_two_pow]
    by_cases upper : 8 ≤ i
    · simp [upper, Nat.not_lt.mpr upper, Nat.sub_add_cancel upper]
    · simp [upper, Nat.lt_of_not_le upper]
  rw [shiftLeft_xor]
  conv_lhs => rw [halves]
  ac_rfl

theorem step_eq : step polynomial crc byte =
    (crc <<< 8) ^^^ tableWord polynomial ((crc >>> 8) ^^^ byte.toUInt16) := by
  have low : (crc &&& 0xFF).toNat < 256 := by
    rw [toNat_low]
    exact Nat.mod_lt _ (by decide)
  have lower : (shiftBit polynomial)^[8] (crc &&& 0xFF) = crc <<< 8 := by
    apply UInt16.toNat_inj.mp
    rw [iterate_shiftBit_low polynomial low (le_refl 8), toNat_low, toNat_shifted]
    omega
  rw [step, register_split, iterate_shiftBit_xor, lower, UInt16.xor_comm]
  rfl

theorem index_lt : ((crc >>> 8) ^^^ byte.toUInt16).toNat < 256 := by
  have high : (crc >>> 8).toNat < 2 ^ 8 := by
    have bound := crc.toNat_lt
    rw [toNat_high]
    omega
  have whole : byte.toUInt16.toNat < 2 ^ 8 := by
    rw [UInt8.toNat_toUInt16]
    exact byte.toNat_lt
  rw [UInt16.toNat_xor]
  exact Nat.xor_lt_two_pow high whole

end

end Zumic.Lib.Crc16
