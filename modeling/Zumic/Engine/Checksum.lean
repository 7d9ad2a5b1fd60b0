/- The checksum of the log's records (`aof_integrity.rs`): the table does what the single bits do,
and no damage within 32 consecutive bits escapes it. -/

import Zumic.Engine.Aof
import Zumic.Lib.CrcBits

namespace Zumic.Engine.Crc32

open Lib Lib.BitFields Lib.ByteString

theorem table_eq (i : UInt32) : table i = Crc.shiftBit^[8] i := rfl

theorem table_step (crc : UInt32) (byte : UInt8) :
    (crc >>> 8) ^^^ table ((crc ^^^ byte.toUInt32) &&& 0xFF) = Crc.step crc byte := by
  have eight : (8 : UInt32).toNat = 8 := rfl
  have moved : (crc ^^^ byte.toUInt32) >>> 8 = crc >>> 8 := by
    apply Crc.ext_testBit
    intro i
    have small : byte.toUInt32.toNat.testBit (i + 8) = false :=
      Nat.testBit_lt_two_pow (byte.toNat_lt.trans_le (Nat.pow_le_pow_right (by decide) (by omega)))
    rw [Crc.testBit_shiftRight (by decide), Crc.testBit_shiftRight (by decide), eight,
      UInt32.toNat_xor, Nat.testBit_xor, small, Bool.xor_false]
  rw [Crc.step, Crc.iterate_shiftBit_split, moved, table_eq]

theorem checksum_eq (data : Bytes) : checksum data = Crc.checksum data := by
  have steps : (fun (crc : UInt32) (byte : UInt8) =>
      (crc >>> 8) ^^^ table ((crc ^^^ byte.toUInt32) &&& 0xFF)) = Crc.step := by
    funext crc byte
    exact table_step crc byte
  unfold checksum
  rw [steps]
  rfl

/-- The checksum is the reflected CRC-32 of the bits, and it differs for payloads that differ only
within 32 consecutive ones. -/
theorem checksum_detects :
    (∀ data : Bytes, checksum data = Crc.finalize (Crc.feed Crc.initial (Crc.bits data))) ∧
    ∀ (data data' : Bytes) (start : Nat), data'.length = data.length → data' ≠ data →
      (∀ k, k < start ∨ start + 32 ≤ k → bitAt data' k = bitAt data k) →
      checksum data' ≠ checksum data := by
  refine ⟨fun data => ?_, fun data data' start sized apart outside same => ?_⟩
  · rw [checksum_eq, Crc.checksum, Crc.update_eq_feed]
  · rw [checksum_eq, checksum_eq] at same
    exact Crc.update_ne_of_burst sized apart outside _ (Crc.finalize_injective same)

/-- Damage over three bytes in the middle of a payload. -/
theorem checksum_detects_burst :
    checksum (bytesOf "set balance 730 units") ≠ checksum (bytesOf "set balance 199 units") := by
  refine checksum_detects.2 _ _ 96 (by decide +kernel) (by decide +kernel) fun k outside => ?_
  by_cases beyond : 8 * 21 ≤ k
  · rw [bitAt_beyond beyond, bitAt_beyond beyond]
  · have same : ∀ k < 8 * 21, k < 96 ∨ 128 ≤ k →
        bitAt (bytesOf "set balance 730 units") k =
          bitAt (bytesOf "set balance 199 units") k := by
      decide +kernel
    exact same k (not_le.mp beyond) outside

end Zumic.Engine.Crc32
