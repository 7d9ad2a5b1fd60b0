/- Length fields of the dump format (`varint.rs` and the length helpers of both codecs). -/

import Zumic.Lib.Reader

namespace Zumic.Zdb

open Lib Lib.ByteString Lib.Reader

inductive FormatVersion where
  | legacy
  | v1
  | v2
  | v3
  deriving DecidableEq

def FormatVersion.current : FormatVersion := .v3

def FormatVersion.usesVarint : FormatVersion → Bool
  | .v3 => true
  | _ => false

/-- The root cause of a failed read; the contexts added on the way up are left out. -/
inductive ZdbError where
  | io (context : String)
  | unexpectedEof (context : String)
  | sizeLimit (what : String) (index : Option Nat) (size limit : Nat)
  | invalidTag (tag : UInt8)
  | compression (reason : String)
  | parse (structureName : String) (reason : String)
  | invalidMagic (got : Bytes)
  | unsupportedVersion (found : UInt8)
  | incompatibleVersion (reader dump : FormatVersion)
  | tooDeep
  deriving DecidableEq

abbrev ZdbReader (α : Type) := Reader ZdbError α

def maxVarintLen : Nat := 5

/-- The loop of `write_varint` on the bits that are left. -/
def varintBytes : Nat → Nat → Bytes
  | 0, _ => []
  | fuel + 1, value =>
      if value / 128 = 0 then [UInt8.ofNat (value % 128)]
      else UInt8.ofNat (value % 128 + 128) :: varintBytes fuel (value / 128)

theorem toNat_continued (value : Nat) :
    (UInt8.ofNat (value % 128 + 128)).toNat = value % 128 + 128 := by
  rw [UInt8.toNat_ofNat']
  omega

theorem sevenBits_split (value shift : Nat) :
    value * 2 ^ shift = value % 128 * 2 ^ shift + value / 128 * 2 ^ (shift + 7) := by
  have whole : value = value % 128 + value / 128 * 128 := by omega
  calc value * 2 ^ shift = (value % 128 + value / 128 * 128) * 2 ^ shift := by rw [← whole]
    _ = value % 128 * 2 ^ shift + value / 128 * 2 ^ (shift + 7) := by ring

theorem length_varintBytes_le (fuel value : Nat) : (varintBytes fuel value).length ≤ fuel := by
  induction fuel generalizing value with
  | zero => exact Nat.le_refl 0
  | succ fuel ih =>
      have rest := ih (value / 128)
      rw [varintBytes]
      split
      · simp
      · rw [List.length_cons]
        omega

def writeVarint (value : Nat) : Bytes := varintBytes maxVarintLen (value % 2 ^ 32)

/-- The loop of `read_varint`. The bits of a byte lie above those of `result`, so the source's
bitwise or is a sum. -/
def varintLoop : Nat → Nat → Nat → ZdbReader Nat
  | 0, _, _ => throw (.parse "varint" "Varint too long (>5 bytes), possible corruption")
  | left + 1, shift, result => do
      let byte ← Reader.next (.io "Failed to read varint byte")
      let result := result + byte.toNat % 128 * 2 ^ shift % 2 ^ 32
      if byte.toNat < 128 then pure result else varintLoop left (shift + 7) result

def readVarint : ZdbReader Nat := varintLoop maxVarintLen 0 0

/-- Writes a length, cast to 32 bits. -/
def writeLength (version : FormatVersion) (len : Nat) : Bytes :=
  if version.usesVarint then writeVarint len else beBytes 4 len

def readLength (version : FormatVersion) : ZdbReader Nat :=
  if version.usesVarint then readVarint
  else do
    let b ← Reader.take 4 (.io "Failed to read fixed length")
    pure (beNat b)

theorem reads_varintLoop {fuel value : Nat} (shift result : Nat)
    (bits : value < 128 ^ fuel) (positive : 0 < fuel)
    (fits : result + value * 2 ^ shift < 2 ^ 32) :
    Reads (varintLoop fuel shift result) (varintBytes fuel value)
      (result + value * 2 ^ shift) := by
  induction fuel generalizing value shift result with
  | zero => exact absurd positive (by omega)
  | succ fuel ih =>
      intro t
      have low : value % 128 * 2 ^ shift ≤ value * 2 ^ shift :=
        Nat.mul_le_mul_right _ (Nat.mod_le _ _)
      have word : value % 128 * 2 ^ shift % 2 ^ 32 = value % 128 * 2 ^ shift :=
        Nat.mod_eq_of_lt (by omega)
      by_cases last : value / 128 = 0
      · have small : value < 128 := by omega
        have same : value % 128 = value := Nat.mod_eq_of_lt small
        have byte : (UInt8.ofNat value).toNat = value := by
          rw [UInt8.toNat_ofNat']
          omega
        rw [same] at word
        rw [varintBytes, if_pos last, same, varintLoop, bind_of_ok (reads_next _ _ t)]
        simp only [byte, if_pos small, same, word]
        rfl
      · have byte := toNat_continued value
        have payload : (value % 128 + 128) % 128 = value % 128 := by omega
        have more : ¬ value % 128 + 128 < 128 := by omega
        have split := sevenBits_split value shift
        have bits' : value / 128 < 128 ^ fuel := by
          rw [Nat.pow_succ] at bits
          exact Nat.div_lt_of_lt_mul (by omega)
        have positive' : 0 < fuel := by
          by_contra zero
          obtain rfl : fuel = 0 := by omega
          simp at bits'
          omega
        have rest := ih (shift + 7) (result + value % 128 * 2 ^ shift) bits' positive' (by omega) t
        have shape : UInt8.ofNat (value % 128 + 128) :: varintBytes fuel (value / 128) ++ t =
            [UInt8.ofNat (value % 128 + 128)] ++ (varintBytes fuel (value / 128) ++ t) := rfl
        rw [varintBytes, if_neg last, shape, varintLoop, bind_of_ok (reads_next _ _ _)]
        simp only [byte, payload, word, if_neg more]
        rw [rest, split, Nat.add_assoc]

theorem reads_readVarint {n : Nat} (fits : n < 2 ^ 32) : Reads readVarint (writeVarint n) n := by
  have bits : n < 128 ^ maxVarintLen := lt_of_lt_of_le fits (by decide)
  have read := reads_varintLoop 0 0 bits (by decide) (by omega)
  rw [Nat.zero_add, Nat.pow_zero, Nat.mul_one] at read
  rw [writeVarint, Nat.mod_eq_of_lt fits]
  exact read

theorem reads_readLength {n : Nat} (fits : n < 2 ^ 32) (version : FormatVersion) :
    Reads (readLength version) (writeLength version n) n := by
  unfold readLength writeLength
  split
  · exact reads_readVarint fits
  · have word : beNat (beBytes 4 n) = n := beNat_beBytes_of_lt (by simpa using fits)
    have read := (reads_take_of_length (e := ZdbError.io "Failed to read fixed length")
      (length_beBytes 4 n)).bind_pure (f := beNat)
    rw [word] at read
    exact read

end Zumic.Zdb
