/- The bits of a bitmap (`bitmap_base.rs`, `bitmap_simd.rs`), the most significant of each byte
first, and the count of its ones: by a table, in blocks of 8 bytes and in blocks of 32. -/

import Zumic.Lib.ByteString
import Zumic.Lib.Counting

namespace Zumic.Database.Bitmap

open Lib.Avx2 Lib.ByteString Lib.Counting

/-- A bit of a byte, from the most significant on. -/
def bit (x : UInt8) (j : Nat) : Bool := x.toNat.testBit (7 - j)

def bitLen (bytes : Bytes) : Nat := bytes.length * 8

/-- Beyond the end of the array every bit is `false`. -/
def getBit (bytes : Bytes) (bitOffset : Nat) : Bool :=
  match bytes[bitOffset / 8]? with
  | none => false
  | some byte => (byte >>> UInt8.ofNat (7 - bitOffset % 8)) &&& 1 == 1

theorem shift_bit (x : UInt8) {j : Nat} (small : j < 8) :
    ((x >>> UInt8.ofNat (7 - j)) &&& 1 == 1) = bit x j := by
  have index : (UInt8.ofNat (7 - j)).toNat % 8 = 7 - j := by
    rw [UInt8.toNat_ofNat']
    omega
  have value : ((x >>> UInt8.ofNat (7 - j)) &&& 1).toNat = x.toNat >>> (7 - j) % 2 := by
    rw [UInt8.toNat_and, UInt8.toNat_shiftRight, index]
    exact Nat.and_one_is_mod _
  unfold bit
  rw [Nat.testBit_eq_decide_div_mod_eq, ← Nat.shiftRight_eq_div_pow, ← value]
  apply Bool.eq_iff_iff.mpr
  rw [beq_iff_eq, decide_eq_true_iff]
  constructor
  · intro same
    rw [same]
    rfl
  · intro same
    exact UInt8.toNat_inj.mp same

theorem getBit_eq (bytes : Bytes) (i : Nat) :
    getBit bytes i = bit (bytes.getD (i / 8) 0) (i % 8) := by
  unfold getBit
  rw [List.getD_eq_getElem?_getD]
  cases bytes[i / 8]? with
  | none => simp [bit]
  | some byte => exact shift_bit byte (Nat.mod_lt _ (by decide))

@[simp] theorem bit_and (x y : UInt8) (j : Nat) : bit (x &&& y) j = (bit x j && bit y j) := by
  unfold bit
  rw [UInt8.toNat_and, Nat.testBit_and]

@[simp] theorem bit_or (x y : UInt8) (j : Nat) : bit (x ||| y) j = (bit x j || bit y j) := by
  unfold bit
  rw [UInt8.toNat_or, Nat.testBit_or]

@[simp] theorem bit_xor (x y : UInt8) (j : Nat) : bit (x ^^^ y) j = (bit x j ^^ bit y j) := by
  unfold bit
  rw [UInt8.toNat_xor, Nat.testBit_xor]

@[simp] theorem bit_zero (j : Nat) : bit 0 j = false := by
  unfold bit
  exact Nat.zero_testBit _

theorem bit_not (x : UInt8) (j : Nat) : bit (~~~x) j = !bit x j := by
  unfold bit
  have flipped : (~~~x).toNat = 2 ^ 8 - (x.toNat + 1) := by
    rw [UInt8.toNat_not]
    have size : UInt8.size = 256 := rfl
    omega
  rw [flipped, Nat.testBit_two_pow_sub_succ x.toNat_lt]
  have small : 7 - j < 8 := by omega
  simp [small]

/-- The number of ones of each byte. -/
def BIT_COUNT_TABLE : List UInt8 := [
  0, 1, 1, 2, 1, 2, 2, 3, 1, 2, 2, 3, 2, 3, 3, 4, 1, 2, 2, 3, 2, 3, 3, 4, 2, 3, 3, 4, 3, 4, 4, 5,
  1, 2, 2, 3, 2, 3, 3, 4, 2, 3, 3, 4, 3, 4, 4, 5, 2, 3, 3, 4, 3, 4, 4, 5, 3, 4, 4, 5, 4, 5, 5, 6,
  1, 2, 2, 3, 2, 3, 3, 4, 2, 3, 3, 4, 3, 4, 4, 5, 2, 3, 3, 4, 3, 4, 4, 5, 3, 4, 4, 5, 4, 5, 5, 6,
  2, 3, 3, 4, 3, 4, 4, 5, 3, 4, 4, 5, 4, 5, 5, 6, 3, 4, 4, 5, 4, 5, 5, 6, 4, 5, 5, 6, 5, 6, 6, 7,
  1, 2, 2, 3, 2, 3, 3, 4, 2, 3, 3, 4, 3, 4, 4, 5, 2, 3, 3, 4, 3, 4, 4, 5, 3, 4, 4, 5, 4, 5, 5, 6,
  2, 3, 3, 4, 3, 4, 4, 5, 3, 4, 4, 5, 4, 5, 5, 6, 3, 4, 4, 5, 4, 5, 5, 6, 4, 5, 5, 6, 5, 6, 6, 7,
  2, 3, 3, 4, 3, 4, 4, 5, 3, 4, 4, 5, 4, 5, 5, 6, 3, 4, 4, 5, 4, 5, 5, 6, 4, 5, 5, 6, 5, 6, 6, 7,
  3, 4, 4, 5, 4, 5, 5, 6, 4, 5, 5, 6, 5, 6, 6, 7, 4, 5, 5, 6, 5, 6, 6, 7, 5, 6, 6, 7, 6, 7, 7, 8]

def tableAt (b : UInt8) : Nat := (BIT_COUNT_TABLE.getD b.toNat 0).toNat

theorem eq_tableAt {f : UInt8 → Nat}
    (entries : (List.range 256).map (fun n => f (UInt8.ofNat n)) =
      BIT_COUNT_TABLE.map UInt8.toNat) (x : UInt8) : f x = tableAt x := by
  have inside : x.toNat < 256 := x.toNat_lt
  have here := congrArg (fun l => l.getD x.toNat 0) entries
  simp only [List.getD_eq_getElem?_getD, List.getElem?_map, List.getElem?_range inside,
    Option.map_some, Option.getD_some, UInt8.ofNat_toNat] at here
  unfold tableAt
  rw [here, List.getD_eq_getElem?_getD]
  cases BIT_COUNT_TABLE[x.toNat]? with
  | none => rfl
  | some count => rfl

theorem count_byte (x : UInt8) : Nat.count (fun j => bit x j = true) 8 = tableAt x := by
  refine @eq_tableAt (fun x => Nat.count (fun j => bit x j = true) 8) ?_ x
  decide +kernel

theorem cpop_byte (x : UInt8) : x.toBitVec.cpop.toNat = tableAt x := by
  refine @eq_tableAt (fun x => x.toBitVec.cpop.toNat) ?_ x
  decide +kernel

section

/-- What the processor has; `detect` finds nothing on another one. -/
structure CpuFeatures where
  x86_64 : Bool
  popcnt : Bool
  avx2 : Bool

inductive BitcountStrategy where
  | lookupTable
  | popcnt
  | avx2

def bitcountLookupTable (bytes : Bytes) : Nat := (bytes.map tableAt).sum

/-- `u64::from_le_bytes`. -/
def fromLeBytes (b : Bytes) : BitVec 64 :=
  (b.getD 7 0).toBitVec ++ (b.getD 6 0).toBitVec ++ (b.getD 5 0).toBitVec ++
    (b.getD 4 0).toBitVec ++ (b.getD 3 0).toBitVec ++ (b.getD 2 0).toBitVec ++
    (b.getD 1 0).toBitVec ++ (b.getD 0 0).toBitVec

/-- `u64::count_ones`, and the instruction behind `_popcnt64`. -/
def countOnes (v : BitVec 64) : Nat := v.cpop.toNat

def tail (left : Nat × Bytes) : Nat :=
  left.2.foldl (fun count b => count + tableAt b) left.1

def bitcountPopcntImpl (bytes : Bytes) : Nat :=
  tail (blocks 8 (fun chunk => countOnes (fromLeBytes chunk)) 0 bytes)

/-- The numbers of ones of the halves of a byte, once for each half of a register. -/
def lookup : M256 := fun i =>
  [0, 1, 1, 2, 1, 2, 2, 3, 1, 2, 2, 3, 2, 3, 3, 4, 0, 1, 1, 2, 1, 2, 2, 3, 1, 2, 2, 3, 2, 3, 3,
    4].getD i 0

def lowMask : M256 := set1Epi8 0x0F

/-- The ones of 32 bytes in one register. -/
def countBlock (chunk : Bytes) : Nat :=
  let vec := loadu chunk
  let lo := andSi256 vec lowMask
  let hi := andSi256 (srliEpi16 vec 4) lowMask
  let popcntLo := shuffleEpi8 lookup lo
  let popcntHi := shuffleEpi8 lookup hi
  let sum := addEpi8 popcntLo popcntHi
  let sad := sadEpu8 sum (set1Epi8 0)
  sad 0 + sad 1 + sad 2 + sad 3

def bitcountAvx2Impl (bytes : Bytes) : Nat :=
  let left := blocks 32 countBlock 0 bytes
  tail (blocks 8 (fun chunk => countOnes (fromLeBytes chunk)) left.1 left.2)

variable (cpu : CpuFeatures)

def bitcountPopcnt (bytes : Bytes) : Nat :=
  if cpu.x86_64 && cpu.popcnt then bitcountPopcntImpl bytes else bitcountLookupTable bytes

def bitcountAvx2 (bytes : Bytes) : Nat :=
  if cpu.x86_64 then
    if cpu.avx2 then bitcountAvx2Impl bytes else bitcountPopcnt cpu bytes
  else bitcountLookupTable bytes

def bitcountAuto (bytes : Bytes) : Nat :=
  if cpu.x86_64 then
    if cpu.avx2 then bitcountAvx2 cpu bytes
    else if cpu.popcnt then bitcountPopcnt cpu bytes
    else bitcountLookupTable bytes
  else bitcountLookupTable bytes

def bitcountBy (strategy : BitcountStrategy) (bytes : Bytes) : Nat :=
  match strategy with
  | .lookupTable => bitcountLookupTable bytes
  | .popcnt => bitcountPopcnt cpu bytes
  | .avx2 => bitcountAvx2 cpu bytes

end

theorem popcnt_exact (chunk : Bytes) (full : chunk.length = 8) :
    countOnes (fromLeBytes chunk) = total tableAt chunk := by
  rw [total_eq_range chunk 0, full]
  unfold countOnes fromLeBytes
  simp only [BitVec.toNat_cpop_append, cpop_byte, List.range, List.range.loop, List.map_cons,
    List.map_nil, List.sum_cons, List.sum_nil]
  omega

theorem lookup_half (h k : Nat) (low : h < 2) (small : k < 16) :
    lookup (Fin.ofNat 32 (16 * h + k)) = lookup (Fin.ofNat 32 k) := by
  have both : ∀ (h : Fin 2) (k : Fin 16),
      lookup (Fin.ofNat 32 (16 * h.val + k.val)) = lookup (Fin.ofNat 32 k.val) := by decide
  exact both ⟨h, low⟩ ⟨k, small⟩

theorem lookup_halves (x : UInt8) :
    (lookup (Fin.ofNat 32 (x.toNat % 16)) + lookup (Fin.ofNat 32 (x.toNat / 16))).toNat =
      tableAt x := by
  refine @eq_tableAt (fun x =>
    (lookup (Fin.ofNat 32 (x.toNat % 16)) + lookup (Fin.ofNat 32 (x.toNat / 16))).toNat) ?_ x
  decide +kernel

theorem lane_exact (vec : M256) (i : Fin 32) :
    (addEpi8 (shuffleEpi8 lookup (andSi256 vec lowMask))
      (shuffleEpi8 lookup (andSi256 (srliEpi16 vec 4) lowMask)) i).toNat = tableAt (vec i) := by
  have low : i.val / 16 < 2 := by omega
  have half : (vec i).toNat / 16 < 16 := by
    have byte := (vec i).toNat_lt
    omega
  unfold addEpi8 lowMask
  rw [shuffle_low, shuffle_low, and_low, high_half, lookup_half _ _ low (Nat.mod_lt _ (by decide)),
    lookup_half _ _ low half, lookup_halves]

theorem countBlock_exact (chunk : Bytes) (full : chunk.length = 32) :
    countBlock chunk = total tableAt chunk := by
  rw [total_eq_range chunk 0, full]
  unfold countBlock
  dsimp only
  rw [sad_zero]
  congr 1
  apply List.map_congr_left
  intro i member
  have inside : i < 32 := List.mem_range.mp member
  rw [lane_exact]
  unfold loadu
  rw [Fin.val_ofNat, Nat.mod_eq_of_lt inside]

theorem tail_eq (left : Nat × Bytes) : tail left = left.1 + total tableAt left.2 := by
  obtain ⟨count, rest⟩ := left
  unfold tail
  dsimp only
  induction rest generalizing count with
  | nil => rfl
  | cons b rest ih =>
      rw [List.foldl_cons, ih, ← List.singleton_append, total_append, Nat.add_assoc]
      rfl

theorem bitcountPopcntImpl_eq (bytes : Bytes) : bitcountPopcntImpl bytes = total tableAt bytes := by
  unfold bitcountPopcntImpl
  rw [tail_eq, blocks_total popcnt_exact, Nat.zero_add]

theorem bitcountAvx2Impl_eq (bytes : Bytes) : bitcountAvx2Impl bytes = total tableAt bytes := by
  unfold bitcountAvx2Impl
  dsimp only
  rw [tail_eq, blocks_total popcnt_exact, blocks_total countBlock_exact, Nat.zero_add]

theorem bitcountLookupTable_eq (bytes : Bytes) :
    bitcountLookupTable bytes = total tableAt bytes := rfl

theorem bitcountPopcnt_eq (cpu : CpuFeatures) (bytes : Bytes) :
    bitcountPopcnt cpu bytes = total tableAt bytes := by
  unfold bitcountPopcnt
  split
  · exact bitcountPopcntImpl_eq bytes
  · exact bitcountLookupTable_eq bytes

theorem bitcountAvx2_eq (cpu : CpuFeatures) (bytes : Bytes) :
    bitcountAvx2 cpu bytes = total tableAt bytes := by
  unfold bitcountAvx2
  split
  · split
    · exact bitcountAvx2Impl_eq bytes
    · exact bitcountPopcnt_eq cpu bytes
  · exact bitcountLookupTable_eq bytes

theorem bitcountAuto_eq (cpu : CpuFeatures) (bytes : Bytes) :
    bitcountAuto cpu bytes = total tableAt bytes := by
  unfold bitcountAuto
  split
  · split
    · exact bitcountAvx2_eq cpu bytes
    · split
      · exact bitcountPopcnt_eq cpu bytes
      · exact bitcountLookupTable_eq bytes
  · exact bitcountLookupTable_eq bytes

theorem bitcountBy_eq (cpu : CpuFeatures) (strategy : BitcountStrategy) (bytes : Bytes) :
    bitcountBy cpu strategy bytes = total tableAt bytes := by
  cases strategy with
  | lookupTable => exact bitcountLookupTable_eq bytes
  | popcnt => exact bitcountPopcnt_eq cpu bytes
  | avx2 => exact bitcountAvx2_eq cpu bytes

section

/-- The ones of a byte under a mask. -/
def masked (b mask : UInt8) : Nat := tableAt (b &&& mask)

/-- A mask for the bits of a byte from `sb` on. -/
def fromBit (sb : Nat) : UInt8 := 0xFF >>> UInt8.ofNat sb

/-- A mask for the bits of a byte before `eb`. -/
def beforeBit (eb : Nat) : UInt8 := 0xFF <<< UInt8.ofNat (8 - eb)

/-- The count in a range that is not empty and within the bytes, with the count of whole bytes as a
parameter; no result stands for an access outside the bytes. -/
def countWithin (middle : Bytes → Nat) (bytes : Bytes) (start stop : Nat) : Option Nat :=
  let startByte := start / 8
  let endByte := (stop - 1) / 8
  let sb := start % 8
  let eb := stop % 8
  if startByte = endByte then do
    let b ← bytes[startByte]?
    pure (masked b (if eb = 0 then fromBit sb else fromBit sb &&& beforeBit eb))
  else do
    let first ← bytes[startByte]?
    let last ← bytes[endByte]?
    let between := if endByte > startByte + 1 then
        middle ((bytes.take endByte).drop (startByte + 1)) else 0
    pure (masked first (fromBit sb) + between + masked last (if eb = 0 then 0xFF else beforeBit eb))

def countRange (middle : Bytes → Nat) (bytes : Bytes) (start stop : Nat) : Option Nat :=
  let stop := min stop (bitLen bytes)
  let start := min start stop
  if start ≥ stop then some 0 else countWithin middle bytes start stop

variable (cpu : CpuFeatures)

def bitcount (bytes : Bytes) (start stop : Nat) : Option Nat :=
  countRange (bitcountAuto cpu) bytes start stop

def bitcountWithStrategy (strategy : BitcountStrategy) (bytes : Bytes) (start stop : Nat) :
    Option Nat :=
  countRange (bitcountBy cpu strategy) bytes start stop

/-- The number of ones among the bits from `start` on and before `stop`. -/
def onesBetween (bytes : Bytes) (start stop : Nat) : Nat :=
  Nat.count (fun i => start ≤ i ∧ i < stop ∧ getBit bytes i = true) (bitLen bytes)

/-- The ones before a bit. -/
def onesBefore (bytes : Bytes) (n : Nat) : Nat := Nat.count (fun i => getBit bytes i = true) n

def byteBefore (b : UInt8) (n : Nat) : Nat := Nat.count (fun j => bit b j = true) n

theorem bit_fromBit {sb j : Nat} (low : sb < 8) (small : j < 8) :
    bit (fromBit sb) j = decide (sb ≤ j) := by
  have all : ∀ (sb j : Fin 8), bit (fromBit sb.val) j.val = decide (sb.val ≤ j.val) := by decide
  exact all ⟨sb, low⟩ ⟨j, small⟩

theorem bit_beforeBit {eb j : Nat} (positive : 0 < eb) (low : eb < 8) (small : j < 8) :
    bit (beforeBit eb) j = decide (j < eb) := by
  have all : ∀ (eb j : Fin 8), 0 < eb.val →
      bit (beforeBit eb.val) j.val = decide (j.val < eb.val) := by decide
  exact all ⟨eb, low⟩ ⟨j, small⟩ positive

theorem masked_window {mask : UInt8} {lo hi : Nat} (ordered : lo ≤ hi) (within : hi ≤ 8)
    (window : ∀ j < 8, bit mask j = decide (lo ≤ j ∧ j < hi)) (b : UInt8) :
    masked b mask + byteBefore b lo = byteBefore b hi := by
  have counted : masked b mask = Nat.count (fun j => lo ≤ j ∧ j < hi ∧ bit b j = true) 8 := by
    unfold masked
    rw [← count_byte, Nat.count_eq_card_filter_range, Nat.count_eq_card_filter_range]
    congr 1
    apply Finset.filter_congr
    intro j member
    have small : j < 8 := Finset.mem_range.mp member
    rw [bit_and, window j small, Bool.and_eq_true, decide_eq_true_iff]
    tauto
  have split := count_window (fun j => bit b j = true) lo hi 8
  rw [Nat.min_eq_left within, Nat.min_eq_left ordered] at split
  rw [counted]
  exact split

/-- The ones before a bit are those of the bytes before its byte, and those before it in there. -/
theorem onesBefore_add {bytes : Bytes} {k : Nat} {b : UInt8} (read : bytes[k]? = some b) {t : Nat}
    (within : t ≤ 8) :
    onesBefore bytes (8 * k + t) = onesBefore bytes (8 * k) + byteBefore b t := by
  unfold onesBefore byteBefore
  rw [Nat.count_add, Nat.count_eq_card_filter_range _ t, Nat.count_eq_card_filter_range _ t]
  congr 2
  apply Finset.filter_congr
  intro j member
  have small : j < t := Finset.mem_range.mp member
  have byte : (8 * k + j) / 8 = k := by omega
  have rest : (8 * k + j) % 8 = j := by omega
  rw [getBit_eq, byte, rest, List.getD_eq_getElem?_getD, read]
  rfl

theorem onesBefore_bytes (bytes : Bytes) {k : Nat} (within : k ≤ bytes.length) :
    onesBefore bytes (8 * k) = total tableAt (bytes.take k) := by
  induction k with
  | zero => rfl
  | succ k ih =>
      have inside : k < bytes.length := by omega
      have read : bytes[k]? = some bytes[k] := List.getElem?_eq_getElem inside
      rw [Nat.mul_succ, onesBefore_add read (Nat.le_refl 8), ih (by omega), List.take_add_one, read,
        total_append]
      unfold byteBefore
      rw [count_byte]
      rfl

theorem onesBefore_between (bytes : Bytes) {a b : Nat} (ordered : a ≤ b)
    (within : b ≤ bytes.length) :
    onesBefore bytes (8 * a) + total tableAt ((bytes.take b).drop a) =
      onesBefore bytes (8 * b) := by
  rw [onesBefore_bytes bytes within, onesBefore_bytes bytes (ordered.trans within)]
  have first : bytes.take a = (bytes.take b).take a := by
    rw [List.take_take, Nat.min_eq_left ordered]
  rw [first, ← total_append, List.take_append_drop]

theorem onesBetween_add (bytes : Bytes) (start stop : Nat) :
    onesBetween bytes start stop + onesBefore bytes (min start (min stop (bitLen bytes))) =
      onesBefore bytes (min stop (bitLen bytes)) :=
  count_window (fun i => getBit bytes i = true) start stop (bitLen bytes)

/-- Where a range ends within its last byte. -/
def endBit (stop : Nat) : Nat := if stop % 8 = 0 then 8 else stop % 8

theorem endBit_le (stop : Nat) : endBit stop ≤ 8 := by
  unfold endBit
  split <;> omega

theorem endByte_add_endBit {stop : Nat} (positive : 0 < stop) :
    8 * ((stop - 1) / 8) + endBit stop = stop := by
  unfold endBit
  split <;> omega

theorem bit_full {j : Nat} (small : j < 8) : bit 0xFF j = true := by
  have all : ∀ j : Fin 8, bit 0xFF j.val = true := by decide
  exact all ⟨j, small⟩

theorem bit_lastMask (stop : Nat) {j : Nat} (small : j < 8) :
    bit (if stop % 8 = 0 then 0xFF else beforeBit (stop % 8)) j = decide (j < endBit stop) := by
  unfold endBit
  split
  · rw [bit_full small]
    exact (decide_eq_true small).symm
  · rename_i inner
    exact bit_beforeBit (Nat.pos_of_ne_zero inner) (Nat.mod_lt _ (by decide)) small

theorem bit_onlyMask {sb : Nat} (low : sb < 8) (stop : Nat) {j : Nat} (small : j < 8) :
    bit (if stop % 8 = 0 then fromBit sb else fromBit sb &&& beforeBit (stop % 8)) j =
      decide (sb ≤ j ∧ j < endBit stop) := by
  have last := bit_lastMask stop small
  rw [Bool.decide_and, ← last]
  split
  · rw [bit_fromBit low small, bit_full small, Bool.and_true]
  · rw [bit_and, bit_fromBit low small]

theorem countWithin_eq {middle : Bytes → Nat} (exact : ∀ slice, middle slice = total tableAt slice)
    {bytes : Bytes} {start stop : Nat} (nonempty : start < stop) (within : stop ≤ bitLen bytes) :
    ∃ count, countWithin middle bytes start stop = some count ∧
      count + onesBefore bytes start = onesBefore bytes stop := by
  have length : stop ≤ bytes.length * 8 := within
  have lastInside : (stop - 1) / 8 < bytes.length := by omega
  have firstInside : start / 8 < bytes.length := by omega
  have ordered : start / 8 ≤ (stop - 1) / 8 := by omega
  have low : start % 8 < 8 := Nat.mod_lt _ (by decide)
  have readFirst : bytes[start / 8]? = some bytes[start / 8] := List.getElem?_eq_getElem firstInside
  have readLast : bytes[(stop - 1) / 8]? = some bytes[(stop - 1) / 8] :=
    List.getElem?_eq_getElem lastInside
  have fromStart := onesBefore_add readFirst (Nat.le_of_lt low)
  rw [Nat.div_add_mod] at fromStart
  have ends := endByte_add_endBit (Nat.zero_lt_of_lt nonempty)
  have fromEnd := onesBefore_add readLast (endBit_le stop)
  rw [ends] at fromEnd
  unfold countWithin
  dsimp only
  by_cases single : start / 8 = (stop - 1) / 8
  · rw [if_pos single, readFirst]
    refine ⟨_, rfl, ?_⟩
    have counted := masked_window (by omega) (endBit_le stop)
      (fun j small => bit_onlyMask low stop small) bytes[start / 8]
    simp only [single] at fromStart counted ⊢
    omega
  · rw [if_neg single, readFirst, readLast]
    refine ⟨_, rfl, ?_⟩
    have fromLow : ∀ j < 8, bit (fromBit (start % 8)) j = decide (start % 8 ≤ j ∧ j < 8) := by
      intro j small
      simp [bit_fromBit low small, small]
    have first := masked_window (Nat.le_of_lt low) (Nat.le_refl 8) fromLow bytes[start / 8]
    have last := masked_window (Nat.zero_le _) (endBit_le stop)
      (fun j small => by simpa using bit_lastMask stop small) bytes[(stop - 1) / 8]
    have between : (if (stop - 1) / 8 > start / 8 + 1 then
        middle ((bytes.take ((stop - 1) / 8)).drop (start / 8 + 1)) else 0) =
          total tableAt ((bytes.take ((stop - 1) / 8)).drop (start / 8 + 1)) := by
      split
      · exact exact _
      · rw [List.drop_eq_nil_of_le]
        · rfl
        · rw [List.length_take]
          omega
    have whole := onesBefore_between bytes (a := start / 8 + 1) (b := (stop - 1) / 8) (by omega)
      (by omega)
    rw [Nat.mul_succ, onesBefore_add readFirst (Nat.le_refl 8)] at whole
    have none : byteBefore bytes[(stop - 1) / 8] 0 = 0 := rfl
    rw [between]
    omega

theorem countRange_eq {middle : Bytes → Nat} (exact : ∀ slice, middle slice = total tableAt slice)
    (bytes : Bytes) (start stop : Nat) :
    countRange middle bytes start stop = some (onesBetween bytes start stop) := by
  have split := onesBetween_add bytes start stop
  unfold countRange
  dsimp only
  by_cases nonempty : min start (min stop (bitLen bytes)) < min stop (bitLen bytes)
  · obtain ⟨count, ran, counted⟩ := countWithin_eq exact nonempty (Nat.min_le_right _ _)
    rw [if_neg (Nat.not_le_of_lt nonempty), ran]
    congr 1
    omega
  · have same : min start (min stop (bitLen bytes)) = min stop (bitLen bytes) := by omega
    rw [same] at split
    rw [if_pos (Nat.le_of_not_lt nonempty)]
    congr 1
    omega

/-- Every way to count gives the number of ones, in a range of the bits and over a slice. -/
theorem bitcount_exact (cpu : CpuFeatures) (strategy : BitcountStrategy) (bytes : Bytes)
    (start stop : Nat) :
    bitcount cpu bytes start stop = some (onesBetween bytes start stop) ∧
      bitcountWithStrategy cpu strategy bytes start stop = some (onesBetween bytes start stop) ∧
      bitcountPopcntImpl bytes = bitcountLookupTable bytes ∧
      bitcountAvx2Impl bytes = bitcountLookupTable bytes := by
  refine ⟨?_, ?_, ?_, ?_⟩
  · exact countRange_eq (bitcountAuto_eq cpu) bytes start stop
  · exact countRange_eq (bitcountBy_eq cpu strategy) bytes start stop
  · exact bitcountPopcntImpl_eq bytes
  · exact bitcountAvx2Impl_eq bytes

end

end Zumic.Database.Bitmap
