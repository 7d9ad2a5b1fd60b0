/- The CRC-32 of single bits: what a byte does to the register is what its bits do one by one, and
damage within 32 consecutive bits always shows. -/

import Zumic.Lib.BitFields
import Zumic.Lib.Crc

namespace Zumic.Lib.Crc

open Lib.BitFields Lib.ByteString

/-- The bits of bytes in the order in which the register takes them: the lowest of each byte is
the first. -/
def bits (data : Bytes) : List Bool := (List.range (8 * data.length)).map (bitAt data)

/-- A bit as the lowest one of a word. -/
def bitWord (bit : Bool) : UInt32 := if bit then 1 else 0

def feedBit (crc : UInt32) (bit : Bool) : UInt32 := shiftBit (crc ^^^ bitWord bit)

def feed (crc : UInt32) (w : List Bool) : UInt32 := w.foldl feedBit crc

theorem feed_append (crc : UInt32) (v w : List Bool) : feed crc (v ++ w) = feed (feed crc v) w :=
  List.foldl_append

theorem ext_testBit {c d : UInt32} (same : ∀ i, c.toNat.testBit i = d.toNat.testBit i) : c = d :=
  UInt32.toNat_inj.mp (Nat.eq_of_testBit_eq same)

theorem testBit_bitWord (bit : Bool) (i : Nat) :
    (bitWord bit).toNat.testBit i = (decide (i = 0) && bit) := by
  cases bit with
  | false => simp [bitWord]
  | true =>
      have one : (bitWord true).toNat = 1 := rfl
      rw [one]
      cases i with
      | zero => rfl
      | succ i => simp [Nat.testBit_succ]

theorem testBit_put (c : UInt32) (bit : Bool) (i : Nat) :
    (c ^^^ bitWord bit).toNat.testBit i = (c.toNat.testBit i ^^ (decide (i = 0) && bit)) := by
  rw [UInt32.toNat_xor, Nat.testBit_xor, testBit_bitWord]

theorem testBit_shiftRight {c k : UInt32} (small : k.toNat < 32) (i : Nat) :
    (c >>> k).toNat.testBit i = c.toNat.testBit (i + k.toNat) := by
  rw [UInt32.toNat_shiftRight, Nat.mod_eq_of_lt small, Nat.testBit_shiftRight, Nat.add_comm]

theorem shiftBit_xor (c d : UInt32) : shiftBit (c ^^^ d) = shiftBit c ^^^ shiftBit d := by
  apply ext_testBit
  intro i
  rw [UInt32.toNat_xor, Nat.testBit_xor]
  simp only [testBit_shiftBit, UInt32.toNat_xor, Nat.testBit_xor]
  cases c.toNat.testBit 0 <;> cases d.toNat.testBit 0 <;> simp [Bool.xor_comm, Bool.xor_left_comm]

theorem iterate_shiftBit_xor (n : Nat) (c d : UInt32) :
    shiftBit^[n] (c ^^^ d) = shiftBit^[n] c ^^^ shiftBit^[n] d := by
  induction n generalizing c d with
  | zero => rfl
  | succ n ih => rw [Function.iterate_succ_apply, shiftBit_xor, ih]; rfl

theorem shiftBit_xor_low (c x : UInt32) :
    shiftBit (c ^^^ x) = feedBit c (x.toNat.testBit 0) ^^^ (x >>> 1) := by
  apply ext_testBit
  intro i
  have moved : (x >>> 1).toNat.testBit i = x.toNat.testBit (i + 1) :=
    testBit_shiftRight (by decide) i
  unfold feedBit
  rw [testBit_shiftBit, UInt32.toNat_xor, UInt32.toNat_xor, Nat.testBit_xor, Nat.testBit_xor,
    Nat.testBit_xor, testBit_shiftBit, testBit_put, testBit_put, moved]
  simp [Bool.xor_comm, Bool.xor_left_comm]

theorem iterate_shiftBit_eq_feed {n : Nat} {x : UInt32} (small : x.toNat < 2 ^ n) (c : UInt32) :
    shiftBit^[n] (c ^^^ x) = feed c ((List.range n).map x.toNat.testBit) := by
  induction n generalizing c x with
  | zero =>
      have none : x = 0 := UInt32.toNat_inj.mp (Nat.lt_one_iff.mp small)
      rw [none, UInt32.xor_zero]
      rfl
  | succ n ih =>
      have half : (x >>> 1).toNat = x.toNat / 2 := by
        rw [UInt32.toNat_shiftRight]
        exact Nat.shiftRight_eq_div_pow x.toNat 1
      have less : (x >>> 1).toNat < 2 ^ n := by
        rw [half]
        omega
      have rest : (List.range n).map (x.toNat.testBit ∘ Nat.succ) =
          (List.range n).map (x >>> 1).toNat.testBit := by
        apply List.map_congr_left
        intro i _
        rw [half]
        exact Nat.testBit_succ x.toNat i
      rw [Function.iterate_succ_apply, shiftBit_xor_low, ih less, List.range_succ_eq_map,
        List.map_cons, List.map_map, rest]
      rfl

theorem testBit_iterate_shiftBit {n : Nat} {c : UInt32}
    (clear : ∀ i < n, c.toNat.testBit i = false) (i : Nat) :
    (shiftBit^[n] c).toNat.testBit i = c.toNat.testBit (i + n) := by
  induction n generalizing c with
  | zero => rfl
  | succ n ih =>
      have first : ∀ i, (shiftBit c).toNat.testBit i = c.toNat.testBit (i + 1) := by
        intro i
        rw [testBit_shiftBit, clear 0 (Nat.succ_pos n), Bool.false_and, Bool.xor_false]
      have rest : ∀ i < n, (shiftBit c).toNat.testBit i = false := fun i inside => by
        rw [first]
        exact clear (i + 1) (Nat.succ_lt_succ inside)
      rw [Function.iterate_succ_apply, ih rest, first]
      rfl

/-- Eight steps depend on the lowest eight bits; the others move down. -/
theorem iterate_shiftBit_split (c : UInt32) :
    shiftBit^[8] c = (c >>> 8) ^^^ shiftBit^[8] (c &&& 0xFF) := by
  have low : ∀ i, (c &&& 0xFF).toNat.testBit i = (c.toNat.testBit i && decide (i < 8)) := by
    intro i
    rw [UInt32.toNat_and, Nat.testBit_and]
    exact congrArg _ (Nat.testBit_two_pow_sub_one 8 i)
  have high : ∀ i, (c ^^^ (c &&& 0xFF)).toNat.testBit i =
      (c.toNat.testBit i && !decide (i < 8)) := by
    intro i
    rw [UInt32.toNat_xor, Nat.testBit_xor, low]
    cases c.toNat.testBit i <;> simp
  have parts : c = (c ^^^ (c &&& 0xFF)) ^^^ (c &&& 0xFF) := by
    rw [UInt32.xor_assoc, UInt32.xor_self, UInt32.xor_zero]
  have moved : shiftBit^[8] (c ^^^ (c &&& 0xFF)) = c >>> 8 := by
    apply ext_testBit
    intro i
    have eight : (8 : UInt32).toNat = 8 := rfl
    have clear : ∀ i < 8, (c ^^^ (c &&& 0xFF)).toNat.testBit i = false := by
      intro i inside
      rw [high, decide_eq_true inside, Bool.not_true, Bool.and_false]
    have above : ¬ i + 8 < 8 := by omega
    rw [testBit_iterate_shiftBit clear, high, decide_eq_false above, Bool.not_false, Bool.and_true,
      testBit_shiftRight (by decide), eight]
  conv_lhs => rw [parts]
  rw [iterate_shiftBit_xor, moved]

theorem bits_cons (byte : UInt8) (data : Bytes) :
    bits (byte :: data) = (List.range 8).map byte.toNat.testBit ++ bits data := by
  have size : 8 * (byte :: data).length = 8 + 8 * data.length := by
    rw [List.length_cons]
    omega
  have front : (List.range 8).map (bitAt (byte :: data)) =
      (List.range 8).map byte.toNat.testBit := rfl
  have back : ∀ i, bitAt (byte :: data) (8 + i) = bitAt data i := by
    intro i
    have next : (8 + i) / 8 = i / 8 + 1 := by omega
    have same : (8 + i) % 8 = i % 8 := by omega
    unfold bitAt
    rw [next, same]
    rfl
  unfold bits
  rw [size, List.range_add, List.map_append, List.map_map, front]
  exact congrArg _ (List.map_congr_left fun i _ => back i)

theorem step_eq_feed (crc : UInt32) (byte : UInt8) :
    step crc byte = feed crc ((List.range 8).map byte.toNat.testBit) := by
  have small : byte.toUInt32.toNat < 2 ^ 8 := byte.toNat_lt
  exact iterate_shiftBit_eq_feed small crc

theorem update_eq_feed (crc : UInt32) (data : Bytes) : update crc data = feed crc (bits data) := by
  induction data generalizing crc with
  | nil => rfl
  | cons byte data ih =>
      rw [bits_cons, feed_append, ← step_eq_feed, ← ih]
      rfl

/-- Registers that become the same with no more bits than they have were the same above them. -/
theorem above_of_feed_eq {w w' : List Bool} (sized : w.length = w'.length)
    (short : w.length ≤ 32) {c d : UInt32} (same : feed c w = feed d w') :
    ∀ i, w.length ≤ i → c.toNat.testBit i = d.toNat.testBit i := by
  induction w generalizing w' c d with
  | nil =>
      obtain rfl := List.length_eq_zero_iff.mp sized.symm
      intro i _
      have start : c = d := same
      rw [start]
  | cons bit w ih =>
      obtain ⟨bit', w', rfl⟩ := List.exists_cons_of_length_eq_add_one sized.symm
      rw [List.length_cons, List.length_cons, Nat.add_right_cancel_iff] at sized
      rw [List.length_cons] at short ⊢
      have next := ih sized (by omega) same
      -- The highest bit tells what was shifted out.
      have out : (c ^^^ bitWord bit).toNat.testBit 0 = (d ^^^ bitWord bit').toNat.testBit 0 := by
        rw [← testBit_shiftBit_top, ← testBit_shiftBit_top]
        exact next 31 (by omega)
      intro i above
      obtain ⟨k, rfl⟩ := Nat.exists_eq_add_of_le' (Nat.one_le_of_lt above)
      have here := next k (by omega)
      unfold feedBit at here
      rw [testBit_shiftBit, testBit_shiftBit, out, Bool.xor_left_inj, testBit_put, testBit_put]
        at here
      simpa using here

theorem feed_injective {w w' : List Bool} (sized : w.length = w'.length) (short : w.length ≤ 32)
    {c : UInt32} (same : feed c w = feed c w') : w = w' := by
  induction w generalizing w' c with
  | nil => exact (List.length_eq_zero_iff.mp sized.symm).symm
  | cons bit w ih =>
      obtain ⟨bit', w', rfl⟩ := List.exists_cons_of_length_eq_add_one sized.symm
      rw [List.length_cons, List.length_cons, Nat.add_right_cancel_iff] at sized
      rw [List.length_cons] at short
      have next := above_of_feed_eq sized (by omega) same
      have out : (c ^^^ bitWord bit).toNat.testBit 0 = (c ^^^ bitWord bit').toNat.testBit 0 := by
        rw [← testBit_shiftBit_top, ← testBit_shiftBit_top]
        exact next 31 (by omega)
      rw [testBit_put, testBit_put, Bool.xor_right_inj] at out
      have first : bit = bit' := by simpa using out
      subst first
      rw [ih sized (by omega) same]

theorem feed_left_injective (w : List Bool) : Function.Injective fun c => feed c w := by
  induction w with
  | nil => exact fun _ _ same => same
  | cons bit w ih =>
      intro c d same
      exact (UInt32.xor_left_inj _).mp (shiftBit_injective (ih same))

theorem bits_injective {data data' : Bytes} (sized : data.length = data'.length)
    (same : ∀ k, bitAt data k = bitAt data' k) : data = data' := by
  apply List.ext_getElem sized
  intro j inside inside'
  apply UInt8.toBitVec_inj.mp
  apply BitVec.eq_of_getLsbD_eq
  intro i small
  have bit := same (8 * j + i)
  have byte : (8 * j + i) / 8 = j := by omega
  have place : (8 * j + i) % 8 = i := by omega
  unfold bitAt at bit
  rwa [byte, place, List.getD_eq_getElem _ _ inside, List.getD_eq_getElem _ _ inside'] at bit

theorem update_ne_of_burst {data data' : Bytes} {start : Nat}
    (sized : data.length = data'.length) (apart : data ≠ data')
    (outside : ∀ k, k < start ∨ start + 32 ≤ k → bitAt data k = bitAt data' k) (crc : UInt32) :
    update crc data ≠ update crc data' := by
  intro same
  rw [update_eq_feed, update_eq_feed] at same
  have front : (bits data).take start = (bits data').take start := by
    unfold bits
    rw [← List.map_take, ← List.map_take, sized]
    apply List.map_congr_left
    intro k member
    rw [List.take_range, List.mem_range] at member
    exact outside k (.inl (by omega))
  have back : (bits data).drop (start + 32) = (bits data').drop (start + 32) := by
    unfold bits
    rw [← List.map_drop, ← List.map_drop, sized]
    apply List.map_congr_left
    intro k member
    rw [List.range_eq_range', List.drop_range', List.mem_range'] at member
    obtain ⟨i, -, rfl⟩ := member
    exact outside _ (.inr (by omega))
  have split : ∀ data : Bytes, bits data = (bits data).take start ++
      (((bits data).drop start).take 32 ++ (bits data).drop (start + 32)) := by
    intro data
    rw [← List.drop_drop, List.take_append_drop, List.take_append_drop]
  rw [split data, split data', front, back, feed_append, feed_append, feed_append, feed_append]
    at same
  have middle := feed_left_injective _ same
  have equal := feed_injective (by simp [bits, sized]) (by simp) middle
  have all : bits data = bits data' := by
    rw [split data, split data', front, back, equal]
  refine apart (bits_injective sized fun k => ?_)
  by_cases inside : k < 8 * data.length
  · have here : (bits data)[k]? = (bits data')[k]? := by rw [all]
    unfold bits at here
    rw [← sized, List.getElem?_map, List.getElem?_map, List.getElem?_range inside] at here
    exact Option.some.inj here
  · rw [bitAt_beyond (by omega), bitAt_beyond (by omega)]

end Zumic.Lib.Crc
