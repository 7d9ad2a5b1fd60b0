/- The registers of a sketch are the maxima of its elements, whichever form they are kept in. -/

import Mathlib.Order.Lattice.Nat
import Zumic.Database.Hll

namespace Zumic.Database.HyperLogLog

open Lib Lib.BitFields Lib.ByteString

/-- The registers of a set of elements: of those that a register is selected for, the highest
rank. -/
def registersOf (precision : Nat) (hash : Bytes → UInt64) (elements : Finset Bytes) (i : Nat) :
    Nat :=
  (elements.filter fun v => hashIndex precision (hash v) = i).sup fun v =>
    hashRho precision (hash v)

section

variable {precision : Nat} {hash : Bytes → UInt64}

theorem registersOf_insert (value : Bytes) (elements : Finset Bytes) (i : Nat) :
    registersOf precision hash (insert value elements) i =
      if hashIndex precision (hash value) = i then
        max (registersOf precision hash elements i) (hashRho precision (hash value))
      else registersOf precision hash elements i := by
  unfold registersOf
  rw [Finset.filter_insert]
  by_cases own : hashIndex precision (hash value) = i
  · rw [if_pos own, if_pos own, Finset.sup_insert]
    exact Nat.max_comm _ _
  · rw [if_neg own, if_neg own]

theorem registersOf_union (elements others : Finset Bytes) (i : Nat) :
    registersOf precision hash (elements ∪ others) i =
      max (registersOf precision hash elements i) (registersOf precision hash others i) := by
  unfold registersOf
  rw [Finset.filter_union]
  exact Finset.sup_union

end

/-- The highest value that a list of registers gives to an index. -/
def top (entries : List (Nat × UInt8)) (i : Nat) : Nat :=
  entries.foldr (fun entry high => if entry.1 = i then max entry.2.toNat high else high) 0

theorem top_cons (entry : Nat × UInt8) (entries : List (Nat × UInt8)) (i : Nat) :
    top (entry :: entries) i =
      if entry.1 = i then max entry.2.toNat (top entries i) else top entries i := rfl

theorem top_of_not_mem {entries : List (Nat × UInt8)} {i : Nat}
    (absent : i ∉ Assoc.keys entries) : top entries i = 0 := by
  induction entries with
  | nil => rfl
  | cons entry entries ih =>
      rw [Assoc.keys, List.map_cons, List.mem_cons, not_or] at absent
      rw [top_cons, if_neg (Ne.symm absent.1)]
      exact ih absent.2

theorem top_of_distinct {entries : List (Nat × UInt8)} (distinct : (Assoc.keys entries).Nodup)
    (i : Nat) : top entries i = ((Assoc.get entries i).getD 0).toNat := by
  induction entries with
  | nil => rfl
  | cons entry entries ih =>
      rw [Assoc.keys, List.map_cons, List.nodup_cons] at distinct
      rw [top_cons]
      by_cases own : entry.1 = i
      · subst own
        rw [if_pos rfl, top_of_not_mem distinct.1]
        simp [Assoc.get]
      · rw [if_neg own, ih distinct.2]
        simp [Assoc.get, own]

theorem foldl_raised {δ : Type} (register : δ → Nat → Nat) (step : δ → Nat → UInt8 → δ)
    (Inv : δ → Prop) (allowed : Nat × UInt8 → Prop)
    (kept : ∀ d entry, Inv d → allowed entry → Inv (step d entry.1 entry.2))
    (raised : ∀ d entry, Inv d → allowed entry → ∀ i, register (step d entry.1 entry.2) i =
      if entry.1 = i then max (register d i) entry.2.toNat else register d i)
    {entries : List (Nat × UInt8)} (all : ∀ entry ∈ entries, allowed entry) {d : δ} (start : Inv d) :
    Inv (entries.foldl (fun d entry => step d entry.1 entry.2) d) ∧
      ∀ i, register (entries.foldl (fun d entry => step d entry.1 entry.2) d) i =
        max (register d i) (top entries i) := by
  induction entries generalizing d with
  | nil => exact ⟨start, fun i => (Nat.max_zero _).symm⟩
  | cons entry entries ih =>
      have here := all entry List.mem_cons_self
      obtain ⟨inv, high⟩ := ih (fun other member => all other (List.mem_cons_of_mem _ member))
        (kept d entry start here)
      refine ⟨inv, fun i => ?_⟩
      rw [List.foldl_cons, high i, raised d entry start here i, top_cons]
      by_cases own : entry.1 = i
      · rw [if_pos own, if_pos own, Nat.max_assoc]
      · rw [if_neg own, if_neg own]

section

variable {precision : Nat}

/-- The bytes of all registers. -/
def HllDense.Good (precision : Nat) (d : HllDense) : Prop := d.data.length = denseSize precision

theorem bits_denseSize (large : 2 ≤ precision) :
    8 * denseSize precision = numRegisters precision * 6 := by
  obtain ⟨p, rfl⟩ := Nat.exists_eq_add_of_le large
  unfold denseSize numRegisters
  rw [Nat.pow_add]
  omega

namespace HllDense

theorem good_new (precision : Nat) : (new precision).Good precision :=
  List.length_replicate

theorem setRegister_data (d : HllDense) (index : Nat) (value : UInt8) :
    (d.setRegister index value).data = setField 6 d.data index (value.toBitVec.setWidth 16) := rfl

theorem getRegister_eq (d : HllDense) (index : Nat) :
    d.getRegister index = UInt8.ofBitVec ((getField 6 d.data index).setWidth 8) := rfl

theorem Good.setRegister {d : HllDense} (good : d.Good precision) (index : Nat) (value : UInt8) :
    (d.setRegister index value).Good precision := by
  unfold HllDense.Good
  rw [setRegister_data, length_setField]
  exact good

theorem Good.room {d : HllDense} (good : d.Good precision) (large : 2 ≤ precision) {index : Nat}
    (known : index < numRegisters precision) : index * 6 + 6 ≤ 8 * d.data.length := by
  rw [good, bits_denseSize large]
  omega

theorem getRegister_setRegister {d : HllDense} {index : Nat}
    (room : index * 6 + 6 ≤ 8 * d.data.length) {value : UInt8} (small : value.toNat < 64) :
    (d.setRegister index value).getRegister index = value := by
  rw [getRegister_eq, setRegister_data, getField_setField (by omega) (by omega) room]
  apply UInt8.toNat_inj.mp
  have high : (mask 6).toNat = 63 := rfl
  have wide : value.toNat % 2 ^ 16 = value.toNat := Nat.mod_eq_of_lt (by omega)
  have kept : value.toNat &&& 63 = value.toNat :=
    (Nat.and_two_pow_sub_one_eq_mod value.toNat 6).trans (Nat.mod_eq_of_lt small)
  rw [UInt8.toNat_ofBitVec, BitVec.toNat_setWidth, BitVec.toNat_and, BitVec.toNat_setWidth, high,
    UInt8.toNat_toBitVec, wide, kept]
  exact Nat.mod_eq_of_lt (by omega)

theorem getRegister_setRegister_of_ne {d : HllDense} {index : Nat}
    (room : index * 6 + 6 ≤ 8 * d.data.length) (value : UInt8) {other : Nat}
    (apart : other ≠ index) :
    (d.setRegister index value).getRegister other = d.getRegister other := by
  rw [getRegister_eq, getRegister_eq, setRegister_data,
    getField_setField_of_ne (by omega) (by omega) room _ apart]

theorem getRegister_lt (d : HllDense) (index : Nat) : (d.getRegister index).toNat < 64 := by
  have low : (getField 6 d.data index).toNat < 64 := by
    unfold getField readField mask
    rw [BitVec.toNat_and]
    exact Nat.lt_of_le_of_lt Nat.and_le_right (by decide)
  rw [getRegister_eq, UInt8.toNat_ofBitVec, BitVec.toNat_setWidth]
  omega

theorem getRegister_new (precision index : Nat) : (new precision).getRegister index = 0 := by
  have zero : getField 6 (new precision).data index = 0 := by
    apply BitVec.eq_of_getLsbD_eq
    intro n inside
    have bit : bitAt (new precision).data (index * 6 + n) = false := by
      unfold bitAt new
      by_cases byte : (index * 6 + n) / 8 < denseSize precision
      · rw [List.getD_replicate _ byte]
        simp
      · rw [List.getD_eq_default _ _ (by simpa using byte)]
        simp
    rw [getLsbD_getField (by omega) inside, bit]
    simp
  rw [getRegister_eq, zero]
  rfl

end HllDense

theorem HllDense.toNat_raise {d : HllDense} {index : Nat}
    (room : index * 6 + 6 ≤ 8 * d.data.length) {value : UInt8} (small : value.toNat < 64) (i : Nat) :
    ((d.raise index value).getRegister i).toNat =
      if index = i then max (d.getRegister i).toNat value.toNat else (d.getRegister i).toNat := by
  unfold raise
  by_cases own : index = i
  · subst own
    rw [if_pos rfl]
    by_cases higher : d.getRegister index < value
    · rw [if_pos higher, getRegister_setRegister room small]
      have less := UInt8.lt_iff_toNat_lt.mp higher
      omega
    · rw [if_neg higher]
      have least : ¬ (d.getRegister index).toNat < value.toNat := fun less =>
        higher (UInt8.lt_iff_toNat_lt.mpr less)
      omega
  · rw [if_neg own]
    by_cases higher : d.getRegister index < value
    · rw [if_pos higher, getRegister_setRegister_of_ne room value (Ne.symm own)]
    · rw [if_neg higher]

theorem HllDense.Good.raise {d : HllDense} (good : d.Good precision) (index : Nat) (value : UInt8) :
    (d.raise index value).Good precision := by
  unfold HllDense.raise
  by_cases higher : d.getRegister index < value
  · rw [if_pos higher]
    exact good.setRegister index value
  · rw [if_neg higher]
    exact good

namespace HllDense

/-- The word that `set_register` writes back into two bytes. -/
def written (d : HllDense) (index : Nat) (value : UInt8) : BitVec 16 :=
  writeField 6 (index * 6 % 8) (window d.data (index * 6 / 8)) (value.toBitVec.setWidth 16)

/-- The byte accesses of a register: the first byte exists, and where the second does not, the
whole field is in the first one and nothing is left to be written behind it. -/
structure Accessible (d : HllDense) (index : Nat) : Prop where
  first : index * 6 / 8 < d.data.length
  second : index * 6 / 8 + 1 < d.data.length ∨
    index * 6 % 8 + 6 ≤ 8 ∧ ∀ value, d.written index value >>> 8 = 0

theorem written_high {d : HllDense} {index : Nat} (last : d.data.length ≤ index * 6 / 8 + 1)
    (inside : index * 6 % 8 + 6 ≤ 8) (value : UInt8) : d.written index value >>> 8 = 0 := by
  apply BitVec.eq_of_getLsbD_eq
  intro n bound
  have zero : (0 : BitVec 16).getLsbD n = false := BitVec.getLsbD_zero
  rw [BitVec.getLsbD_ushiftRight, zero]
  by_cases high : 8 + n < 16
  · unfold written
    rw [getLsbD_writeField _ _ high, if_neg (by omega), getLsbD_window _ _ high]
    exact bitAt_beyond (by omega)
  · exact BitVec.getLsbD_of_ge _ _ (by omega)

theorem Good.accessible {d : HllDense} (good : d.Good precision) (large : 2 ≤ precision)
    {index : Nat} (known : index < numRegisters precision) : d.Accessible index := by
  have room := good.room large known
  have first : index * 6 / 8 < d.data.length := by omega
  refine ⟨first, ?_⟩
  by_cases next : index * 6 / 8 + 1 < d.data.length
  · exact .inl next
  · have inside : index * 6 % 8 + 6 ≤ 8 := by omega
    exact .inr ⟨inside, written_high (by omega) inside⟩

/-- Writing a register is read back, leaves every other register as it was, and no byte access
leaves the buffer. -/
theorem registers_packed {d : HllDense} {i j : Nat} {value : UInt8} (least : 4 ≤ precision)
    (most : precision ≤ 18) (sized : d.data.length = denseSize precision)
    (known : i < 2 ^ precision) (small : value ≤ 63) :
    (d.setRegister i value).getRegister j = (if j = i then value else d.getRegister j) ∧
      (d.setRegister i value).data.length = denseSize precision ∧
      ∀ k < 2 ^ precision, d.Accessible k := by
  have large : 2 ≤ precision := by omega
  have good : d.Good precision := sized
  have room := good.room large known
  have below : value.toNat < 64 := by
    have bound := UInt8.le_iff_toNat_le.mp small
    have top : (63 : UInt8).toNat = 63 := rfl
    omega
  refine ⟨?_, good.setRegister i value, fun k known => good.accessible large known⟩
  by_cases own : j = i
  · subst own
    rw [if_pos rfl, getRegister_setRegister room below]
  · rw [if_neg own, getRegister_setRegister_of_ne room value own]

/-- No byte follows that of the last register. -/
theorem registers_packed_last :
    ((new 4).setRegister 15 63).getRegister 14 =
        (if 14 = 15 then 63 else (new 4).getRegister 14) ∧
      ((new 4).setRegister 15 63).data.length = denseSize 4 ∧
      ∀ k < 2 ^ 4, (new 4).Accessible k :=
  registers_packed (by decide) (by decide) (by decide) (by decide) (by decide)

end HllDense

end

section

variable {precision : Nat}

/-- An entry that a register can hold. -/
def Fits (precision : Nat) (entry : Nat × UInt8) : Prop :=
  entry.1 < numRegisters precision ∧ entry.2.toNat < 64

structure HllSparse.Good (precision : Nat) (s : HllSparse) : Prop where
  distinct : (Assoc.keys s.registers).Nodup
  fits : ∀ entry ∈ s.registers, Fits precision entry

namespace HllSparse

theorem good_withThreshold (precision threshold : Nat) : (withThreshold threshold).Good precision :=
  ⟨List.nodup_nil, by
    intro entry member
    cases member⟩

theorem Good.setRegister {s : HllSparse} (good : s.Good precision) {entry : Nat × UInt8}
    (fits : Fits precision entry) : (s.setRegister entry.1 entry.2).2.Good precision := by
  unfold HllSparse.setRegister
  by_cases zero : entry.2 = 0
  · rw [if_pos zero]
    exact good
  · rw [if_neg zero]
    by_cases low : entry.2 ≤ s.getRegister entry.1
    · rw [if_pos low]
      exact good
    · rw [if_neg low]
      refine ⟨Sorted.nodup_keys_insert good.distinct _ _, fun other member => ?_⟩
      rcases Sorted.mem_insert member with rfl | member
      · exact fits
      · exact good.fits other member

theorem toNat_setRegister (s : HllSparse) (index : Nat) (value : UInt8) (i : Nat) :
    ((s.setRegister index value).2.getRegister i).toNat =
      if index = i then max (s.getRegister i).toNat value.toNat else (s.getRegister i).toNat := by
  unfold setRegister
  by_cases zero : value = 0
  · rw [if_pos zero, zero]
    simp
  · rw [if_neg zero]
    by_cases low : value ≤ s.getRegister index
    · rw [if_pos low]
      have least := UInt8.le_iff_toNat_le.mp low
      show (s.getRegister i).toNat = _
      by_cases own : index = i
      · subst own
        rw [if_pos rfl]
        omega
      · rw [if_neg own]
    · rw [if_neg low]
      have higher : ¬ value.toNat ≤ (s.getRegister index).toNat := fun least =>
        low (UInt8.le_iff_toNat_le.mpr least)
      have read : getRegister { s with registers := Sorted.insert s.registers index value } i =
          if index = i then value else s.getRegister i := by
        unfold getRegister
        rw [Sorted.get_insert]
        by_cases own : index = i
        · simp [own]
        · simp [own]
      rw [read]
      by_cases own : index = i
      · subst own
        rw [if_pos rfl, if_pos rfl]
        omega
      · rw [if_neg own, if_neg own]

theorem top_registers {s : HllSparse} (good : s.Good precision) (i : Nat) :
    top s.registers i = (s.getRegister i).toNat := top_of_distinct good.distinct i

theorem Good.merge {s other : HllSparse} (good : s.Good precision)
    (otherGood : other.Good precision) : (s.merge other).Good precision ∧
      ∀ i, ((s.merge other).getRegister i).toNat =
        max (s.getRegister i).toNat (other.getRegister i).toNat := by
  obtain ⟨merged, high⟩ := foldl_raised (fun s i => (getRegister s i).toNat)
    (fun s index value => (s.setRegister index value).2) (Good precision) (Fits precision)
    (fun s entry good fits => Good.setRegister good fits)
    (fun s entry _ _ i => toNat_setRegister s entry.1 entry.2 i) otherGood.fits good
  refine ⟨merged, fun i => ?_⟩
  rw [← top_registers otherGood]
  exact high i

end HllSparse

theorem HllDense.foldl_setRegister (large : 2 ≤ precision) {entries : List (Nat × UInt8)}
    (distinct : (Assoc.keys entries).Nodup) (fits : ∀ entry ∈ entries, Fits precision entry)
    {d : HllDense} (good : d.Good precision) :
    (entries.foldl (fun d entry => d.setRegister entry.1 entry.2) d).Good precision ∧
      ∀ i, (entries.foldl (fun d entry => d.setRegister entry.1 entry.2) d).getRegister i =
        (Assoc.get entries i).getD (d.getRegister i) := by
  induction entries generalizing d with
  | nil => exact ⟨good, fun i => rfl⟩
  | cons entry entries ih =>
      rw [Assoc.keys, List.map_cons, List.nodup_cons] at distinct
      have here := fits entry List.mem_cons_self
      have room := good.room large here.1
      obtain ⟨kept, written⟩ := ih distinct.2
        (fun other member => fits other (List.mem_cons_of_mem _ member))
        (good.setRegister entry.1 entry.2)
      refine ⟨kept, fun i => ?_⟩
      rw [List.foldl_cons, written i]
      by_cases own : entry.1 = i
      · subst own
        have absent : Assoc.get entries entry.1 = none := Assoc.get_eq_none_iff.mpr distinct.1
        rw [absent, getRegister_setRegister room here.2]
        simp [Assoc.get]
      · rw [getRegister_setRegister_of_ne room entry.2 (Ne.symm own)]
        simp [Assoc.get, own]

theorem HllDense.fromSparse_spec (large : 2 ≤ precision) {s : HllSparse} (good : s.Good precision) :
    (HllDense.fromSparse precision s).Good precision ∧
      ∀ i, (HllDense.fromSparse precision s).getRegister i = s.getRegister i := by
  obtain ⟨kept, written⟩ := foldl_setRegister large good.distinct good.fits (good_new precision)
  refine ⟨kept, fun i => (written i).trans ?_⟩
  rw [getRegister_new]
  rfl

end

section

variable {precision : Nat}

def HllEncoding.Good (precision : Nat) : HllEncoding → Prop
  | .sparse s => s.Good precision
  | .dense d => d.Good precision

/-- What a sketch holds, in either form. -/
structure Holds (precision : Nat) (e : HllEncoding) (regs : Nat → Nat) : Prop where
  good : e.Good precision
  registers : ∀ i < numRegisters precision, (e.getRegister i).toNat = regs i

theorem hashIndex_lt (small : precision ≤ 64) (hash : UInt64) :
    hashIndex precision hash < numRegisters precision := by
  have below : hash.toNat < 2 ^ 64 := hash.toNat_lt
  have split : 2 ^ (64 - precision) * 2 ^ precision = 2 ^ 64 := by
    rw [← Nat.pow_add, Nat.sub_add_cancel small]
  unfold hashIndex numRegisters
  rw [Nat.shiftRight_eq_div_pow]
  apply Nat.div_lt_of_lt_mul
  rw [split]
  exact below

theorem hashRho_le (hash : UInt64) : hashRho precision hash ≤ 64 - precision + 1 :=
  Nat.min_le_right _ _

theorem hashRho_lt (large : 4 ≤ precision) (hash : UInt64) : hashRho precision hash < 64 := by
  have bound := @hashRho_le precision hash
  omega

theorem toNat_hashRho (large : 4 ≤ precision) (hash : UInt64) :
    (UInt8.ofNat (hashRho precision hash)).toNat = hashRho precision hash := by
  have rank := hashRho_lt large hash
  rw [UInt8.toNat_ofNat']
  exact Nat.mod_eq_of_lt (by omega)

theorem fits_hash (large : 4 ≤ precision) (small : precision ≤ 18) (hash : UInt64) :
    Fits precision (hashIndex precision hash, UInt8.ofNat (hashRho precision hash)) := by
  refine ⟨hashIndex_lt (by omega) hash, ?_⟩
  rw [toNat_hashRho large]
  exact hashRho_lt large hash

namespace HllEncoding

/-- Registers do not notice whether a sketch becomes dense. -/
theorem holds_settle (large : 2 ≤ precision) {s : HllSparse} (good : s.Good precision) :
    Holds precision (settle precision s) fun i => (s.getRegister i).toNat := by
  unfold settle
  cases s.shouldConvertToDense with
  | false => exact ⟨good, fun i _ => rfl⟩
  | true =>
      obtain ⟨kept, same⟩ := HllDense.fromSparse_spec large good
      exact ⟨kept, fun i _ => congrArg UInt8.toNat (same i)⟩

theorem holds_add (large : 4 ≤ precision) (small : precision ≤ 18) {e : HllEncoding}
    {regs : Nat → Nat} (holds : Holds precision e regs) (hash : UInt64) :
    Holds precision (e.add precision hash) fun i =>
      if hashIndex precision hash = i then max (regs i) (hashRho precision hash) else regs i := by
  have fits := fits_hash large small hash
  have rank := @toNat_hashRho precision large hash
  cases e with
  | dense d =>
      have room := HllDense.Good.room holds.good (by omega) fits.1
      refine ⟨HllDense.Good.raise holds.good _ _, fun i known => ?_⟩
      have before : (d.getRegister i).toNat = regs i := holds.registers i known
      have raised := HllDense.toNat_raise room fits.2 i
      rw [rank, before] at raised
      exact raised
  | sparse s =>
      have good : s.Good precision := holds.good
      have before : ∀ i < numRegisters precision, (s.getRegister i).toNat = regs i :=
        holds.registers
      unfold HllEncoding.add
      by_cases higher : s.getRegister (hashIndex precision hash) <
          UInt8.ofNat (hashRho precision hash)
      · simp only [if_pos higher]
        have settled := holds_settle (by omega) (good.setRegister fits)
        refine ⟨settled.good, fun i known => ?_⟩
        rw [settled.registers i known, HllSparse.toNat_setRegister, rank, before i known]
      · simp only [if_neg higher]
        refine ⟨good, fun i known => ?_⟩
        have least : ¬ (s.getRegister (hashIndex precision hash)).toNat <
            hashRho precision hash := by
          intro less
          rw [← rank] at less
          exact higher (UInt8.lt_iff_toNat_lt.mpr less)
        show (s.getRegister i).toNat = _
        rw [before i known]
        by_cases own : hashIndex precision hash = i
        · subst own
          rw [before _ known] at least
          rw [if_pos rfl]
          omega
        · rw [if_neg own]

theorem get_map_range (f : Nat → UInt8) {n i : Nat} (known : i < n) :
    Assoc.get ((List.range n).map fun j => (j, f j)) i = some (f i) := by
  have keys : Assoc.keys ((List.range n).map fun j => (j, f j)) = List.range n := by
    unfold Assoc.keys
    rw [List.map_map]
    exact List.map_id _
  refine Assoc.get_of_mem (p := (i, f i)) ?_ ?_
  · rw [keys]
    exact List.nodup_range
  · exact List.mem_map.mpr ⟨i, List.mem_range.mpr known, rfl⟩

theorem mergeInto_spec (large : 2 ≤ precision) {d : HllDense} (good : d.Good precision)
    {other : HllEncoding} {regs : Nat → Nat} (holds : Holds precision other regs) :
    (mergeInto precision d other).Good precision ∧
      ∀ i < numRegisters precision, ((mergeInto precision d other).getRegister i).toNat =
        max (d.getRegister i).toNat (regs i) := by
  have raising : ∀ entries : List (Nat × UInt8), (∀ entry ∈ entries, Fits precision entry) →
      (entries.foldl (fun d entry => d.raise entry.1 entry.2) d).Good precision ∧
      ∀ i, ((entries.foldl (fun d entry => d.raise entry.1 entry.2) d).getRegister i).toNat =
        max (d.getRegister i).toNat (top entries i) := fun entries fits =>
    foldl_raised (fun d i => (HllDense.getRegister d i).toNat) HllDense.raise
      (HllDense.Good precision) (Fits precision) (fun d entry good _ => good.raise _ _)
      (fun d entry good fits i => HllDense.toNat_raise (good.room large fits.1) fits.2 i) fits good
  cases other with
  | sparse s =>
      have otherGood : s.Good precision := holds.good
      obtain ⟨kept, high⟩ := raising s.registers otherGood.fits
      refine ⟨kept, fun i known => (high i).trans ?_⟩
      rw [HllSparse.top_registers otherGood]
      exact congrArg _ (holds.registers i known)
  | dense d' =>
      have all : ∀ entry ∈ (List.range (numRegisters precision)).map
          (fun i => (i, d'.getRegister i)), Fits precision entry := by
        intro entry member
        obtain ⟨i, known, rfl⟩ := List.mem_map.mp member
        exact ⟨List.mem_range.mp known, d'.getRegister_lt i⟩
      obtain ⟨kept, high⟩ := raising _ all
      have loop : mergeInto precision d (dense d') =
          ((List.range (numRegisters precision)).map fun i => (i, d'.getRegister i)).foldl
            (fun d entry => d.raise entry.1 entry.2) d := by
        rw [List.foldl_map]
        rfl
      rw [loop]
      refine ⟨kept, fun i known => (high i).trans ?_⟩
      have distinct : (Assoc.keys ((List.range (numRegisters precision)).map
          fun i => (i, d'.getRegister i))).Nodup := by
        unfold Assoc.keys
        rw [List.map_map]
        exact List.nodup_range.map_on fun _ _ _ _ same => same
      rw [top_of_distinct distinct, get_map_range d'.getRegister known]
      exact congrArg _ (holds.registers i known)

theorem holds_merge (large : 2 ≤ precision) {e other : HllEncoding} {regs otherRegs : Nat → Nat}
    (holds : Holds precision e regs) (otherHolds : Holds precision other otherRegs) :
    Holds precision (e.merge precision other) fun i => max (regs i) (otherRegs i) := by
  cases e with
  | dense d =>
      obtain ⟨kept, high⟩ := mergeInto_spec large holds.good otherHolds
      refine ⟨kept, fun i known => (high i known).trans ?_⟩
      exact congrArg (max · _) (holds.registers i known)
  | sparse s =>
      have good : s.Good precision := holds.good
      cases other with
      | dense d =>
          obtain ⟨dense, same⟩ := HllDense.fromSparse_spec large good
          obtain ⟨kept, high⟩ := mergeInto_spec large dense otherHolds
          refine ⟨kept, fun i known => (high i known).trans ?_⟩
          rw [same]
          exact congrArg (max · _) (holds.registers i known)
      | sparse s' =>
          obtain ⟨merged, high⟩ := good.merge otherHolds.good
          have settled := holds_settle large merged
          refine ⟨settled.good, fun i known => (settled.registers i known).trans ?_⟩
          rw [high i]
          exact congrArg₂ max (holds.registers i known) (otherHolds.registers i known)

end HllEncoding

end

namespace Sketch

variable {precision : Nat} (hash : Bytes → UInt64)

def elements : Sketch → Finset Bytes
  | empty _ => ∅
  | add sketch value => insert value sketch.elements
  | merge sketch other => sketch.elements ∪ other.elements

/-- Register `i` of a sketch, in whichever form. -/
def register (precision : Nat) (sketch : Sketch) (i : Nat) : Nat :=
  ((sketch.eval precision hash).getRegister i).toNat

variable {hash}

theorem holds_eval (large : 4 ≤ precision) (small : precision ≤ 18) (sketch : Sketch) :
    Holds precision (sketch.eval precision hash)
      (registersOf precision hash sketch.elements) := by
  induction sketch with
  | empty threshold =>
      exact ⟨HllSparse.good_withThreshold precision threshold, fun i _ => rfl⟩
  | add sketch value ih =>
      have added := HllEncoding.holds_add large small ih (hash value)
      refine ⟨added.good, fun i known => (added.registers i known).trans ?_⟩
      exact (registersOf_insert value sketch.elements i).symm
  | merge sketch other ih otherIh =>
      have merged := HllEncoding.holds_merge (by omega) ih otherIh
      refine ⟨merged.good, fun i known => (merged.registers i known).trans ?_⟩
      exact (registersOf_union sketch.elements other.elements i).symm

theorem register_eq (large : 4 ≤ precision) (small : precision ≤ 18) (sketch : Sketch) {i : Nat}
    (known : i < numRegisters precision) :
    sketch.register hash precision i = registersOf precision hash sketch.elements i :=
  (sketch.holds_eval large small).registers i known

/-- The register of an index, read in either form, is the maximum of the ranks of the elements
whose hash selects it. So it depends on the set of elements alone, whatever the order and nesting
of the additions and merges. -/
theorem register_spec (precision : Nat) (large : 4 ≤ precision) (small : precision ≤ 18)
    (hash : Bytes → UInt64) :
    (∀ (sketch : Sketch) (i : Nat), i < numRegisters precision →
      sketch.register hash precision i = registersOf precision hash sketch.elements i) ∧
    (∀ sketch other : Sketch, sketch.elements = other.elements → ∀ i < numRegisters precision,
      sketch.register hash precision i = other.register hash precision i) ∧
    (∀ (a b c : Sketch) (v w : Bytes) (i : Nat), i < numRegisters precision →
      ((a.add v).add w).register hash precision i = ((a.add w).add v).register hash precision i ∧
      ((a.add v).add v).register hash precision i = (a.add v).register hash precision i ∧
      (a.merge b).register hash precision i = (b.merge a).register hash precision i ∧
      ((a.merge b).merge c).register hash precision i =
        (a.merge (b.merge c)).register hash precision i ∧
      (a.merge a).register hash precision i = a.register hash precision i ∧
      (a.merge b).register hash precision i =
        registersOf precision hash (a.elements ∪ b.elements) i) ∧
    ∀ h, hashRho precision h ≤ 64 - precision + 1 ∧ 64 - precision + 1 < 2 ^ 6 := by
  have determined : ∀ sketch other : Sketch, sketch.elements = other.elements →
      ∀ i < numRegisters precision,
        sketch.register hash precision i = other.register hash precision i := by
    intro sketch other same i known
    rw [sketch.register_eq large small known, other.register_eq large small known, same]
  refine ⟨fun sketch i known => sketch.register_eq large small known, determined, ?_, ?_⟩
  · intro a b c v w i known
    refine ⟨determined _ _ ?_ i known, determined _ _ ?_ i known, determined _ _ ?_ i known,
      determined _ _ ?_ i known, determined _ _ ?_ i known, ?_⟩
    · exact Finset.insert_comm w v a.elements
    · exact Finset.insert_idem v a.elements
    · exact Finset.union_comm a.elements b.elements
    · exact Finset.union_assoc a.elements b.elements c.elements
    · exact Finset.union_self a.elements
    · exact (a.merge b).register_eq large small known
  · intro h
    exact ⟨hashRho_le h, by omega⟩

/-- Two additions and a merge at precision four. -/
theorem register_spec_four : (((empty 0).add [1]).merge ((empty 3000).add [2])).register
    (fun v => UInt64.ofNat v.length) 4 0 =
      registersOf 4 (fun v => UInt64.ofNat v.length) ({[1]} ∪ {[2]}) 0 :=
  (register_spec 4 (by decide) (by decide) fun v => UInt64.ofNat v.length).1
    (((empty 0).add [1]).merge ((empty 3000).add [2])) 0 (by decide)

end Sketch

end Zumic.Database.HyperLogLog
