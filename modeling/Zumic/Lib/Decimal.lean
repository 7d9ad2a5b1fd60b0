/- Decimal numerals: rendering naturals and signed 64-bit integers, and reading them back. -/

import Zumic.Lib.ByteString
import Mathlib.Data.Nat.Digits.Lemmas

namespace Zumic.Lib.Decimal

open Lib.ByteString

/-- The numeral of a digit. -/
def digitByte (d : Nat) : UInt8 := UInt8.ofNat (48 + d)

def isDigit (b : UInt8) : Bool := 48 ≤ b && b ≤ 57

/-- The decimal numeral of `n`, without leading zeros. -/
def renderNat (n : Nat) : Bytes :=
  if n = 0 then [48] else ((Nat.digits 10 n).reverse.map digitByte)

/-- The decimal numeral of a signed integer. -/
def renderInt (i : Int) : Bytes :=
  if i < 0 then 45 :: renderNat i.natAbs else renderNat i.natAbs

/-- Reads a non-empty run of digits. -/
def readNat (b : Bytes) : Option Nat :=
  if b ≠ [] ∧ b.all isDigit then some (b.foldl (fun acc x => acc * 10 + (x.toNat - 48)) 0)
  else none

/-- Reads an optionally signed numeral in the 64-bit range. -/
def readI64 : Bytes → Option Int64
  | 45 :: b => (readNat b).bind fun n =>
      if n ≤ 2 ^ 63 then some (Int64.ofInt (-n)) else none
  | 43 :: b => (readNat b).bind fun n =>
      if n < 2 ^ 63 then some (Int64.ofInt n) else none
  | b => (readNat b).bind fun n =>
      if n < 2 ^ 63 then some (Int64.ofInt n) else none

theorem toNat_digitByte {d : Nat} (small : d < 10) : (digitByte d).toNat = 48 + d := by
  simp only [digitByte, UInt8.toNat_ofNat']
  omega

theorem isDigit_digitByte {d : Nat} (small : d < 10) : isDigit (digitByte d) = true := by
  simp only [isDigit, Bool.and_eq_true, decide_eq_true_eq, UInt8.le_iff_toNat_le,
    toNat_digitByte small]
  exact ⟨by simp, by simp; omega⟩

theorem isDigit_renderNat (n : Nat) : ∀ b ∈ renderNat n, isDigit b = true := by
  intro b hb
  unfold renderNat at hb
  split at hb
  · simp only [List.mem_singleton] at hb
    subst hb
    rfl
  · simp only [List.mem_map, List.mem_reverse] at hb
    obtain ⟨d, hd, rfl⟩ := hb
    exact isDigit_digitByte (Nat.digits_lt_base (by norm_num) hd)

theorem renderNat_ne_nil (n : Nat) : renderNat n ≠ [] := by
  unfold renderNat
  split
  · simp
  · rename_i nonzero
    simpa using Nat.digits_ne_nil_iff_ne_zero.mpr nonzero

theorem foldl_digits (l : List Nat) (small : ∀ d ∈ l, d < 10) :
    (l.reverse.map digitByte).foldl (fun acc x => acc * 10 + (x.toNat - 48)) 0 =
      Nat.ofDigits 10 l := by
  induction l with
  | nil => rfl
  | cons d l ih =>
      rw [List.reverse_cons, List.map_append, List.foldl_append,
        ih (fun e he => small e (List.mem_cons_of_mem _ he))]
      simp only [List.map_cons, List.map_nil, List.foldl_cons, List.foldl_nil,
        toNat_digitByte (small d (by simp)), Nat.ofDigits_cons]
      omega

theorem readNat_renderNat (n : Nat) : readNat (renderNat n) = some n := by
  have digits : (renderNat n).all isDigit = true :=
    List.all_eq_true.mpr (isDigit_renderNat n)
  unfold readNat
  rw [if_pos ⟨renderNat_ne_nil n, digits⟩]
  unfold renderNat
  split
  · simp_all
  · rw [foldl_digits _ (fun d hd => Nat.digits_lt_base (by norm_num) hd), Nat.ofDigits_digits]

theorem readNat_lt_pow {b : Bytes} {n : Nat} (read : readNat b = some n) :
    n < 10 ^ b.length := by
  unfold readNat at read
  split at read
  · rename_i ok
    obtain rfl := Option.some.inj read
    have bound : ∀ (l : Bytes) (acc : Nat), l.all isDigit = true →
        l.foldl (fun acc x => acc * 10 + (x.toNat - 48)) acc < (acc + 1) * 10 ^ l.length := by
      intro l
      induction l with
      | nil => intro acc _; simp
      | cons x l ih =>
          intro acc all
          simp only [List.all_cons, Bool.and_eq_true] at all
          have digit : x.toNat - 48 ≤ 9 := by
            have hx := all.1
            simp only [isDigit, Bool.and_eq_true, decide_eq_true_eq,
              UInt8.le_iff_toNat_le] at hx
            have := hx.2
            simp at this
            omega
          have step := ih (acc * 10 + (x.toNat - 48)) all.2
          simp only [List.foldl_cons, List.length_cons]
          refine lt_of_lt_of_le step ?_
          rw [Nat.pow_succ, Nat.mul_comm (10 ^ l.length) 10, ← Nat.mul_assoc]
          exact Nat.mul_le_mul_right _ (by omega)
    simpa using bound b 0 ok.2
  · exact absurd read (by simp)

theorem length_renderNat_le {b : Bytes} {n : Nat} (read : readNat b = some n) :
    (renderNat n).length ≤ b.length := by
  have nonempty : b ≠ [] := by
    rintro rfl
    simp [readNat] at read
  have small := readNat_lt_pow read
  unfold renderNat
  split
  · simpa [Nat.one_le_iff_ne_zero] using nonempty
  · simpa using (Nat.digits_length_le_iff (by norm_num) n).mpr small

theorem length_renderNat_mono {m n : Nat} (le : m ≤ n) :
    (renderNat m).length ≤ (renderNat n).length := by
  unfold renderNat
  split
  · split
    · simp
    · rename_i nonzero
      have := List.length_pos_iff.mpr (Nat.digits_ne_nil_iff_ne_zero (b := 10).mpr nonzero)
      simpa [Nat.one_le_iff_ne_zero, Nat.pos_iff_ne_zero] using this
  · rw [if_neg (by omega)]
    simpa using Nat.le_length_digits_le 10 m n le

theorem readI64_of_digit {x : UInt8} {b : Bytes} (digit : isDigit x = true) :
    readI64 (x :: b) = (readNat (x :: b)).bind fun n =>
      if n < 2 ^ 63 then some (Int64.ofInt n) else none := by
  have minus : x ≠ 45 := by rintro rfl; simp [isDigit] at digit
  have plus : x ≠ 43 := by rintro rfl; simp [isDigit] at digit
  simp [readI64, minus, plus]

theorem readI64_renderNat {n : Nat} (small : n < 2 ^ 63) :
    readI64 (renderNat n) = some (Int64.ofInt n) := by
  obtain ⟨x, b, shape⟩ := List.exists_cons_of_ne_nil (renderNat_ne_nil n)
  have digit : isDigit x = true := isDigit_renderNat n x (by simp [shape])
  rw [shape, readI64_of_digit digit, ← shape, readNat_renderNat]
  exact if_pos small

theorem lt_of_readI64_renderNat {n : Nat} {i : Int64} (read : readI64 (renderNat n) = some i) :
    n < 2 ^ 63 := by
  obtain ⟨x, b, shape⟩ := List.exists_cons_of_ne_nil (renderNat_ne_nil n)
  have digit : isDigit x = true := isDigit_renderNat n x (by simp [shape])
  rw [shape, readI64_of_digit digit, ← shape, readNat_renderNat, Option.bind_some] at read
  split at read
  · assumption
  · cases read

theorem readI64_renderInt (i : Int64) : readI64 (renderInt i.toInt) = some i := by
  have low := Int64.le_toInt i
  have high := Int64.toInt_lt i
  unfold renderInt
  split
  · rename_i negative
    have cast : -(i.toInt.natAbs : Int) = i.toInt := by omega
    simp only [readI64, readNat_renderNat, Option.bind_some, cast, Int64.ofInt_toInt]
    rw [if_pos (by omega)]
  · have cast : (i.toInt.natAbs : Int) = i.toInt := by omega
    rw [readI64_renderNat (by omega), cast, Int64.ofInt_toInt]

theorem toInt_ofInt_neg {n : Nat} (small : n ≤ 2 ^ 63) :
    (Int64.ofInt (-n)).toInt = -n :=
  Int64.toInt_ofInt_of_le (by omega) (by omega)

theorem toInt_ofInt_nat {n : Nat} (small : n < 2 ^ 63) :
    (Int64.ofInt n).toInt = n :=
  Int64.toInt_ofInt_of_le (by omega) (by omega)

theorem length_renderInt_le_of_nat {b : Bytes} {i : Int64}
    (read : ((readNat b).bind fun n =>
      if n < 2 ^ 63 then some (Int64.ofInt n) else none) = some i) :
    (renderInt i.toInt).length ≤ b.length := by
  obtain ⟨n, hn, image⟩ := Option.bind_eq_some_iff.mp read
  split at image
  · rename_i small
    obtain rfl := Option.some.inj image
    rw [toInt_ofInt_nat small, renderInt, if_neg (by omega)]
    exact length_renderNat_le hn
  · exact absurd image (by simp)

theorem length_renderInt_le {b : Bytes} {i : Int64} (read : readI64 b = some i) :
    (renderInt i.toInt).length ≤ b.length := by
  unfold readI64 at read
  split at read
  · rename_i b
    obtain ⟨n, hn, image⟩ := Option.bind_eq_some_iff.mp read
    split at image
    · rename_i small
      obtain rfl := Option.some.inj image
      rw [toInt_ofInt_neg small]
      have digits := length_renderNat_le hn
      unfold renderInt
      split <;> simp <;> omega
    · exact absurd image (by simp)
  · exact (length_renderInt_le_of_nat read).trans (by simp)
  · exact length_renderInt_le_of_nat read

/-! The same numerals without a bound, and the bound apart. -/

/-- Reads an optionally signed numeral of any size. -/
def readInt : Bytes → Option Int
  | 45 :: b => (readNat b).map fun n : Nat => -(n : Int)
  | 43 :: b => (readNat b).map fun n : Nat => (n : Int)
  | b => (readNat b).map fun n : Nat => (n : Int)

def FitsI64 (i : Int) : Prop := -2 ^ 63 ≤ i ∧ i < 2 ^ 63

instance (i : Int) : Decidable (FitsI64 i) := inferInstanceAs (Decidable (_ ∧ _))

def toI64 (i : Int) : Option Int64 := if FitsI64 i then some (Int64.ofInt i) else none

theorem fitsI64_toInt (n : Int64) : FitsI64 n.toInt := ⟨Int64.le_toInt n, Int64.toInt_lt n⟩

theorem toI64_eq_some_iff {i : Int} {n : Int64} : toI64 i = some n ↔ i = n.toInt := by
  unfold toI64
  split
  · rename_i fits
    rw [Option.some.injEq]
    constructor
    · rintro rfl
      exact (Int64.toInt_ofInt_of_le fits.1 fits.2).symm
    · rintro rfl
      exact Int64.ofInt_toInt n
  · rename_i beyond
    constructor
    · intro same
      cases same
    · rintro rfl
      exact absurd (fitsI64_toInt n) beyond

theorem toI64_nat (n : Nat) :
    toI64 n = if n < 2 ^ 63 then some (Int64.ofInt n) else none := by
  have fits : FitsI64 n ↔ n < 2 ^ 63 := by
    unfold FitsI64
    omega
  simp only [toI64, fits]

theorem toI64_neg (n : Nat) :
    toI64 (-n) = if n ≤ 2 ^ 63 then some (Int64.ofInt (-n)) else none := by
  have fits : FitsI64 (-n) ↔ n ≤ 2 ^ 63 := by
    unfold FitsI64
    omega
  simp only [toI64, fits]

theorem bind_toI64_nat (found : Option Nat) :
    (found.bind fun n => if n < 2 ^ 63 then some (Int64.ofInt n) else none) =
      (found.map fun n : Nat => (n : Int)).bind toI64 := by
  cases found with
  | none => rfl
  | some n => rw [Option.map_some, Option.bind_some, Option.bind_some, toI64_nat]

theorem bind_toI64_neg (found : Option Nat) :
    (found.bind fun n => if n ≤ 2 ^ 63 then some (Int64.ofInt (-n)) else none) =
      (found.map fun n : Nat => -(n : Int)).bind toI64 := by
  cases found with
  | none => rfl
  | some n => rw [Option.map_some, Option.bind_some, Option.bind_some, toI64_neg]

theorem readI64_eq (b : Bytes) : readI64 b = (readInt b).bind toI64 := by
  unfold readI64 readInt
  split
  · exact bind_toI64_neg _
  · exact bind_toI64_nat _
  · exact bind_toI64_nat _

theorem isDigit_of_readNat {b : Bytes} {n : Nat} (read : readNat b = some n) :
    ∀ x ∈ b, isDigit x = true := by
  unfold readNat at read
  split at read
  · rename_i digits
    exact List.all_eq_true.mp digits.2
  · cases read

theorem ascii_of_readInt {b : Bytes} {i : Int} (read : readInt b = some i) :
    ∀ x ∈ b, x < 0x80 := by
  have small : ∀ x : UInt8, isDigit x = true → x < 0x80 := by
    intro x digit
    simp only [isDigit, Bool.and_eq_true, decide_eq_true_eq, UInt8.le_iff_toNat_le,
      UInt8.lt_iff_toNat_lt] at digit ⊢
    exact lt_of_le_of_lt digit.2 (by decide)
  unfold readInt at read
  split at read
  all_goals
    obtain ⟨n, digits, -⟩ := Option.map_eq_some_iff.mp read
    have plain := isDigit_of_readNat digits
  · intro x member
    rcases List.mem_cons.mp member with rfl | member
    · decide
    · exact small x (plain x member)
  · intro x member
    rcases List.mem_cons.mp member with rfl | member
    · decide
    · exact small x (plain x member)
  · intro x member
    exact small x (plain x member)

/-! Digits that are pushed one by one onto a number that has a limit. -/

theorem le_foldl_digits (digits : Bytes) (start : Nat) :
    start ≤ digits.foldl (fun acc x => acc * 10 + (x.toNat - 48)) start := by
  induction digits generalizing start with
  | nil => exact le_refl start
  | cons b rest ih =>
      have first : start ≤ start * 10 + (b.toNat - 48) := by omega
      exact first.trans (ih _)

theorem push_eq_ok_iff {ε : Type} {bad high : ε} {limit : Nat} (r : Nat) (b : UInt8) (n : Nat) :
    (if isDigit b then
        if r * 10 + (b.toNat - 48) < limit then Except.ok (r * 10 + (b.toNat - 48))
        else .error high
      else .error bad) = .ok n ↔
      isDigit b = true ∧ n < limit ∧ r * 10 + (b.toNat - 48) = n := by
  split
  · rename_i digit
    split
    · rename_i fits
      rw [Except.ok.injEq]
      constructor
      · rintro rfl
        exact ⟨digit, fits, rfl⟩
      · rintro ⟨-, -, same⟩
        exact same
    · rename_i beyond
      constructor
      · intro same
        cases same
      · rintro ⟨-, fits, rfl⟩
        exact absurd fits beyond
  · rename_i other
    constructor
    · intro same
      cases same
    · rintro ⟨digit, -⟩
      exact absurd digit other

/-- The checks on the way are one check of the whole number. -/
theorem foldlM_push {ε : Type} {push : Nat → UInt8 → Except ε Nat} {limit : Nat}
    (pushes : ∀ r b n, push r b = .ok n ↔
      isDigit b = true ∧ n < limit ∧ r * 10 + (b.toNat - 48) = n)
    {digits : Bytes} {start n : Nat} (small : start < limit) :
    digits.foldlM push start = .ok n ↔
      (∀ b ∈ digits, isDigit b = true) ∧ n < limit ∧
        digits.foldl (fun acc x => acc * 10 + (x.toNat - 48)) start = n := by
  induction digits generalizing start with
  | nil =>
      simp only [List.foldlM_nil, List.not_mem_nil, false_implies, implies_true, true_and,
        List.foldl_nil]
      constructor
      · intro same
        cases same
        exact ⟨small, rfl⟩
      · rintro ⟨-, rfl⟩
        rfl
  | cons b rest ih =>
      rw [List.foldlM_cons, List.foldl_cons, List.forall_mem_cons]
      cases pushed : push start b with
      | ok next =>
          obtain ⟨digit, fits, rfl⟩ := (pushes start b next).mp pushed
          simp only [digit, true_and]
          exact ih fits
      | error e =>
          constructor
          · intro same
            cases same
          · rintro ⟨⟨digit, -⟩, bound, total⟩
            have grows := le_foldl_digits rest (start * 10 + (b.toNat - 48))
            have taken := (pushes start b _).mpr ⟨digit, by omega, rfl⟩
            rw [pushed] at taken
            cases taken

end Zumic.Lib.Decimal
