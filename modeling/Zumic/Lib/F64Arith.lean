/- Arithmetic on double-precision numbers: the exact result, rounded to the nearest double. Their
rational values, and how these go with the order of the bit patterns. -/

import Zumic.Lib.F64

namespace Zumic.Lib.F64

def nan : F64 := ofMagnitude false (0x7FF8 * 2 ^ 48)

def isZero (f : F64) : Bool := f.magnitude = 0

/-- The value of a finite double, as an integer and a denominator. -/
def fraction (f : F64) : Int × Nat :=
  let (num, den) := f.ratio
  (if f.isSignNegative then -(num : Int) else num, den)

def neg (f : F64) : F64 := ofMagnitude (!f.isSignNegative) f.magnitude

def abs (f : F64) : F64 := ofMagnitude false f.magnitude

/-- A sum of zeros is negative if both are. -/
def add (f g : F64) : F64 :=
  if f.isNaN || g.isNaN then nan
  else if f.isInfinite then
    if g.isInfinite && f.isSignNegative != g.isSignNegative then nan else f
  else if g.isInfinite then g
  else
    let (a, b) := f.fraction
    let (c, d) := g.fraction
    let num : Int := a * d + c * b
    if num = 0 then ofMagnitude (f.isSignNegative && g.isSignNegative) 0
    else ofRatio (num < 0) num.natAbs (b * d)

def sub (f g : F64) : F64 := add f (neg g)

def mul (f g : F64) : F64 :=
  let negative := f.isSignNegative != g.isSignNegative
  if f.isNaN || g.isNaN then nan
  else if f.isInfinite || g.isInfinite then
    if f.isZero || g.isZero then nan else ofMagnitude negative (0x7FF * 2 ^ 52)
  else ofRatio negative (f.ratio.1 * g.ratio.1) (f.ratio.2 * g.ratio.2)

def div (f g : F64) : F64 :=
  let negative := f.isSignNegative != g.isSignNegative
  if f.isNaN || g.isNaN then nan
  else if f.isInfinite then
    if g.isInfinite then nan else ofMagnitude negative (0x7FF * 2 ^ 52)
  else if g.isInfinite then ofMagnitude negative 0
  else if g.isZero then
    if f.isZero then nan else ofMagnitude negative (0x7FF * 2 ^ 52)
  else ofRatio negative (f.ratio.1 * g.ratio.2) (f.ratio.2 * g.ratio.1)

/-- Nothing is below NaN or above it. -/
def lt (f g : F64) : Bool := !f.isNaN && !g.isNaN && f.orderKey < g.orderKey

def epsilon : F64 := ofRatio false 1 (2 ^ 52)

example : div (ofInt 1) (ofInt 3) = ⟨0x3FD5555555555555⟩ ∧
    add (ofRatio false 1 10) (ofRatio false 2 10) = ⟨0x3FD3333333333334⟩ := by decide +kernel

/-- The value of a finite double. The patterns that are no numbers come beyond all of these. -/
def toRat (f : F64) : ℚ := f.fraction.1 / f.fraction.2

/-- The absolute value that a magnitude stands for. -/
private def valueOf (m : Nat) : ℚ :=
  if m / 2 ^ 52 = 0 then (m : ℚ) * 2 ^ (-1074 : ℤ)
  else ((m % 2 ^ 52 + 2 ^ 52 : ℕ) : ℚ) * 2 ^ (((m / 2 ^ 52 : ℕ) : ℤ) - 1075)

theorem scaled_eq (m : Nat) (e : Int) :
    ((m * 2 ^ e.toNat : ℕ) : ℚ) / ((2 ^ (-e).toNat : ℕ) : ℚ) = m * 2 ^ e := by
  obtain ⟨k, rfl | rfl⟩ := e.eq_nat_or_neg
  · simp
  · simp [div_eq_mul_inv]

theorem toRat_eq (f : F64) :
    f.toRat = if f.isSignNegative then -valueOf f.magnitude else valueOf f.magnitude := by
  have absolute : ((f.ratio.1 : ℕ) : ℚ) / (f.ratio.2 : ℕ) = valueOf f.magnitude := by
    simp only [ratio, decompose, valueOf]
    split
    · exact scaled_eq _ _
    · exact scaled_eq _ _
  rw [toRat, fraction, ← absolute]
  dsimp only
  split
  · rw [Int.cast_neg, Int.cast_natCast, neg_div]
  · rw [Int.cast_natCast]

section

/-- The next magnitude has one more unit in the last place, or the next exponent. -/
theorem valueOf_lt_succ (m : Nat) : valueOf m < valueOf (m + 1) := by
  have scale : ∀ e : ℤ, (0 : ℚ) < 2 ^ e := fun e => zpow_pos (by norm_num) e
  by_cases carry : m % 2 ^ 52 + 1 = 2 ^ 52
  · have next : (m + 1) / 2 ^ 52 = m / 2 ^ 52 + 1 := by omega
    have first : (m + 1) % 2 ^ 52 = 0 := by omega
    rw [valueOf, valueOf, next, first, if_neg (Nat.succ_ne_zero _)]
    split
    · rename_i low
      have last : m + 1 = 2 ^ 52 := by omega
      rw [low]
      have unit := scale (-1074)
      have below : (m : ℚ) < 2 ^ 52 := by exact_mod_cast (by omega : m < 2 ^ 52)
      have step := mul_lt_mul_of_pos_right below unit
      norm_num at step ⊢
      exact step
    · have unit := scale (((m / 2 ^ 52 : ℕ) : ℤ) - 1075)
      have double : (2 : ℚ) ^ (((m / 2 ^ 52 + 1 : ℕ) : ℤ) - 1075) =
          2 ^ (((m / 2 ^ 52 : ℕ) : ℤ) - 1075) * 2 := by
        rw [← zpow_add_one₀ (by norm_num)]
        congr 1
        push_cast
        ring
      have below : ((m % 2 ^ 52 + 2 ^ 52 : ℕ) : ℚ) < 2 * 2 ^ 52 := by
        exact_mod_cast (by omega : m % 2 ^ 52 + 2 ^ 52 < 2 * 2 ^ 52)
      have step := mul_lt_mul_of_pos_right below unit
      rw [double]
      push_cast at step ⊢
      linarith
  · have same : (m + 1) / 2 ^ 52 = m / 2 ^ 52 := by omega
    have unit' : (m + 1) % 2 ^ 52 = m % 2 ^ 52 + 1 := by omega
    rw [valueOf, valueOf, same, unit']
    split
    · apply mul_lt_mul_of_pos_right _ (scale _)
      exact_mod_cast Nat.lt_succ_self m
    · apply mul_lt_mul_of_pos_right _ (scale _)
      exact_mod_cast (by omega : m % 2 ^ 52 + 2 ^ 52 < m % 2 ^ 52 + 1 + 2 ^ 52)

theorem strictMono_valueOf : StrictMono valueOf := strictMono_nat_of_lt_succ valueOf_lt_succ

theorem valueOf_zero : valueOf 0 = 0 := by simp [valueOf]

theorem valueOf_nonneg (m : Nat) : 0 ≤ valueOf m := by
  rw [← valueOf_zero]
  exact strictMono_valueOf.monotone (Nat.zero_le m)

theorem abs_toRat (f : F64) : |f.toRat| = valueOf f.magnitude := by
  rw [toRat_eq]
  split
  · rw [abs_neg, abs_of_nonneg (valueOf_nonneg _)]
  · rw [abs_of_nonneg (valueOf_nonneg _)]

variable {f g : F64}

theorem toRat_le_iff (number : f.isNaN = false) (number' : g.isNaN = false) :
    f.toRat ≤ g.toRat ↔ f.orderKey ≤ g.orderKey := by
  have mono := strictMono_valueOf.le_iff_le (a := f.magnitude) (b := g.magnitude)
  have mono' := strictMono_valueOf.le_iff_le (a := g.magnitude) (b := f.magnitude)
  have low := valueOf_nonneg f.magnitude
  have low' := valueOf_nonneg g.magnitude
  rw [toRat_eq, toRat_eq, orderKey, orderKey, number, number', if_neg Bool.false_ne_true,
    if_neg Bool.false_ne_true]
  by_cases negative : f.isSignNegative = true
  · rw [if_pos negative, if_pos negative]
    by_cases negative' : g.isSignNegative = true
    · rw [if_pos negative', if_pos negative', neg_le_neg_iff, mono']
      omega
    · rw [if_neg negative', if_neg negative']
      exact iff_of_true (by linarith) (by omega)
  · rw [if_neg negative, if_neg negative]
    by_cases negative' : g.isSignNegative = true
    · rw [if_pos negative', if_pos negative']
      -- A number that is not negative is below a negative one only if both are zeros.
      constructor
      · intro below
        have zero : f.magnitude ≤ 0 := strictMono_valueOf.le_iff_le.mp (by
          rw [valueOf_zero]
          linarith)
        have zero' : g.magnitude ≤ 0 := strictMono_valueOf.le_iff_le.mp (by
          rw [valueOf_zero]
          linarith)
        omega
      · intro below
        have zero : f.magnitude = 0 := by omega
        have zero' : g.magnitude = 0 := by omega
        rw [zero, zero', valueOf_zero, neg_zero]
    · rw [if_neg negative', if_neg negative', mono]
      omega

theorem abs_toRat_lt_of_isNaN (number : f.isNaN = false) (none' : g.isNaN = true) :
    |f.toRat| < |g.toRat| := by
  rw [abs_toRat, abs_toRat]
  apply strictMono_valueOf
  simp only [isNaN, decide_eq_false_iff_not, decide_eq_true_eq] at number none'
  omega

end

end Zumic.Lib.F64
