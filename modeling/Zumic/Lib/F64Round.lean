/- Rounding to a double keeps the order of the numbers that are rounded. -/

import Mathlib.Algebra.Order.Field.Power
import Mathlib.Tactic.Positivity
import Zumic.Lib.F64Arith

namespace Zumic.Lib.F64

/-- A quotient divided by a power of two, as `ofRatio` writes it. -/
private def shifted (num den : Nat) (e : Int) : Nat × Nat :=
  (num * 2 ^ (-e).toNat, den * 2 ^ e.toNat)

theorem shifted_eq (num den : Nat) (e : Int) :
    ((shifted num den e).1 : ℚ) / (shifted num den e).2 = (num / den : ℚ) / 2 ^ e := by
  obtain ⟨k, rfl | rfl⟩ := e.eq_nat_or_neg
  · simp [shifted, div_div]
  · simp [shifted, div_mul_eq_mul_div]

theorem shifted_pos {num den : Nat} (positive : 0 < den) (e : Int) :
    0 < (shifted num den e).2 :=
  Nat.mul_pos positive (Nat.two_pow_pos _)

private def exponent (num den : Nat) : Int :=
  let k : Int := (Nat.log2 num : Int) - Nat.log2 den
  let wide := shifted num den (k - 53)
  if wide.1 / wide.2 < 2 ^ 53 then k - 53 else k - 52

private def rounded (num den : Nat) : Nat :=
  let e := max (exponent num den) (-1074)
  (e + 1074).toNat * 2 ^ 52 + divRound (shifted num den e).1 (shifted num den e).2

theorem ofRatio_eq {num : Nat} (some' : num ≠ 0) (negative : Bool) (den : Nat) :
    ofRatio negative num den = ofMagnitude negative (min (rounded num den) (0x7FF * 2 ^ 52)) := by
  rw [ofRatio, if_neg some']
  rfl

/-- The leading bits of the two numbers tell the size of the quotient up to a factor of two. -/
theorem quotient_bounds {num den : Nat} (some' : num ≠ 0) (positive : 0 < den) :
    2⁻¹ < (num / den : ℚ) / 2 ^ ((Nat.log2 num : Int) - Nat.log2 den) ∧
      (num / den : ℚ) / 2 ^ ((Nat.log2 num : Int) - Nat.log2 den) < 2 := by
  have numLow : (2 ^ Nat.log2 num : ℚ) ≤ num := by exact_mod_cast Nat.log2_self_le some'
  have numHigh : (num : ℚ) < 2 ^ (Nat.log2 num + 1) := by exact_mod_cast Nat.lt_log2_self
  have denLow : (2 ^ Nat.log2 den : ℚ) ≤ den := by
    exact_mod_cast Nat.log2_self_le (by omega : den ≠ 0)
  have denHigh : (den : ℚ) < 2 ^ (Nat.log2 den + 1) := by exact_mod_cast Nat.lt_log2_self
  have den0 : (0 : ℚ) < den := by exact_mod_cast positive
  have ln : (0 : ℚ) < 2 ^ Nat.log2 num := by positivity
  have ld : (0 : ℚ) < 2 ^ Nat.log2 den := by positivity
  rw [pow_succ] at numHigh denHigh
  rw [zpow_sub₀ (by norm_num), zpow_natCast, zpow_natCast, div_div_eq_mul_div, div_mul_eq_mul_div,
    div_div]
  constructor
  · rw [lt_div_iff₀ (by positivity)]
    nlinarith
  · rw [div_lt_iff₀ (by positivity)]
    nlinarith

theorem exponent_spec {num den : Nat} (some' : num ≠ 0) (positive : 0 < den) :
    2 ^ 52 ≤ (num / den : ℚ) / 2 ^ exponent num den ∧
      (num / den : ℚ) / 2 ^ exponent num den < 2 ^ 53 := by
  obtain ⟨low, high⟩ := quotient_bounds some' positive
  have two : (2 : ℚ) ≠ 0 := by norm_num
  generalize shape : (Nat.log2 num : Int) - Nat.log2 den = k at low high
  have wide := shifted_eq num den (k - 53)
  have scale53 : (num / den : ℚ) / 2 ^ (k - 53) = (num / den : ℚ) / 2 ^ k * 2 ^ 53 := by
    rw [zpow_sub₀ two, div_div_eq_mul_div, mul_div_right_comm]
    norm_cast
  have scale52 : (num / den : ℚ) / 2 ^ (k - 52) = (num / den : ℚ) / 2 ^ k * 2 ^ 52 := by
    rw [zpow_sub₀ two, div_div_eq_mul_div, mul_div_right_comm]
    norm_cast
  have den0 : (0 : ℚ) < (shifted num den (k - 53)).2 := by
    exact_mod_cast shifted_pos positive _
  have below : (shifted num den (k - 53)).1 / (shifted num den (k - 53)).2 < 2 ^ 53 ↔
      (num / den : ℚ) / 2 ^ k < 1 := by
    rw [Nat.div_lt_iff_lt_mul (shifted_pos positive _)]
    have cast : ((shifted num den (k - 53)).1 < 2 ^ 53 * (shifted num den (k - 53)).2) ↔
        ((shifted num den (k - 53)).1 : ℚ) < 2 ^ 53 * (shifted num den (k - 53)).2 := by
      norm_cast
    rw [cast, ← div_lt_iff₀ den0, wide, scale53]
    constructor
    · intro less
      linarith
    · intro less
      linarith
  simp only [exponent, shape]
  split
  · rename_i less
    rw [below] at less
    rw [scale53]
    constructor
    · linarith
    · linarith
  · rename_i more
    rw [below, not_lt] at more
    rw [scale52]
    constructor
    · linarith
    · linarith

section

variable {a b c d : Nat}

theorem le_divRound (a b : Nat) : a / b ≤ divRound a b ∧ divRound a b ≤ a / b + 1 := by
  simp only [divRound]
  split <;> omega

theorem divRound_mono (b0 : 0 < b) (d0 : 0 < d) (less : a * d ≤ c * b) :
    divRound a b ≤ divRound c d := by
  have first := Nat.div_add_mod a b
  have second := Nat.div_add_mod c d
  have quotients : a / b ≤ c / d := by
    rw [Nat.le_div_iff_mul_le d0]
    have under : a / b * b ≤ a := Nat.div_mul_le_self a b
    have crossed : a / b * d * b ≤ c * b := by nlinarith
    exact Nat.le_of_mul_le_mul_right crossed b0
  rcases Nat.lt_or_eq_of_le quotients with less' | same
  · have up := (le_divRound a b).2
    have down := (le_divRound c d).1
    omega
  · have remainders : a % b * d ≤ c % d * b := by
      rw [← first, ← second, same] at less
      nlinarith
    simp only [divRound, same]
    -- The remainder that rounds up keeps doing so as it grows.
    by_cases up : b < 2 * (a % b) ∨ 2 * (a % b) = b ∧ c / d % 2 = 1
    · have up' : d < 2 * (c % d) ∨ 2 * (c % d) = d ∧ c / d % 2 = 1 := by
        rcases up with more | ⟨half, odd⟩
        · left
          by_contra least
          rw [not_lt] at least
          nlinarith
        · rcases Nat.lt_trichotomy d (2 * (c % d)) with more | half' | least
          · exact Or.inl more
          · exact Or.inr ⟨half'.symm, odd⟩
          · nlinarith
      rw [if_pos up, if_pos up']
    · rw [if_neg up]
      split <;> omega

theorem divRound_one (n : Nat) : divRound n 1 = n := by
  simp [divRound, Nat.mod_one]

theorem divRound_le {n : Nat} (b0 : 0 < b) (less : a ≤ n * b) : divRound a b ≤ n := by
  have mono := @divRound_mono a b n 1 b0 one_pos (by rwa [Nat.mul_one])
  rwa [divRound_one] at mono

theorem le_divRound_of_le {n : Nat} (b0 : 0 < b) (less : n * b ≤ a) : n ≤ divRound a b := by
  have mono := @divRound_mono n 1 a b one_pos b0 (by rwa [Nat.mul_one])
  rwa [divRound_one] at mono

end

section

variable {a b c d : Nat}

theorem exponent_mono (a0 : a ≠ 0) (b0 : 0 < b) (c0 : c ≠ 0) (d0 : 0 < d)
    (less : (a / b : ℚ) ≤ c / d) : exponent a b ≤ exponent c d := by
  obtain ⟨low, -⟩ := exponent_spec a0 b0
  obtain ⟨-, high⟩ := exponent_spec c0 d0
  by_contra more
  rw [not_le] at more
  have powers : (2 : ℚ) ^ (exponent c d + 1) ≤ 2 ^ exponent a b :=
    zpow_le_zpow_right₀ (by norm_num) more
  have p1 : (0 : ℚ) < 2 ^ exponent a b := by positivity
  have p2 : (0 : ℚ) < 2 ^ exponent c d := by positivity
  rw [zpow_add_one₀ (by norm_num)] at powers
  rw [le_div_iff₀ p1] at low
  rw [div_lt_iff₀ p2] at high
  nlinarith

theorem rounded_mono (a0 : a ≠ 0) (b0 : 0 < b) (c0 : c ≠ 0) (d0 : 0 < d)
    (less : a * d ≤ c * b) : rounded a b ≤ rounded c d := by
  have bq : (0 : ℚ) < b := by exact_mod_cast b0
  have dq : (0 : ℚ) < d := by exact_mod_cast d0
  have values : (a / b : ℚ) ≤ c / d := by
    rw [div_le_div_iff₀ bq dq]
    exact_mod_cast less
  have exponents := exponent_mono a0 b0 c0 d0 values
  simp only [rounded]
  rcases eq_or_lt_of_le (max_le_max_right (-1074) exponents) with same | later
  · rw [same]
    apply Nat.add_le_add_left
    apply divRound_mono (shifted_pos b0 _) (shifted_pos d0 _)
    simp only [shifted]
    nlinarith [Nat.mul_le_mul_right
      (2 ^ (-max (exponent c d) (-1074)).toNat * 2 ^ (max (exponent c d) (-1074)).toNat) less]
  · have own : max (exponent c d) (-1074) = exponent c d := by omega
    have e0 : exponent a b ≤ max (exponent a b) (-1074) := le_max_left _ _
    have first : divRound (shifted a b (max (exponent a b) (-1074))).1
        (shifted a b (max (exponent a b) (-1074))).2 ≤ 2 ^ 53 := by
      apply divRound_le (shifted_pos b0 _)
      have den0 : (0 : ℚ) < (shifted a b (max (exponent a b) (-1074))).2 := by
        exact_mod_cast shifted_pos b0 _
      have powers : (2 : ℚ) ^ exponent a b ≤ 2 ^ max (exponent a b) (-1074) :=
        zpow_le_zpow_right₀ (by norm_num) e0
      have smaller : (a / b : ℚ) / 2 ^ max (exponent a b) (-1074) ≤ 2 ^ 53 :=
        (div_le_div_of_nonneg_left (by positivity) (by positivity) powers).trans
          (exponent_spec a0 b0).2.le
      rw [← shifted_eq, div_le_iff₀ den0] at smaller
      exact_mod_cast smaller
    have second : 2 ^ 52 ≤ divRound (shifted c d (exponent c d)).1 (shifted c d (exponent c d)).2 := by
      apply le_divRound_of_le (shifted_pos d0 _)
      have den0 : (0 : ℚ) < (shifted c d (exponent c d)).2 := by
        exact_mod_cast shifted_pos d0 _
      have larger := (exponent_spec c0 d0).1
      rw [← shifted_eq, le_div_iff₀ den0] at larger
      exact_mod_cast larger
    rw [own] at later ⊢
    omega

theorem magnitude_ofMagnitude {m : Nat} (small : m < 2 ^ 63) :
    (ofMagnitude false m).magnitude = m ∧ (ofMagnitude false m).isSignNegative = false := by
  have bits : (ofMagnitude false m).bits.toNat = m := by
    simp only [ofMagnitude, Bool.false_eq_true, if_false, UInt64.toNat_ofNat']
    omega
  constructor
  · rw [magnitude, bits, Nat.mod_eq_of_lt small]
  · rw [isSignNegative, bits]
    simpa using small

theorem ofRatio_false (num den : Nat) : ∃ m, ofRatio false num den = ofMagnitude false m ∧
    m ≤ 0x7FF * 2 ^ 52 ∧ (num = 0 → m = 0) ∧
      (num ≠ 0 → m = min (rounded num den) (0x7FF * 2 ^ 52)) := by
  by_cases none' : num = 0
  · exact ⟨0, by rw [ofRatio, if_pos none'], Nat.zero_le _, fun _ => rfl,
      fun some' => absurd none' some'⟩
  · exact ⟨_, ofRatio_eq none' false den, Nat.min_le_right _ _, fun zero => absurd zero none',
      fun _ => rfl⟩

theorem ofRatio_false_spec (num den : Nat) : (ofRatio false num den).isSignNegative = false ∧
    (ofRatio false num den).isNaN = false := by
  obtain ⟨m, shape, bound, -⟩ := ofRatio_false num den
  obtain ⟨magnitude', sign⟩ := @magnitude_ofMagnitude m (by omega)
  rw [shape]
  refine ⟨sign, ?_⟩
  rw [isNaN, magnitude']
  exact decide_eq_false (by omega)

theorem magnitude_ofRatio_mono (b0 : 0 < b) (d0 : 0 < d) (less : a * d ≤ c * b) :
    (ofRatio false a b).magnitude ≤ (ofRatio false c d).magnitude := by
  obtain ⟨m, shape, bound, zero, some'⟩ := ofRatio_false a b
  obtain ⟨m', shape', bound', zero', some''⟩ := ofRatio_false c d
  rw [shape, shape', (magnitude_ofMagnitude (by omega)).1, (magnitude_ofMagnitude (by omega)).1]
  by_cases a0 : a = 0
  · rw [zero a0]
    exact Nat.zero_le _
  · have c0 : c ≠ 0 := by
      rintro rfl
      have product := Nat.mul_pos (Nat.pos_of_ne_zero a0) d0
      omega
    rw [some' a0, some'' c0]
    exact min_le_min_right _ (rounded_mono a0 b0 c0 d0 less)

end

section

variable {f g x : F64}

theorem orderKey_ofRatio (num den : Nat) :
    (ofRatio false num den).orderKey = (ofRatio false num den).magnitude := by
  obtain ⟨sign, number⟩ := ofRatio_false_spec num den
  rw [orderKey, if_neg (by rw [number]; exact Bool.false_ne_true),
    if_neg (by rw [sign]; exact Bool.false_ne_true)]

theorem ratio_pos (f : F64) : 0 < f.ratio.2 := Nat.two_pow_pos _

/-- Nothing lies above the product and below the quotient of a number that is not negative by a
factor of at least one. -/
theorem not_lt_div_of_mul_lt (f0 : f.isSignNegative = false) (g0 : g.isSignNegative = false)
    (number : g.isNaN = false) (finite : g.isInfinite = false) (some' : g.isZero = false)
    (factor : g.ratio.2 ≤ g.ratio.1) (above : lt (mul f g) x = true) : lt x (div f g) = false := by
  by_contra below
  rw [Bool.not_eq_false] at below
  simp only [lt, Bool.and_eq_true, Bool.not_eq_true', decide_eq_true_eq] at above below
  obtain ⟨⟨product, -⟩, above⟩ := above
  obtain ⟨⟨-, quotient⟩, below⟩ := below
  have order : (div f g).orderKey ≤ (mul f g).orderKey := by
    by_cases nan' : f.isNaN = true
    · simp only [mul, nan', Bool.true_or, if_true] at product
      exact absurd product (by decide)
    · rw [Bool.not_eq_true] at nan'
      by_cases infinite : f.isInfinite = true
      · have nonzero : f.isZero = false := by
          simp only [isInfinite, decide_eq_true_eq] at infinite
          simp only [isZero, infinite]
          decide
        simp only [mul, div, nan', number, infinite, finite, nonzero, some', f0, g0, Bool.or_false,
          Bool.false_eq_true, if_false, if_true]
        exact le_refl _
      · rw [Bool.not_eq_true] at infinite
        simp only [mul, div, nan', number, infinite, finite, some', f0, g0, Bool.or_false,
          Bool.false_eq_true, if_false, bne_self_eq_false]
        rw [orderKey_ofRatio, orderKey_ofRatio]
        have g1 : 0 < g.ratio.1 := lt_of_lt_of_le (ratio_pos g) factor
        have crossed : f.ratio.1 * g.ratio.2 * (f.ratio.2 * g.ratio.2) ≤
            f.ratio.1 * g.ratio.1 * (f.ratio.2 * g.ratio.1) := calc
          f.ratio.1 * g.ratio.2 * (f.ratio.2 * g.ratio.2)
              = f.ratio.1 * f.ratio.2 * (g.ratio.2 * g.ratio.2) := by ring
          _ ≤ f.ratio.1 * f.ratio.2 * (g.ratio.1 * g.ratio.1) :=
              Nat.mul_le_mul_left _ (Nat.mul_le_mul factor factor)
          _ = f.ratio.1 * g.ratio.1 * (f.ratio.2 * g.ratio.1) := by ring
        exact Int.ofNat_le.mpr (magnitude_ofRatio_mono (Nat.mul_pos (ratio_pos f) g1)
          (Nat.mul_pos (ratio_pos f) (ratio_pos g)) crossed)
  omega

theorem isSignNegative_div (f0 : f.isSignNegative = false) (g0 : g.isSignNegative = false) :
    (div f g).isSignNegative = false := by
  have fixed : nan.isSignNegative = false ∧ (ofMagnitude false (0x7FF * 2 ^ 52)).isSignNegative =
      false ∧ (ofMagnitude false 0).isSignNegative = false := by decide
  simp only [div, f0, g0, bne_self_eq_false]
  repeat' split
  all_goals first
    | exact fixed.1
    | exact fixed.2.1
    | exact fixed.2.2
    | exact (ofRatio_false_spec _ _).1

theorem isSignNegative_ofInt (n : Nat) : (ofInt n).isSignNegative = false := by
  have sign : decide ((n : Int) < 0) = false := decide_eq_false (by omega)
  rw [ofInt, sign]
  exact (ofRatio_false_spec _ _).1

end

end Zumic.Lib.F64
