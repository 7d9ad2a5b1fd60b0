/- Double-precision numbers as bit patterns: rounding, decimal text and their total order. -/

import Zumic.Lib.Decimal

namespace Zumic.Lib

open Lib.ByteString Lib.Decimal

/-- A double, identified by its bits. -/
structure F64 where
  bits : UInt64
  deriving DecidableEq, Repr

namespace F64

def magnitude (f : F64) : Nat := f.bits.toNat % 2 ^ 63

def isSignNegative (f : F64) : Bool := 2 ^ 63 ≤ f.bits.toNat

def isInfinite (f : F64) : Bool := f.magnitude = 0x7FF * 2 ^ 52

def isNaN (f : F64) : Bool := 0x7FF * 2 ^ 52 < f.magnitude

def ofMagnitude (negative : Bool) (m : Nat) : F64 :=
  ⟨UInt64.ofNat (if negative then 2 ^ 63 + m else m)⟩

def infinity : F64 := ofMagnitude false (0x7FF * 2 ^ 52)

def negInfinity : F64 := ofMagnitude true (0x7FF * 2 ^ 52)

/-- The significand and the binary exponent of a finite double. -/
def decompose (f : F64) : Nat × Int :=
  let e : Nat := f.magnitude / 2 ^ 52
  if e = 0 then (f.magnitude, -1074) else (f.magnitude % 2 ^ 52 + 2 ^ 52, (e : Int) - 1075)

/-- The absolute value of a finite double, as a numerator and a denominator. -/
def ratio (f : F64) : Nat × Nat :=
  let (m, e) := f.decompose
  (m * 2 ^ e.toNat, 2 ^ (-e).toNat)

/-- The quotient rounded to the nearest integer, ties to even. -/
def divRound (num den : Nat) : Nat :=
  let q := num / den
  let r := num % den
  if den < 2 * r ∨ (2 * r = den ∧ q % 2 = 1) then q + 1 else q

/-- The double nearest to `num / den`, ties to even. -/
def ofRatio (negative : Bool) (num den : Nat) : F64 :=
  if num = 0 then ofMagnitude negative 0
  else
    let k : Int := (Nat.log2 num : Int) - Nat.log2 den
    let shifted (e : Int) : Nat × Nat := (num * 2 ^ (-e).toNat, den * 2 ^ e.toNat)
    let wide := shifted (k - 53)
    let e := max (if wide.1 / wide.2 < 2 ^ 53 then k - 53 else k - 52) (-1074)
    let scaled := shifted e
    let m := (e + 1074).toNat * 2 ^ 52 + divRound scaled.1 scaled.2
    ofMagnitude negative (min m (0x7FF * 2 ^ 52))

def ofInt (i : Int) : F64 := ofRatio (i < 0) i.natAbs 1

/-- The double nearest to `m * 10 ^ e`, where `m` has at most `digits` digits. -/
def ofDecimal (negative : Bool) (m digits : Nat) (e : Int) : F64 :=
  if m = 0 then ofMagnitude negative 0
  else if 400 < (Nat.log 10 m : Int) + e then ofMagnitude negative (0x7FF * 2 ^ 52)
  else if digits + e < -400 then ofMagnitude negative 0
  else ofRatio negative (m * 10 ^ e.toNat) (10 ^ (-e).toNat)

def lowerByte (b : UInt8) : UInt8 := if 65 ≤ b ∧ b ≤ 90 then b + 32 else b

def splitSign : Bytes → Bool × Bytes
  | 45 :: b => (true, b)
  | 43 :: b => (false, b)
  | b => (false, b)

/-- The exponent part of a number: nothing, or `e` with a signed numeral. -/
def readExponent : Bytes → Option Int
  | [] => some 0
  | x :: b =>
      if lowerByte x = 101 then
        let (negative, digits) := splitSign b
        (readNat digits).map fun n => if negative then -(n : Int) else n
      else none

def readNumber (negative : Bool) (b : Bytes) : Option F64 :=
  let whole := b.takeWhile isDigit
  let afterWhole := b.dropWhile isDigit
  let (fraction, tail) :=
    match afterWhole with
    | 46 :: l => (l.takeWhile isDigit, l.dropWhile isDigit)
    | l => ([], l)
  (readNat (whole ++ fraction)).bind fun m =>
    (readExponent tail).map fun e =>
      ofDecimal negative m (whole ++ fraction).length (e - fraction.length)

/-- Reads a decimal number, an infinity or a NaN. -/
def parse (b : Bytes) : Option F64 :=
  let (negative, body) := splitSign b
  let word := body.map lowerByte
  if word = bytesOf "inf" ∨ word = bytesOf "infinity" then
    some (ofMagnitude negative (0x7FF * 2 ^ 52))
  else if word = bytesOf "nan" then some (ofMagnitude negative (0x7FF8 * 2 ^ 48))
  else readNumber negative body

/-- Left-pads a numeral with zeros to `w` digits. -/
def zeroPad (w : Nat) (b : Bytes) : Bytes := List.replicate (w - b.length) 48 ++ b

/-- The numeral of `n * 10 ^ e`, without an exponent. -/
def renderScaled (n : Nat) (e : Int) : Bytes :=
  match e with
  | .ofNat k => renderNat (n * 10 ^ k)
  | .negSucc k => renderNat (n / 10 ^ (k + 1)) ++ 46 :: zeroPad (k + 1) (renderNat (n % 10 ^ (k + 1)))

/-- The candidate of `n` significant digits nearest to `num / den` that reads back as `f`. -/
def candidate (f : F64) (num den : Nat) (p : Int) (n : Nat) : Option (Nat × Int) :=
  let e : Int := p - n
  let top := num * 10 ^ (-e).toNat
  let bottom := den * 10 ^ e.toNat
  let c := top / bottom
  let reads (c : Nat) : Bool :=
    ofRatio f.isSignNegative (c * 10 ^ e.toNat) (10 ^ (-e).toNat) = f
  let first := if bottom ≤ 2 * (top % bottom) then c + 1 else c
  let second := if bottom ≤ 2 * (top % bottom) then c else c + 1
  if reads first then some (first, e) else if reads second then some (second, e) else none

/-- The shortest decimal that reads back as `f`. -/
def shortest (f : F64) : Nat × Int :=
  let (num, den) := f.ratio
  let guess : Int := (Nat.log 10 num : Int) - Nat.log 10 den
  let p := if num * 10 ^ (-guess).toNat < den * 10 ^ guess.toNat then guess else guess + 1
  ((List.range 17).findSome? fun i => candidate f num den p (i + 1)).getD (num, 0)

def signBytes (f : F64) : Bytes := if f.isSignNegative then [45] else []

/-- Drops the factors of ten of a decimal with a negative exponent. -/
def trimZeros : Nat → Nat → Int → Nat × Int
  | 0, n, e => (n, e)
  | fuel + 1, n, e => if e < 0 ∧ n % 10 = 0 then trimZeros fuel (n / 10) (e + 1) else (n, e)

/-- The default text of a double. -/
def display (f : F64) : Bytes :=
  if f.isNaN then bytesOf "NaN"
  else if f.isInfinite then f.signBytes ++ bytesOf "inf"
  else if f.magnitude = 0 then f.signBytes ++ [48]
  else
    let (n, e) := f.shortest
    let (n, e) := trimZeros 17 n e
    f.signBytes ++ renderScaled n e

/-- The text of a double with `places` decimal places. -/
def displayFixed (places : Nat) (f : F64) : Bytes :=
  if f.isNaN then bytesOf "NaN"
  else if f.isInfinite then f.signBytes ++ bytesOf "inf"
  else
    let (num, den) := f.ratio
    f.signBytes ++ renderScaled (divRound (num * 10 ^ places) den) (-places)

/-- The position of a double in the total order that puts NaN last and both zeros together. -/
def orderKey (f : F64) : Int :=
  if f.isNaN then 2 ^ 64
  else if f.isSignNegative then -(f.magnitude : Int)
  else f.magnitude

/-- Numeric equality: the zeros are equal and NaN differs from everything. -/
def numEq (f g : F64) : Bool := !f.isNaN && !g.isNaN && f.orderKey = g.orderKey

/-- The double with the value of a single-precision bit pattern. -/
def ofF32 (bits : Nat) : F64 :=
  let negative : Bool := 2 ^ 31 ≤ bits
  let m := bits % 2 ^ 31
  let e := m / 2 ^ 23
  if e = 0xFF then
    ofMagnitude negative (0x7FF * 2 ^ 52 + m % 2 ^ 23 * 2 ^ 29)
  else
    let significand := if e = 0 then m else m % 2 ^ 23 + 2 ^ 23
    ofRatio negative (significand * 2 ^ (e - 1)) (2 ^ 149)

/-- Bytes of number text: printable ASCII. -/
abbrev TextByte (b : UInt8) : Prop := 32 ≤ b ∧ b < 0x80

theorem textByte_of_isDigit {b : UInt8} (digit : isDigit b = true) : TextByte b := by
  simp only [isDigit, Bool.and_eq_true, decide_eq_true_eq, UInt8.le_iff_toNat_le] at digit
  simp only [TextByte, UInt8.lt_iff_toNat_lt, UInt8.le_iff_toNat_le]
  have low := digit.1
  have high := digit.2
  simp at low high ⊢
  omega

theorem textByte_renderNat (n : Nat) : ∀ b ∈ renderNat n, TextByte b :=
  fun b hb => textByte_of_isDigit (isDigit_renderNat n b hb)

theorem textByte_renderScaled (n : Nat) (e : Int) : ∀ b ∈ renderScaled n e, TextByte b := by
  intro b hb
  cases e with
  | ofNat k => exact textByte_renderNat _ b hb
  | negSucc k =>
      simp only [renderScaled, zeroPad, List.mem_append, List.mem_cons, List.mem_replicate] at hb
      rcases hb with whole | rfl | ⟨_, rfl⟩ | fraction
      · exact textByte_renderNat _ b whole
      · decide
      · decide
      · exact textByte_renderNat _ b fraction

theorem textByte_signBytes (f : F64) : ∀ b ∈ f.signBytes, TextByte b := by
  intro b hb
  unfold signBytes at hb
  split at hb
  · rw [List.mem_singleton.mp hb]
    decide
  · simp at hb

theorem textByte_append {a b : Bytes} (left : ∀ x ∈ a, TextByte x)
    (right : ∀ x ∈ b, TextByte x) : ∀ x ∈ a ++ b, TextByte x := by
  intro x hx
  rcases List.mem_append.mp hx with first | second
  · exact left x first
  · exact right x second

theorem textByte_display (f : F64) : ∀ b ∈ f.display, TextByte b := by
  unfold display
  split
  · decide +kernel
  · split
    · exact textByte_append (textByte_signBytes f) (by decide +kernel)
    · split
      · exact textByte_append (textByte_signBytes f) (by decide +kernel)
      · exact textByte_append (textByte_signBytes f) (textByte_renderScaled _ _)

theorem textByte_displayFixed (places : Nat) (f : F64) :
    ∀ b ∈ f.displayFixed places, TextByte b := by
  unfold displayFixed
  split
  · decide +kernel
  · split
    · exact textByte_append (textByte_signBytes f) (by decide +kernel)
    · exact textByte_append (textByte_signBytes f) (textByte_renderScaled _ _)

theorem exists_readNumber {whole fraction : Bytes} (some' : whole ≠ [])
    (digits : ∀ b ∈ whole, isDigit b = true) (decimals : ∀ b ∈ fraction, isDigit b = true)
    (negative : Bool) : ∃ g, readNumber negative (whole ++ 46 :: fraction) = some g := by
  have stop : isDigit 46 = false := by decide
  have front : (whole ++ 46 :: fraction).takeWhile isDigit = whole := by
    rw [List.takeWhile_append_of_pos digits, List.takeWhile_cons_of_neg (by simp [stop]),
      List.append_nil]
  have back : (whole ++ 46 :: fraction).dropWhile isDigit = 46 :: fraction := by
    rw [List.dropWhile_append_of_pos digits, List.dropWhile_cons_of_neg (by simp [stop])]
  have places : fraction.takeWhile isDigit = fraction := by
    simpa using @List.takeWhile_append_of_pos _ isDigit fraction [] decimals
  have nothing : fraction.dropWhile isDigit = [] := by
    simpa using @List.dropWhile_append_of_pos _ isDigit fraction [] decimals
  have numeral : ∃ m, readNat (whole ++ fraction) = some m := by
    refine ⟨_, if_pos ⟨by simp [some'], List.all_eq_true.mpr fun b member => ?_⟩⟩
    rcases List.mem_append.mp member with left | right
    · exact digits b left
    · exact decimals b right
  obtain ⟨m, read⟩ := numeral
  simp only [readNumber, front, back, places, nothing, read]
  exact ⟨_, rfl⟩

theorem exists_parse_of_readNumber {b body : Bytes} {negative : Bool}
    (sign : splitSign b = (negative, body)) (read : ∃ g, readNumber negative body = some g) :
    ∃ g, parse b = some g := by
  simp only [parse, sign]
  split_ifs
  · exact ⟨_, rfl⟩
  · exact ⟨_, rfl⟩
  · exact read

theorem isDigit_zeroPad (w n : Nat) : ∀ b ∈ zeroPad w (renderNat n), isDigit b = true := by
  intro b member
  rcases List.mem_append.mp member with zero | digit
  · rw [List.eq_of_mem_replicate zero]
    decide
  · exact isDigit_renderNat n b digit

theorem exists_parse_displayFixed {f : F64} (finite : f.isInfinite = false) (places : Nat) :
    ∃ g, parse (f.displayFixed (places + 1)) = some g := by
  unfold displayFixed
  split
  · exact ⟨_, rfl⟩
  · rw [finite]
    simp only [Bool.false_eq_true, if_false]
    generalize divRound _ _ = n
    have shape : renderScaled n (-((places + 1 : Nat) : Int)) = renderNat (n / 10 ^ (places + 1)) ++
        46 :: zeroPad (places + 1) (renderNat (n % 10 ^ (places + 1))) := rfl
    have read := exists_readNumber (renderNat_ne_nil (n / 10 ^ (places + 1)))
      (isDigit_renderNat _) (isDigit_zeroPad (places + 1) (n % 10 ^ (places + 1)))
    rw [shape, signBytes]
    split
    · exact exists_parse_of_readNumber rfl (read true)
    · refine exists_parse_of_readNumber ?_ (read false)
      obtain ⟨x, l, first⟩ := List.exists_cons_of_ne_nil (renderNat_ne_nil (n / 10 ^ (places + 1)))
      have digit : isDigit x = true := isDigit_renderNat _ x (by rw [first]; exact List.mem_cons_self)
      have minus : x ≠ 45 := by rintro rfl; simp [isDigit] at digit
      have plus : x ≠ 43 := by rintro rfl; simp [isDigit] at digit
      rw [first]
      simp [splitSign, minus, plus]

example : (parse (bytesOf "0.1")).map F64.bits = some 0x3FB999999999999A := by decide +kernel

example : (⟨0x3FB999999999999A⟩ : F64).display = bytesOf "0.1" := by decide +kernel

example : (⟨0x400921FB54442D18⟩ : F64).displayFixed 5 = bytesOf "3.14159" := by decide +kernel

end F64

end Zumic.Lib
