/- UTF-8 text: validity, lossy decoding, characters and words of a byte string. -/

import Zumic.Lib.Decimal

namespace Zumic.Lib.Utf8

open Lib.ByteString Lib.Decimal

/-- What the next byte of a well-formed sequence may be: the first byte of a character, or a
continuation in the given range followed by `more` further continuations. -/
inductive Expect where
  | lead
  | cont (lo hi : UInt8) (more : Nat)
  deriving DecidableEq, Repr

def Expect.next : Expect → UInt8 → Option Expect
  | .lead, b =>
      if b < 0x80 then some .lead
      else if b < 0xC2 then none
      else if b < 0xE0 then some (.cont 0x80 0xBF 0)
      else if b = 0xE0 then some (.cont 0xA0 0xBF 1)
      else if b = 0xED then some (.cont 0x80 0x9F 1)
      else if b < 0xF0 then some (.cont 0x80 0xBF 1)
      else if b = 0xF0 then some (.cont 0x90 0xBF 2)
      else if b < 0xF4 then some (.cont 0x80 0xBF 2)
      else if b = 0xF4 then some (.cont 0x80 0x8F 2)
      else none
  | .cont lo hi more, b =>
      if lo ≤ b ∧ b ≤ hi then
        match more with
        | 0 => some .lead
        | n + 1 => some (.cont 0x80 0xBF n)
      else none

def scan : Expect → Bytes → Option Expect
  | q, [] => some q
  | q, b :: l =>
      match q.next b with
      | some q' => scan q' l
      | none => none

def validUtf8 (b : Bytes) : Bool := scan .lead b = some .lead

/-- The UTF-8 encoding of U+FFFD. -/
def replacement : Bytes := [0xEF, 0xBF, 0xBD]

/-- Copies well-formed sequences and replaces each maximal ill-formed one. -/
def lossyGo : Expect → Bytes → Bytes → Bytes
  | _, held, [] => if held = [] then [] else replacement
  | q, held, b :: l =>
      match q.next b with
      | some .lead => held ++ b :: lossyGo .lead [] l
      | some q' => lossyGo q' (held ++ [b]) l
      | none =>
          if held = [] then replacement ++ lossyGo .lead [] l
          else replacement ++
            match Expect.next .lead b with
            | some .lead => b :: lossyGo .lead [] l
            | some q' => lossyGo q' [b] l
            | none => replacement ++ lossyGo .lead [] l

def lossy (b : Bytes) : Bytes := lossyGo .lead [] b

/-- The characters of a well-formed byte string, each as its bytes. -/
def charsGo : Expect → Bytes → Bytes → List Bytes
  | _, held, [] => if held = [] then [] else [held]
  | q, held, b :: l =>
      match q.next b with
      | some .lead => (held ++ [b]) :: charsGo .lead [] l
      | some q' => charsGo q' (held ++ [b]) l
      | none => [held ++ b :: l]

def chars (b : Bytes) : List Bytes := charsGo .lead [] b

/-- The Unicode `White_Space` characters. -/
def isWhitespace : Bytes → Bool
  | [b] => (9 ≤ b && b ≤ 13) || b = 32
  | [0xC2, b] => b = 0x85 || b = 0xA0
  | [0xE1, b, c] => b = 0x9A && c = 0x80
  | [0xE2, b, c] =>
      (b = 0x80 && ((0x80 ≤ c && c ≤ 0x8A) || c = 0xA8 || c = 0xA9 || c = 0xAF))
        || (b = 0x81 && c = 0x9F)
  | [0xE3, b, c] => b = 0x80 && c = 0x80
  | _ => false

def wordsGo : List Bytes → Bytes → List Bytes
  | [], held => if held = [] then [] else [held]
  | c :: cs, held =>
      if isWhitespace c then
        if held = [] then wordsGo cs [] else held :: wordsGo cs []
      else wordsGo cs (held ++ c)

/-- The maximal runs of characters that are not white space. -/
def splitWhitespace (b : Bytes) : List Bytes := wordsGo (chars b) []

/-- The byte string without white space at its ends. -/
def trim (b : Bytes) : Bytes :=
  (((chars b).dropWhile isWhitespace).reverse.dropWhile isWhitespace).reverse.flatten

def asciiUpper (b : UInt8) : UInt8 := if 97 ≤ b ∧ b ≤ 122 then b - 32 else b

def asciiLower (b : UInt8) : UInt8 := if 65 ≤ b ∧ b ≤ 90 then b + 32 else b

/-- The uppercase mapping, on the characters that have an all-ASCII one. The others are kept:
their uppercase holds a character outside ASCII either way. -/
def upperChar : Bytes → Bytes
  | [b] => [asciiUpper b]
  | [0xC5, 0xBF] => bytesOf "S"
  | [0xC4, 0xB1] => bytesOf "I"
  | [0xC3, 0x9F] => bytesOf "SS"
  | [0xEF, 0xAC, 0x80] => bytesOf "FF"
  | [0xEF, 0xAC, 0x81] => bytesOf "FI"
  | [0xEF, 0xAC, 0x82] => bytesOf "FL"
  | [0xEF, 0xAC, 0x83] => bytesOf "FFI"
  | [0xEF, 0xAC, 0x84] => bytesOf "FFL"
  | [0xEF, 0xAC, 0x85] => bytesOf "ST"
  | [0xEF, 0xAC, 0x86] => bytesOf "ST"
  | c => c

def upper (b : Bytes) : Bytes := (chars b).flatMap upperChar

/-- A string: a byte string that is well-formed UTF-8. -/
structure Str where
  bytes : Bytes
  valid : validUtf8 bytes = true
  deriving DecidableEq

def Str.fromUtf8 (b : Bytes) : Option Str :=
  if valid : validUtf8 b = true then some ⟨b, valid⟩ else none

def Str.lit (s : String) : Str :=
  if valid : validUtf8 (bytesOf s) = true then ⟨bytesOf s, valid⟩ else ⟨[], rfl⟩

@[simp] theorem Str.fromUtf8_bytes (s : Str) : Str.fromUtf8 s.bytes = some s := by
  simp [Str.fromUtf8, s.valid]

theorem Str.bytes_of_fromUtf8 {b : Bytes} {s : Str} (read : Str.fromUtf8 b = some s) :
    s.bytes = b := by
  unfold Str.fromUtf8 at read
  split at read
  · obtain rfl := Option.some.inj read
    rfl
  · exact absurd read (by simp)

theorem Str.ext_bytes {s t : Str} (same : s.bytes = t.bytes) : s = t := by
  cases s
  cases t
  simpa using same

theorem validUtf8_iff {b : Bytes} : validUtf8 b = true ↔ scan .lead b = some .lead := by
  simp [validUtf8]

theorem scan_append (q : Expect) (a b : Bytes) :
    scan q (a ++ b) = (scan q a).bind fun q' => scan q' b := by
  induction a generalizing q with
  | nil => rfl
  | cons x a ih =>
      simp only [List.cons_append, scan]
      cases q.next x with
      | none => rfl
      | some q' => exact ih q'

theorem validUtf8_append {a b : Bytes} (left : validUtf8 a = true) (right : validUtf8 b = true) :
    validUtf8 (a ++ b) = true := by
  rw [validUtf8_iff] at *
  rw [scan_append, left]
  exact right

@[simp] theorem next_lead_ascii {b : UInt8} (ascii : b < 0x80) :
    Expect.next .lead b = some .lead := by
  simp [Expect.next, ascii]

theorem validUtf8_of_ascii {b : Bytes} (ascii : ∀ x ∈ b, x < 0x80) : validUtf8 b = true := by
  rw [validUtf8_iff]
  induction b with
  | nil => rfl
  | cons x b ih =>
      simp only [scan, next_lead_ascii (ascii x (by simp))]
      exact ih fun y hy => ascii y (List.mem_cons_of_mem _ hy)

/-- Every continuation a scan can wait for is at least `0x80`. -/
def Expect.High : Expect → Prop
  | .lead => True
  | .cont lo _ _ => 0x80 ≤ lo

theorem high_next {q q' : Expect} {b : UInt8} (high : q.High) (step : q.next b = some q') :
    q'.High := by
  cases q with
  | lead =>
      simp only [Expect.next] at step
      split_ifs at step <;> first | (obtain rfl := Option.some.inj step; simp [Expect.High])
  | cont lo hi more =>
      simp only [Expect.next] at step
      split at step
      · cases more <;> obtain rfl := Option.some.inj step <;> simp [Expect.High]
      · exact absurd step (by simp)

theorem high_scan {q q' : Expect} {b : Bytes} (high : q.High) (run : scan q b = some q') :
    q'.High := by
  induction b generalizing q with
  | nil =>
      obtain rfl := Option.some.inj run
      exact high
  | cons x b ih =>
      simp only [scan] at run
      cases step : q.next x with
      | none => simp [step] at run
      | some p =>
          simp only [step] at run
          exact ih (high_next high step) run

theorem next_ascii {q q' : Expect} {b : UInt8} (high : q.High) (ascii : b < 0x80)
    (step : q.next b = some q') : q = .lead ∧ q' = .lead := by
  cases q with
  | lead =>
      rw [next_lead_ascii ascii] at step
      exact ⟨rfl, (Option.some.inj step).symm⟩
  | cont lo hi more =>
      simp only [Expect.next] at step
      split at step
      · rename_i range
        have above : (0x80 : UInt8) ≤ lo := high
        have below : lo ≤ b := range.1
        simp only [UInt8.lt_iff_toNat_lt, UInt8.le_iff_toNat_le] at above below ascii
        omega
      · exact absurd step (by simp)

/-- An ASCII byte of a well-formed string is a character of its own. -/
theorem validUtf8_split {a b : Bytes} {x : UInt8} (ascii : x < 0x80)
    (valid : validUtf8 (a ++ x :: b) = true) : validUtf8 a = true ∧ validUtf8 b = true := by
  rw [validUtf8_iff, scan_append] at valid
  obtain ⟨q, left, right⟩ := Option.bind_eq_some_iff.mp valid
  have high : q.High := high_scan (q := .lead) trivial left
  simp only [scan] at right
  cases step : q.next x with
  | none => simp [step] at right
  | some q' =>
      obtain ⟨rfl, rfl⟩ := next_ascii high ascii step
      simp only [step] at right
      exact ⟨validUtf8_iff.mpr left, validUtf8_iff.mpr right⟩

theorem lossyGo_of_scan {q : Expect} {held b : Bytes} (fresh : q = .lead → held = [])
    (run : scan q b = some .lead) : lossyGo q held b = held ++ b := by
  induction b generalizing q held with
  | nil =>
      obtain rfl := Option.some.inj run
      simp [lossyGo, fresh rfl]
  | cons x b ih =>
      simp only [scan] at run
      cases step : q.next x with
      | none => simp [step] at run
      | some p =>
          simp only [step] at run
          cases p with
          | lead =>
              simp only [lossyGo, step]
              rw [ih (fun _ => rfl) run]
              simp
          | cont lo hi more =>
              simp only [lossyGo, step]
              rw [ih (fun h => absurd h (by simp)) run]
              simp

theorem lossy_of_valid {b : Bytes} (valid : validUtf8 b = true) : lossy b = b := by
  exact lossyGo_of_scan (fun _ => rfl) (validUtf8_iff.mp valid)

theorem scan_replacement_append (b : Bytes) :
    scan .lead (replacement ++ b) = scan .lead b := by
  rw [scan_append]
  rfl

theorem scan_cons_of_next {q p r : Expect} {x : UInt8} {b : Bytes}
    (step : q.next x = some p) (rest : scan p b = some r) : scan q (x :: b) = some r := by
  simpa [scan, step] using rest

theorem scan_lossyGo {q : Expect} {held b : Bytes} (run : scan .lead held = some q) :
    scan .lead (lossyGo q held b) = some .lead := by
  induction b generalizing q held with
  | nil =>
      unfold lossyGo
      split
      · rfl
      · rfl
  | cons x b ih =>
      cases step : q.next x with
      | some p =>
          have ahead : scan .lead (held ++ [x]) = some p := by
            rw [scan_append, run]
            simp [scan, step]
          cases p with
          | lead =>
              simp only [lossyGo, step]
              rw [scan_append, run]
              exact scan_cons_of_next step (ih rfl)
          | cont lo hi more =>
              simp only [lossyGo, step]
              exact ih ahead
      | none =>
          simp only [lossyGo, step]
          split
          · rw [scan_replacement_append]
            exact ih rfl
          · rw [scan_replacement_append]
            cases restart : Expect.next .lead x with
            | none =>
                simp only []
                rw [scan_replacement_append]
                exact ih rfl
            | some p =>
                cases p with
                | lead => exact scan_cons_of_next restart (ih rfl)
                | cont lo hi more =>
                    exact ih (by simp [scan, restart])

theorem validUtf8_lossy (b : Bytes) : validUtf8 (lossy b) = true :=
  validUtf8_iff.mpr (scan_lossyGo rfl)

/-- The string of a byte string whose ill-formed sequences are replaced. -/
def Str.lossy (b : Bytes) : Str := ⟨Utf8.lossy b, validUtf8_lossy b⟩

/-- A character: well-formed, and either one ASCII byte or free of ASCII bytes. -/
def IsChar (c : Bytes) : Prop :=
  validUtf8 c = true ∧ ((∃ b, b < 0x80 ∧ c = [b]) ∨ ∀ b ∈ c, 0x80 ≤ b)

theorem next_high_byte {q p : Expect} {x : UInt8} (high : q.High)
    (step : q.next x = some p) (multi : q ≠ .lead ∨ p ≠ .lead) : 0x80 ≤ x := by
  by_contra low
  obtain ⟨rfl, rfl⟩ := next_ascii high (UInt8.not_le.mp low) step
  simp at multi

theorem charsGo_isChar {q : Expect} {held b : Bytes} (run : scan .lead held = some q)
    (high : q.High) (fresh : q = .lead → held = []) (above : ∀ x ∈ held, 0x80 ≤ x)
    (rest : scan q b = some .lead) : ∀ c ∈ charsGo q held b, IsChar c := by
  induction b generalizing q held with
  | nil =>
      obtain rfl := Option.some.inj rest
      simp [charsGo, fresh rfl]
  | cons x b ih =>
      simp only [scan] at rest
      cases step : q.next x with
      | none => simp [step] at rest
      | some p =>
          simp only [step] at rest
          have ahead : scan .lead (held ++ [x]) = some p := by
            rw [scan_append, run]
            simp [scan, step]
          cases p with
          | lead =>
              simp only [charsGo, step, List.mem_cons]
              rintro c (rfl | member)
              · refine ⟨validUtf8_iff.mpr ahead, ?_⟩
                by_cases start : q = .lead
                · rw [fresh start]
                  by_cases ascii : x < 0x80
                  · exact Or.inl ⟨x, ascii, rfl⟩
                  · exact Or.inr (by simpa using UInt8.not_lt.mp ascii)
                · refine Or.inr fun y hy => ?_
                  rcases List.mem_append.mp hy with old | new
                  · exact above y old
                  · rw [List.mem_singleton.mp new]
                    exact next_high_byte high step (Or.inl start)
              · exact ih (q := .lead) rfl trivial (fun _ => rfl) (by simp) rest c member
          | cont lo hi more =>
              simp only [charsGo, step]
              refine ih ahead (high_next high step) (fun h => absurd h (by simp)) ?_ rest
              intro y hy
              rcases List.mem_append.mp hy with old | new
              · exact above y old
              · rw [List.mem_singleton.mp new]
                exact next_high_byte high step (Or.inr (by simp))

theorem chars_isChar {b : Bytes} (valid : validUtf8 b = true) : ∀ c ∈ chars b, IsChar c :=
  charsGo_isChar (q := .lead) rfl trivial (fun _ => rfl) (by simp) (validUtf8_iff.mp valid)

/-- A word: well-formed and without a carriage return or a line feed. -/
def IsWord (w : Bytes) : Prop := validUtf8 w = true ∧ 13 ∉ w ∧ 10 ∉ w

theorem isWord_append_char {w c : Bytes} (word : IsWord w) (char : IsChar c)
    (visible : isWhitespace c = false) : IsWord (w ++ c) := by
  obtain ⟨valid, cr, lf⟩ := word
  have keep : ∀ b : UInt8, b < 0x80 → isWhitespace [b] = true → b ∉ w → b ∉ w ++ c := by
    intro b ascii space absent
    refine fun member => (List.mem_append.mp member).elim absent fun inside => ?_
    rcases char.2 with ⟨y, _, rfl⟩ | high
    · rw [← List.mem_singleton.mp inside, space] at visible
      simp at visible
    · exact absurd (high b inside) (UInt8.not_le.mpr ascii)
  exact ⟨validUtf8_append valid char.1, keep 13 (by decide) (by decide) cr,
    keep 10 (by decide) (by decide) lf⟩

theorem wordsGo_isWord {cs : List Bytes} {held : Bytes} (word : IsWord held)
    (all : ∀ c ∈ cs, IsChar c) : ∀ w ∈ wordsGo cs held, IsWord w := by
  have empty : IsWord [] := ⟨rfl, by simp, by simp⟩
  induction cs generalizing held with
  | nil =>
      unfold wordsGo
      split
      · simp
      · simpa using word
  | cons c cs ih =>
      have tail : ∀ d ∈ cs, IsChar d := fun d hd => all d (List.mem_cons_of_mem _ hd)
      unfold wordsGo
      split
      · split
        · exact ih empty tail
        · intro w hw
          rcases List.mem_cons.mp hw with rfl | later
          · exact word
          · exact ih empty tail w later
      · rename_i visible
        exact ih (isWord_append_char word (all c (by simp)) (by simpa using visible)) tail

theorem splitWhitespace_isWord {b : Bytes} (valid : validUtf8 b = true) :
    ∀ w ∈ splitWhitespace b, IsWord w :=
  wordsGo_isWord ⟨rfl, by simp, by simp⟩ (chars_isChar valid)

/-- Concatenation of strings. -/
instance : Append Str where
  append s t := ⟨s.bytes ++ t.bytes, validUtf8_append s.valid t.valid⟩

@[simp] theorem Str.bytes_append (s t : Str) : (s ++ t).bytes = s.bytes ++ t.bytes := rfl

/-- The decimal numeral of `n` as a string. -/
def Str.ofNat (n : Nat) : Str :=
  ⟨renderNat n, validUtf8_of_ascii fun b hb => by
    have digit := isDigit_renderNat n b hb
    simp only [isDigit, Bool.and_eq_true, decide_eq_true_eq, UInt8.le_iff_toNat_le] at digit
    have high := digit.2
    simp only [UInt8.lt_iff_toNat_lt]
    simp at high ⊢
    omega⟩

example : lossy [0x61, 0xF0, 0x9F, 0x98, 0x62, 0x80] =
    [0x61, 0xEF, 0xBF, 0xBD, 0x62, 0xEF, 0xBF, 0xBD] := by decide

end Zumic.Lib.Utf8
