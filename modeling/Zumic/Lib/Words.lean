/- Words without white space, and the line that joins them. -/

import Zumic.Lib.Utf8

namespace Zumic.Lib.Utf8

open Lib.ByteString

/-- A non-empty well-formed string without white space. -/
structure Word where
  bytes : Bytes
  valid : validUtf8 bytes = true
  nonempty : bytes ≠ []
  solid : ∀ c ∈ chars bytes, isWhitespace c = false

/-- The words with a blank before each, and the line end. -/
def joined (first : Word) (rest : List Word) : Bytes :=
  first.bytes ++ rest.flatMap (fun w => 32 :: w.bytes) ++ [13, 10]

theorem charsGo_flatten (q : Expect) (held b : Bytes) :
    (charsGo q held b).flatten = held ++ b := by
  induction b generalizing q held with
  | nil =>
      unfold charsGo
      split
      · rename_i empty
        simp [empty]
      · simp
  | cons x b ih =>
      unfold charsGo
      split
      · simp [ih]
      · simp [ih]
      · simp

theorem chars_flatten (b : Bytes) : (chars b).flatten = b := charsGo_flatten .lead [] b

theorem charsGo_append {q : Expect} {held a : Bytes} (fresh : q = .lead → held = [])
    (complete : scan q a = some .lead) (b : Bytes) :
    charsGo q held (a ++ b) = charsGo q held a ++ chars b := by
  induction a generalizing q held with
  | nil =>
      obtain rfl := Option.some.inj complete
      rw [fresh rfl]
      rfl
  | cons x a ih =>
      rw [List.cons_append]
      unfold charsGo
      simp only [scan] at complete
      cases step : q.next x with
      | none => simp [step] at complete
      | some p =>
          simp only [step] at complete
          cases p with
          | lead => simp only [ih (fun _ => rfl) complete, List.cons_append]
          | cont lo hi more => exact ih (fun same => absurd same (by simp)) complete

theorem chars_append {a : Bytes} (valid : validUtf8 a = true) (b : Bytes) :
    chars (a ++ b) = chars a ++ chars b :=
  charsGo_append (fun _ => rfl) (validUtf8_iff.mp valid) b

theorem chars_cons_ascii {x : UInt8} (ascii : x < 0x80) (b : Bytes) :
    chars (x :: b) = [x] :: chars b := by
  have step : Expect.next .lead x = some .lead := if_pos ascii
  rw [chars, charsGo]
  simp only [step]
  rfl

theorem wordsGo_visible {cs : List Bytes} (visible : ∀ c ∈ cs, isWhitespace c = false)
    (rest : List Bytes) (held : Bytes) :
    wordsGo (cs ++ rest) held = wordsGo rest (held ++ cs.flatten) := by
  induction cs generalizing held with
  | nil => simp
  | cons c cs ih =>
      have later : ∀ d ∈ cs, isWhitespace d = false :=
        fun d member => visible d (List.mem_cons_of_mem _ member)
      rw [List.cons_append, wordsGo, visible c (by simp)]
      simp only [Bool.false_eq_true, if_false]
      rw [ih later, List.flatten_cons, List.append_assoc]

theorem wordsGo_word (w : Word) (rest held : Bytes) :
    wordsGo (chars (w.bytes ++ rest)) held = wordsGo (chars rest) (held ++ w.bytes) := by
  rw [chars_append w.valid, wordsGo_visible w.solid, chars_flatten]

theorem wordsGo_blank {x : UInt8} (ascii : x < 0x80) (space : isWhitespace [x] = true)
    (rest held : Bytes) (started : held ≠ []) :
    wordsGo (chars (x :: rest)) held = held :: wordsGo (chars rest) [] := by
  rw [chars_cons_ascii ascii, wordsGo, space, if_pos rfl, if_neg started]

theorem wordsGo_rest (rest : List Word) (held : Bytes) (started : held ≠ []) :
    wordsGo (chars (rest.flatMap (fun w => 32 :: w.bytes) ++ [13, 10])) held =
      held :: rest.map Word.bytes := by
  induction rest generalizing held with
  | nil =>
      rw [List.flatMap_nil, List.nil_append, wordsGo_blank (by decide) (by decide) _ _ started]
      rfl
  | cons w rest ih =>
      rw [List.flatMap_cons, List.cons_append, List.cons_append,
        wordsGo_blank (by decide) (by decide) _ _ started, List.append_assoc, wordsGo_word,
        List.nil_append, ih w.bytes w.nonempty, List.map_cons]

theorem splitWhitespace_joined (first : Word) (rest : List Word) :
    splitWhitespace (joined first rest) = first.bytes :: rest.map Word.bytes := by
  rw [splitWhitespace, joined, List.append_assoc, wordsGo_word, List.nil_append,
    wordsGo_rest rest first.bytes first.nonempty]

theorem validUtf8_joined (first : Word) (rest : List Word) :
    validUtf8 (joined first rest) = true := by
  have blanks : validUtf8 (rest.flatMap fun w => 32 :: w.bytes) = true := by
    induction rest with
    | nil => rfl
    | cons w rest ih =>
        rw [List.flatMap_cons]
        exact validUtf8_append (validUtf8_append (a := [32]) (by decide) w.valid) ih
  exact validUtf8_append (validUtf8_append first.valid blanks) (by decide)

theorem Word.isWord (w : Word) : IsWord w.bytes := by
  have words := splitWhitespace_joined w []
  have member : w.bytes ∈ splitWhitespace (joined w []) := by
    rw [words]
    simp
  exact splitWhitespace_isWord (validUtf8_joined w []) w.bytes member

theorem upper_ascii {b : Bytes} (ascii : ∀ x ∈ b, x < 0x80) : upper b = b.map asciiUpper := by
  induction b with
  | nil => rfl
  | cons x b ih =>
      have tail : ∀ y ∈ b, y < 0x80 := fun y member => ascii y (List.mem_cons_of_mem _ member)
      have rest := ih tail
      unfold upper at rest ⊢
      rw [chars_cons_ascii (ascii x (by simp)), List.flatMap_cons, rest]
      rfl

end Zumic.Lib.Utf8
