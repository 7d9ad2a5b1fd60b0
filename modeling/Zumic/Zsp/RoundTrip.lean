/- The decoder reads the wire format back, and takes exactly the bytes of one frame. -/

import Zumic.Zsp.Decoder
import Zumic.Zsp.Wire

namespace Zumic.Zsp

open Lib Lib.ByteString Lib.Decimal Lib.Reader Lib.Utf8

/-- Text that can stand on a line of the protocol. -/
def LineText (b : Bytes) : Prop := validUtf8 b = true ∧ 13 ∉ b

theorem lineText_of_textByte {b : Bytes} (text : ∀ x ∈ b, F64.TextByte x) : LineText b := by
  refine ⟨validUtf8_of_ascii fun x hx => (text x hx).2, fun member => ?_⟩
  exact absurd (text 13 member).1 (by decide)

theorem textByte_of_digit {x : UInt8} (digit : isDigit x = true) : F64.TextByte x := by
  simp only [isDigit, Bool.and_eq_true, decide_eq_true_eq] at digit
  have low := UInt8.le_iff_toNat_le.mp digit.1
  have high := UInt8.le_iff_toNat_le.mp digit.2
  refine ⟨UInt8.le_iff_toNat_le.mpr ?_, UInt8.lt_iff_toNat_lt.mpr ?_⟩
  · simp at low ⊢
    omega
  · simp at high ⊢
    omega

theorem lineText_renderNat (n : Nat) : LineText (renderNat n) :=
  lineText_of_textByte fun x hx => textByte_of_digit (isDigit_renderNat n x hx)

theorem lineText_renderInt (i : Int) : LineText (renderInt i) := by
  refine lineText_of_textByte fun x hx => ?_
  unfold renderInt at hx
  split at hx
  · rcases List.mem_cons.mp hx with rfl | digit
    · decide
    · exact textByte_of_digit (isDigit_renderNat _ x digit)
  · exact textByte_of_digit (isDigit_renderNat _ x hx)

theorem lineText_floatText (f : F64) : LineText (floatText f) := by
  unfold floatText
  split
  · split
    · exact lineText_of_textByte (by decide +kernel)
    · exact lineText_of_textByte (by decide +kernel)
  · exact lineText_of_textByte (F64.textByte_displayFixed 5 f)

theorem lineText_display (f : F64) : LineText f.display :=
  lineText_of_textByte (F64.textByte_display f)

theorem reads_readLine {s : Str} (oneLine : 13 ∉ s.bytes) :
    Reads readLine (s.bytes ++ crlf) s := by
  intro t
  have before : ∀ x ∈ s.bytes, (x != 13) = true := by
    intro x hx
    simp only [bne_iff_ne, ne_eq]
    rintro rfl
    exact oneLine hx
  have shape : s.bytes ++ crlf ++ t = s.bytes ++ 13 :: 10 :: t := by simp [crlf]
  have stop : (13 :: 10 :: t).dropWhile (· != (13 : UInt8)) = 13 :: 10 :: t := rfl
  have none' : (13 :: 10 :: t).takeWhile (· != (13 : UInt8)) = [] := rfl
  rw [shape, readLine, List.dropWhile_append_of_pos before, List.takeWhile_append_of_pos before,
    stop, none', List.append_nil]
  simp

theorem reads_readNumber {b : Bytes} {n : Int64} (text : LineText b) (value : readI64 b = some n)
    (message : String) : Reads (readNumber message) (b ++ crlf) n := by
  intro t
  have first := reads_readLine (s := ⟨b, text.1⟩) text.2 t
  rw [readNumber, bind_of_ok first]
  simp only [value]
  rfl

theorem reads_readNumber_count {n : Nat} (small : n < 2 ^ 63) (message : String) :
    Reads (readNumber message) (renderNat n ++ crlf) (Int64.ofInt n) :=
  reads_readNumber (lineText_renderNat n) (readI64_renderNat small) message

theorem reads_expectCrlf : Reads expectCrlf crlf () :=
  fun _ => rfl

theorem reads_parseBinaryString {b : Bytes} (fits : b.length ≤ maxBinaryLength) :
    Reads parseBinaryString (renderNat b.length ++ crlf ++ b ++ crlf)
      (some (.binaryString (some b)), .initial) := by
  intro t
  have small : b.length < 2 ^ 63 := lt_of_le_of_lt fits (by decide)
  have count := toInt_ofInt_nat small
  have length := reads_readNumber_count small "Invalid binary" (b ++ crlf ++ t)
  have payload : (takeUpTo b.length : FrameReader Bytes) (b ++ crlf ++ t) = .ok (b, crlf ++ t) := by
    simp [takeUpTo]
  have shape : renderNat b.length ++ crlf ++ b ++ crlf ++ t =
      renderNat b.length ++ crlf ++ (b ++ crlf ++ t) := by simp
  rw [shape, parseBinaryString, bind_of_ok length, count, if_neg (by omega), if_pos (by omega)]
  simp only [Int.toNat_natCast, if_neg (not_lt.mpr fits)]
  rw [bind_of_ok payload, if_pos rfl, bind_of_ok (reads_expectCrlf t)]
  rfl

section

variable {decode : FrameDecoder}

theorem itemsLoop_append {add : List ZspFrame → ZspFrame → List ZspFrame} {l : List ZspFrame}
    (each : ∀ f ∈ l, Reads (decode .initial) (wire f) (some f, .initial))
    (more : Nat) (items : List ZspFrame) (t : Bytes) :
    itemsLoop decode add (l.length + more) items .initial (wireItems l ++ t) =
      itemsLoop decode add more (l.foldl add items) .initial t := by
  induction l generalizing items with
  | nil =>
      rw [wireItems, List.length_nil, Nat.zero_add]
      rfl
  | cons f l ih =>
      have head := each f (by simp) (wireItems l ++ t)
      have count : (f :: l).length + more = l.length + more + 1 := by
        simp only [List.length_cons]
        omega
      rw [count, wireItems, List.append_assoc, itemsLoop, bind_of_ok head]
      exact ih (fun g hg => each g (List.mem_cons_of_mem _ hg)) (add items f)

theorem reads_continueItems {c : Container} {l : List ZspFrame}
    (each : ∀ f ∈ l, Reads (decode .initial) (wire f) (some f, .initial))
    (len : Nat) (items : List ZspFrame) :
    Reads (continueItems decode c len items l.length .initial) (wireItems l)
      (some (c.build (l.foldl c.add items)), .initial) := by
  intro t
  have loop : itemsLoop decode c.add (l.length + 0) items .initial (wireItems l ++ t) =
      itemsLoop decode c.add 0 (l.foldl c.add items) .initial t :=
    itemsLoop_append each 0 items t
  rw [Nat.add_zero] at loop
  rw [continueItems, bind_apply, loop]
  rfl

variable {α : Type} {c : PairContainer α} {encodeValue : α → Bytes}

/-- What the loop over pairs needs of its decoder: names are read as binary strings, and each
value as a frame the container accepts. -/
structure ReadsPairs (decode : FrameDecoder) (c : PairContainer α) (encodeValue : α → Bytes)
    (l : List (Str × α)) : Prop where
  name : ∀ k : Str, c.name (.binaryString (some k.bytes)) = .ok k
  key : ∀ b : Bytes, b.length ≤ maxBinaryLength →
    Reads (decode .initial) (bulk b) (some (.binaryString (some b)), .initial)
  fits : ∀ e ∈ l, e.1.bytes.length ≤ maxBinaryLength
  value : ∀ e ∈ l, ∃ g, Reads (decode .initial) (encodeValue e.2) (some g, .initial) ∧
    c.value g = .ok e.2

theorem ReadsPairs.tail {e : Str × α} {l : List (Str × α)}
    (pairs : ReadsPairs decode c encodeValue (e :: l)) : ReadsPairs decode c encodeValue l where
  name := pairs.name
  key := pairs.key
  fits g member := pairs.fits g (List.mem_cons_of_mem _ member)
  value g member := pairs.value g (List.mem_cons_of_mem _ member)

theorem ReadsPairs.reads_nextName {e : Str × α} {l : List (Str × α)}
    (pairs : ReadsPairs decode c encodeValue (e :: l)) :
    Reads (nextName decode c none .initial) (bulk e.1.bytes) (some e.1, .initial) := by
  intro t
  rw [nextName, bind_of_ok (pairs.key e.1.bytes (pairs.fits e (by simp)) t)]
  simp only [pairs.name, Reader.ofExcept]
  rfl

theorem pairsLoop_value {e : Str × α} {l : List (Str × α)}
    (pairs : ReadsPairs decode c encodeValue (e :: l)) (remaining : Nat) (items : List (Str × α))
    (t : Bytes) :
    pairsLoop decode c (remaining + 1) items (some e.1) .initial (encodeValue e.2 ++ t) =
      pairsLoop decode c remaining (c.add items e.1 e.2) none .initial t := by
  obtain ⟨g, reads, accepted⟩ := pairs.value e (by simp)
  have name : nextName decode c (some e.1) .initial (encodeValue e.2 ++ t) =
      .ok ((some e.1, .initial), encodeValue e.2 ++ t) := rfl
  rw [pairsLoop, bind_of_ok name]
  simp only []
  rw [bind_of_ok (reads t)]
  simp only [accepted, Reader.ofExcept]
  rfl

theorem pairsLoop_name {e : Str × α} {l : List (Str × α)}
    (pairs : ReadsPairs decode c encodeValue (e :: l)) (remaining : Nat) (items : List (Str × α))
    (t : Bytes) :
    pairsLoop decode c (remaining + 1) items none .initial (bulk e.1.bytes ++ t) =
      pairsLoop decode c (remaining + 1) items (some e.1) .initial t := by
  rw [pairsLoop, bind_of_ok (pairs.reads_nextName t), pairsLoop]
  rfl

theorem pairsLoop_append {l : List (Str × α)} (pairs : ReadsPairs decode c encodeValue l)
    (more : Nat) (items : List (Str × α)) (t : Bytes) :
    pairsLoop decode c (l.length + more) items none .initial
        (l.flatMap (fun e => bulk e.1.bytes ++ encodeValue e.2) ++ t) =
      pairsLoop decode c more (l.foldl (fun m e => c.add m e.1 e.2) items) none .initial t := by
  induction l generalizing items with
  | nil =>
      rw [List.length_nil, Nat.zero_add]
      rfl
  | cons e l ih =>
      have count : (e :: l).length + more = l.length + more + 1 := by
        simp only [List.length_cons]
        omega
      rw [count, List.flatMap_cons, List.append_assoc, List.append_assoc, pairsLoop_name pairs,
        pairsLoop_value pairs]
      exact ih pairs.tail _

theorem reads_continuePairs {l : List (Str × α)} (pairs : ReadsPairs decode c encodeValue l)
    (len : Nat) (items : List (Str × α)) :
    Reads (continuePairs decode c len items l.length none .initial)
      (l.flatMap fun e => bulk e.1.bytes ++ encodeValue e.2)
      (some (c.build (l.foldl (fun m e => c.add m e.1 e.2) items)), .initial) := by
  intro t
  have loop := pairsLoop_append pairs 0 items t
  rw [Nat.add_zero] at loop
  rw [continuePairs, bind_apply, loop]
  rfl

end

/-- What the decoder needs of a node beyond what the encoder checks: keys and members short
enough for a binary string, and numbers whose text reads back as the same number. -/
def readableNode : ZspFrame → Bool
  | .float f => readFloat (floatText f) = some f
  | .dictionary items => items.all fun e => e.1.bytes.length ≤ maxBinaryLength
  | .zset entries =>
      entries.all fun e => e.1.bytes.length ≤ maxBinaryLength && readFloat e.2.display = some e.2
  | _ => true

/-- A frame that survives the wire. -/
structure Deliverable (f : ZspFrame) : Prop where
  wf : f.Wf
  sendable : f.all sendableNode = true
  readable : f.all readableNode = true

theorem foldl_append (l items : List ZspFrame) :
    l.foldl (fun l f => l ++ [f]) items = items ++ l := by
  induction l generalizing items with
  | nil => simp
  | cons f l ih => simp [ih]

theorem foldl_hashSetInsert {l items : List ZspFrame}
    (distinct : (items ++ l).Pairwise fun a b => ZspFrame.sameMember a b = false) :
    l.foldl ZspFrame.hashSetInsert items = items ++ l := by
  induction l generalizing items with
  | nil => simp
  | cons f l ih =>
      have fresh : ∀ m ∈ items, ZspFrame.sameMember m f = false := by
        intro m hm
        exact (List.pairwise_append.mp distinct).2.2 m hm f (by simp)
      rw [List.foldl_cons, ZspFrame.hashSetInsert_of_distinct fresh, ih (by simpa using distinct)]
      simp

theorem not_mem_of_hasLineBreak {s : Str} (clean : hasLineBreak s = false) :
    13 ∉ s.bytes := by
  simp only [hasLineBreak, Bool.or_eq_false_iff] at clean
  simpa using clean.1

theorem reads_bulk {b : Bytes} (fits : b.length ≤ maxBinaryLength) (fuel : Nat) :
    Reads (decodeWithin (fuel + 1) .initial) (bulk b) (some (.binaryString (some b)), .initial) := by
  intro t
  have body := reads_parseBinaryString fits t
  have shape : bulk b ++ t = 36 :: (renderNat b.length ++ crlf ++ b ++ crlf ++ t) := by
    simp [bulk, line]
  rw [shape]
  exact body

theorem reads_floatLine {b : Bytes} {f : F64} (text : LineText b)
    (value : readFloat b = some f) (fuel : Nat) :
    Reads (decodeWithin (fuel + 1) .initial) (line 44 b) (some (.float f), .initial) := by
  intro t
  have first := reads_readLine (s := ⟨b, text.1⟩) text.2 t
  have step : parseFloat (b ++ crlf ++ t) = .ok ((some (.float f), .initial), t) := by
    rw [parseFloat, bind_of_ok first]
    simp only [value]
    rfl
  exact step

theorem reads_countLine {p : Int64 → FrameReader Decoded} {n : Nat} {message : String}
    {b : Bytes} {r : Decoded} (small : n < 2 ^ 63) (body : Reads (p (Int64.ofInt n)) b r) :
    Reads (readNumber message >>= p) (renderNat n ++ crlf ++ b) r :=
  (reads_readNumber_count small message).bind body

theorem lineStart_ne_nil (marker : UInt8) (text : Bytes) : line marker text ≠ [] := by
  simp [line]

theorem length_lt_of_mem {l : List ZspFrame} {f : ZspFrame} (member : f ∈ l)
    {head : Bytes} (nonempty : head ≠ []) : (wire f).length < (head ++ wireItems l).length := by
  have inside : (wire f).length ≤ (wireItems l).length := by
    rw [wireItems_eq_flatMap]
    exact (List.sublist_flatten_of_mem (List.mem_map_of_mem member)).length_le
  have := List.length_pos_iff.mpr nonempty
  rw [List.length_append]
  omega

theorem length_lt_of_entry {l : List (Str × ZspFrame)} {e : Str × ZspFrame} (member : e ∈ l)
    {head : Bytes} (nonempty : head ≠ []) :
    (wire e.2).length < (head ++ wireEntries l).length := by
  have inside : (bulk e.1.bytes ++ wire e.2).length ≤ (wireEntries l).length := by
    rw [wireEntries_eq_flatMap]
    exact (List.sublist_flatten_of_mem (List.mem_map_of_mem (f := fun e : Str × ZspFrame =>
      bulk e.1.bytes ++ wire e.2) member)).length_le
  have := List.length_pos_iff.mpr nonempty
  rw [List.length_append] at inside ⊢
  omega

theorem reads_parseCounted {decode : FrameDecoder} {c : Container} {l : List ZspFrame}
    {built : List ZspFrame} {invalid negative : String} (small : l.length < 2 ^ 63)
    (folds : l.foldl c.add [] = built)
    (each : ∀ f ∈ l, Reads (decode .initial) (wire f) (some f, .initial)) :
    Reads (parseCounted decode c invalid negative) (renderNat l.length ++ crlf ++ wireItems l)
      (some (c.build built), .initial) := by
  have count := toInt_ofInt_nat small
  refine reads_countLine small ?_
  simp only [count]
  by_cases empty : l = []
  · subst empty
    obtain rfl : [] = built := folds
    exact reads_pure _
  · have positive := List.length_pos_iff.mpr empty
    rw [if_neg (by omega), if_pos (by omega), Int.toNat_natCast, ← folds]
    exact reads_continueItems each l.length []

theorem reads_parseArray {decode : FrameDecoder} {l : List ZspFrame}
    (small : l.length < 2 ^ 63)
    (each : ∀ f ∈ l, Reads (decode .initial) (wire f) (some f, .initial)) :
    Reads (parseArray decode 0) (renderNat l.length ++ crlf ++ wireItems l)
      (some (.array l), .initial) := by
  have count := toInt_ofInt_nat small
  refine reads_countLine small ?_
  simp only [count]
  by_cases empty : l = []
  · subst empty
    exact reads_pure _
  · have positive := List.length_pos_iff.mpr empty
    have loop := reads_continueItems (c := arrayContainer) each l.length []
    have folds : l.foldl arrayContainer.add [] = l := foldl_append l []
    rw [folds] at loop
    rw [if_neg (by omega), if_pos (by omega), Int.toNat_natCast]
    exact loop

theorem readsPairs_dictionary {decode : FrameDecoder} {l : List (Str × ZspFrame)}
    (keys : ∀ b : Bytes, b.length ≤ maxBinaryLength →
      Reads (decode .initial) (bulk b) (some (.binaryString (some b)), .initial))
    (fits : ∀ e ∈ l, e.1.bytes.length ≤ maxBinaryLength)
    (each : ∀ e ∈ l, Reads (decode .initial) (wire e.2) (some e.2, .initial)) :
    ReadsPairs decode dictionaryContainer wire l where
  name k := by simp [dictionaryContainer, dictionaryKey]
  key := keys
  fits := fits
  value e member := ⟨e.2, each e member, rfl⟩

theorem readsPairs_zset {decode : FrameDecoder} {l : List (Str × F64)}
    (keys : ∀ b : Bytes, b.length ≤ maxBinaryLength →
      Reads (decode .initial) (bulk b) (some (.binaryString (some b)), .initial))
    (floats : ∀ b : Bytes, ∀ f, LineText b → readFloat b = some f →
      Reads (decode .initial) (line 44 b) (some (.float f), .initial))
    (fits : ∀ e ∈ l, e.1.bytes.length ≤ maxBinaryLength ∧ readFloat e.2.display = some e.2) :
    ReadsPairs decode zsetContainer (fun f => line 44 f.display) l where
  name k := by simp [zsetContainer, zsetMember]
  key := keys
  fits e member := (fits e member).1
  value e member := ⟨.float e.2,
    floats e.2.display e.2 (lineText_display e.2) (fits e member).2, rfl⟩

theorem reads_parseDictionary {decode : FrameDecoder} {l : List (Str × ZspFrame)}
    (small : l.length < 2 ^ 63) (distinct : (Assoc.keys l).Nodup)
    (pairs : ReadsPairs decode dictionaryContainer wire l) :
    Reads (parseDictionary decode) (renderNat l.length ++ crlf ++ wireEntries l)
      (some (.dictionary l), .initial) := by
  have count := toInt_ofInt_nat small
  refine reads_countLine small ?_
  simp only [count]
  by_cases empty : l = []
  · subst empty
    exact reads_pure _
  · have positive := List.length_pos_iff.mpr empty
    have loop := reads_continuePairs pairs l.length []
    have folds : l.foldl (fun m e => dictionaryContainer.add m e.1 e.2) [] = l :=
      Assoc.foldl_insert distinct
    rw [folds] at loop
    rw [if_neg (by omega), if_pos (by omega), Int.toNat_natCast, wireEntries_eq_flatMap]
    exact loop

theorem foldl_scores (l items : List (Str × F64)) :
    l.foldl (fun m e => zsetContainer.add m e.1 e.2) items = items ++ l := by
  induction l generalizing items with
  | nil => simp
  | cons e l ih =>
      rw [List.foldl_cons, ih]
      simp [zsetContainer]

theorem reads_parseZSet {decode : FrameDecoder} {l : List (Str × F64)}
    (small : l.length < 2 ^ 63)
    (pairs : ReadsPairs decode zsetContainer (fun f => line 44 f.display) l) :
    Reads (parseZSet decode) (renderNat l.length ++ crlf ++ encodeScores l)
      (some (.zset l), .initial) := by
  have count := toInt_ofInt_nat small
  refine reads_countLine small ?_
  simp only [count]
  by_cases empty : l = []
  · subst empty
    exact reads_pure _
  · have positive := List.length_pos_iff.mpr empty
    have loop := reads_continuePairs pairs l.length []
    rw [foldl_scores, List.nil_append] at loop
    rw [if_neg (by omega), if_pos (by omega), Int.toNat_natCast]
    exact loop

theorem Deliverable.array {l : List ZspFrame} (small : l.length < 2 ^ 63)
    (each : ∀ f ∈ l, Deliverable f) : Deliverable (.array l) := by
  refine ⟨?_, ?_, ?_⟩
  · simp only [ZspFrame.Wf, ZspFrame.all, ZspFrame.wfNode, Bool.and_eq_true, decide_eq_true_eq,
      ZspFrame.allItems_iff]
    exact ⟨small, fun f member => (each f member).wf⟩
  · simp only [ZspFrame.all, sendableNode, Bool.true_and, ZspFrame.allItems_iff]
    exact fun f member => (each f member).sendable
  · simp only [ZspFrame.all, readableNode, Bool.true_and, ZspFrame.allItems_iff]
    exact fun f member => (each f member).readable

theorem Deliverable.mem_array {l : List ZspFrame} {f : ZspFrame} (d : Deliverable (.array l))
    (member : f ∈ l) : Deliverable f := by
  obtain ⟨wf, sendable, readable⟩ := d
  simp only [ZspFrame.Wf, ZspFrame.all, Bool.and_eq_true, ZspFrame.allItems_iff] at *
  exact ⟨wf.2 f member, sendable.2 f member, readable.2 f member⟩

theorem Deliverable.mem_set {l : List ZspFrame} {f : ZspFrame} (d : Deliverable (.set l))
    (member : f ∈ l) : Deliverable f := by
  obtain ⟨wf, sendable, readable⟩ := d
  simp only [ZspFrame.Wf, ZspFrame.all, Bool.and_eq_true, ZspFrame.allItems_iff] at *
  exact ⟨wf.2 f member, sendable.2 f member, readable.2 f member⟩

theorem Deliverable.mem_push {l : List ZspFrame} {f : ZspFrame} (d : Deliverable (.push l))
    (member : f ∈ l) : Deliverable f := by
  obtain ⟨wf, sendable, readable⟩ := d
  simp only [ZspFrame.Wf, ZspFrame.all, Bool.and_eq_true, ZspFrame.allItems_iff] at *
  exact ⟨wf.2 f member, sendable.2 f member, readable.2 f member⟩

theorem Deliverable.mem_dictionary {l : List (Str × ZspFrame)} {e : Str × ZspFrame}
    (d : Deliverable (.dictionary l)) (member : e ∈ l) :
    Deliverable e.2 ∧ e.1.bytes.length ≤ maxBinaryLength := by
  obtain ⟨wf, sendable, readable⟩ := d
  simp only [ZspFrame.Wf, ZspFrame.all, Bool.and_eq_true, ZspFrame.allEntries_iff, readableNode,
    List.all_eq_true, decide_eq_true_eq] at *
  exact ⟨⟨wf.2 e member, sendable.2 e member, readable.2 e member⟩, readable.1 e member⟩

theorem fuel_succ {f : ZspFrame} {fuel : Nat} (enough : (wire f).length ≤ fuel) :
    ∃ n, fuel = n + 1 := by
  have positive := List.length_pos_iff.mpr (wire_ne_nil f)
  exact ⟨fuel - 1, by omega⟩

theorem fuel_succ_of_line {marker : UInt8} {text body : Bytes} {n : Nat}
    (enough : (line marker text ++ body).length ≤ n + 1) : ∃ m, n = m + 1 := by
  have long : 3 ≤ (line marker text).length := by simp [line, crlf]
  rw [List.length_append] at enough
  exact ⟨n - 1, by omega⟩

/-- Given a step for each byte, the decoder reads exactly the wire form of the frame. -/
theorem reads_wire {f : ZspFrame} (d : Deliverable f) {fuel : Nat}
    (enough : (wire f).length ≤ fuel) :
    Reads (decodeWithin fuel .initial) (wire f) (some f, .initial) := by
  obtain ⟨n, rfl⟩ := fuel_succ enough
  induction f using ZspFrame.induct generalizing n with
  | inlineString s =>
      have clean : hasLineBreak s = false := by
        simpa [ZspFrame.all, sendableNode] using d.sendable
      intro t
      exact bind_of_ok (reads_readLine (not_mem_of_hasLineBreak clean) t)
  | frameError s =>
      have clean : hasLineBreak s = false := by
        simpa [ZspFrame.all, sendableNode] using d.sendable
      intro t
      exact bind_of_ok (reads_readLine (not_mem_of_hasLineBreak clean) t)
  | integer i =>
      intro t
      exact bind_of_ok (reads_readNumber (lineText_renderInt i.toInt) (readI64_renderInt i) _ t)
  | float f =>
      have value : readFloat (floatText f) = some f := by
        simpa [ZspFrame.all, readableNode] using d.readable
      rw [wire]
      exact reads_floatLine (lineText_floatText f) value n
  | bool b =>
      intro t
      cases b <;> rfl
  | binaryString o =>
      cases o with
      | none =>
          intro t
          have minusOne : readI64 (bytesOf "-1") = some (-1) := by decide
          exact bind_of_ok (reads_readNumber (lineText_of_textByte (by decide +kernel)) minusOne _ t)
      | some b =>
          have fits : b.length ≤ maxBinaryLength := by
            simpa [ZspFrame.all, sendableNode] using d.sendable
          rw [wire]
          exact reads_bulk fits n
  | array items ih =>
      have wf := d.wf
      simp only [ZspFrame.Wf, ZspFrame.all, ZspFrame.wfNode, Bool.and_eq_true,
        decide_eq_true_eq] at wf
      rw [wire] at enough ⊢
      refine reads_parseArray wf.1 fun f member => ?_
      have shorter := length_lt_of_mem member (lineStart_ne_nil 42 (renderNat items.length))
      have fits : (wire f).length ≤ n := by omega
      obtain ⟨m, rfl⟩ := fuel_succ fits
      exact ih f member (d.mem_array member) m fits
  | dictionary items ih =>
      have wf := d.wf
      simp only [ZspFrame.Wf, ZspFrame.all, ZspFrame.wfNode, Bool.and_eq_true,
        decide_eq_true_eq] at wf
      rw [wire] at enough ⊢
      obtain ⟨m, rfl⟩ := fuel_succ_of_line enough
      refine reads_parseDictionary wf.1.1 wf.1.2 (readsPairs_dictionary (fun b hb => reads_bulk hb m)
        (fun e member => (d.mem_dictionary member).2) fun e member => ?_)
      have shorter := length_lt_of_entry member (lineStart_ne_nil 37 (renderNat items.length))
      have fits : (wire e.2).length ≤ m + 1 := by omega
      exact ih e member (d.mem_dictionary member).1 m fits
  | set members ih =>
      have wf := d.wf
      simp only [ZspFrame.Wf, ZspFrame.all, ZspFrame.wfNode, Bool.and_eq_true,
        decide_eq_true_eq] at wf
      have folds : members.foldl setContainer.add [] = members :=
        foldl_hashSetInsert wf.1.2
      rw [wire] at enough ⊢
      refine reads_parseCounted wf.1.1 folds fun f member => ?_
      have shorter := length_lt_of_mem member (lineStart_ne_nil 126 (renderNat members.length))
      have fits : (wire f).length ≤ n := by omega
      obtain ⟨m, rfl⟩ := fuel_succ fits
      exact ih f member (d.mem_set member) m fits
  | push items ih =>
      have wf := d.wf
      simp only [ZspFrame.Wf, ZspFrame.all, ZspFrame.wfNode, Bool.and_eq_true,
        decide_eq_true_eq] at wf
      have folds : items.foldl pushContainer.add [] = items := foldl_append items []
      rw [wire] at enough ⊢
      refine reads_parseCounted wf.1 folds fun f member => ?_
      have shorter := length_lt_of_mem member (lineStart_ne_nil 62 (renderNat items.length))
      have fits : (wire f).length ≤ n := by omega
      obtain ⟨m, rfl⟩ := fuel_succ fits
      exact ih f member (d.mem_push member) m fits
  | zset entries =>
      have wf := d.wf
      have readable := d.readable
      simp only [ZspFrame.Wf, ZspFrame.all, ZspFrame.wfNode, decide_eq_true_eq] at wf
      simp only [ZspFrame.all, readableNode, List.all_eq_true, Bool.and_eq_true,
        decide_eq_true_eq] at readable
      rw [wire] at enough ⊢
      obtain ⟨m, rfl⟩ := fuel_succ_of_line enough
      exact reads_parseZSet wf (readsPairs_zset (fun b hb => reads_bulk hb m)
        (fun b f text value => reads_floatLine text value m) readable)
  | null =>
      intro t
      rfl

theorem decode_wire {f : ZspFrame} (d : Deliverable f) :
    Reads (decode .initial) (wire f) (some f, .initial) := by
  intro t
  have enough : (wire f).length ≤ (wire f ++ t).length + 2 := by
    rw [List.length_append]
    omega
  exact reads_wire d enough t

theorem decode_float {b : Bytes} {f : F64} (text : LineText b) (value : readFloat b = some f) :
    Reads (decode .initial) (line 44 b) (some (.float f), .initial) :=
  fun t => reads_floatLine text value _ t

theorem exists_readFloat_floatText (f : F64) : ∃ g, readFloat (floatText f) = some g := by
  unfold floatText
  split
  · split
    · exact ⟨_, rfl⟩
    · exact ⟨_, rfl⟩
  · rename_i finite
    unfold readFloat
    split
    · exact ⟨_, rfl⟩
    · split
      · exact ⟨_, rfl⟩
      · exact F64.exists_parse_displayFixed (by simpa using finite) 4

theorem decode_counted {p : Int64 → FrameReader Decoded} {marker : UInt8} {n : Nat}
    {message : String} (small : n < 2 ^ 63)
    (parser : ∀ s, decode .initial (marker :: s) = (readNumber message >>= p) s) (s : Bytes) :
    decode .initial (line marker (renderNat n) ++ s) = p (Int64.ofInt n) s := by
  have shape : line marker (renderNat n) ++ s = marker :: (renderNat n ++ crlf ++ s) := by
    simp [line]
  rw [shape, parser, bind_of_ok (reads_readNumber_count small message s)]

/-- Frames without floating-point numbers. -/
def plainNode : ZspFrame → Bool
  | .float _ => false
  | .zset _ => false
  | _ => true

/-- Frames whose dictionary keys fit into a binary string. -/
def shortKeysNode : ZspFrame → Bool
  | .dictionary items => items.all fun e => e.1.bytes.length ≤ maxBinaryLength
  | _ => true

theorem ZspFrame.all_of_imp {p q r : ZspFrame → Bool}
    (imp : ∀ f, p f = true → q f = true → r f = true) {f : ZspFrame} (first : f.all p = true)
    (second : f.all q = true) : f.all r = true := by
  induction f using ZspFrame.induct with
  | array items ih =>
      simp only [ZspFrame.all, Bool.and_eq_true, ZspFrame.allItems_iff] at *
      exact ⟨imp _ first.1 second.1, fun f hf => ih f hf (first.2 f hf) (second.2 f hf)⟩
  | dictionary items ih =>
      simp only [ZspFrame.all, Bool.and_eq_true, ZspFrame.allEntries_iff] at *
      exact ⟨imp _ first.1 second.1, fun f hf => ih f hf (first.2 f hf) (second.2 f hf)⟩
  | set members ih =>
      simp only [ZspFrame.all, Bool.and_eq_true, ZspFrame.allItems_iff] at *
      exact ⟨imp _ first.1 second.1, fun f hf => ih f hf (first.2 f hf) (second.2 f hf)⟩
  | push items ih =>
      simp only [ZspFrame.all, Bool.and_eq_true, ZspFrame.allItems_iff] at *
      exact ⟨imp _ first.1 second.1, fun f hf => ih f hf (first.2 f hf) (second.2 f hf)⟩
  | _ => exact imp _ first second

theorem readable_of_plain {f : ZspFrame} (plain : f.all plainNode = true)
    (keys : f.all shortKeysNode = true) : f.all readableNode = true := by
  refine ZspFrame.all_of_imp (fun g plain keys => ?_) plain keys
  cases g with
  | float f => exact absurd plain (by simp [plainNode])
  | zset entries => exact absurd plain (by simp [plainNode])
  | dictionary items => exact keys
  | _ => rfl

/-- Encoding a frame without floating-point numbers and decoding it again gives the frame back,
leaves what follows unread and the decoder in its initial state. -/
theorem decode_encode {f : ZspFrame} {b : Bytes} (wf : f.Wf) (plain : f.all plainNode = true)
    (keys : f.all shortKeysNode = true) (encoded : encode f = .ok b) (t : Bytes) :
    decode .initial (b ++ t) = .ok ((some f, .initial), t) := by
  obtain ⟨rfl, sendable⟩ := encodeFrame_ok encoded
  exact decode_wire ⟨wf, sendable, readable_of_plain plain keys⟩ t

theorem decode_encode_nested :
    decode .initial (bytesOf "*2\r\n%1\r\n$1\r\nk\r\n~2\r\n:1\r\n_\r\n$2\r\n\r\n\r\n+next") =
      .ok ((some (.array [.dictionary [(Str.lit "k", .set [.integer 1, .null])],
        .binaryString (some [13, 10])]), .initial), bytesOf "+next") :=
  decode_encode (b := bytesOf "*2\r\n%1\r\n$1\r\nk\r\n~2\r\n:1\r\n_\r\n$2\r\n\r\n\r\n")
    (by decide) (by decide) (by decide) (by rfl) (bytesOf "+next")

end Zumic.Zsp
