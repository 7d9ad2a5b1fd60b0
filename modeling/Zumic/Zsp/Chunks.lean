/- Decoding a frame that arrives in chunks. -/

import Zumic.Zsp.Recursion
import Zumic.Zsp.RoundTrip

namespace Zumic.Zsp

open Lib Lib.ByteString Lib.Decimal Lib.Reader Lib.Resume Lib.Utf8

/-- The answers of a decoder, starting in `state`, to the chunks of an input. -/
def decodeChunks : ZspDecodeState → List Bytes → List (Except ZspDecodeError (Option ZspFrame)) :=
  feed decode .initial

/-- The parts of an encoded frame between which the decoder can stop: the length line of the
outermost container, then its items, or its keys and values. -/
def pieces : ZspFrame → List Bytes
  | .array items => line 42 (renderNat items.length) :: items.map wire
  | .set members => line 126 (renderNat members.length) :: members.map wire
  | .push items => line 62 (renderNat items.length) :: items.map wire
  | .dictionary items =>
      line 37 (renderNat items.length) :: items.flatMap fun e => [bulk e.1.bytes, wire e.2]
  | f => [wire f]

/-- Chunks that are cut between pieces, or once inside the payload of a binary string. -/
def CleanCut (f : ZspFrame) (chunks : List Bytes) : Prop :=
  (∃ groups : List (List Bytes), (∀ g ∈ groups, g ≠ []) ∧ groups.flatten = pieces f ∧
    chunks = groups.map List.flatten) ∨
  ∃ b k, f = .binaryString (some b) ∧ k < b.length ∧
    chunks = [line 36 (renderNat b.length) ++ b.take k, b.drop k ++ crlf]

theorem continueItems_cons {c : Container} {f : ZspFrame} (d : Deliverable f) (len : Nat)
    (items : List ZspFrame) (remaining : Nat) (s : Bytes) :
    continueItems decode c len items (remaining + 1) .initial (wire f ++ s) =
      continueItems decode c len (c.add items f) remaining .initial s := by
  have loop : itemsLoop decode c.add (remaining + 1) items .initial (wire f ++ s) =
      itemsLoop decode c.add remaining (c.add items f) .initial s := by
    rw [itemsLoop, bind_of_ok (decode_wire d s)]
  rw [continueItems, continueItems, bind_apply, bind_apply, loop]

theorem continueItems_nil {c : Container} (len : Nat) (items : List ZspFrame)
    (remaining : Nat) :
    continueItems decode c len items (remaining + 1) .initial [] =
      .ok ((none, c.hold len items (remaining + 1)), []) := rfl

theorem resumes_items {c : Container} {len : Nat}
    (held : ∀ items remaining, decode (c.hold len items remaining) =
      continueItems decode c len items remaining .initial)
    {l : List ZspFrame} (deliverable : ∀ f ∈ l, Deliverable f) (items : List ZspFrame) :
    Resumes decode (c.build (l.foldl c.add items))
      (continueItems decode c len items l.length .initial) (l.map wire) := by
  induction l generalizing items with
  | nil =>
      have finished : continueItems decode c len items 0 .initial [] =
          .ok ((some (c.build items), .initial), []) := rfl
      exact Resumes.done finished
  | cons f l ih =>
      refine Resumes.piece (continueItems_cons (deliverable f (by simp)) len items l.length)
        (fun more => ?_) (ih (fun g hg => deliverable g (List.mem_cons_of_mem _ hg)) _)
      have left : l ≠ [] := by simpa using more
      obtain ⟨n, size⟩ : ∃ n, l.length = n + 1 :=
        ⟨l.length - 1, by have := List.length_pos_iff.mpr left; omega⟩
      rw [size]
      exact ⟨_, _, continueItems_nil len _ n, fun s => by rw [held]⟩

section

variable {l : List (Str × ZspFrame)}

theorem readsPairs_decode (deliverable : ∀ e ∈ l, Deliverable e.2)
    (fits : ∀ e ∈ l, e.1.bytes.length ≤ maxBinaryLength) :
    ReadsPairs decode dictionaryContainer wire l where
  name k := by simp [dictionaryContainer, dictionaryKey]
  key b short := fun t => reads_bulk short _ t
  fits := fits
  value e member := ⟨e.2, decode_wire (deliverable e member), rfl⟩

theorem continuePairs_nil (len : Nat) (items : List (Str × ZspFrame)) (remaining : Nat)
    (pending : Option Str) :
    continuePairs decode dictionaryContainer len items (remaining + 1) pending .initial [] =
      .ok ((none, .partialDictionary len items (remaining + 1) pending), []) := by
  cases pending with
  | none => rfl
  | some key => rfl

theorem continuePairs_of_loop {len remaining remaining' : Nat}
    {items items' : List (Str × ZspFrame)} {pending pending' : Option Str} {s s' : Bytes}
    (loop : pairsLoop decode dictionaryContainer remaining items pending .initial s =
      pairsLoop decode dictionaryContainer remaining' items' pending' .initial s') :
    continuePairs decode dictionaryContainer len items remaining pending .initial s =
      continuePairs decode dictionaryContainer len items' remaining' pending' .initial s' := by
  rw [continuePairs, continuePairs, bind_apply, bind_apply, loop]

theorem decode_held (len : Nat) (items : List (Str × ZspFrame)) (remaining : Nat)
    (pending : Option Str) :
    decode (.partialDictionary len items remaining pending) =
      continuePairs decode dictionaryContainer len items remaining pending .initial :=
  funext (decode_eq _)

theorem resumes_pairs (len : Nat) (pairs : ReadsPairs decode dictionaryContainer wire l)
    (items : List (Str × ZspFrame)) :
    Resumes decode (.dictionary (l.foldl (fun m e => Assoc.insert m e.1 e.2) items))
      (continuePairs decode dictionaryContainer len items l.length none .initial)
      (l.flatMap fun e => [bulk e.1.bytes, wire e.2]) := by
  induction l generalizing items with
  | nil =>
      have finished : continuePairs decode dictionaryContainer len items 0 none .initial [] =
          .ok ((some (.dictionary items), .initial), []) := rfl
      exact Resumes.done finished
  | cons e l ih =>
      have name : ∀ s, continuePairs decode dictionaryContainer len items (l.length + 1) none
          .initial (bulk e.1.bytes ++ s) =
          continuePairs decode dictionaryContainer len items (l.length + 1) (some e.1) .initial s :=
        fun s => continuePairs_of_loop (pairsLoop_name pairs l.length items s)
      have value : ∀ s, continuePairs decode dictionaryContainer len items (l.length + 1) (some e.1)
          .initial (wire e.2 ++ s) =
          continuePairs decode dictionaryContainer len (Assoc.insert items e.1 e.2) l.length none
            .initial s :=
        fun s => continuePairs_of_loop (pairsLoop_value pairs l.length items s)
      refine Resumes.piece name (fun _ => ?_) (Resumes.piece value (fun more => ?_)
        (ih pairs.tail _))
      · exact ⟨_, _, continuePairs_nil len items l.length (some e.1), fun s => by rw [decode_held]⟩
      · have left : l ≠ [] := by
          rintro rfl
          exact more rfl
        obtain ⟨n, size⟩ : ∃ n, l.length = n + 1 :=
          ⟨l.length - 1, by have := List.length_pos_iff.mpr left; omega⟩
        rw [size]
        exact ⟨_, _, continuePairs_nil len _ n none, fun s => by rw [decode_held]⟩

end

theorem resumes_whole {f : ZspFrame} (d : Deliverable f) :
    Resumes decode f (decode .initial) [wire f] := by
  have finished : (fun s : Bytes => (.ok ((some f, .initial), s) :
      Except ZspDecodeError (Decoded × Bytes))) [] = .ok ((some f, .initial), []) := rfl
  exact Resumes.piece (decode_wire d) (fun more => absurd rfl more) (Resumes.done finished)

theorem decode_array (s : Bytes) :
    decode .initial (42 :: s) = parseArray decode 0 s := decode_eq _ _

theorem decode_set (s : Bytes) :
    decode .initial (126 :: s) = parseSet decode s := decode_eq _ _

theorem decode_push (s : Bytes) :
    decode .initial (62 :: s) = parsePush decode s := decode_eq _ _

theorem decode_dictionary (s : Bytes) :
    decode .initial (37 :: s) = parseDictionary decode s := decode_eq _ _

theorem decode_array_header {l : List ZspFrame} (small : l.length < 2 ^ 63) (left : l ≠ [])
    (s : Bytes) :
    decode .initial (line 42 (renderNat l.length) ++ s) =
      continueItems decode arrayContainer l.length [] l.length .initial s := by
  have positive := List.length_pos_iff.mpr left
  rw [decode_counted small decode_array s]
  simp only [toInt_ofInt_nat small]
  rw [if_neg (by omega), if_pos (by omega), Int.toNat_natCast]

theorem decode_set_header {l : List ZspFrame} (small : l.length < 2 ^ 63) (left : l ≠ [])
    (s : Bytes) :
    decode .initial (line 126 (renderNat l.length) ++ s) =
      continueItems decode setContainer l.length [] l.length .initial s := by
  have positive := List.length_pos_iff.mpr left
  rw [decode_counted small decode_set s]
  simp only [toInt_ofInt_nat small]
  rw [if_neg (by omega), if_pos (by omega), Int.toNat_natCast]

theorem decode_push_header {l : List ZspFrame} (small : l.length < 2 ^ 63) (left : l ≠ [])
    (s : Bytes) :
    decode .initial (line 62 (renderNat l.length) ++ s) =
      continueItems decode pushContainer l.length [] l.length .initial s := by
  have positive := List.length_pos_iff.mpr left
  rw [decode_counted small decode_push s]
  simp only [toInt_ofInt_nat small]
  rw [if_neg (by omega), if_pos (by omega), Int.toNat_natCast]

theorem resumes_container {c : Container} {head : Bytes} {l : List ZspFrame}
    (whole : Deliverable (c.build l)) (shape : wire (c.build l) = head ++ wireItems l)
    (header : l ≠ [] → ∀ s, decode .initial (head ++ s) =
      continueItems decode c l.length [] l.length .initial s)
    (held : ∀ items remaining, decode (c.hold l.length items remaining) =
      continueItems decode c l.length items remaining .initial)
    (folds : l.foldl c.add [] = l) (deliverable : ∀ f ∈ l, Deliverable f) :
    Resumes decode (c.build l) (decode .initial) (head :: l.map wire) := by
  by_cases empty : l = []
  · subst empty
    have bare : wire (c.build []) = head := by rw [shape, wireItems, List.append_nil]
    have one := resumes_whole whole
    rw [bare] at one
    exact one
  · have items := resumes_items held deliverable []
    rw [folds] at items
    refine Resumes.piece (header empty) (fun _ => ?_) items
    obtain ⟨n, size⟩ : ∃ n, l.length = n + 1 :=
      ⟨l.length - 1, by have := List.length_pos_iff.mpr empty; omega⟩
    rw [size] at held ⊢
    exact ⟨_, _, continueItems_nil _ _ n, fun s => by rw [held]⟩

theorem resumes_pieces {f : ZspFrame} (d : Deliverable f) :
    Resumes decode f (decode .initial) (pieces f) := by
  have wf := d.wf
  cases f with
  | array items =>
      simp only [ZspFrame.Wf, ZspFrame.all, ZspFrame.wfNode, Bool.and_eq_true,
        decide_eq_true_eq] at wf
      refine resumes_container (c := arrayContainer) d (by rw [arrayContainer, wire])
        (fun left s => ?_) (fun _ _ => funext (decode_eq _)) (foldl_append items [])
        fun f member => d.mem_array member
      exact decode_array_header wf.1 left s
  | set members =>
      simp only [ZspFrame.Wf, ZspFrame.all, ZspFrame.wfNode, Bool.and_eq_true,
        decide_eq_true_eq] at wf
      refine resumes_container (c := setContainer) d (by rw [setContainer, wire])
        (fun left s => ?_) (fun _ _ => funext (decode_eq _)) (foldl_hashSetInsert wf.1.2)
        fun f member => d.mem_set member
      exact decode_set_header wf.1.1 left s
  | push items =>
      simp only [ZspFrame.Wf, ZspFrame.all, ZspFrame.wfNode, Bool.and_eq_true,
        decide_eq_true_eq] at wf
      refine resumes_container (c := pushContainer) d (by rw [pushContainer, wire])
        (fun left s => ?_) (fun _ _ => funext (decode_eq _)) (foldl_append items [])
        fun f member => d.mem_push member
      exact decode_push_header wf.1 left s
  | dictionary items =>
      simp only [ZspFrame.Wf, ZspFrame.all, ZspFrame.wfNode, Bool.and_eq_true,
        decide_eq_true_eq] at wf
      by_cases empty : items = []
      · subst empty
        exact resumes_whole d
      · have positive := List.length_pos_iff.mpr empty
        have header : ∀ s, decode .initial (line 37 (renderNat items.length) ++ s) =
            continuePairs decode dictionaryContainer items.length [] items.length none .initial s := by
          intro s
          rw [decode_counted wf.1.1 decode_dictionary s]
          simp only [toInt_ofInt_nat wf.1.1]
          rw [if_neg (by omega), if_pos (by omega), Int.toNat_natCast]
        have reads : ReadsPairs decode dictionaryContainer wire items :=
          readsPairs_decode (fun e member => (d.mem_dictionary member).1)
            fun e member => (d.mem_dictionary member).2
        have folds : items.foldl (fun m e => Assoc.insert m e.1 e.2) [] = items :=
          Assoc.foldl_insert wf.1.2
        have entries : Resumes decode (.dictionary items)
            (continuePairs decode dictionaryContainer items.length [] items.length none .initial)
            (items.flatMap fun e => [bulk e.1.bytes, wire e.2]) := by
          have whole := resumes_pairs items.length reads []
          rw [folds] at whole
          exact whole
        refine Resumes.piece header (fun _ => ?_) entries
        obtain ⟨n, size⟩ : ∃ n, items.length = n + 1 := ⟨items.length - 1, by omega⟩
        rw [size]
        exact ⟨_, _, continuePairs_nil _ _ n none, fun s => by rw [decode_held]⟩
  | _ => exact resumes_whole d

theorem decodeChunks_binary {b : Bytes} {k : Nat} (fits : b.length ≤ maxBinaryLength)
    (inside : k < b.length) :
    decodeChunks .initial [line 36 (renderNat b.length) ++ b.take k, b.drop k ++ crlf] =
      finishesAfter 1 (.binaryString (some b)) := by
  have small : b.length < 2 ^ 63 := lt_of_le_of_lt fits (by decide)
  have first : decode .initial (line 36 (renderNat b.length) ++ b.take k) =
      .ok ((none, .partialBinaryString b.length (b.take k)), []) := by
    have short : (b.take k).length ≠ b.length := by
      rw [List.length_take]
      omega
    have payload : (takeUpTo b.length : FrameReader Bytes) (b.take k) = .ok (b.take k, []) := by
      simp [takeUpTo, List.take_take, inside.le]
    rw [decode_counted small (fun s => decode_eq .initial (36 :: s)) (b.take k),
      toInt_ofInt_nat small, if_neg (by omega), if_pos (by omega)]
    simp only [Int.toNat_natCast, if_neg (not_lt.mpr fits)]
    rw [bind_of_ok payload, if_neg short]
    rfl
  have second : decode (.partialBinaryString b.length (b.take k)) (b.drop k ++ crlf) =
      .ok ((some (.binaryString (some b)), .initial), []) := by
    have missing : b.length - (b.take k).length = (b.drop k).length := by
      rw [List.length_take, List.length_drop]
      omega
    have payload : (takeUpTo (b.drop k).length : FrameReader Bytes) (b.drop k ++ crlf) =
        .ok (b.drop k, crlf) := by
      simp [takeUpTo]
    rw [decode_eq]
    simp only [decodeStep, continueBinaryString, missing]
    have ending : expectCrlf crlf = .ok ((), []) := rfl
    rw [bind_of_ok payload, List.take_append_drop, if_pos rfl, bind_of_ok ending]
    rfl
  simp [decodeChunks, feed, first, second, finishesAfter]

theorem decodeChunks_of_cleanCut {f : ZspFrame} {b : Bytes} {chunks : List Bytes} (wf : f.Wf)
    (plain : f.all plainNode = true) (keys : f.all shortKeysNode = true)
    (encoded : encode f = .ok b) (clean : CleanCut f chunks) :
    decodeChunks .initial chunks = finishesAfter (chunks.length - 1) f := by
  obtain ⟨-, sendable⟩ := encodeFrame_ok encoded
  have d : Deliverable f := ⟨wf, sendable, readable_of_plain plain keys⟩
  rcases clean with ⟨groups, nonempty, whole, rfl⟩ | ⟨payload, k, rfl, inside, rfl⟩
  · have some' : groups ≠ [] := by
      rintro rfl
      cases f <;> simp [pieces] at whole
    have resumes := resumes_pieces d
    rw [← whole] at resumes
    rw [List.length_map]
    exact feed_of_resumes some' nonempty resumes
  · have fits : payload.length ≤ maxBinaryLength := by
      simpa [ZspFrame.all, sendableNode] using sendable
    exact decodeChunks_binary fits inside

/-- A line that is cut is refused instead of being kept for the next chunk. -/
theorem decodeChunks_cut_line :
    encode (.inlineString (Str.lit "OK")) = .ok (bytesOf "+OK\r\n") ∧
      [bytesOf "+O", bytesOf "K\r\n"].flatten = bytesOf "+OK\r\n" ∧
      (decodeChunks .initial [bytesOf "+O", bytesOf "K\r\n"]).head? =
        some (.error (.unexpectedEof (Str.lit "Incomplete line"))) ∧
      decodeChunks .initial [bytesOf "+O", bytesOf "K\r\n"] ≠
        finishesAfter 1 (.inlineString (Str.lit "OK")) := by
  refine ⟨by rfl, by rfl, by rfl, fun same => ?_⟩
  have first := congrArg List.head? same
  exact absurd (show some (Except.error _) = some (Except.ok _) from first) (by simp)

end Zumic.Zsp
