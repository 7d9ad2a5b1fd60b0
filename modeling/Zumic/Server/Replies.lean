/- The replies of the text protocol, read back as frames. -/

import Zumic.Engine.Memory
import Zumic.Server.Commands
import Zumic.Zsp.Recursion
import Zumic.Zsp.RoundTrip

namespace Zumic.Server

open Database Engine Lib Lib.ByteString Lib.Decimal Lib.Reader Lib.Utf8 Zsp

/-- The string of a frame that is one. -/
def frameString : ZspFrame → Option Bytes
  | .inlineString s => some s.bytes
  | .binaryString b => b
  | _ => none

/-- The strings a frame carries, item by item. -/
def frameStrings : ZspFrame → List (Option Bytes)
  | .array items => items.map frameString
  | f => [frameString f]

/-- The bytes are one frame, and it carries what was found if a string was found. -/
def Carries (reply : Bytes) (found : List (Option Bytes)) : Prop :=
  ∃ f state, decode .initial reply = .ok ((some f, state), []) ∧
    ((∃ b, some b ∈ found) → frameStrings f = found)

/-- A string that a line can hold. -/
def FitsLine (b : Bytes) : Prop := validUtf8 b = true ∧ 13 ∉ b

/-- A string that can follow its length. -/
def FitsBulk (b : Bytes) : Prop := validUtf8 b = true ∧ b.length ≤ maxBinaryLength

theorem carries_of_wire {f : ZspFrame} (d : Deliverable f) {found : List (Option Bytes)}
    (strings : (∃ b, some b ∈ found) → frameStrings f = found) : Carries (wire f) found := by
  refine ⟨f, .initial, ?_, strings⟩
  have read := decode_wire d []
  rwa [List.append_nil] at read

theorem decode_line {marker : UInt8} {text : Bytes} {p : Str → Decoded}
    (parser : ∀ s, decode .initial (marker :: s) = (readLine >>= fun t => pure (p t)) s)
    (valid : LineText text) :
    decode .initial (line marker text) = .ok (p ⟨text, valid.1⟩, []) := by
  have shape : line marker text = marker :: (text ++ crlf) := by simp [line]
  have read := reads_readLine (s := ⟨text, valid.1⟩) valid.2 []
  rw [List.append_nil] at read
  rw [shape, parser, bind_of_ok read]
  rfl

theorem decode_inline (s : Bytes) :
    decode .initial (43 :: s) =
      (readLine >>= fun t => pure (some (.inlineString t), .initial)) s := decode_eq _ _

theorem decode_error (s : Bytes) :
    decode .initial (45 :: s) =
      (readLine >>= fun t => pure (some (.frameError t), .initial)) s := decode_eq _ _

/-- The fixed texts of the replies. -/
private def replyTexts : List String :=
  ["OK", "PONG", "ERR Unknown command", "ERR Invalid UTF-8", "ERR Unsupported type",
    "ERR Wrong number of arguments for MSET"]

theorem textByte_replyTexts {text : String} (known : text ∈ replyTexts) :
    ∀ x ∈ bytesOf text, F64.TextByte x := by
  have each : ∀ text ∈ replyTexts, ∀ x ∈ bytesOf text, F64.TextByte x := by decide +kernel
  exact each text known

theorem carries_inline {text : Bytes} (valid : LineText text) :
    Carries (line 43 text) [some text] :=
  ⟨.inlineString ⟨text, valid.1⟩, .initial,
    decode_line (p := fun t => (some (.inlineString t), .initial)) decode_inline valid, fun _ => rfl⟩

theorem carries_nothing {reply : Bytes} {found : List (Option Bytes)} (carries : Carries reply found) :
    Carries reply [] := by
  obtain ⟨f, state, run, -⟩ := carries
  exact ⟨f, state, run, fun ⟨b, member⟩ => by cases member⟩

theorem carries_error {message : String} (valid : ∀ x ∈ bytesOf message, F64.TextByte x) :
    Carries (errorReply message) [] := by
  refine ⟨.frameError ⟨bytesOf message, (lineText_of_textByte valid).1⟩, .initial, ?_, ?_⟩
  · exact decode_line (p := fun t => (some (.frameError t), .initial)) decode_error
      (lineText_of_textByte valid)
  · rintro ⟨b, member⟩
    cases member

theorem carries_count {n : Nat} (small : n < 2 ^ 63) : Carries (countReply n) [] := by
  have number : wire (.integer (Int64.ofInt n)) = countReply n := by
    rw [wire, toInt_ofInt_nat small, renderInt, if_neg (by omega), Int.natAbs_natCast, countReply]
  have d : Deliverable (.integer (Int64.ofInt n)) := ⟨rfl, rfl, rfl⟩
  rw [← number]
  refine carries_of_wire d ?_
  rintro ⟨b, member⟩
  cases member

theorem carries_nil : Carries nilReply [none] := by
  have null : wire (.binaryString none) = nilReply := by rw [wire, nilReply]
  have d : Deliverable (.binaryString none) := ⟨rfl, rfl, rfl⟩
  rw [← null]
  exact carries_of_wire d fun _ => rfl

theorem readLine_bytes {slice rest : Bytes} {text : Str}
    (run : readLine slice = .ok (text, rest)) : text.bytes = slice.takeWhile (· != 13) := by
  unfold readLine at run
  split at run
  · split at run
    · rename_i t read
      obtain ⟨rfl, -⟩ := by simpa using run
      exact Str.bytes_of_fromUtf8 read
    · cases run
  · cases run

theorem not_mem_of_carries_inline {text : Bytes}
    (carries : Carries (line 43 text) [some text]) : 13 ∉ text := by
  obtain ⟨f, state, run, strings⟩ := carries
  have shape : line 43 text = 43 :: (text ++ crlf) := by simp [line]
  rw [shape, decode_inline] at run
  obtain ⟨read, rest, first, second⟩ := bind_eq_ok run
  obtain rfl : ZspFrame.inlineString read = f := by
    have same := Except.ok.inj second
    simpa using congrArg (fun r : Decoded × Bytes => r.1.1) same
  have same : read.bytes = text := by simpa [frameStrings, frameString] using strings ⟨text, by simp⟩
  intro member
  rw [← same, readLine_bytes first] at member
  have before := List.all_eq_true.mp List.all_takeWhile 13 member
  simp at before

theorem carries_getReply_iff (value : Option Value) :
    Carries (getReply value) [stringOf value] ↔ ∀ b, stringOf value = some b → FitsLine b := by
  unfold getReply
  split
  · rename_i b
    have image : stringOf (some (.str b)) = some b := rfl
    rw [image]
    by_cases valid : validUtf8 b = true
    · have text : Str.fromUtf8 b = some ⟨b, valid⟩ := by simp [Str.fromUtf8, valid]
      simp only [text, Option.some.injEq, forall_eq']
      constructor
      · intro carries
        exact ⟨valid, not_mem_of_carries_inline carries⟩
      · intro fits
        exact carries_inline fits
    · have text : Str.fromUtf8 b = none := by simp [Str.fromUtf8, valid]
      simp only [text, Option.some.injEq, forall_eq']
      constructor
      · rintro ⟨f, state, run, strings⟩
        have plain : LineText (bytesOf "ERR Invalid UTF-8") :=
          lineText_of_textByte (textByte_replyTexts (by simp [replyTexts]))
        have error := decode_line (p := fun t => (some (.frameError t), .initial)) decode_error plain
        have same := strings ⟨b, by simp⟩
        have both := run.symm.trans error
        obtain ⟨⟨rfl, -⟩, -⟩ := by simpa using both
        simp [frameStrings, frameString] at same
      · intro fits
        exact absurd fits.1 valid
  · rename_i v other
    have image : stringOf (some v) = none := by
      cases v with
      | str b => exact absurd rfl (other b)
      | _ => rfl
    have frame : Carries (errorReply "ERR Unsupported type") [] :=
      carries_error (textByte_replyTexts (by simp [replyTexts]))
    obtain ⟨f, state, run, -⟩ := frame
    rw [image]
    constructor
    · intro _ b same
      cases same
    · intro _
      refine ⟨f, state, run, ?_⟩
      rintro ⟨b, member⟩
      simp at member
  · constructor
    · intro _ b same
      cases same
    · intro _
      exact carries_nil

theorem decode_bulk (s : Bytes) :
    decode .initial (36 :: s) = parseBinaryString s := decode_eq _ _

theorem lt_of_decode_bulk {n : Nat} {s : Bytes} {r : Decoded × Bytes}
    (run : decode .initial (line 36 (renderNat n) ++ s) = .ok r) : n < 2 ^ 63 := by
  have shape : line 36 (renderNat n) ++ s = 36 :: (renderNat n ++ crlf ++ s) := by simp [line]
  have text := lineText_renderNat n
  have first := reads_readLine (s := ⟨renderNat n, text.1⟩) text.2 s
  rw [shape, decode_bulk, parseBinaryString] at run
  obtain ⟨len, rest, number, -⟩ := bind_eq_ok run
  rw [readNumber, bind_of_ok first] at number
  cases read : readI64 (renderNat n) with
  | none =>
      simp only [read] at number
      cases number
  | some i => exact lt_of_readI64_renderNat read

theorem decode_bulk_inv {n : Nat} {s rest : Bytes} {f : ZspFrame} {state : ZspDecodeState}
    (run : decode .initial (line 36 (renderNat n) ++ s) = .ok ((some f, state), rest)) :
    n ≤ maxBinaryLength ∧ f = .binaryString (some (s.take n)) ∧ s = s.take n ++ 13 :: 10 :: rest := by
  have small := lt_of_decode_bulk run
  rw [decode_counted small (fun s => decode_bulk s) s, toInt_ofInt_nat small,
    if_neg (by omega), if_pos (by omega)] at run
  simp only [Int.toNat_natCast] at run
  by_cases long : maxBinaryLength < n
  · rw [if_pos long] at run
    cases run
  · rw [if_neg long] at run
    have payload : (takeUpTo n : FrameReader Bytes) s = .ok (s.take n, s.drop n) := rfl
    rw [bind_of_ok payload] at run
    by_cases full : (s.take n).length = n
    · rw [if_pos full] at run
      obtain ⟨u, left, ends, last⟩ := bind_eq_ok run
      obtain ⟨⟨rfl, -⟩, rfl⟩ := by simpa [pure_apply] using last
      refine ⟨not_lt.mp long, rfl, ?_⟩
      have tail : s.drop n = 13 :: 10 :: left := by
        unfold expectCrlf at ends
        split at ends
        · rename_i more cut
          obtain rfl : more = left := by simpa using ends
          exact cut
        · cases ends
      rw [← tail, List.take_append_drop]
    · rw [if_neg full] at run
      cases run

theorem bulkReply_of_valid {b : Bytes} (valid : validUtf8 b = true) :
    bulkReply b = wire (.binaryString (some b)) := by
  rw [bulkReply, lossy_of_valid valid, wire, bulk]

theorem deliverable_bulk {b : Bytes} (short : b.length ≤ maxBinaryLength) :
    Deliverable (.binaryString (some b)) :=
  ⟨rfl, by simpa [ZspFrame.all, sendableNode] using short, rfl⟩

/-- A string that was read back was well-formed and short: what follows its length is
well-formed, so it can only be cut at the line end if the string is. -/
theorem fitsBulk_of_decode {b rest left : Bytes} {f : ZspFrame} {state : ZspDecodeState}
    (valid : validUtf8 rest = true)
    (run : decode .initial (bulkReply b ++ rest) = .ok ((some f, state), left))
    (same : frameString f = some b) : FitsBulk b := by
  have shape : bulkReply b ++ rest =
      line 36 (renderNat b.length) ++ (lossy b ++ crlf ++ rest) := by
    simp [bulkReply]
  rw [shape] at run
  obtain ⟨short, rfl, split⟩ := decode_bulk_inv run
  have data : (lossy b ++ crlf ++ rest).take b.length = b := Option.some.inj same
  have whole : validUtf8 (lossy b ++ crlf ++ rest) = true :=
    validUtf8_append (validUtf8_append (validUtf8_lossy b) (by decide)) valid
  rw [split, data] at whole
  exact ⟨(validUtf8_split (by decide) whole).1, short⟩

theorem carries_bulkReply_iff (b : Bytes) : Carries (bulkReply b) [some b] ↔ FitsBulk b := by
  constructor
  · rintro ⟨f, state, run, strings⟩
    have same := strings ⟨b, by simp⟩
    have whole : decode .initial (bulkReply b ++ []) = .ok ((some f, state), []) := by
      rwa [List.append_nil]
    have frame : f = .binaryString (some ((lossy b ++ crlf).take b.length)) := by
      have shape : bulkReply b = line 36 (renderNat b.length) ++ (lossy b ++ crlf) := by
        simp [bulkReply]
      rw [shape] at run
      exact (decode_bulk_inv run).2.1
    refine fitsBulk_of_decode rfl whole ?_
    rw [frame] at same ⊢
    simpa [frameStrings] using same
  · intro fits
    rw [bulkReply_of_valid fits.1]
    exact carries_of_wire (deliverable_bulk fits.2) fun _ => rfl

theorem validUtf8_line {marker : UInt8} {text : Bytes} (ascii : marker < 0x80)
    (valid : validUtf8 text = true) : validUtf8 (line marker text) = true := by
  have head : validUtf8 [marker] = true := validUtf8_of_ascii (by simpa using ascii)
  exact validUtf8_append (validUtf8_append head valid) (by decide)

theorem validUtf8_items (items : List (Option Bytes)) :
    validUtf8 (items.flatMap itemReply) = true := by
  induction items with
  | nil => rfl
  | cons item items ih =>
      rw [List.flatMap_cons]
      refine validUtf8_append ?_ ih
      cases item with
      | none => exact validUtf8_line (by decide) (by decide)
      | some b =>
          exact validUtf8_append (validUtf8_append
            (validUtf8_line (by decide) (lineText_renderNat _).1) (validUtf8_lossy b)) (by decide)

theorem itemsLoop_append_only {n remaining : Nat} {acc out : List ZspFrame}
    {state state' : ZspDecodeState} {s rest : Bytes}
    (run : itemsLoop decode arrayContainer.add n acc state s =
      .ok ((out, remaining, state'), rest)) : acc <+: out := by
  induction n generalizing acc state s with
  | zero =>
      obtain ⟨⟨rfl, -⟩, -⟩ := by simpa [itemsLoop, pure_apply] using run
      exact List.prefix_refl _
  | succ n ih =>
      rw [itemsLoop] at run
      obtain ⟨⟨o, next⟩, left, -, later⟩ := bind_eq_ok run
      cases o with
      | none =>
          obtain ⟨⟨rfl, -⟩, -⟩ := by simpa [pure_apply] using later
          exact List.prefix_refl _
      | some g => exact (List.prefix_append acc [g]).trans (ih later)

/-- Induction over the items: as long as each is read back, the next one starts where it ends. -/
theorem fitsBulk_of_itemsLoop {items : List (Option Bytes)} {acc out : List ZspFrame}
    {state : ZspDecodeState} {rest : Bytes}
    (run : itemsLoop decode arrayContainer.add items.length acc .initial
      (items.flatMap itemReply) = .ok ((out, 0, state), rest))
    (strings : out.map frameString = acc.map frameString ++ items) :
    ∀ b, some b ∈ items → FitsBulk b := by
  induction items generalizing acc with
  | nil =>
      intro b member
      cases member
  | cons item items ih =>
      rw [List.length_cons, itemsLoop, List.flatMap_cons] at run
      obtain ⟨⟨o, next⟩, left, first, later⟩ := bind_eq_ok run
      cases o with
      | none =>
          exact absurd later (by simp [pure_apply])
      | some g =>
          obtain ⟨more, rfl⟩ := itemsLoop_append_only later
          have strings' : frameString g :: more.map frameString = item :: items := by
            simpa [arrayContainer] using strings
          obtain ⟨same, others⟩ := List.cons.inj strings'
          have head : (∀ b, item = some b → FitsBulk b) ∧ next = .initial ∧
              left = items.flatMap itemReply := by
            cases item with
            | none =>
                have null : Deliverable (.binaryString none) := ⟨rfl, rfl, rfl⟩
                have read := decode_wire null (items.flatMap itemReply)
                have shape : wire (.binaryString none) = itemReply none := by
                  rw [wire, itemReply, nilReply]
                rw [shape, first] at read
                obtain ⟨⟨-, rfl⟩, rfl⟩ := by simpa using read
                refine ⟨fun b impossible => ?_, rfl, rfl⟩
                cases impossible
            | some b =>
                have fits := fitsBulk_of_decode (validUtf8_items items) first same
                have read := decode_wire (deliverable_bulk fits.2) (items.flatMap itemReply)
                rw [← bulkReply_of_valid fits.1] at read
                have both := first.symm.trans read
                obtain ⟨⟨-, rfl⟩, rfl⟩ := by simpa using both
                refine ⟨fun c equal => ?_, rfl, rfl⟩
                obtain rfl := Option.some.inj equal
                exact fits
          obtain ⟨here, rfl, rfl⟩ := head
          intro b member
          rcases List.mem_cons.mp member with equal | later'
          · exact here b equal.symm
          · refine ih later ?_ b later'
            simp [arrayContainer, others]

theorem decode_arrayReply (s : Bytes) :
    decode .initial (42 :: s) = parseArray decode 0 s := decode_eq _ _

theorem wireItems_binary {items : List (Option Bytes)}
    (valid : ∀ b, some b ∈ items → validUtf8 b = true) :
    wireItems (items.map .binaryString) = items.flatMap itemReply := by
  induction items with
  | nil => rw [List.map_nil, wireItems]; rfl
  | cons item items ih =>
      rw [List.map_cons, wireItems, List.flatMap_cons,
        ih fun b member => valid b (List.mem_cons_of_mem _ member)]
      cases item with
      | none => rw [wire, itemReply, nilReply]
      | some b => rw [itemReply, bulkReply_of_valid (valid b (by simp))]

theorem carries_arrayReply_iff {items : List (Option Bytes)} (small : items.length < 2 ^ 63) :
    Carries (arrayReply items) items ↔ ∀ b, some b ∈ items → FitsBulk b := by
  constructor
  · rintro ⟨f, state, run, strings⟩ b member
    have same := strings ⟨b, member⟩
    have positive := List.length_pos_of_mem member
    rw [arrayReply, decode_counted small decode_arrayReply, toInt_ofInt_nat small,
      if_neg (by omega), if_pos (by omega), Int.toNat_natCast, continueItems] at run
    obtain ⟨⟨out, remaining, next⟩, left, loop, last⟩ := bind_eq_ok run
    cases remaining with
    | zero =>
        obtain ⟨⟨rfl, -⟩, -⟩ := by simpa [pure_apply] using last
        exact fitsBulk_of_itemsLoop loop (by simpa [frameStrings, arrayContainer] using same) b member
    | succ k => exact absurd last (by simp [pure_apply])
  · intro fits
    have bytes : arrayReply items = wire (.array (items.map .binaryString)) := by
      rw [arrayReply, wire, List.length_map, wireItems_binary fun b member => (fits b member).1]
    have each : ∀ g ∈ items.map ZspFrame.binaryString, Deliverable g := by
      intro g member
      obtain ⟨item, inside, rfl⟩ := List.mem_map.mp member
      cases item with
      | none => exact ⟨rfl, rfl, rfl⟩
      | some b => exact deliverable_bulk (fits b inside).2
    have d : Deliverable (.array (items.map .binaryString)) :=
      Deliverable.array (by simpa using small) each
    rw [bytes]
    refine carries_of_wire d fun _ => ?_
    have each' : frameString ∘ ZspFrame.binaryString = id := rfl
    simp [frameStrings, each']

section

variable {σ : Type} (S : Storage σ)

/-- The commands on strings and sets. -/
def stringCommands : List Bytes :=
  ["PING", "SET", "GET", "DEL", "MSET", "MGET", "SADD", "SREM", "SCARD", "SISMEMBER", "SMEMBERS",
    "SRANDMEMBER", "SPOP"].map bytesOf

/-- What is found in the result of a call, nothing when it fails. -/
def foundIn {α : Type} (strings : α → List (Option Bytes)) : Except StoreError α → List (Option Bytes)
  | .ok a => strings a
  | .error _ => []

/-- The members of a reply, of a single one the first. -/
def chosen (single : Bool) (members : List Sds) : List (Option Bytes) :=
  if single then members.head?.toList.map some else members.map some

def foundByGet (args : List Bytes) (s : σ) : List (Option Bytes) :=
  match args with
  | [key] => foundIn (fun value => [stringOf value]) (S.get key s)
  | _ => []

def foundByMget (args : List Bytes) (s : σ) : List (Option Bytes) :=
  match args with
  | [] => []
  | keys => foundIn (fun values => values.map stringOf) (S.mget keys s)

def foundBySmembers (args : List Bytes) (s : σ) : List (Option Bytes) :=
  match args with
  | [key] => foundIn (fun members => members.map some) (S.smembers key s)
  | _ => []

/-- What a request for members finds: one of them, or as many as are asked for. -/
def foundByDraw (draw : Sds → Int64 → StoreM σ (List Sds)) (args : List Bytes) (s : σ) :
    List (Option Bytes) :=
  match args with
  | [key] => foundIn (chosen true) (draw key 1 s).1
  | [key, count] =>
      foundIn (chosen (countArg (some count) = 1)) (draw key (countArg (some count)) s).1
  | _ => []

/-- The strings that a command finds in the store, in the order of its reply. -/
def found (name : Bytes) (args : List Bytes) (s : σ) : List (Option Bytes) :=
  if name = bytesOf "GET" then foundByGet S args s
  else if name = bytesOf "MGET" then foundByMget S args s
  else if name = bytesOf "SMEMBERS" then foundBySmembers S args s
  else if name = bytesOf "SRANDMEMBER" then foundByDraw S.srandmember args s
  else if name = bytesOf "SPOP" then foundByDraw S.spop args s
  else []

/-- The number that a command counts in the store. -/
def counted (name : Bytes) (args : List Bytes) (s : σ) : Nat :=
  match args with
  | [] => 0
  | key :: members =>
      if name = bytesOf "SADD" then ((S.sadd key members s).1.toOption).getD 0
      else if name = bytesOf "SREM" then ((S.srem key members s).1.toOption).getD 0
      else if name = bytesOf "SCARD" then ((S.scard key s).toOption).getD 0
      else 0

/-- A string that the reply of a command can carry: `GET` writes it on a line, the others after
its length. -/
def Fits (name : Bytes) (b : Bytes) : Prop :=
  if name = bytesOf "GET" then FitsLine b else FitsBulk b

variable {S}

/-- The commands that can fail. -/
private def failing : List String :=
  ["SET", "GET", "DEL", "MSET", "MGET", "SADD", "SREM", "SCARD", "SISMEMBER", "SMEMBERS",
    "SRANDMEMBER", "SPOP"]

theorem carries_failed {command : String} (known : command ∈ failing) :
    Carries (failedReply command) [] := by
  have plain : ∀ command ∈ failing, ∀ x ∈ bytesOf ("ERR " ++ command ++ " failed"),
      F64.TextByte x := by decide +kernel
  exact carries_error (plain command known)

theorem carries_unknown (s : σ) : Carries ((unknown : Reply σ) s).1 [] :=
  carries_error (textByte_replyTexts (by simp [replyTexts]))

theorem carries_answer {α : Type} {command : String} {call : StoreM σ α} {s : σ}
    {reply : α → Bytes} (known : command ∈ failing)
    (each : ∀ a, (call s).1 = .ok a → Carries (reply a) []) :
    Carries (answer command call reply s).1 [] := by
  unfold answer
  split
  · rename_i a s' run
    exact each a (by rw [run])
  · exact carries_failed known

theorem carries_answerRead {α : Type} {command : String} {call : StoreRead σ α} {s : σ}
    {reply : α → Bytes} (known : command ∈ failing)
    (each : ∀ a, call s = .ok a → Carries (reply a) []) :
    Carries (answerRead command call reply s).1 [] := by
  unfold answerRead
  split
  · rename_i a run
    exact each a run
  · exact carries_failed known

theorem carries_answer_iff {α : Type} {command : String} {call : StoreM σ α} {s : σ}
    {reply : α → Bytes} {strings : α → List (Option Bytes)} {P : Bytes → Prop}
    (known : command ∈ failing)
    (each : ∀ a, (call s).1 = .ok a →
      (Carries (reply a) (strings a) ↔ ∀ b, some b ∈ strings a → P b)) :
    Carries (answer command call reply s).1 (foundIn strings (call s).1) ↔
      ∀ b, some b ∈ foundIn strings (call s).1 → P b := by
  unfold answer
  generalize run : call s = result at each ⊢
  obtain ⟨r, s'⟩ := result
  cases r with
  | ok a => exact each a rfl
  | error e => simpa [foundIn] using carries_failed known

theorem carries_answerRead_iff {α : Type} {command : String} {call : StoreRead σ α} {s : σ}
    {reply : α → Bytes} {strings : α → List (Option Bytes)} {P : Bytes → Prop}
    (known : command ∈ failing)
    (each : ∀ a, call s = .ok a →
      (Carries (reply a) (strings a) ↔ ∀ b, some b ∈ strings a → P b)) :
    Carries (answerRead command call reply s).1 (foundIn strings (call s)) ↔
      ∀ b, some b ∈ foundIn strings (call s) → P b := by
  unfold answerRead
  generalize run : call s = result at each ⊢
  cases result with
  | ok a => exact each a rfl
  | error e => simpa [foundIn] using carries_failed known

theorem carries_membersReply_iff {single : Bool} {members : List Sds}
    (small : (chosen single members).length < 2 ^ 63) :
    Carries (membersReply single members) (chosen single members) ↔
      ∀ b, some b ∈ chosen single members → FitsBulk b := by
  cases single with
  | true =>
      cases members with
      | nil => simpa [membersReply, chosen] using carries_nothing carries_nil
      | cons b members => simpa [membersReply, chosen] using carries_bulkReply_iff b
  | false => exact carries_arrayReply_iff small

theorem carries_boolReply (b : Bool) : Carries (boolReply b) [] := by
  cases b <;> exact carries_count (by decide)

theorem carries_okReply : Carries okReply [] := by
  have plain : ∀ x ∈ bytesOf "OK", F64.TextByte x := textByte_replyTexts (by simp [replyTexts])
  exact carries_nothing (carries_inline (lineText_of_textByte plain))

theorem none_found {P : Bytes → Prop} {reply : Bytes} (carries : Carries reply []) :
    Carries reply [] ↔ ∀ b, some b ∈ ([] : List (Option Bytes)) → P b := by
  simpa using carries

theorem carries_ping {args : List Bytes} (words : ∀ w ∈ args, IsWord w) (s : σ) :
    Carries (pingCommand args s).1 [] := by
  cases args with
  | nil =>
      have plain : ∀ x ∈ bytesOf "PONG", F64.TextByte x :=
        textByte_replyTexts (by simp [replyTexts])
      exact carries_nothing (carries_inline (lineText_of_textByte plain))
  | cons word rest =>
      obtain ⟨valid, noReturn, -⟩ := words word (by simp)
      exact carries_nothing (carries_inline ⟨valid, noReturn⟩)

theorem carries_set (args : List Bytes) (s : σ) : Carries (setCommand S args s).1 [] := by
  unfold setCommand
  split
  · exact carries_answer (by simp [failing]) fun _ _ => carries_okReply
  · exact carries_unknown s

theorem carries_get_iff (args : List Bytes) (s : σ) :
    Carries (getCommand S args s).1 (foundByGet S args s) ↔
      ∀ b, some b ∈ foundByGet S args s → FitsLine b := by
  match args with
  | [] => exact none_found (carries_unknown s)
  | [key] =>
      refine carries_answerRead_iff (by simp [failing]) fun value _ => ?_
      rw [carries_getReply_iff]
      simp [eq_comm]
  | _ :: _ :: _ => exact none_found (carries_unknown s)

theorem carries_del (args : List Bytes) (s : σ) : Carries (delCommand S args s).1 [] := by
  unfold delCommand
  split
  · exact carries_answer (by simp [failing]) fun b _ => carries_boolReply b
  · exact carries_unknown s

theorem carries_mset (args : List Bytes) (s : σ) : Carries (msetCommand S args s).1 [] := by
  unfold msetCommand
  split
  · exact carries_unknown s
  · split
    · exact carries_answer (by simp [failing]) fun _ _ => carries_okReply
    · exact carries_error (textByte_replyTexts (by simp [replyTexts]))

theorem carries_mget_iff {args : List Bytes} {s : σ}
    (small : (foundByMget S args s).length < 2 ^ 63) :
    Carries (mgetCommand S args s).1 (foundByMget S args s) ↔
      ∀ b, some b ∈ foundByMget S args s → FitsBulk b := by
  match args with
  | [] => exact none_found (carries_unknown s)
  | key :: keys =>
      refine carries_answerRead_iff (by simp [failing]) fun values run => ?_
      exact carries_arrayReply_iff (by simpa [foundByMget, run, foundIn] using small)

theorem carries_sadd {args : List Bytes} {s : σ}
    (small : counted S (bytesOf "SADD") args s < 2 ^ 63) : Carries (saddCommand S args s).1 [] := by
  unfold saddCommand
  split
  · refine carries_answer (by simp [failing]) fun n run => carries_count ?_
    simpa [counted, run, Except.toOption] using small
  · exact carries_unknown s

theorem carries_srem {args : List Bytes} {s : σ}
    (small : counted S (bytesOf "SREM") args s < 2 ^ 63) : Carries (sremCommand S args s).1 [] := by
  have other : bytesOf "SREM" ≠ bytesOf "SADD" := by decide
  unfold sremCommand
  split
  · refine carries_answer (by simp [failing]) fun n run => carries_count ?_
    simpa [counted, other, run, Except.toOption] using small
  · exact carries_unknown s

theorem carries_scard {args : List Bytes} {s : σ}
    (small : counted S (bytesOf "SCARD") args s < 2 ^ 63) :
    Carries (scardCommand S args s).1 [] := by
  have first : bytesOf "SCARD" ≠ bytesOf "SADD" := by decide
  have second : bytesOf "SCARD" ≠ bytesOf "SREM" := by decide
  unfold scardCommand
  split
  · refine carries_answerRead (by simp [failing]) fun n run => carries_count ?_
    simpa [counted, first, second, run, Except.toOption] using small
  · exact carries_unknown s

theorem carries_sismember (args : List Bytes) (s : σ) :
    Carries (sismemberCommand S args s).1 [] := by
  unfold sismemberCommand
  split
  · exact carries_answerRead (by simp [failing]) fun b _ => carries_boolReply b
  · exact carries_unknown s

theorem carries_smembers_iff {args : List Bytes} {s : σ}
    (small : (foundBySmembers S args s).length < 2 ^ 63) :
    Carries (smembersCommand S args s).1 (foundBySmembers S args s) ↔
      ∀ b, some b ∈ foundBySmembers S args s → FitsBulk b := by
  match args with
  | [] => exact none_found (carries_unknown s)
  | [key] =>
      refine carries_answerRead_iff (by simp [failing]) fun members run => ?_
      exact carries_arrayReply_iff (by simpa [foundBySmembers, run, foundIn] using small)
  | _ :: _ :: _ => exact none_found (carries_unknown s)

theorem carries_draw_iff {command : String} {call : StoreM σ (List Sds)} {single : Bool} {s : σ}
    (known : command ∈ failing)
    (small : (foundIn (chosen single) (call s).1).length < 2 ^ 63) :
    Carries (answer command call (membersReply single) s).1 (foundIn (chosen single) (call s).1) ↔
      ∀ b, some b ∈ foundIn (chosen single) (call s).1 → FitsBulk b := by
  refine carries_answer_iff known fun members run => ?_
  exact carries_membersReply_iff (by simpa [run, foundIn] using small)

theorem carries_srandmember_iff {args : List Bytes} {s : σ}
    (small : (foundByDraw S.srandmember args s).length < 2 ^ 63) :
    Carries (srandmemberCommand S args s).1 (foundByDraw S.srandmember args s) ↔
      ∀ b, some b ∈ foundByDraw S.srandmember args s → FitsBulk b := by
  match args with
  | [] => exact none_found (carries_unknown s)
  | [key] => exact carries_draw_iff (by simp [failing]) small
  | [key, count] => exact carries_draw_iff (by simp [failing]) small
  | _ :: _ :: _ :: _ => exact none_found (carries_unknown s)

theorem carries_spop_iff {args : List Bytes} {s : σ}
    (small : (foundByDraw S.spop args s).length < 2 ^ 63) :
    Carries (spopCommand S args s).1 (foundByDraw S.spop args s) ↔
      ∀ b, some b ∈ foundByDraw S.spop args s → FitsBulk b := by
  match args with
  | [] => exact none_found (carries_unknown s)
  | [key] => exact carries_draw_iff (by simp [failing]) small
  | [key, count] => exact carries_draw_iff (by simp [failing]) small
  | _ :: _ :: _ :: _ => exact none_found (carries_unknown s)

/-- The reply to a command on strings or sets is one frame with the strings that were found if and
only if each of them can stand where the reply puts it. -/
theorem carries_processCommand_iff {text : Str} {name : Bytes} {args : List Bytes} {s : σ}
    (words : splitWhitespace text.bytes = name :: args) (known : upper name ∈ stringCommands)
    (many : (found S (upper name) args s).length < 2 ^ 63)
    (large : counted S (upper name) args s < 2 ^ 63) :
    Carries (processCommand S text s).1 (found S (upper name) args s) ↔
      ∀ b, some b ∈ found S (upper name) args s → Fits (upper name) b := by
  have isWord : ∀ w ∈ args, IsWord w := fun w member =>
    splitWhitespace_isWord text.valid w (by rw [words]; exact List.mem_cons_of_mem _ member)
  have reply : processCommand S text s = runCommand S (upper name) args s := by
    rw [processCommand, words]
  rw [reply]
  simp only [stringCommands, List.map_cons, List.map_nil, List.mem_cons, List.not_mem_nil,
    or_false] at known
  rcases known with h | h | h | h | h | h | h | h | h | h | h | h | h <;>
    rw [h] at many large ⊢
  · exact none_found (carries_ping isWord s)
  · exact none_found (carries_set args s)
  · exact carries_get_iff args s
  · exact none_found (carries_del args s)
  · exact none_found (carries_mset args s)
  · exact carries_mget_iff many
  · exact none_found (carries_sadd large)
  · exact none_found (carries_srem large)
  · exact none_found (carries_scard large)
  · exact none_found (carries_sismember args s)
  · exact carries_smembers_iff many
  · exact carries_srandmember_iff many
  · exact carries_spop_iff many

/-- A string with a line end in it, and a key that is not there. -/
theorem carries_processCommand_mget :
    Carries (processCommand (InMemoryStore.storage GeoIndex.empty) (Str.lit "mget k x\r\n")
      ⟨[(bytesOf "k", .str (bytesOf "\r\n"))], (), fun _ => 0⟩).1 [some (bytesOf "\r\n"), none] := by
  have strings : found (InMemoryStore.storage GeoIndex.empty) (upper (bytesOf "mget"))
      [bytesOf "k", bytesOf "x"] ⟨[(bytesOf "k", .str (bytesOf "\r\n"))], (), fun _ => 0⟩ =
      [some (bytesOf "\r\n"), none] := by decide +kernel
  have words : splitWhitespace (Str.lit "mget k x\r\n").bytes =
      [bytesOf "mget", bytesOf "k", bytesOf "x"] := by decide +kernel
  have frame := carries_processCommand_iff (S := InMemoryStore.storage GeoIndex.empty)
    (s := ⟨[(bytesOf "k", .str (bytesOf "\r\n"))], (), fun _ => 0⟩) words (by decide +kernel)
    (by rw [strings]; decide) (by decide +kernel)
  rw [strings] at frame
  refine frame.mpr fun b member => ?_
  have bulk : upper (bytesOf "mget") ≠ bytesOf "GET" := by decide +kernel
  obtain rfl : b = bytesOf "\r\n" := by simpa using member
  rw [Fits, if_neg bulk]
  exact ⟨by decide, by decide⟩

/-- A string with a line end in it is cut there by `GET`, and its end is left unread. -/
theorem carries_processCommand_get :
    ¬ Carries (processCommand (InMemoryStore.storage GeoIndex.empty) (Str.lit "GET k\r\n")
      ⟨[(bytesOf "k", .str (bytesOf "a\r\nb"))], (), fun _ => 0⟩).1 [some (bytesOf "a\r\nb")] := by
  rintro ⟨f, state, run, -⟩
  have reply : (processCommand (InMemoryStore.storage GeoIndex.empty) (Str.lit "GET k\r\n")
      ⟨[(bytesOf "k", .str (bytesOf "a\r\nb"))], (), fun _ => 0⟩).1 = bytesOf "+a\r\nb\r\n" := by
    decide +kernel
  have left : decode .initial (bytesOf "+a\r\nb\r\n") =
      .ok ((some (.inlineString (Str.lit "a")), .initial), bytesOf "b\r\n") := by rfl
  rw [reply, left] at run
  have rest : bytesOf "b\r\n" = [] := congrArg Prod.snd (Except.ok.inj run)
  exact absurd rest (by decide)

end

end Zumic.Server
