/- The incremental frame decoder (`decoder.rs`). -/

import Zumic.Lib.Reader
import Zumic.Zsp.Frame

namespace Zumic.Zsp

open Lib Lib.ByteString Lib.Decimal Lib.Utf8

inductive ZspDecodeError where
  | invalidData (message : Str)
  | unexpectedEof (message : Str)
  | invalidUtf8 (message : Str)
  deriving DecidableEq

def ZspDecodeError.toStr : ZspDecodeError → Str
  | .invalidData m => Str.lit "Invalid data: " ++ m
  | .unexpectedEof m => Str.lit "Unexpected EOF: " ++ m
  | .invalidUtf8 m => Str.lit "Invalid UTF-8 encoding: " ++ m

/-- What the decoder keeps between two calls. -/
inductive ZspDecodeState where
  | initial
  | partialBinaryString (len : Nat) (data : Bytes)
  | partialArray (len : Nat) (items : List ZspFrame) (remaining : Nat)
  | partialDictionary (len : Nat) (items : List (Str × ZspFrame)) (remaining : Nat)
      (pendingKey : Option Str)
  | partialSet (len : Nat) (items : List ZspFrame) (remaining : Nat)
  | partialPush (len : Nat) (items : List ZspFrame) (remaining : Nat)
  | partialZSet (len : Nat) (items : List (Str × F64)) (pendingMember : Option Str)
      (remaining : Nat)

/-- The outcome of a call that does not fail: a frame, or `none` when bytes are missing, and the
state left behind. A call that fails leaves the initial state. -/
abbrev Decoded := Option ZspFrame × ZspDecodeState

abbrev FrameReader (α : Type) := Reader ZspDecodeError α

abbrev FrameDecoder := ZspDecodeState → FrameReader Decoded

def invalidData {α : Type} (message : String) : FrameReader α :=
  throw (.invalidData (Str.lit message))

def readLine : FrameReader Str := fun slice =>
  match slice.dropWhile (· != 13) with
  | _ :: 10 :: rest =>
      match Str.fromUtf8 (slice.takeWhile (· != 13)) with
      | some text => .ok (text, rest)
      | none => .error (.invalidUtf8 (Str.lit "Invalid UTF-8"))
  | _ => .error (.unexpectedEof (Str.lit "Incomplete line"))

def expectCrlf : FrameReader Unit := fun slice =>
  match slice with
  | 13 :: 10 :: rest => .ok ((), rest)
  | _ => .error (.unexpectedEof (Str.lit "Expected CRLF"))

def parseInlineString : FrameReader Decoded := do
  let text ← readLine
  pure (some (.inlineString text), .initial)

def parseError : FrameReader Decoded := do
  let text ← readLine
  pure (some (.frameError text), .initial)

/-- A line that holds a signed 64-bit number. -/
def readNumber (message : String) : FrameReader Int64 := do
  let text ← readLine
  match readI64 text.bytes with
  | some n => pure n
  | none => invalidData message

def parseInteger : FrameReader Decoded := do
  let n ← readNumber "Invalid integer"
  pure (some (.integer n), .initial)

def readFloat (text : Bytes) : Option F64 :=
  if text = bytesOf "inf" then some F64.infinity
  else if text = bytesOf "-inf" then some F64.negInfinity
  else F64.parse text

def parseFloat : FrameReader Decoded := do
  let text ← readLine
  match readFloat text.bytes with
  | some f => pure (some (.float f), .initial)
  | none => invalidData "Invalid float"

def parseBool : FrameReader Decoded := fun slice =>
  match slice with
  | b :: c :: d :: rest =>
      if c ≠ 13 ∨ d ≠ 10 then .error (.invalidData (Str.lit "Invalid boolean format"))
      else if b = 116 then .ok ((some (.bool true), .initial), rest)
      else if b = 102 then .ok ((some (.bool false), .initial), rest)
      else .error (.invalidData (Str.lit "Unknown boolean value"))
  | _ => .error (.unexpectedEof (Str.lit "Incomplete boolean"))

def parseNull : FrameReader Decoded := fun slice =>
  match slice with
  | b :: c :: rest =>
      if b ≠ 13 ∨ c ≠ 10 then .error (.invalidData (Str.lit "Invalid null format"))
      else .ok ((some .null, .initial), rest)
  | _ => .error (.unexpectedEof (Str.lit "Incomplete null"))

def parseBinaryString : FrameReader Decoded := do
  let len ← readNumber "Invalid binary"
  if len.toInt = -1 then pure (some (.binaryString none), .initial)
  else if 0 ≤ len.toInt then
    let len := len.toInt.toNat
    if maxBinaryLength < len then
      throw (.invalidData (Str.lit "Binary string too long (" ++ Str.ofNat len ++ Str.lit " > "
        ++ Str.ofNat maxBinaryLength ++ Str.lit ")"))
    else
      let data ← Reader.takeUpTo len
      if data.length = len then
        expectCrlf
        pure (some (.binaryString (some data)), .initial)
      else pure (none, .partialBinaryString len data)
  else invalidData "Negative binary length"

/-- A payload that stays short is dropped with the state it came from. -/
def continueBinaryString (len : Nat) (data : Bytes) : FrameReader Decoded := do
  let more ← Reader.takeUpTo (len - data.length)
  if (data ++ more).length = len then
    expectCrlf
    pure (some (.binaryString (some (data ++ more))), .initial)
  else pure (none, .initial)

/-- The containers whose items are frames. -/
structure Container where
  add : List ZspFrame → ZspFrame → List ZspFrame
  build : List ZspFrame → ZspFrame
  hold : Nat → List ZspFrame → Nat → ZspDecodeState

def arrayContainer : Container := ⟨fun l f => l ++ [f], .array, .partialArray⟩

def setContainer : Container := ⟨ZspFrame.hashSetInsert, .set, .partialSet⟩

def pushContainer : Container := ⟨fun l f => l ++ [f], .push, .partialPush⟩

section

variable (decode : FrameDecoder)

/-- The loop over the items that remain, with the decoder's state threaded through it. -/
def itemsLoop (add : List ZspFrame → ZspFrame → List ZspFrame) :
    Nat → List ZspFrame → ZspDecodeState → FrameReader (List ZspFrame × Nat × ZspDecodeState)
  | 0, items, state => pure (items, 0, state)
  | remaining + 1, items, state => do
      match ← decode state with
      | (some frame, state) => itemsLoop add remaining (add items frame) state
      | (none, state) => pure (items, remaining + 1, state)

/-- Runs the loop and, when bytes are missing, keeps what it has so far. -/
def continueItems (c : Container) (len : Nat) (items : List ZspFrame) (remaining : Nat)
    (state : ZspDecodeState) : FrameReader Decoded := do
  match ← itemsLoop decode c.add remaining items state with
  | (items, 0, state) => pure (some (c.build items), state)
  | (items, remaining, _) => pure (none, c.hold len items remaining)

def parseArray (depth : Nat) : FrameReader Decoded := do
  if maxArrayDepth < depth then invalidData "Max array depth exceeded"
  else
    let len ← readNumber "Invalid array length"
    if len.toInt = -1 ∨ len.toInt = 0 then pure (some (.array []), .initial)
    else if 0 < len.toInt then
      continueItems decode arrayContainer len.toInt.toNat [] len.toInt.toNat .initial
    else invalidData "Negative array length"

/-- A counted container: nothing is read for zero items. -/
def parseCounted (c : Container) (invalid negative : String) : FrameReader Decoded := do
  let len ← readNumber invalid
  if len.toInt = 0 then pure (some (c.build []), .initial)
  else if 0 < len.toInt then
    continueItems decode c len.toInt.toNat [] len.toInt.toNat .initial
  else invalidData negative

def parseSet : FrameReader Decoded :=
  parseCounted decode setContainer "Invalid set length" "Negative set length"

def parsePush : FrameReader Decoded :=
  parseCounted decode pushContainer "Invalid push length" "Negative push length"

def dictionaryKey : ZspFrame → Except ZspDecodeError Str
  | .binaryString (some b) =>
      match Str.fromUtf8 b with
      | some key => .ok key
      | none => .error (.invalidData (Str.lit "Key not UTF-8"))
  | .inlineString key => .ok key
  | _ => .error (.invalidData (Str.lit "Expected string key"))

def zsetMember : ZspFrame → Except ZspDecodeError Str
  | .inlineString member => .ok member
  | .binaryString (some b) =>
      match Str.fromUtf8 b with
      | some member => .ok member
      | none => .error (.invalidData (Str.lit "Invalid UTF-8 in zset member"))
  | _ => .error (.invalidData (Str.lit "Expected string for zset member"))

def zsetScore : ZspFrame → Except ZspDecodeError F64
  | .float f => .ok f
  | .integer i => .ok (F64.ofInt i.toInt)
  | _ => .error (.invalidData (Str.lit "Expected float/integer for zset score"))

/-- The containers whose items are a name followed by a value. -/
structure PairContainer (α : Type) where
  name : ZspFrame → Except ZspDecodeError Str
  value : ZspFrame → Except ZspDecodeError α
  add : List (Str × α) → Str → α → List (Str × α)
  build : List (Str × α) → ZspFrame
  hold : Nat → List (Str × α) → Nat → Option Str → ZspDecodeState

def dictionaryContainer : PairContainer ZspFrame where
  name := dictionaryKey
  value := .ok
  add := Assoc.insert
  build := .dictionary
  hold := .partialDictionary

def zsetContainer : PairContainer F64 where
  name := zsetMember
  value := zsetScore
  add items member score := items ++ [(member, score)]
  build := .zset
  hold len items remaining pendingMember := .partialZSet len items pendingMember remaining

variable {α : Type}

/-- The name the loop continues with: the pending one, or one read now. -/
def nextName (c : PairContainer α) (pending : Option Str) (state : ZspDecodeState) :
    FrameReader (Option Str × ZspDecodeState) := do
  match pending with
  | some name => pure (some name, state)
  | none =>
      match ← decode state with
      | (some frame, state) =>
          let name ← Reader.ofExcept (c.name frame)
          pure (some name, state)
      | (none, state) => pure (none, state)

/-- The loop over the pairs that remain. -/
def pairsLoop (c : PairContainer α) : Nat → List (Str × α) → Option Str → ZspDecodeState →
    FrameReader (List (Str × α) × Nat × Option Str × ZspDecodeState)
  | 0, items, pending, state => pure (items, 0, pending, state)
  | remaining + 1, items, pending, state => do
      match ← nextName decode c pending state with
      | (none, state) => pure (items, remaining + 1, none, state)
      | (some name, state) =>
          match ← decode state with
          | (some frame, state) =>
              let value ← Reader.ofExcept (c.value frame)
              pairsLoop c remaining (c.add items name value) none state
          | (none, state) => pure (items, remaining + 1, some name, state)

def continuePairs (c : PairContainer α) (len : Nat) (items : List (Str × α)) (remaining : Nat)
    (pending : Option Str) (state : ZspDecodeState) : FrameReader Decoded := do
  match ← pairsLoop decode c remaining items pending state with
  | (items, 0, _, state) => pure (some (c.build items), state)
  | (items, remaining, pending, _) => pure (none, c.hold len items remaining pending)

def parseDictionary : FrameReader Decoded := do
  let len ← readNumber "Invalid dictionary length"
  if len.toInt = 0 then pure (some (.dictionary []), .initial)
  else if 0 < len.toInt then
    continuePairs decode dictionaryContainer len.toInt.toNat [] len.toInt.toNat none .initial
  else invalidData "Negative dictionary length"

def parseZSet : FrameReader Decoded := do
  let len ← readNumber "Invalid zset length"
  if len.toInt = -1 ∨ len.toInt = 0 then pure (some (.zset []), .initial)
  else if 0 < len.toInt then
    continuePairs decode zsetContainer len.toInt.toNat [] len.toInt.toNat none .initial
  else invalidData "Invalid zset length"

/-- The parser for the type byte of a frame. -/
def parseFrame (b : UInt8) : FrameReader Decoded :=
  if b = 43 then parseInlineString
  else if b = 45 then parseError
  else if b = 58 then parseInteger
  else if b = 44 then parseFloat
  else if b = 35 then parseBool
  else if b = 36 then parseBinaryString
  else if b = 95 then parseNull
  else if b = 42 then parseArray decode 0
  else if b = 37 then parseDictionary decode
  else if b = 126 then parseSet decode
  else if b = 62 then parsePush decode
  else if b = 94 then parseZSet decode
  else invalidData "Unknown ZSP/RESP3 type"

def initialDecode : FrameReader Decoded := fun slice =>
  match slice with
  | [] => .ok ((none, .initial), [])
  | b :: slice => parseFrame decode b slice

/-- One call of the decoder; `decode` stands for its recursive calls. The state is replaced by
the initial one before anything is read. -/
def decodeStep : FrameDecoder
  | .initial => initialDecode decode
  | .partialBinaryString len data => continueBinaryString len data
  | .partialArray len items remaining =>
      continueItems decode arrayContainer len items remaining .initial
  | .partialDictionary len items remaining pendingKey =>
      continuePairs decode dictionaryContainer len items remaining pendingKey .initial
  | .partialSet len items remaining =>
      continueItems decode setContainer len items remaining .initial
  | .partialPush len items remaining =>
      continueItems decode pushContainer len items remaining .initial
  | .partialZSet len items pendingMember remaining =>
      continuePairs decode zsetContainer len items remaining pendingMember .initial

end

/-- The decoder with its recursion bounded. -/
def decodeWithin : Nat → FrameDecoder
  | 0, _ => pure (none, .initial)
  | fuel + 1, state => decodeStep (decodeWithin fuel) state

/-- The decoder. Every recursive call on a fresh state takes a byte, so the length bounds it. -/
def decode (state : ZspDecodeState) : FrameReader Decoded :=
  fun slice => decodeWithin (slice.length + 2) state slice

end Zumic.Zsp
