/- The frame decoder with its slice operations, subtractions, reservations and nested calls checked
one by one (`decoder.rs`). -/

import Zumic.Lib.Checked
import Zumic.Zsp.Decoder

namespace Zumic.Zsp.Checked

open Lib Lib.ByteString Lib.Checked Lib.Decimal Lib.Utf8

/-- The containers of the protocol. -/
inductive Kind where
  | array
  | dictionary
  | set
  | push
  | zset
  deriving DecidableEq

/-- What a check finds: an operation out of its range, a reservation that is too large, or calls
that are nested too deeply. -/
inductive Trap where
  | outOfRange
  | overReserved
  | tooDeep
  deriving DecidableEq

/-- What the checks allow besides operations that are in range. -/
structure Limits where
  /-- How many calls of `decode` there may be at once. -/
  calls : Nat → Bool
  /-- Which containers may be read inside one another, the innermost first. -/
  enters : List Kind → Bool
  /-- For how many elements there may be room, with so many bytes still unread. -/
  elements : Nat → Nat → Bool

/-- The capacity of the vector that `Vec::with_capacity` gives: at least what is asked for. -/
structure Allocator where
  capacity : Nat → Nat
  enough : ∀ n, n ≤ capacity n

abbrev CheckedFrames (α : Type) := CheckedReader Trap ZspDecodeError α

/-- Below the containers that are being read, the innermost first, and from a state. -/
abbrev CheckedDecoder := List Kind → ZspDecodeState → CheckedFrames Decoded

def refuse {α : Type} (e : ZspDecodeError) : CheckedFrames α := throw (.inr e)

def invalidData {α : Type} (message : String) : CheckedFrames α :=
  refuse (.invalidData (Str.lit message))

/-- Room for so many bytes of a payload. -/
def reservePayload (n : Nat) : CheckedFrames Unit :=
  check .overReserved (decide (n ≤ maxBinaryLength))

/-- `Vec::reserve`: a vector that is too small grows to twice its capacity at least. -/
def reserve (capacity used additional : Nat) : CheckedFrames Unit :=
  if used + additional ≤ capacity then pure ()
  else reservePayload (max (2 * capacity) (used + additional))

def readLine : CheckedFrames Str := do
  let slice ← unread
  match slice.findIdx? (· == 13) with
  | none => refuse (.unexpectedEof (Str.lit "Incomplete line"))
  | some pos =>
      if pos + 1 < slice.length then
        if (← index .outOfRange (pos + 1)) = 10 then
          let line ← front .outOfRange pos
          match Str.fromUtf8 line with
          | some text =>
              skip .outOfRange (pos + 2)
              pure text
          | none => refuse (.invalidUtf8 (Str.lit "Invalid UTF-8"))
        else refuse (.unexpectedEof (Str.lit "Incomplete line"))
      else refuse (.unexpectedEof (Str.lit "Incomplete line"))

def expectCrlf : CheckedFrames Unit := do
  let slice ← unread
  if slice.length < 2 then refuse (.unexpectedEof (Str.lit "Expected CRLF"))
  else if (← index .outOfRange 0) ≠ 13 then refuse (.unexpectedEof (Str.lit "Expected CRLF"))
  else if (← index .outOfRange 1) ≠ 10 then refuse (.unexpectedEof (Str.lit "Expected CRLF"))
  else skip .outOfRange 2

def parseInlineString : CheckedFrames Decoded := do
  let text ← readLine
  pure (some (.inlineString text), .initial)

def parseError : CheckedFrames Decoded := do
  let text ← readLine
  pure (some (.frameError text), .initial)

def readNumber (message : String) : CheckedFrames Int64 := do
  let text ← readLine
  match readI64 text.bytes with
  | some n => pure n
  | none => invalidData message

def parseInteger : CheckedFrames Decoded := do
  let n ← readNumber "Invalid integer"
  pure (some (.integer n), .initial)

def parseFloat : CheckedFrames Decoded := do
  let text ← readLine
  match readFloat text.bytes with
  | some f => pure (some (.float f), .initial)
  | none => invalidData "Invalid float"

def parseBool : CheckedFrames Decoded := do
  let slice ← unread
  if slice.length < 3 then refuse (.unexpectedEof (Str.lit "Incomplete boolean"))
  else
    let b ← index .outOfRange 0
    if (← index .outOfRange 1) ≠ 13 then invalidData "Invalid boolean format"
    else if (← index .outOfRange 2) ≠ 10 then invalidData "Invalid boolean format"
    else
      skip .outOfRange 3
      if b = 116 then pure (some (.bool true), .initial)
      else if b = 102 then pure (some (.bool false), .initial)
      else invalidData "Unknown boolean value"

def parseNull : CheckedFrames Decoded := do
  let slice ← unread
  if slice.length < 2 then refuse (.unexpectedEof (Str.lit "Incomplete null"))
  else if (← index .outOfRange 0) ≠ 13 then invalidData "Invalid null format"
  else if (← index .outOfRange 1) ≠ 10 then invalidData "Invalid null format"
  else
    skip .outOfRange 2
    pure (some .null, .initial)

section

variable (alloc : Allocator)

def parseBinaryString : CheckedFrames Decoded := do
  let len ← readNumber "Invalid binary"
  if len.toInt = -1 then pure (some (.binaryString none), .initial)
  else if 0 ≤ len.toInt then
    let len := len.toInt.toNat
    if maxBinaryLength < len then
      refuse (.invalidData (Str.lit "Binary string too long (" ++ Str.ofNat len ++ Str.lit " > "
        ++ Str.ofNat maxBinaryLength ++ Str.lit ")"))
    else
      let slice ← unread
      let available := min slice.length len
      reservePayload len
      let data ← front .outOfRange available
      reserve (alloc.capacity len) 0 data.length
      skip .outOfRange available
      if data.length = len then
        expectCrlf
        pure (some (.binaryString (some data)), .initial)
      else pure (none, .partialBinaryString len data)
  else invalidData "Negative binary length"

/-- Brings the vector of a payload, which was asked for with its whole length, to that length. -/
def topUp (len used : Nat) : CheckedFrames Unit := do
  if alloc.capacity len < len then
    let missing ← minus .outOfRange len (alloc.capacity len)
    reserve (alloc.capacity len) used missing
  else pure ()

def continueBinaryString (len : Nat) (data : Bytes) : CheckedFrames Decoded := do
  let remaining ← minus .outOfRange len data.length
  let slice ← unread
  let available := min slice.length remaining
  topUp alloc len data.length
  let toCopy ← front .outOfRange available
  skip .outOfRange available
  reserve (alloc.capacity len) data.length toCopy.length
  if (data ++ toCopy).length = len then
    expectCrlf
    pure (some (.binaryString (some (data ++ toCopy))), .initial)
  else pure (none, .initial)

end

section

variable (decode : ZspDecodeState → CheckedFrames Decoded)

def itemsLoop (add : List ZspFrame → ZspFrame → List ZspFrame) :
    Nat → List ZspFrame → ZspDecodeState → CheckedFrames (List ZspFrame × Nat × ZspDecodeState)
  | 0, items, state => pure (items, 0, state)
  | remaining + 1, items, state => do
      match ← decode state with
      | (some frame, state) => itemsLoop add remaining (add items frame) state
      | (none, state) => pure (items, remaining + 1, state)

def continueItems (c : Container) (len : Nat) (items : List ZspFrame) (remaining : Nat)
    (state : ZspDecodeState) : CheckedFrames Decoded := do
  match ← itemsLoop decode c.add remaining items state with
  | (items, 0, state) => pure (some (c.build items), state)
  | (items, remaining, _) => pure (none, c.hold len items remaining)

variable {α : Type}

def nextName (c : PairContainer α) (pending : Option Str) (state : ZspDecodeState) :
    CheckedFrames (Option Str × ZspDecodeState) := do
  match pending with
  | some name => pure (some name, state)
  | none =>
      match ← decode state with
      | (some frame, state) =>
          let name ← lift (Reader.ofExcept (c.name frame))
          pure (some name, state)
      | (none, state) => pure (none, state)

def pairsLoop (c : PairContainer α) : Nat → List (Str × α) → Option Str → ZspDecodeState →
    CheckedFrames (List (Str × α) × Nat × Option Str × ZspDecodeState)
  | 0, items, pending, state => pure (items, 0, pending, state)
  | remaining + 1, items, pending, state => do
      match ← nextName decode c pending state with
      | (none, state) => pure (items, remaining + 1, none, state)
      | (some name, state) =>
          match ← decode state with
          | (some frame, state) =>
              let value ← lift (Reader.ofExcept (c.value frame))
              pairsLoop c remaining (c.add items name value) none state
          | (none, state) => pure (items, remaining + 1, some name, state)

def continuePairs (c : PairContainer α) (len : Nat) (items : List (Str × α)) (remaining : Nat)
    (pending : Option Str) (state : ZspDecodeState) : CheckedFrames Decoded := do
  match ← pairsLoop decode c remaining items pending state with
  | (items, 0, _, state) => pure (some (c.build items), state)
  | (items, remaining, pending, _) => pure (none, c.hold len items remaining pending)

end

section

variable (limits : Limits) (alloc : Allocator) (decode : CheckedDecoder)

/-- Room for so many elements, asked for when the length line has been read. -/
def reserveElements (n : Nat) : CheckedFrames Unit := do
  let slice ← unread
  check .overReserved (limits.elements n slice.length)

def parseArray (inside : List Kind) (depth : Nat) : CheckedFrames Decoded := do
  check .tooDeep (limits.enters (.array :: inside))
  if maxArrayDepth < depth then invalidData "Max array depth exceeded"
  else
    let len ← readNumber "Invalid array length"
    if len.toInt = -1 ∨ len.toInt = 0 then pure (some (.array []), .initial)
    else if 0 < len.toInt then
      reserveElements limits len.toInt.toNat
      continueItems (decode (.array :: inside)) arrayContainer len.toInt.toNat []
        len.toInt.toNat .initial
    else invalidData "Negative array length"

def parseCounted (kind : Kind) (c : Container) (invalid negative : String) (inside : List Kind) :
    CheckedFrames Decoded := do
  check .tooDeep (limits.enters (kind :: inside))
  let len ← readNumber invalid
  if len.toInt = 0 then pure (some (c.build []), .initial)
  else if 0 < len.toInt then
    reserveElements limits len.toInt.toNat
    continueItems (decode (kind :: inside)) c len.toInt.toNat [] len.toInt.toNat .initial
  else invalidData negative

def parseSet (inside : List Kind) : CheckedFrames Decoded :=
  parseCounted limits decode .set setContainer "Invalid set length" "Negative set length" inside

def parsePush (inside : List Kind) : CheckedFrames Decoded :=
  parseCounted limits decode .push pushContainer "Invalid push length" "Negative push length" inside

def parseDictionary (inside : List Kind) : CheckedFrames Decoded := do
  check .tooDeep (limits.enters (.dictionary :: inside))
  let len ← readNumber "Invalid dictionary length"
  if len.toInt = 0 then pure (some (.dictionary []), .initial)
  else if 0 < len.toInt then
    reserveElements limits len.toInt.toNat
    continuePairs (decode (.dictionary :: inside)) dictionaryContainer len.toInt.toNat []
      len.toInt.toNat none .initial
  else invalidData "Negative dictionary length"

def parseZSet (inside : List Kind) : CheckedFrames Decoded := do
  check .tooDeep (limits.enters (.zset :: inside))
  let len ← readNumber "Invalid zset length"
  if len.toInt = -1 ∨ len.toInt = 0 then pure (some (.zset []), .initial)
  else if 0 < len.toInt then
    reserveElements limits len.toInt.toNat
    continuePairs (decode (.zset :: inside)) zsetContainer len.toInt.toNat [] len.toInt.toNat none
      .initial
  else invalidData "Invalid zset length"

def parseFrame (inside : List Kind) (b : UInt8) : CheckedFrames Decoded :=
  if b = 43 then parseInlineString
  else if b = 45 then parseError
  else if b = 58 then parseInteger
  else if b = 44 then parseFloat
  else if b = 35 then parseBool
  else if b = 36 then parseBinaryString alloc
  else if b = 95 then parseNull
  else if b = 42 then parseArray limits decode inside 0
  else if b = 37 then parseDictionary limits decode inside
  else if b = 126 then parseSet limits decode inside
  else if b = 62 then parsePush limits decode inside
  else if b = 94 then parseZSet limits decode inside
  else invalidData "Unknown ZSP/RESP3 type"

def initialDecode (inside : List Kind) : CheckedFrames Decoded := do
  let slice ← unread
  if slice.length = 0 then pure (none, .initial)
  else
    let b ← index .outOfRange 0
    skip .outOfRange 1
    parseFrame limits alloc decode inside b

/-- One call, with a call around it for every container that is being read. -/
def decodeStep : CheckedDecoder := fun inside state => do
  check .tooDeep (limits.calls (inside.length + 1))
  match state with
  | .initial => initialDecode limits alloc decode inside
  | .partialBinaryString len data => continueBinaryString alloc len data
  | .partialArray len items remaining =>
      continueItems (decode (.array :: inside)) arrayContainer len items remaining .initial
  | .partialDictionary len items remaining pendingKey =>
      continuePairs (decode (.dictionary :: inside)) dictionaryContainer len items remaining
        pendingKey .initial
  | .partialSet len items remaining =>
      continueItems (decode (.set :: inside)) setContainer len items remaining .initial
  | .partialPush len items remaining =>
      continueItems (decode (.push :: inside)) pushContainer len items remaining .initial
  | .partialZSet len items pendingMember remaining =>
      continuePairs (decode (.zset :: inside)) zsetContainer len items remaining pendingMember
        .initial

end

def decodeWithin (limits : Limits) (alloc : Allocator) : Nat → CheckedDecoder
  | 0, _, _ => pure (none, .initial)
  | fuel + 1, inside, state =>
      decodeStep limits alloc (decodeWithin limits alloc fuel) inside state

/-- A call of the decoder from outside. -/
def decode (limits : Limits) (alloc : Allocator) (state : ZspDecodeState) :
    CheckedFrames Decoded :=
  fun slice => decodeWithin limits alloc (slice.length + 2) [] state slice

end Zumic.Zsp.Checked
