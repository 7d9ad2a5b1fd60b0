/- The frames of the ZSP protocol (`zsp_types.rs`), with the equality of the hash containers, and
their encoder (`encoder.rs`). -/

import Zumic.Lib.Assoc
import Zumic.Lib.F64
import Zumic.Lib.Utf8

namespace Zumic.Zsp

open Lib Lib.ByteString Lib.Decimal Lib.Utf8

/-- A frame. Hash maps and hash sets are listed in their iteration order. -/
inductive ZspFrame where
  | inlineString (s : Str)
  | frameError (s : Str)
  | integer (i : Int64)
  | float (f : F64)
  | bool (b : Bool)
  | binaryString (b : Option Bytes)
  | array (items : List ZspFrame)
  | dictionary (items : List (Str × ZspFrame))
  | set (members : List ZspFrame)
  | push (items : List ZspFrame)
  | zset (entries : List (Str × F64))
  | null

namespace ZspFrame

theorem induct {P : ZspFrame → Prop}
    (inlineString : ∀ s, P (.inlineString s)) (frameError : ∀ s, P (.frameError s))
    (integer : ∀ i, P (.integer i)) (float : ∀ f, P (.float f)) (bool : ∀ b, P (.bool b))
    (binaryString : ∀ b, P (.binaryString b))
    (array : ∀ items, (∀ f ∈ items, P f) → P (.array items))
    (dictionary : ∀ items, (∀ e ∈ items, P e.2) → P (.dictionary items))
    (set : ∀ members, (∀ f ∈ members, P f) → P (.set members))
    (push : ∀ items, (∀ f ∈ items, P f) → P (.push items))
    (zset : ∀ entries, P (.zset entries)) (null : P .null) (f : ZspFrame) : P f := by
  refine @ZspFrame.rec P (fun l => ∀ f ∈ l, P f) (fun l => ∀ e ∈ l, P e.2) (fun e => P e.2)
    inlineString frameError integer float bool binaryString array dictionary set push zset null
    ?_ ?_ ?_ ?_ ?_ f
  · simp
  · intro g l head tail x hx
    rcases List.mem_cons.mp hx with rfl | later
    · exact head
    · exact tail x later
  · simp
  · intro e l head tail x hx
    rcases List.mem_cons.mp hx with rfl | later
    · exact head
    · exact tail x later
  · intro _ _ second
    exact second

/-- Whether two frames feed the same data to a hasher: containers only their length. -/
def sameHash : ZspFrame → ZspFrame → Bool
  | inlineString a, inlineString b => a = b
  | frameError a, frameError b => a = b
  | integer a, integer b => a = b
  | float a, float b => a = b
  | bool a, bool b => a = b
  | binaryString a, binaryString b => a = b
  | array a, array b => a.length = b.length
  | dictionary a, dictionary b => a.length = b.length
  | set a, set b => a.length = b.length
  | push a, push b => a.length = b.length
  | zset a, zset b => a.length = b.length
  | null, null => true
  | _, _ => false

def eqScores : List (Str × F64) → List (Str × F64) → Bool
  | [], [] => true
  | a :: l, b :: m => a.1 = b.1 && a.2.numEq b.2 && eqScores l m
  | _, _ => false

mutual

/-- The derived equality, with maps and sets compared as maps and sets. -/
def eq : ZspFrame → ZspFrame → Bool
  | inlineString a, inlineString b => a = b
  | frameError a, frameError b => a = b
  | integer a, integer b => a = b
  | float a, float b => a.numEq b
  | bool a, bool b => a = b
  | binaryString a, binaryString b => a = b
  | array a, array b => eqItems a b
  | dictionary a, dictionary b => a.length = b.length && entriesIn a b
  | set a, set b => a.length = b.length && membersIn a b
  | push a, push b => eqItems a b
  | zset a, zset b => eqScores a b
  | null, null => true
  | _, _ => false

def eqItems : List ZspFrame → List ZspFrame → Bool
  | [], [] => true
  | a :: l, b :: m => eq a b && eqItems l m
  | _, _ => false

def entriesIn : List (Str × ZspFrame) → List (Str × ZspFrame) → Bool
  | [], _ => true
  | (k, v) :: l, m => (match Assoc.get m k with
      | some w => eq v w
      | none => false) && entriesIn l m

def membersIn : List ZspFrame → List ZspFrame → Bool
  | [], _ => true
  | a :: l, m => m.any (fun b => sameHash a b && eq a b) && membersIn l m

end

/-- Whether a hash set treats two frames as one member. -/
def sameMember (a b : ZspFrame) : Bool := sameHash a b && eq a b

/-- Insertion into a hash set. -/
def hashSetInsert (members : List ZspFrame) (f : ZspFrame) : List ZspFrame :=
  if members.any (fun m => sameMember m f) then members else members ++ [f]

mutual

/-- Whether `p` holds of the frame and of every frame inside it. -/
def all (p : ZspFrame → Bool) : ZspFrame → Bool
  | array items => p (array items) && allItems p items
  | dictionary items => p (dictionary items) && allEntries p items
  | set members => p (set members) && allItems p members
  | push items => p (push items) && allItems p items
  | f => p f

def allItems (p : ZspFrame → Bool) : List ZspFrame → Bool
  | [] => true
  | f :: l => all p f && allItems p l

def allEntries (p : ZspFrame → Bool) : List (Str × ZspFrame) → Bool
  | [] => true
  | (_, v) :: l => all p v && allEntries p l

end

theorem allItems_iff {p : ZspFrame → Bool} {l : List ZspFrame} :
    allItems p l = true ↔ ∀ f ∈ l, f.all p = true := by
  induction l with
  | nil => simp [allItems]
  | cons f l ih => simp [allItems, ih]

theorem allEntries_iff {p : ZspFrame → Bool} {l : List (Str × ZspFrame)} :
    allEntries p l = true ↔ ∀ e ∈ l, e.2.all p = true := by
  induction l with
  | nil => simp [allEntries]
  | cons e l ih =>
      obtain ⟨k, v⟩ := e
      simp [allEntries, ih]

/-- What the container types of the source guarantee of a node: a length that is a machine word,
distinct keys in a map and distinct members in a set. -/
def wfNode : ZspFrame → Bool
  | array items => items.length < 2 ^ 63
  | dictionary items => items.length < 2 ^ 63 && decide (Assoc.keys items).Nodup
  | set members =>
      members.length < 2 ^ 63 && decide (members.Pairwise fun a b => sameMember a b = false)
  | push items => items.length < 2 ^ 63
  | zset entries => entries.length < 2 ^ 63
  | _ => true

/-- A frame the source can build. -/
def Wf (f : ZspFrame) : Prop := f.all wfNode = true

instance (f : ZspFrame) : Decidable f.Wf := inferInstanceAs (Decidable (_ = true))

theorem hashSetInsert_of_distinct {members : List ZspFrame} {f : ZspFrame}
    (distinct : ∀ m ∈ members, sameMember m f = false) :
    hashSetInsert members f = members ++ [f] := by
  have absent : members.any (fun m => sameMember m f) = false := by
    rw [List.any_eq_false]
    intro m hm
    simp [distinct m hm]
  simp [hashSetInsert, absent]

end ZspFrame

/-- The longest binary string the protocol carries (512 MB). -/
def maxBinaryLength : Nat := 512 * 1024 * 1024

/-- The deepest nesting the encoder writes. -/
def maxArrayDepth : Nat := 32

inductive ZspEncodeError where
  | invalidData (message : Str)
  deriving DecidableEq

def ZspEncodeError.toStr : ZspEncodeError → Str
  | .invalidData m => Str.lit "Invalid data for encoding: " ++ m

def crlf : Bytes := [13, 10]

/-- A line of the protocol: a type byte, a text and the line end. -/
def line (marker : UInt8) (text : Bytes) : Bytes := marker :: text ++ crlf

/-- A byte string with its length line, as binary strings, keys and members are written. -/
def bulk (b : Bytes) : Bytes := line 36 (renderNat b.length) ++ b ++ crlf

def hasLineBreak (s : Str) : Bool := s.bytes.contains 13 || s.bytes.contains 10

def validateSimpleString (s : Str) : Except ZspEncodeError Unit :=
  if hasLineBreak s then
    .error (.invalidData (Str.lit "Simple string contains CR or LF characters"))
  else .ok ()

def validateErrorString (s : Str) : Except ZspEncodeError Unit :=
  if hasLineBreak s then
    .error (.invalidData (Str.lit "Error message contains CR or LF characters"))
  else .ok ()

def floatText (f : F64) : Bytes :=
  if f.isInfinite then
    if f.isSignNegative then bytesOf "-inf" else bytesOf "inf"
  else f.displayFixed 5

def encodeScores (entries : List (Str × F64)) : Bytes :=
  entries.flatMap fun e => bulk e.1.bytes ++ line 44 e.2.display

mutual

/-- Writes a frame; an empty container is its length line alone. -/
def encodeFrame (frame : ZspFrame) (currentDepth : Nat) : Except ZspEncodeError Bytes :=
  if maxArrayDepth < currentDepth then
    .error (.invalidData (Str.lit "Max array depth exceed (32)"))
  else
    match frame with
    | .inlineString s => do
        validateSimpleString s
        pure (line 43 s.bytes)
    | .frameError s => do
        validateErrorString s
        pure (line 45 s.bytes)
    | .integer i => pure (line 58 (renderInt i.toInt))
    | .float f => pure (line 44 (floatText f))
    | .bool b => pure (if b then line 35 [116] else line 35 [102])
    | .binaryString (some b) =>
        if maxBinaryLength < b.length then
          .error (.invalidData (Str.lit "Binary string too long (" ++ Str.ofNat b.length
            ++ Str.lit " > " ++ Str.ofNat maxBinaryLength ++ Str.lit ")"))
        else pure (bulk b)
    | .binaryString none => pure (line 36 (bytesOf "-1"))
    | .array items => do
        pure (line 42 (renderNat items.length) ++ (← encodeItems items (currentDepth + 1)))
    | .dictionary items => do
        pure (line 37 (renderNat items.length) ++ (← encodeEntries items (currentDepth + 1)))
    | .set members => do
        pure (line 126 (renderNat members.length) ++ (← encodeItems members (currentDepth + 1)))
    | .push items => do
        pure (line 62 (renderNat items.length) ++ (← encodeItems items (currentDepth + 1)))
    | .zset entries => pure (line 94 (renderNat entries.length) ++ encodeScores entries)
    | .null => pure (line 95 [])

def encodeItems (items : List ZspFrame) (depth : Nat) : Except ZspEncodeError Bytes :=
  match items with
  | [] => pure []
  | f :: l => do
      let head ← encodeFrame f depth
      let tail ← encodeItems l depth
      pure (head ++ tail)

def encodeEntries (items : List (Str × ZspFrame)) (depth : Nat) : Except ZspEncodeError Bytes :=
  match items with
  | [] => pure []
  | (k, v) :: l => do
      let head ← encodeFrame v depth
      let tail ← encodeEntries l depth
      pure (bulk k.bytes ++ head ++ tail)

end

def encode (frame : ZspFrame) : Except ZspEncodeError Bytes := encodeFrame frame 0

end Zumic.Zsp
