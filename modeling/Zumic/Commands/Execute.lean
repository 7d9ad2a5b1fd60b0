/- The commands on strings, counters, lists, hashes, sets and bitmaps (`command/`). -/

import Zumic.Engine.Memory

namespace Zumic.Commands

open Database Engine Lib Lib.ByteString Lib.Decimal Lib.Utf8

/-- What a command returns, unless it panics. -/
inductive Outcome where
  | ok (value : Value)
  | err (e : StoreError)
  | panicked

/-- What a command writes back to its key. -/
inductive Change where
  | keep
  | put (value : Value)
  | del

/-- What a command makes of the value that its key has. -/
abbrev KeyCommand := Option Value → Outcome × Change

/-- The cycle of a command: it reads its key, decides, and writes back. -/
def onKey {σ : Type} (S : Storage σ) (key : Str) (f : KeyCommand) (s : σ) : Outcome × σ :=
  match S.get key.bytes s with
  | .error e => (.err e, s)
  | .ok old =>
      match f old with
      | (r, .keep) => (r, s)
      | (r, .put value) =>
          match S.set key.bytes value s with
          | (.ok _, s) => (r, s)
          | (.error e, s) => (.err e, s)
      | (r, .del) =>
          match S.del key.bytes s with
          | (.ok _, s) => (r, s)
          | (.error e, s) => (.err e, s)

/-- A command that knows what to do without a value, and with one that has the part it looks for. -/
def typed {α : Type} (part : Value → Option α) (missing : Outcome × Change)
    (f : α → Outcome × Change) : KeyCommand
  | none => missing
  | some value =>
      match part value with
      | some a => f a
      | none => (.err .invalidType, .keep)

def asStr : Value → Option Sds
  | .str s => some s
  | _ => none

def asList : Value → Option (List Sds)
  | .list items => some items
  | _ => none

def asHash : Value → Option (List (Sds × Sds))
  | .hash entries => some entries
  | _ => none

def asBitmap : Value → Option Bytes
  | .bitmap bytes => some bytes
  | _ => none

def asI64 (n : Nat) : Int64 := Int64.ofNat n

def strLen : KeyCommand :=
  typed asStr (.ok (.int 0), .keep) fun s => (.ok (.int (asI64 s.length)), .keep)

def append (value : Str) : KeyCommand :=
  let write (result : Sds) : Outcome × Change :=
    (.ok (.int (asI64 result.length)), .put (.str result))
  typed asStr (write value.bytes) fun s => write (s ++ value.bytes)

def isCharBoundary (b : Bytes) (i : Nat) : Bool :=
  i = 0 || i = b.length || (decide (i < b.length) && b.getD i 0 &&& 0xC0 != 0x80)

/-- Slicing a text; a cut inside a character is a panic. -/
def slice (s : Str) (start stop : Nat) : Outcome :=
  if isCharBoundary s.bytes start && isCharBoundary s.bytes stop then
    .ok (.str ((s.bytes.take stop).drop start))
  else .panicked

def getRange (start stop : Int64) : KeyCommand :=
  typed asStr (.ok .null, .keep) fun b =>
    match Str.fromUtf8 b with
    | none => (.err .invalidType, .keep)
    | some s =>
        let len : Int := s.bytes.length
        let first := if start.toInt < 0 then len + start.toInt else start.toInt
        let last := if stop.toInt < 0 then len + stop.toInt else stop.toInt
        let first := min (max first 0) len
        let last := min (max last first) len
        (slice s first.toNat last.toNat, .keep)

def valueToI64 : Value → Except StoreError Int64
  | .int n => .ok n
  | .str s =>
      match readI64 s with
      | some n => .ok n
      | none => .error .invalidType
  | _ => .error .invalidType

def overflowErr : StoreError := .invalidType

def checkedAdd (a b : Int64) : Option Int64 :=
  if (a + b).toInt = a.toInt + b.toInt then some (a + b) else none

def checkedSub (a b : Int64) : Option Int64 :=
  if (a - b).toInt = a.toInt - b.toInt then some (a - b) else none

/-- The four counter commands differ in the step only. -/
def count (next : Int64 → Option Int64) : KeyCommand := fun old =>
  match old.elim (.ok 0) valueToI64 with
  | .error e => (.err e, .keep)
  | .ok current =>
      match next current with
      | none => (.err overflowErr, .keep)
      | some n => (.ok (.int n), .put (.int n))

def incr : KeyCommand := count fun current => checkedAdd current 1

def incrBy (increment : Int64) : KeyCommand := count fun current => checkedAdd current increment

def decr : KeyCommand := count fun current => checkedSub current 1

def decrBy (decrement : Int64) : KeyCommand := count fun current => checkedSub current decrement

def push (write : List Sds → List Sds) : KeyCommand :=
  let store (items : List Sds) : Outcome × Change :=
    (.ok (.int (asI64 (write items).length)), .put (.list (write items)))
  typed asList (store []) store

def lPush (value : Str) : KeyCommand := push fun items => value.bytes :: items

def rPush (value : Str) : KeyCommand := push fun items => items ++ [value.bytes]

def pop (take : List Sds → Option Sds) (rest : List Sds → List Sds) : KeyCommand :=
  typed asList (.ok .null, .keep) fun items =>
    match take items with
    | some item => (.ok (.str item), .put (.list (rest items)))
    | none => (.ok .null, .keep)

def lPop : KeyCommand := pop List.head? List.tail

def rPop : KeyCommand := pop List.getLast? List.dropLast

/-- A cast from `i64`. -/
def asUsize (i : Int) : Nat := (i % 2 ^ 64).toNat

def lRange (start stop : Int64) : KeyCommand :=
  typed asList (.ok .null, .keep) fun items =>
    let len : Int := items.length
    let s := asUsize (if start.toInt < 0 then max (len + start.toInt) 0 else min start.toInt len)
    let e := asUsize (if stop.toInt < 0 then max (len + stop.toInt) 0 else min stop.toInt (len - 1))
    let last := min e (items.length - 1)
    (.ok (.list ((List.range' s (last + 1 - s)).filterMap fun idx => items[idx]?)), .keep)

def insertFields (entries : List (Sds × Sds)) (fields : List (Str × Str)) :
    List (Sds × Sds) × Nat :=
  fields.foldl (fun r e =>
    (Assoc.insert r.1 e.1.bytes e.2.bytes,
      if (Assoc.get r.1 e.1.bytes).isSome then r.2 else r.2 + 1)) (entries, 0)

def removeFields (entries : List (Sds × Sds)) (fields : List Str) : List (Sds × Sds) × Nat :=
  fields.foldl (fun r f =>
    (Assoc.erase r.1 f.bytes,
      if (Assoc.get r.1 f.bytes).isSome then r.2 + 1 else r.2)) (entries, 0)

def hSet (fields : List (Str × Str)) : KeyCommand :=
  let write (entries : List (Sds × Sds)) : Outcome × Change :=
    let (entries, added) := insertFields entries fields
    (.ok (.int (asI64 added)), .put (.hash entries))
  typed asHash (write []) write

/-- A hash that is left without fields goes with its key. -/
def hDel (fields : List Str) : KeyCommand :=
  typed asHash (.ok (.int 0), .keep) fun entries =>
    let (entries, removed) := removeFields entries fields
    (.ok (.int (asI64 removed)), if entries = [] then .del else .put (.hash entries))

def hIncrBy (field : Str) (increment : Int64) : KeyCommand :=
  let write (entries : List (Sds × Sds)) : Outcome × Change :=
    match (Assoc.get entries field.bytes).elim (some 0) fun v =>
        (Str.fromUtf8 v).bind fun s => readI64 s.bytes with
    | none => (.err .invalidValue, .keep)
    | some current =>
        match checkedAdd current increment with
        | none => (.err .overflow, .keep)
        | some n =>
            (.ok (.int n), .put (.hash (Assoc.insert entries field.bytes (renderInt n.toInt))))
  typed asHash (write []) write

section

variable {σ : Type} (S : Storage σ)

def sAdd (key member : Str) (s : σ) : Outcome × σ :=
  match S.sadd key.bytes [member.bytes] s with
  | (.ok added, s) => (.ok (.int (asI64 added)), s)
  | (.error e, s) => (.err e, s)

def sRem (key member : Str) (s : σ) : Outcome × σ :=
  match S.srem key.bytes [member.bytes] s with
  | (.ok removed, s) => (.ok (.int (asI64 removed)), s)
  | (.error e, s) => (.err e, s)

def sPop (key : Str) (count : Int64) (s : σ) : Outcome × σ :=
  match S.get key.bytes s with
  | .error e => (.err e, s)
  | .ok none => (.ok .null, s)
  | .ok (some .null) => (.ok .null, s)
  | .ok (some _) =>
      match S.spop key.bytes count s with
      | (.ok removed, s) => (.ok (if removed = [] then .null else .list removed), s)
      | (.error e, s) => (.err e, s)

end

def setBit (bytes : Bytes) (offset : Nat) (value : Bool) : Bytes × Bool :=
  let byteIndex := offset / 8
  let bytes := bytes ++ List.replicate (byteIndex + 1 - bytes.length) 0
  let byte := bytes.getD byteIndex 0
  let mask : UInt8 := 1 <<< (7 - UInt8.ofNat (offset % 8))
  (bytes.set byteIndex (if value then byte ||| mask else byte &&& ~~~mask), byte &&& mask != 0)

/-- A value that is no bitmap is taken for an empty one, like a missing key. -/
def setBitCommand (offset : Nat) (value : Bool) : KeyCommand := fun old =>
  let (bytes, bit) := setBit ((old.bind asBitmap).getD []) offset value
  (.ok (.int (if bit then 1 else 0)), .put (.bitmap bytes))

def bitAnd (a b : Bytes) : Bytes := List.zipWith (fun x y => x &&& y) a b

/-- The operators that fill the shorter bitmap up with zeros. -/
def bitZip (f : UInt8 → UInt8 → UInt8) (a b : Bytes) : Bytes :=
  (List.range (max a.length b.length)).map fun i => f (a.getD i 0) (b.getD i 0)

def bitOr (a b : Bytes) : Bytes := bitZip (fun x y => x ||| y) a b

def bitXor (a b : Bytes) : Bytes := bitZip (fun x y => x ^^^ y) a b

def bitNot (a : Bytes) : Bytes := a.map fun x => ~~~x

/-- The bitmaps among the values of the keys. -/
def bitmapsOf {σ : Type} (S : Storage σ) (s : σ) : List Str → Except StoreError (List Bytes)
  | [] => .ok []
  | key :: keys =>
      match S.get key.bytes s with
      | .error e => .error e
      | .ok old => (bitmapsOf S s keys).map fun found => (old.bind asBitmap).toList ++ found

/-- The result of an operation, when there is such an operation. -/
def combine (op : Str) (bitmaps : List Bytes) : Option Bytes :=
  let first := bitmaps.headD []
  if op = Str.lit "NOT" then some (bitNot first)
  else if op = Str.lit "AND" then some (bitmaps.tail.foldl bitAnd first)
  else if op = Str.lit "OR" then some (bitmaps.tail.foldl bitOr first)
  else if op = Str.lit "XOR" then some (bitmaps.tail.foldl bitXor first)
  else none

def bitOp {σ : Type} (S : Storage σ) (op dest : Str) (keys : List Str) (s : σ) : Outcome × σ :=
  match bitmapsOf S s keys with
  | .error e => (.err e, s)
  | .ok bitmaps =>
      match combine op bitmaps with
      | none =>
          (.err (.syntaxError (Str.lit "Unknown BITOP `" ++ op ++ Str.lit "`")), s)
      | some result =>
          match S.set dest.bytes (.bitmap result) s with
          | (.ok _, s) => (.ok (.int (asI64 (result.length * 8))), s)
          | (.error e, s) => (.err e, s)

inductive Command where
  | append (key value : Str)
  | getRange (key : Str) (start stop : Int64)
  | strLen (key : Str)
  | incr (key : Str)
  | incrBy (key : Str) (increment : Int64)
  | decr (key : Str)
  | decrBy (key : Str) (decrement : Int64)
  | lPush (key value : Str)
  | rPush (key value : Str)
  | lPop (key : Str)
  | rPop (key : Str)
  | lRange (key : Str) (start stop : Int64)
  | hSet (key : Str) (entries : List (Str × Str))
  | hDel (key : Str) (fields : List Str)
  | hIncrBy (key field : Str) (increment : Int64)
  | sAdd (key member : Str)
  | sRem (key member : Str)
  | sPop (key : Str) (count : Int64)
  | setBit (key : Str) (offset : Nat) (value : Bool)
  | bitOp (op dest : Str) (keys : List Str)

def execute {σ : Type} (S : Storage σ) : Command → σ → Outcome × σ
  | .append key value => onKey S key (append value)
  | .getRange key start stop => onKey S key (getRange start stop)
  | .strLen key => onKey S key strLen
  | .incr key => onKey S key incr
  | .incrBy key increment => onKey S key (incrBy increment)
  | .decr key => onKey S key decr
  | .decrBy key decrement => onKey S key (decrBy decrement)
  | .lPush key value => onKey S key (lPush value)
  | .rPush key value => onKey S key (rPush value)
  | .lPop key => onKey S key lPop
  | .rPop key => onKey S key rPop
  | .lRange key start stop => onKey S key (lRange start stop)
  | .hSet key entries => onKey S key (hSet entries)
  | .hDel key fields => onKey S key (hDel fields)
  | .hIncrBy key field increment => onKey S key (hIncrBy field increment)
  | .sAdd key member => sAdd S key member
  | .sRem key member => sRem S key member
  | .sPop key count => sPop S key count
  | .setBit key offset value => onKey S key (setBitCommand offset value)
  | .bitOp op dest keys => bitOp S op dest keys

end Zumic.Commands
