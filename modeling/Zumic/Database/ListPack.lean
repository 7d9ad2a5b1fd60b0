/- Lists of byte strings in one buffer (`listpack_base.rs`). -/

import Zumic.Lib.Buffer
import Zumic.Zdb.Length

namespace Zumic.Database

open Lib.Buffer Lib.ByteString

/-- Entries between `head` and `tail`, each behind its length, and a terminator after them. -/
structure ListPack where
  data : Bytes
  head : Nat
  tail : Nat
  numEntries : Nat
  deriving DecidableEq

/-- A slice of bytes. Its length is at most `isize::MAX`. -/
structure Slice where
  bytes : Bytes
  short : bytes.length < 2 ^ 63

namespace ListPack

def terminator : UInt8 := 0xFF

def new : ListPack where
  data := (List.replicate 1024 0).set 512 terminator
  head := 512
  tail := 513
  numEntries := 0

/-- A `usize` has ten groups of seven bits. -/
def encodeVarint (value : Nat) : Bytes := Zdb.varintBytes 10 value

/-- The loop of `decode_varint`: the bytes that are left, how many were read, and the bits so
far. -/
def decodeLoop : Bytes → Nat → Nat → Nat → Option (Nat × Nat)
  | [], _, _, _ => none
  | byte :: rest, i, shift, result =>
      let result := result ||| (byte.toNat % 128) <<< shift % 2 ^ 64
      if byte.toNat < 128 then some (result, i + 1)
      else if 64 < shift + 7 then none
      else decodeLoop rest (i + 1) (shift + 7) result

def decodeVarint (data : Bytes) : Option (Nat × Nat) := decodeLoop data 0 0 0

/-- Makes room for `extra` bytes on both sides. -/
def growAndCenter (lp : ListPack) (extra : Nat) : Except Fault ListPack := do
  let used ← sub lp.tail lp.head
  let spaceAfter ← sub lp.data.length lp.tail
  if extra ≤ lp.head ∧ extra ≤ spaceAfter then pure lp
  else do
    let newCap := max (max lp.data.length 1 * 3 / 2) ((used + extra) * 2)
    let free ← sub newCap used
    let content ← slice lp.data lp.head lp.tail
    let newData ← write (List.replicate newCap 0) (free / 2) content
    pure { lp with data := newData, head := free / 2, tail := free / 2 + used }

/-- The empty list in the middle of the buffer. -/
def reset (lp : ListPack) : Except Fault ListPack := do
  let head := lp.data.length / 2
  let data ← write lp.data head [terminator]
  pure { lp with data := data, head := head, tail := head + 1 }

/-- Moves the content to the middle of the buffer. -/
def recenter (lp : ListPack) : Except Fault ListPack := do
  let used ← sub lp.tail lp.head
  if used = 0 then lp.reset
  else do
    let free ← sub lp.data.length used
    let newHead := free / 2
    if newHead = lp.head then pure lp
    else do
      let data ←
        if newHead < lp.head then copyWithin lp.data lp.head lp.tail newHead
        else copyRight newHead lp.head used lp.data
      pure { lp with data := data, head := newHead, tail := newHead + used }

def pushFront (lp : ListPack) (value : Bytes) : Except Fault ListPack := do
  let lenBytes := encodeVarint value.length
  let extra := lenBytes.length + value.length
  let lp ← lp.growAndCenter extra
  let head ← sub lp.head extra
  let data ← write lp.data head lenBytes
  let data ← write data (head + lenBytes.length) value
  pure { lp with data := data, head := head, numEntries := lp.numEntries + 1 }

/-- Overwrites the terminator and writes a new one. -/
def pushBack (lp : ListPack) (value : Bytes) : Except Fault ListPack := do
  let lenBytes := encodeVarint value.length
  let extra := lenBytes.length + value.length
  let lp ← lp.growAndCenter extra
  let termPos ← sub lp.tail 1
  let data ← write lp.data termPos lenBytes
  let start := termPos + lenBytes.length
  let data ← write data start value
  let newTerm := start + value.length
  let data ← write data newTerm [terminator]
  pure { lp with data := data, tail := newTerm + 1, numEntries := lp.numEntries + 1 }

/-- The first entry is decoded without a look for the terminator. -/
def popFront (lp : ListPack) : Except Fault (Option Bytes × ListPack) :=
  if lp.numEntries = 0 then pure (none, lp)
  else do
    let rest ← sliceFrom lp.data lp.head
    match decodeVarint rest with
    | none => pure (none, lp)
    | some (len, consumed) => do
        let start := lp.head + consumed
        let element ← slice lp.data start (start + len)
        let numEntries ← sub lp.numEntries 1
        let lp := { lp with head := start + len, numEntries := numEntries }
        if numEntries = 0 then do
          let lp ← lp.reset
          pure (some element, lp)
        else if lp.data.length / 2 < lp.head then do
          let lp ← lp.recenter
          pure (some element, lp)
        else pure (some element, lp)

/-- What a walk over the entries finds at a place. -/
inductive Found where
  | stop
  | undecodable
  | entry (len consumed : Nat)

def lookAt (lp : ListPack) (place : Nat) : Except Fault Found :=
  if place < lp.tail then do
    let byte ← index lp.data place
    if byte = terminator then pure .stop
    else do
      let rest ← sliceFrom lp.data place
      match decodeVarint rest with
      | some (len, consumed) => pure (.entry len consumed)
      | none => pure .undecodable
  else pure .stop

/-- The scan for the last entry: its place, its length and the length of its length. Every turn
moves on, so the bytes of the list bound the number of turns. -/
def scanLast (lp : ListPack) : Nat → Nat → Nat × Nat × Nat →
    Except Fault (Option (Nat × Nat × Nat))
  | 0, _, last => pure (some last)
  | fuel + 1, place, last => do
      match ← lp.lookAt place with
      | .stop => pure (some last)
      | .undecodable => pure none
      | .entry len consumed => scanLast lp fuel (place + consumed + len) (place, len, consumed)

def popBack (lp : ListPack) : Except Fault (Option Bytes × ListPack) :=
  if lp.numEntries = 0 then pure (none, lp)
  else do
    match ← lp.scanLast (lp.tail - lp.head) lp.head (lp.head, 0, 0) with
    | none => pure (none, lp)
    | some (lastStart, lastLen, lastConsumed) => do
        let dataStart := lastStart + lastConsumed
        let element ← slice lp.data dataStart (dataStart + lastLen)
        let numEntries ← sub lp.numEntries 1
        let lp := { lp with tail := lastStart, numEntries := numEntries }
        if numEntries = 0 then do
          let lp ← lp.reset
          pure (some element, lp)
        else do
          let data ← write lp.data lp.tail [terminator]
          let lp := { lp with data := data, tail := lp.tail + 1 }
          if lp.data.length * 3 / 4 < lp.tail then do
            let lp ← lp.recenter
            pure (some element, lp)
          else pure (some element, lp)

def clear (lp : ListPack) : Except Fault ListPack := do
  let lp ← lp.reset
  pure { lp with numEntries := 0 }

/-- The loop of `truncate`. It ends when every turn removes an entry. -/
def truncateLoop (len : Nat) : Nat → ListPack → Except Fault ListPack
  | 0, lp => if len < lp.numEntries then .error .endless else pure lp
  | fuel + 1, lp =>
      if len < lp.numEntries then do
        let (_, lp) ← lp.popBack
        truncateLoop len fuel lp
      else pure lp

def truncate (lp : ListPack) (len : Nat) : Except Fault ListPack :=
  if lp.numEntries ≤ len then pure lp else truncateLoop len lp.numEntries lp

def pushBackTimes (fill : Bytes) : Nat → ListPack → Except Fault ListPack
  | 0, lp => pure lp
  | n + 1, lp => do
      let lp ← lp.pushBack fill
      pushBackTimes fill n lp

def resize (lp : ListPack) (newLen : Nat) (fill : Bytes) : Except Fault ListPack :=
  if lp.numEntries < newLen then pushBackTimes fill (newLen - lp.numEntries) lp
  else if newLen < lp.numEntries then lp.truncate newLen
  else pure lp

def len (lp : ListPack) : Nat := lp.numEntries

def getLoop (lp : ListPack) (index : Nat) : Nat → Nat → Nat → Except Fault (Option Bytes)
  | 0, _, _ => pure none
  | fuel + 1, i, curr => do
      match ← lp.lookAt i with
      | .entry len consumed =>
          if curr = index then do
            let element ← slice lp.data (i + consumed) (i + consumed + len)
            pure (some element)
          else getLoop lp index fuel (i + consumed + len) (curr + 1)
      | _ => pure none

def get (lp : ListPack) (index : Nat) : Except Fault (Option Bytes) :=
  if lp.numEntries ≤ index then pure none
  else lp.getLoop index (lp.tail - lp.head) lp.head 0

def iterLoop (lp : ListPack) : Nat → Nat → Except Fault (List Bytes)
  | 0, _ => pure []
  | fuel + 1, place => do
      match ← lp.lookAt place with
      | .entry len consumed => do
          let element ← slice lp.data (place + consumed) (place + consumed + len)
          let rest ← iterLoop lp fuel (place + consumed + len)
          pure (element :: rest)
      | _ => pure []

/-- The items that the iterator gives until it gives none. -/
def iter (lp : ListPack) : Except Fault (List Bytes) := lp.iterLoop (lp.tail - lp.head) lp.head

def positionsLoop (lp : ListPack) : Nat → Nat → Except Fault (List (Nat × Nat))
  | 0, _ => pure []
  | fuel + 1, place => do
      match ← lp.lookAt place with
      | .entry len consumed => do
          let rest ← positionsLoop lp fuel (place + consumed + len)
          pure ((place + consumed, len) :: rest)
      | _ => pure []

def collectElementPositions (lp : ListPack) : Except Fault (List (Nat × Nat)) :=
  lp.positionsLoop (lp.tail - lp.head) lp.head

/-- The slices are taken without a check in the source; here a bad one is a fault. -/
def iterRev (lp : ListPack) : Except Fault (List Bytes) := do
  let positions ← lp.collectElementPositions
  positions.reverse.mapM fun (start, len) => slice lp.data start (start + len)

/-- A call that changes the list. -/
inductive Call where
  | pushFront (value : Slice)
  | pushBack (value : Slice)
  | popFront
  | popBack
  | truncate (len : Nat)
  | resize (newLen : Nat) (fill : Slice)
  | clear

/-- The list after a call, and what the call returns. -/
def step (lp : ListPack) : Call → Except Fault (Option Bytes × ListPack)
  | .pushFront value => (lp.pushFront value.bytes).map fun lp => (none, lp)
  | .pushBack value => (lp.pushBack value.bytes).map fun lp => (none, lp)
  | .popFront => lp.popFront
  | .popBack => lp.popBack
  | .truncate len => (lp.truncate len).map fun lp => (none, lp)
  | .resize newLen fill => (lp.resize newLen fill.bytes).map fun lp => (none, lp)
  | .clear => lp.clear.map fun lp => (none, lp)

/-- What a sequence of calls returns, and the list after it. -/
def run : ListPack → List Call → Except Fault (List (Option Bytes) × ListPack)
  | lp, [] => pure ([], lp)
  | lp, c :: calls => do
      let (result, lp) ← lp.step c
      let (results, lp) ← run lp calls
      pure (result :: results, lp)

end ListPack

end Zumic.Database
