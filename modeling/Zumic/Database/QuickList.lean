/- Lists in segments with a lazily rebuilt index (`quicklist_base.rs`). -/

import Mathlib.Algebra.Ring.Nat
import Zumic.Lib.BinarySearch
import Zumic.Lib.Buffer

namespace Zumic.Database

open Lib.BinarySearch Lib.Buffer

structure QuickList (α : Type) where
  segments : List (List α)
  segmentStarts : List Nat
  maxSegmentSize : Nat
  len : Nat
  lastAccessed : Option (Nat × Nat)
  indexDirty : Bool
  opsSinceOptimize : Nat
  optimizeThreshold : Nat
  deriving DecidableEq

namespace QuickList

variable {α : Type}

def withOptimizeThreshold (maxSegmentSize threshold : Nat) : QuickList α where
  segments := []
  segmentStarts := [0]
  maxSegmentSize := maxSegmentSize
  len := 0
  lastAccessed := none
  indexDirty := false
  opsSinceOptimize := 0
  optimizeThreshold := threshold

def new (maxSegmentSize : Nat) : QuickList α := withOptimizeThreshold maxSegmentSize 1000

/-- The index is rebuilt at the next access; until then it has the right number of entries. -/
def markIndexDirty (ql : QuickList α) : QuickList α :=
  let desired := ql.segments.length + 1
  { ql with
    indexDirty := true
    lastAccessed := none
    segmentStarts := ql.segmentStarts.take desired ++
      List.replicate (desired - ql.segmentStarts.length) 0 }

def rebuildSegmentStarts (ql : QuickList α) : QuickList α :=
  let (starts, _) := ql.segments.foldl (fun (starts, cumulative) segment =>
    (starts ++ [cumulative + segment.length], cumulative + segment.length)) ([0], 0)
  { ql with segmentStarts := starts, indexDirty := false, lastAccessed := none }

/-- The start of a segment; the first one starts at zero. -/
def prevStart (starts : List Nat) (i : Nat) : Except Fault Nat :=
  if i = 0 then .ok 0 else index starts i

/-- The loop over the segments from the one that was changed on. -/
def updateLoop (segments : List (List α)) : List Nat → List Nat → Except Fault (List Nat)
  | [], starts => .ok starts
  | i :: rest, starts => do
      let prev ← prevStart starts i
      let segment ← index segments i
      let newStart := prev + segment.length
      updateLoop segments rest
        (if i + 1 < starts.length then starts.set (i + 1) newStart else starts)

def updateSegmentStartsFrom (ql : QuickList α) (startSeg : Nat) : Except Fault (QuickList α) :=
  if ql.segments.length ≤ startSeg then .ok ql
  else do
    let starts ← updateLoop ql.segments (List.range' startSeg (ql.segments.length - startSeg))
      ql.segmentStarts
    pure { ql with segmentStarts := starts, indexDirty := false, lastAccessed := none }

/-- The new segments, and the one that is being filled. -/
def refill (maxSegmentSize : Nat) (filled : List (List α) × List α) (item : α) :
    List (List α) × List α :=
  if maxSegmentSize ≤ filled.2.length then (filled.1 ++ [filled.2], [item])
  else (filled.1, filled.2 ++ [item])

section

-- the bytes of an element, `size_of::<T>()`
variable (itemSize : Nat)

/-- Later segments are allocated with the same capacity as the first one. -/
def optimize (ql : QuickList α) : Except Fault (QuickList α) := do
  let current ← allocate itemSize ql.maxSegmentSize
  let (newSegments, current) := ql.segments.foldl
    (fun filled segment => segment.foldl (refill ql.maxSegmentSize) filled) ([], current)
  let newSegments := if current.isEmpty then newSegments else newSegments ++ [current]
  let ql := { ql with segments := newSegments }
  pure { ql.markIndexDirty.rebuildSegmentStarts with opsSinceOptimize := 0 }

def autoOptimize (ql : QuickList α) : Except Fault (QuickList α) :=
  let ql := { ql with opsSinceOptimize := ql.opsSinceOptimize + 1 }
  if ql.opsSinceOptimize < ql.optimizeThreshold then .ok ql
  else
    let ql := { ql with opsSinceOptimize := 0 }
    let shouldOptimize := decide (5 < ql.segments.length) ||
      ql.segments.any fun s => decide (s.length < ql.maxSegmentSize / 4)
    if shouldOptimize then ql.optimize itemSize else .ok ql

/-- Changes one segment in place. -/
def modifySegment (ql : QuickList α) (i : Nat) (f : List α → List α) : Except Fault (QuickList α) :=
  if i < ql.segments.length then .ok { ql with segments := ql.segments.modify i f }
  else .error .outOfBounds

/-- The index after a segment was changed: a dirty one stays as it is. -/
def refreshFrom (ql : QuickList α) (i : Nat) : Except Fault (QuickList α) :=
  if ql.indexDirty then .ok ql else ql.updateSegmentStartsFrom i

def full (ql : QuickList α) : Option (List α) → Bool
  | none => true
  | some segment => decide (ql.maxSegmentSize ≤ segment.length)

/-- The end of a push: the item goes into a segment with room. -/
def pushInto (ql : QuickList α) (i : Nat) (put : List α → List α) : Except Fault (QuickList α) := do
  let ql ← ql.modifySegment i put
  let ql ← refreshFrom { ql with len := ql.len + 1 } i
  ql.autoOptimize itemSize

def pushFront (ql : QuickList α) (item : α) : Except Fault (QuickList α) :=
  if ql.full ql.segments.head? then do
    let segment ← allocate itemSize ql.maxSegmentSize
    let ql := markIndexDirty { ql with segments := segment :: ql.segments }
    ql.pushInto itemSize 0 fun segment => item :: segment
  else ql.pushInto itemSize 0 fun segment => item :: segment

def pushBack (ql : QuickList α) (item : α) : Except Fault (QuickList α) :=
  if ql.full ql.segments.getLast? then do
    let segment ← allocate itemSize ql.maxSegmentSize
    let ql := markIndexDirty { ql with segments := ql.segments ++ [segment] }
    let lastIdx ← sub ql.segments.length 1
    ql.pushInto itemSize lastIdx fun segment => segment ++ [item]
  else do
    let lastIdx ← sub ql.segments.length 1
    ql.pushInto itemSize lastIdx fun segment => segment ++ [item]

def popFront (ql : QuickList α) : Except Fault (Option α × QuickList α) :=
  match ql.segments with
  | [] => .ok (none, ql)
  | [] :: _ => .ok (none, ql)
  | (item :: segment) :: segments => do
      let len ← sub ql.len 1
      if segment.isEmpty then
        let ql := markIndexDirty { ql with segments := segments, len := len }
        let ql ← ql.autoOptimize itemSize
        pure (some item, ql)
      else do
        let ql ← refreshFrom { ql with segments := segment :: segments, len := len } 0
        let ql ← ql.autoOptimize itemSize
        pure (some item, ql)

def popBack (ql : QuickList α) : Except Fault (Option α × QuickList α) :=
  match ql.segments.getLast? with
  | none => .ok (none, ql)
  | some last =>
      match last.getLast? with
      | none => .ok (none, ql)
      | some item => do
          let len ← sub ql.len 1
          let lastIdx ← sub ql.segments.length 1
          if last.dropLast.isEmpty then
            let ql := markIndexDirty { ql with segments := ql.segments.dropLast, len := len }
            let ql ← ql.autoOptimize itemSize
            pure (some item, ql)
          else do
            let ql ← refreshFrom
              { ql with segments := ql.segments.dropLast ++ [last.dropLast], len := len } lastIdx
            let ql ← ql.autoOptimize itemSize
            pure (some item, ql)

end

/-- The segment of an index by binary search. -/
def searchSegment (ql : QuickList α) (i : Nat) : Except Fault (Option (Nat × Nat) × QuickList α) :=
  match binarySearch ql.segmentStarts i with
  | .ok segIdx => .ok (some (segIdx, 0), { ql with lastAccessed := some (segIdx, i) })
  | .error segIdx =>
      if segIdx = 0 ∨ ql.segments.length < segIdx then .ok (none, ql)
      else do
        let start ← index ql.segmentStarts (segIdx - 1)
        let offset ← sub i start
        pure (some (segIdx - 1, offset), { ql with lastAccessed := some (segIdx - 1, i) })

/-- The segment that was used last is tried first. -/
def lookupSegment (ql : QuickList α) (i : Nat) : Except Fault (Option (Nat × Nat) × QuickList α) :=
  match ql.lastAccessed with
  | none => ql.searchSegment i
  | some (cached, _) =>
      if cached < ql.segments.length then do
        let start ← index ql.segmentStarts cached
        let segment ← index ql.segments cached
        if start ≤ i ∧ i < start + segment.length then
          pure (some (cached, i - start), { ql with lastAccessed := some (cached, i) })
        else ql.searchSegment i
      else ql.searchSegment i

def findSegment (ql : QuickList α) (i : Nat) : Except Fault (Option (Nat × Nat) × QuickList α) :=
  if ql.len ≤ i then .ok (none, ql)
  else if ql.indexDirty ∨ ql.segmentStarts.length ≠ ql.segments.length + 1 then
    ql.rebuildSegmentStarts.lookupSegment i
  else ql.lookupSegment i

def get (ql : QuickList α) (i : Nat) : Except Fault (Option α × QuickList α) := do
  let (found, ql) ← ql.findSegment i
  match found with
  | none => pure (none, ql)
  | some (segIdx, offset) => do
      let segment ← index ql.segments segIdx
      pure (segment[offset]?, ql)

/-- The element before the change, and the list with the element changed in place. -/
def getMut (ql : QuickList α) (i : Nat) (change : α → α) :
    Except Fault (Option α × QuickList α) := do
  let (found, ql) ← ql.findSegment i
  match found with
  | none => pure (none, ql)
  | some (segIdx, offset) =>
      match ql.segments[segIdx]? with
      | none => pure (none, ql)
      | some segment =>
          pure (segment[offset]?, { ql with
            segments := ql.segments.modify segIdx fun s => s.modify offset change })

def clear (ql : QuickList α) : QuickList α :=
  { ql with
    segments := []
    segmentStarts := [0]
    len := 0
    lastAccessed := none
    indexDirty := false
    opsSinceOptimize := 0 }

def iter (ql : QuickList α) : List α := ql.segments.flatten

section

variable (itemSize : Nat)

def intoVecdeque (ql : QuickList α) : Except Fault (List α) := do
  let result ← allocate itemSize ql.len
  pure (ql.segments.foldl (fun result segment => result ++ segment) result)

def pushAll : List α → QuickList α → Except Fault (QuickList α)
  | [], ql => .ok ql
  | item :: items, ql => do
      let ql ← ql.pushBack itemSize item
      pushAll items ql

def fromIter (items : List α) (maxSegmentSize : Nat) : Except Fault (QuickList α) :=
  pushAll itemSize items (new maxSegmentSize)

end

/-- A call on a list. The last one takes the list apart and builds a new one from its elements. -/
inductive Call (α : Type) where
  | pushFront (item : α)
  | pushBack (item : α)
  | popFront
  | popBack
  | get (i : Nat)
  | getMut (i : Nat) (change : α → α)
  | optimize
  | autoOptimize
  | clear
  | rebuild (maxSegmentSize : Nat) (positive : 0 < maxSegmentSize)

/-- What a call returns: an element, or all elements in a row. -/
inductive Reply (α : Type) where
  | done
  | item (x : Option α)
  | items (l : List α)

section

variable (itemSize : Nat)

def step (ql : QuickList α) : Call α → Except Fault (Reply α × QuickList α)
  | .pushFront item => (ql.pushFront itemSize item).map fun ql => (.done, ql)
  | .pushBack item => (ql.pushBack itemSize item).map fun ql => (.done, ql)
  | .popFront => (ql.popFront itemSize).map fun r => (.item r.1, r.2)
  | .popBack => (ql.popBack itemSize).map fun r => (.item r.1, r.2)
  | .get i => (ql.get i).map fun r => (.item r.1, r.2)
  | .getMut i change => (ql.getMut i change).map fun r => (.item r.1, r.2)
  | .optimize => (ql.optimize itemSize).map fun ql => (.done, ql)
  | .autoOptimize => (ql.autoOptimize itemSize).map fun ql => (.done, ql)
  | .clear => .ok (.done, ql.clear)
  | .rebuild maxSegmentSize _ => do
      let items ← ql.intoVecdeque itemSize
      (fromIter itemSize items maxSegmentSize).map fun ql' => (.items items, ql')

def run : QuickList α → List (Call α) → Except Fault (List (Reply α) × QuickList α)
  | ql, [] => .ok ([], ql)
  | ql, c :: calls => do
      let (reply, ql) ← ql.step itemSize c
      let (replies, ql) ← run ql calls
      pure (reply :: replies, ql)

end

end QuickList

end Zumic.Database
