/- The hash table with incremental rehashing (`dict_base.rs`, `entry.rs`). -/

import Mathlib.Algebra.Ring.Nat
import Mathlib.Data.Multiset.Basic
import Zumic.Lib.Assoc
import Zumic.Lib.Buffer

namespace Zumic.Database

open Lib.Buffer

/-- A chain of collisions is the list of its nodes. -/
structure HashTable (K V : Type) where
  buckets : List (List (K × V))
  sizeMask : Nat
  used : Nat
  deriving DecidableEq

/-- The two tables `ht[0]` and `ht[1]`; no index stands for the `-1` of a dictionary at rest. -/
structure Dict (K V : Type) where
  ht0 : HashTable K V
  ht1 : HashTable K V
  rehashIdx : Option Nat
  deriving DecidableEq

def initialSize : Nat := 4

def rehashMinEntries : Nat := 8

def rehashMaxEmptyVisits : Nat := 64

/-- The next power of two of a word; it wraps to zero past the largest one. -/
def nextPowerOfTwo (n : Nat) : Nat := if n ≤ 1 then 1 else 2 ^ (Nat.log2 (n - 1) + 1) % 2 ^ 64

namespace HashTable

variable {K V : Type}

/-- The table of capacity 0. -/
def empty : HashTable K V := { buckets := [], sizeMask := 0, used := 0 }

/-- A bucket is a pointer of eight bytes. -/
def withCapacity (cap : Nat) : Except Fault (HashTable K V) :=
  if cap = 0 then .ok empty
  else do
    let sz := max (nextPowerOfTwo cap) initialSize
    let buckets ← allocate 8 sz
    pure { buckets := buckets ++ List.replicate sz [], sizeMask := sz - 1, used := 0 }

def clear (_ : HashTable K V) : HashTable K V := { buckets := [], sizeMask := 0, used := 0 }

def isEmptyTable (t : HashTable K V) : Bool := t.buckets.isEmpty

def capacity (t : HashTable K V) : Nat := t.buckets.length

/-- The bucket of a hash. -/
def slot (t : HashTable K V) (hash : UInt64) : Nat := hash.toNat &&& t.sizeMask

/-- A node goes to the head of its bucket. -/
def prepend (t : HashTable K V) (hash : UInt64) (node : K × V) : Except Fault (HashTable K V) := do
  let next ← index t.buckets (t.slot hash)
  pure { t with buckets := t.buckets.set (t.slot hash) (node :: next), used := t.used + 1 }

end HashTable

/-- A place in a chain: the nodes before it, the value of the node there and the nodes behind. -/
structure Slot (K V : Type) where
  before : List (K × V)
  val : V
  next : List (K × V)

/-- Where a key was found: one of the two tables, the bucket and the place in its chain. -/
structure OccupiedEntry (K V : Type) where
  second : Bool
  bucket : Nat
  key : K
  slot : Slot K V

/-- Where a new key is to be put. -/
structure VacantEntry (K : Type) where
  second : Bool
  bucket : Nat
  key : K

inductive Entry (K V : Type)
  | occupied (e : OccupiedEntry K V)
  | vacant (e : VacantEntry K)

namespace Dict

variable {K V : Type}

/-- The table that an entry points into. -/
def table (d : Dict K V) (second : Bool) : HashTable K V := if second then d.ht1 else d.ht0

def setTable (d : Dict K V) (second : Bool) (t : HashTable K V) : Dict K V :=
  if second then { d with ht1 := t } else { d with ht0 := t }

/-- The hasher is a parameter of the calls. -/
def withHasher : Dict K V where
  ht0 := .empty
  ht1 := .empty
  rehashIdx := none

def withCapacity (cap : Nat) : Except Fault (Dict K V) := do
  let init ← HashTable.withCapacity cap
  pure { ht0 := init, ht1 := .empty, rehashIdx := none }

def isRehashing (d : Dict K V) : Bool := d.rehashIdx.isSome

def len (d : Dict K V) : Nat := d.ht0.used + d.ht1.used

def capacity (d : Dict K V) : Nat := d.ht0.capacity

def clear (d : Dict K V) : Dict K V where
  ht0 := d.ht0.clear
  ht1 := d.ht1.clear
  rehashIdx := none

def expandIfNeeded (d : Dict K V) : Except Fault (Dict K V) :=
  if d.isRehashing then .ok d
  else if d.ht0.capacity = 0 then do
    let ht0 ← HashTable.withCapacity initialSize
    pure { d with ht0 := ht0 }
  else if d.ht0.capacity ≤ d.ht0.used then do
    let ht1 ← HashTable.withCapacity (d.ht0.capacity * 2)
    pure { d with ht1 := ht1, rehashIdx := some 0 }
  else .ok d

/-- A quarter of the capacity is the threshold: the sizes are powers of two, for which the product
with the ratio `0.25` is exact. -/
def shrinkIfNeeded (d : Dict K V) : Except Fault (Dict K V) :=
  if d.isRehashing then .ok d
  else if d.ht0.capacity ≤ initialSize then .ok d
  else if d.ht0.used < d.ht0.capacity / 4 then do
    let ht1 ← HashTable.withCapacity (max (d.ht0.capacity / 2) initialSize)
    pure { d with ht1 := ht1, rehashIdx := some 0 }
  else .ok d

/-- The second table takes the place of the first one. -/
def promote (d : Dict K V) : Dict K V where
  ht0 := d.ht1
  ht1 := .empty
  rehashIdx := none

section

variable (hash : K → UInt64)

/-- The nodes of a bucket that was taken out of the first table go to the second one. -/
def moveChain : List (K × V) → Dict K V → Except Fault (Dict K V)
  | [], d => .ok d
  | e :: chain, d => do
      let ht1 ← d.ht1.prepend (hash e.1) e
      let used ← sub d.ht0.used 1
      moveChain chain { d with ht0 := { d.ht0 with used := used }, ht1 := ht1 }

/-- One bucket of the first table is emptied. -/
def moveBucket (idx : Nat) (chain : List (K × V)) (d : Dict K V) : Except Fault (Dict K V) :=
  moveChain hash chain { d with ht0 := { d.ht0 with buckets := d.ht0.buckets.set idx [] } }

/-- The loop of a step, from the bucket `idx` on. -/
def rehashLoop : Nat → Nat → Nat → Nat → Dict K V → Except Fault (Dict K V)
  | 0, _, _, _, _ => .error .endless
  | fuel + 1, idx, entriesMoved, emptyVisits, d =>
      if entriesMoved < rehashMinEntries ∨ emptyVisits < rehashMaxEmptyVisits then
        if d.ht0.capacity ≤ idx then .ok d.promote
        else do
          let chain ← index d.ht0.buckets idx
          if chain.isEmpty then
            if rehashMaxEmptyVisits ≤ emptyVisits + 1 ∧ 0 < entriesMoved then
              pure { d with rehashIdx := some (idx + 1) }
            else rehashLoop fuel (idx + 1) entriesMoved (emptyVisits + 1) d
          else do
            let d ← moveBucket hash idx chain d
            rehashLoop fuel (idx + 1) (entriesMoved + chain.length) 0 d
      else .ok { d with rehashIdx := some idx }

def rehashStep (d : Dict K V) : Except Fault (Dict K V) :=
  match d.rehashIdx with
  | none => .ok d
  | some idx => rehashLoop hash (d.ht0.capacity + 1) idx 0 0 d

/-- The loop over the buckets that are left. -/
def finishLoop : List Nat → Dict K V → Except Fault (Dict K V)
  | [], d => .ok d
  | idx :: rest, d => do
      let chain ← index d.ht0.buckets idx
      let d ← moveBucket hash idx chain d
      finishLoop rest d

def finishRehash (d : Dict K V) : Except Fault (Dict K V) :=
  match d.rehashIdx with
  | none => .ok d
  | some idx => do
      let d ← finishLoop hash (List.range' idx (d.ht0.capacity - idx)) d
      pure d.promote

/-- Puts the nodes of the old table into the new one. -/
def transfer : List (K × V) → HashTable K V → Except Fault (HashTable K V)
  | [], t => .ok t
  | e :: nodes, t => do
      let t ← t.prepend (hash e.1) e
      transfer nodes t

/-- A table without buckets takes no node: they are dropped. -/
def rebuild (newCap : Nat) (d : Dict K V) : Except Fault (Dict K V) :=
  if d.ht0.capacity = newCap then .ok d
  else do
    let newTable ← HashTable.withCapacity newCap
    let newTable ← transfer hash (if newCap = 0 then [] else d.ht0.buckets.flatten) newTable
    pure { ht0 := newTable, ht1 := d.ht1.clear, rehashIdx := none }

def forceRehashTo (d : Dict K V) (targetCap : Nat) : Except Fault (Dict K V) := do
  let d ← d.finishRehash hash
  rebuild hash (if targetCap = 0 then 0 else max (nextPowerOfTwo targetCap) initialSize) d

def reserve (d : Dict K V) (additional : Nat) : Except Fault (Dict K V) :=
  let needed := (d.len + additional) % 2 ^ 64
  if needed ≤ d.ht0.capacity then .ok d else d.forceRehashTo hash needed

def shrinkToFit (d : Dict K V) : Except Fault (Dict K V) :=
  let target := if d.len = 0 then 0 else max (nextPowerOfTwo d.len) initialSize
  if d.ht0.capacity ≤ target ∧ d.isRehashing = false then .ok d else d.forceRehashTo hash target

end

section

variable [DecidableEq K] (hash : K → UInt64)

/-- The place of a key in a chain. -/
def findEntrySlot : List (K × V) → K → Option (Slot K V)
  | [], _ => none
  | e :: chain, key =>
      if e.1 = key then some { before := [], val := e.2, next := chain }
      else (findEntrySlot chain key).map fun s => { s with before := e :: s.before }

/-- Looks for a key in one of the tables. -/
def findIn (d : Dict K V) (second : Bool) (key : K) : Except Fault (Option (OccupiedEntry K V)) :=
  if (d.table second).isEmptyTable then .ok none
  else do
    let bucket := (d.table second).slot (hash key)
    let chain ← index (d.table second).buckets bucket
    pure ((findEntrySlot chain key).map fun slot => { second, bucket, key, slot })

/-- The search of all operations: `ht[1]` is looked into only while rehashing. -/
def find (d : Dict K V) (key : K) : Except Fault (Option (OccupiedEntry K V)) := do
  match ← d.findIn hash false key with
  | some e => pure (some e)
  | none => if d.isRehashing then d.findIn hash true key else pure none

/-- The bucket that a new key goes to. -/
def vacantEntry (d : Dict K V) (key : K) : Except Fault (VacantEntry K) := do
  let bucket := (d.table d.isRehashing).slot (hash key)
  let _ ← index (d.table d.isRehashing).buckets bucket
  pure { second := d.isRehashing, bucket, key }

end

end Dict

namespace OccupiedEntry

variable {K V : Type}

/-- Puts a chain in the place of the one that the entry is in. -/
def write (e : OccupiedEntry K V) (d : Dict K V) (chain : List (K × V)) : Dict K V :=
  let t := d.table e.second
  d.setTable e.second { t with buckets := t.buckets.set e.bucket chain }

def get (e : OccupiedEntry K V) : V := e.slot.val

/-- Writes through the reference to the value. -/
def getMut (e : OccupiedEntry K V) (d : Dict K V) (change : V → V) : Dict K V :=
  e.write d (e.slot.before ++ (e.key, change e.slot.val) :: e.slot.next)

def insert (e : OccupiedEntry K V) (d : Dict K V) (val : V) : V × Dict K V :=
  (e.slot.val, e.getMut d fun _ => val)

/-- The tail of the chain takes the place of the node. -/
def remove (e : OccupiedEntry K V) (d : Dict K V) : Except Fault (V × Dict K V) := do
  let d := e.write d (e.slot.before ++ e.slot.next)
  let t := d.table e.second
  let used ← sub t.used 1
  pure (e.slot.val, d.setTable e.second { t with used := used })

end OccupiedEntry

namespace VacantEntry

variable {K V : Type}

def insert (e : VacantEntry K) (d : Dict K V) (val : V) : Except Fault (Dict K V) := do
  let t := d.table e.second
  let oldHead ← index t.buckets e.bucket
  pure (d.setTable e.second
    { t with buckets := t.buckets.set e.bucket ((e.key, val) :: oldHead), used := t.used + 1 })

end VacantEntry

namespace Dict

variable {K V : Type} [DecidableEq K] (hash : K → UInt64)

/-- Whether the key is new; an old one gets the value. -/
def insert (d : Dict K V) (key : K) (val : V) : Except Fault (Bool × Dict K V) := do
  let d ← d.expandIfNeeded
  let d ← d.rehashStep hash
  match ← d.find hash key with
  | some e => pure (false, e.getMut d fun _ => val)
  | none => do
      let t ← (d.table d.isRehashing).prepend (hash key) (key, val)
      pure (true, d.setTable d.isRehashing t)

def get (d : Dict K V) (key : K) : Except Fault (Option V) := do
  let e ← d.find hash key
  pure (e.map OccupiedEntry.get)

/-- The value before it is written through the reference. -/
def getMut (d : Dict K V) (key : K) (change : V → V) : Except Fault (Option V × Dict K V) := do
  let d ← d.rehashStep hash
  match ← d.find hash key with
  | some e => pure (some e.get, e.getMut d change)
  | none => pure (none, d)

def remove (d : Dict K V) (key : K) : Except Fault (Bool × Dict K V) := do
  let d ← d.rehashStep hash
  match ← d.find hash key with
  | none => pure (false, d)
  | some e => do
      let (_, d) ← e.remove d
      let d ← if e.second then pure d else d.shrinkIfNeeded
      pure (true, d)

def entry (d : Dict K V) (key : K) : Except Fault (Entry K V × Dict K V) := do
  let d ← d.expandIfNeeded
  let d ← d.rehashStep hash
  match ← d.find hash key with
  | some e => pure (.occupied e, d)
  | none => do
      let e ← d.vacantEntry hash key
      pure (.vacant e, d)

/-- The value that the reference of `or_insert_with_key` shows, before it is written through;
`or_insert`, `or_insert_with` and `or_default` are its cases. -/
def orInsertWithKey (d : Dict K V) (key : K) (f : K → V) (change : V → V) :
    Except Fault (V × Dict K V) := do
  match ← d.entry hash key with
  | (.occupied e, d) => pure (e.get, e.getMut d change)
  | (.vacant e, d) => do
      let d ← e.insert d (change (f e.key))
      pure (f e.key, d)

/-- An entry that is modified if it is occupied, and filled otherwise. -/
def andModifyOrInsert (d : Dict K V) (key : K) (f : V → V) (default : V) :
    Except Fault (Dict K V) := do
  match ← d.entry hash key with
  | (.occupied e, d) => pure (e.getMut d f)
  | (.vacant e, d) => e.insert d default

/-- The old value of an occupied entry; a vacant one is filled. -/
def entryInsert (d : Dict K V) (key : K) (val : V) : Except Fault (Option V × Dict K V) := do
  match ← d.entry hash key with
  | (.occupied e, d) => pure (some (e.insert d val).1, (e.insert d val).2)
  | (.vacant e, d) => do
      let d ← e.insert d val
      pure (none, d)

/-- The value of an occupied entry that is removed; a vacant one is dropped. -/
def entryRemove (d : Dict K V) (key : K) : Except Fault (Option V × Dict K V) := do
  match ← d.entry hash key with
  | (.occupied e, d) => do
      let (val, d) ← e.remove d
      pure (some val, d)
  | (.vacant _, d) => pure (none, d)

end Dict

/-- An iterator: the nodes left of the current chain, and the bucket that comes next. -/
structure DictIter (K V : Type) where
  tables : Dict K V
  second : Bool
  bucketIdx : Nat
  currentEntry : List (K × V)

namespace DictIter

variable {K V : Type}

/-- The loop of `next`. -/
def nextLoop : Nat → DictIter K V → Except Fault (Option (K × V) × DictIter K V)
  | 0, _ => .error .endless
  | fuel + 1, it =>
      match it.currentEntry with
      | e :: rest => .ok (some e, { it with currentEntry := rest })
      | [] =>
          if (it.tables.table it.second).buckets.length ≤ it.bucketIdx then
            if it.second = false ∧ it.tables.ht1.isEmptyTable = false then
              nextLoop fuel { it with second := true, bucketIdx := 0 }
            else .ok (none, it)
          else do
            let chain ← index (it.tables.table it.second).buckets it.bucketIdx
            nextLoop fuel { it with currentEntry := chain, bucketIdx := it.bucketIdx + 1 }

def next (it : DictIter K V) : Except Fault (Option (K × V) × DictIter K V) :=
  nextLoop (it.tables.ht0.capacity + it.tables.ht1.capacity + 3) it

/-- Everything that an iterator yields until its first `None`. -/
def collect : Nat → DictIter K V → Except Fault (List (K × V))
  | 0, _ => .error .endless
  | fuel + 1, it => do
      match ← it.next with
      | (none, _) => pure []
      | (some e, it) => do
          let rest ← collect fuel it
          pure (e :: rest)

end DictIter

namespace Dict

variable {K V : Type}

def iter (d : Dict K V) : DictIter K V where
  tables := d
  second := false
  bucketIdx := 0
  currentEntry := []

/-- The pairs of a whole iteration. -/
def pairs (d : Dict K V) : Except Fault (List (K × V)) := d.iter.collect (d.len + 1)

/-- A use of the dictionary. -/
inductive Call (K V : Type)
  | insert (key : K) (val : V)
  | get (key : K)
  | getMut (key : K) (change : V → V)
  | remove (key : K)
  | orInsertWithKey (key : K) (f : K → V) (change : V → V)
  | andModifyOrInsert (key : K) (f : V → V) (default : V)
  | entryInsert (key : K) (val : V)
  | entryRemove (key : K)
  | reserve (additional : Nat)
  | shrinkToFit
  | clear
  | iter
  | len

inductive Reply (K V : Type)
  | flag (b : Bool)
  | value (v : Option V)
  | pairs (items : Multiset (K × V))
  | count (n : Nat)
  | done

variable [DecidableEq K] (hash : K → UInt64)

def step (d : Dict K V) : Call K V → Except Fault (Reply K V × Dict K V)
  | .insert key val => do
      let (b, d) ← d.insert hash key val
      pure (.flag b, d)
  | .get key => do
      let v ← d.get hash key
      pure (.value v, d)
  | .getMut key change => do
      let (v, d) ← d.getMut hash key change
      pure (.value v, d)
  | .remove key => do
      let (b, d) ← d.remove hash key
      pure (.flag b, d)
  | .orInsertWithKey key f change => do
      let (v, d) ← d.orInsertWithKey hash key f change
      pure (.value (some v), d)
  | .andModifyOrInsert key f default => do
      let d ← d.andModifyOrInsert hash key f default
      pure (.done, d)
  | .entryInsert key val => do
      let (v, d) ← d.entryInsert hash key val
      pure (.value v, d)
  | .entryRemove key => do
      let (v, d) ← d.entryRemove hash key
      pure (.value v, d)
  | .reserve additional => do
      let d ← d.reserve hash additional
      pure (.done, d)
  | .shrinkToFit => do
      let d ← d.shrinkToFit hash
      pure (.done, d)
  | .clear => .ok (.done, d.clear)
  | .iter => do
      let items ← d.pairs
      pure (.pairs items, d)
  | .len => .ok (.count d.len, d)

def run : Dict K V → List (Call K V) → Except Fault (List (Reply K V) × Dict K V)
  | d, [] => .ok ([], d)
  | d, c :: calls => do
      let (reply, d) ← d.step hash c
      let (replies, d) ← run d calls
      pure (reply :: replies, d)

/-- A new dictionary and what the calls make of it. -/
def history (cap : Nat) (calls : List (Call K V)) : Except Fault (List (Reply K V) × Dict K V) := do
  let d ← withCapacity cap
  d.run hash calls

end Dict

end Zumic.Database
