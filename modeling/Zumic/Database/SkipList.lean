/- The skip list: nodes in memory, linked on up to sixteen levels and backwards
(`skiplist_base.rs`). -/

import Mathlib.Order.Lattice
import Zumic.Lib.Assoc
import Zumic.Lib.Buffer

namespace Zumic.Database

open Lib.Buffer

def maxLevel : Nat := 16

abbrev Addr := Nat

/-- The links of a node are an array of `maxLevel` entries: an access is checked. -/
structure Node (K V : Type) where
  key : K
  value : V
  forward : Nat → Option Addr
  backward : Option Addr

def Node.new {K V : Type} (key : K) (value : V) : Node K V where
  key := key
  value := value
  forward := fun _ => none
  backward := none

/-- The nodes that are allocated. -/
abbrev Memory (K V : Type) := Addr → Option (Node K V)

/-- Addresses are handed out in order: from `nextAddr` on nothing is allocated. -/
structure SkipList (K V : Type) where
  memory : Memory K V
  nextAddr : Addr
  head : Addr
  level : Nat
  length : Nat

namespace Memory

variable {K V : Type}

/-- The node at an address; nothing else can be read or written. -/
def deref (mem : Memory K V) (a : Addr) : Except Fault (Node K V) :=
  match mem a with
  | some n => .ok n
  | none => .error .outOfBounds

def store (mem : Memory K V) (a : Addr) (n : Option (Node K V)) : Memory K V :=
  fun b => if b = a then n else mem b

def forward (mem : Memory K V) (a : Addr) (i : Nat) : Except Fault (Option Addr) :=
  if i < maxLevel then do
    let n ← deref mem a
    pure (n.forward i)
  else .error .outOfBounds

def setForward (mem : Memory K V) (a : Addr) (i : Nat) (link : Option Addr) :
    Except Fault (Memory K V) :=
  if i < maxLevel then do
    let n ← deref mem a
    pure (mem.store a (some { n with forward := fun j => if j = i then link else n.forward j }))
  else .error .outOfBounds

def setBackward (mem : Memory K V) (a : Addr) (link : Option Addr) : Except Fault (Memory K V) := do
  let n ← deref mem a
  pure (mem.store a (some { n with backward := link }))

def setValue (mem : Memory K V) (a : Addr) (value : V) : Except Fault (Memory K V) := do
  let n ← deref mem a
  pure (mem.store a (some { n with value := value }))

/-- The walk along one level, as long as the keys ahead are to be passed. -/
def walk (mem : Memory K V) (passes : K → Bool) (i : Nat) : Nat → Addr → Except Fault Addr
  | 0, _ => .error .endless
  | fuel + 1, current => do
      match ← mem.forward current i with
      | none => pure current
      | some next => do
          let node ← mem.deref next
          if passes node.key then walk mem passes i fuel next else pure current

end Memory

/-- The array of the predecessors; a level that was not visited has a null pointer. -/
abbrev Update := Nat → Option Addr

def Update.set (update : Update) (i : Nat) (a : Addr) : Update :=
  fun j => if j = i then some a else update j

/-- A pointer of the array that is followed. -/
def Update.get (update : Update) (i : Nat) : Except Fault Addr :=
  match update i with
  | some a => .ok a
  | none => .error .outOfBounds

namespace SkipList

variable {K V : Type}

/-- The head is a node of its own, with default contents. -/
def new [Inhabited K] [Inhabited V] : SkipList K V where
  memory := fun a => if a = 0 then some (Node.new default default) else none
  nextAddr := 1
  head := 0
  level := 1
  length := 0

def levelLoop (draws : Nat → UInt32) : Nat → Nat → Nat
  | 0, lvl => lvl
  | left + 1, lvl =>
      if draws lvl &&& 0xFFFF < 0x4000 then levelLoop draws left (lvl + 1) else lvl

/-- The level of a new node, by the numbers that are drawn. -/
def randomLevel (draws : Nat → UInt32) : Nat := levelLoop draws (maxLevel - 1) 1

/-- The descent of all operations, from the levels below `i` down to the lowest: where it ends, and
where it left each level. -/
def descend (s : SkipList K V) (passes : K → Bool) :
    Nat → Addr → Update → Except Fault (Addr × Update)
  | 0, current, update => .ok (current, update)
  | i + 1, current, update => do
      let current ← s.memory.walk passes i (s.length + 1) current
      descend s passes i current (update.set i current)

section

variable [LinearOrder K]

def findUpdate (s : SkipList K V) (key : K) : Except Fault Update := do
  let (_, update) ← s.descend (fun k => decide (k < key)) s.level s.head fun _ => none
  pure update

/-- The predecessors of a node that is higher than the list. -/
def raiseUpdate (s : SkipList K V) (lvl : Nat) (update : Update) : Update :=
  fun i => if s.level ≤ i ∧ i < lvl then some s.head else update i

/-- The new node is linked in on its levels. -/
def linkLevels (update : Update) (new : Addr) : List Nat → Memory K V → Except Fault (Memory K V)
  | [], mem => .ok mem
  | i :: levels, mem => do
      let pred ← update.get i
      let link ← mem.forward pred i
      let mem ← mem.setForward new i link
      let mem ← mem.setForward pred i (some new)
      linkLevels update new levels mem

/-- The backward link of the node behind, if there is one. -/
def setBackwardOf (mem : Memory K V) (next : Option Addr) (link : Option Addr) :
    Except Fault (Memory K V) :=
  match next with
  | none => .ok mem
  | some a => mem.setBackward a link

def insertNew (s : SkipList K V) (key : K) (value : V) (lvl : Nat) (update : Update) :
    Except Fault (SkipList K V) := do
  let update := s.raiseUpdate lvl update
  let new := s.nextAddr
  let mem := s.memory.store new (some (Node.new key value))
  let mem ← linkLevels update new (List.range lvl) mem
  let pred ← update.get 0
  let mem ← mem.setBackward new (some pred)
  let next ← mem.forward new 0
  let mem ← setBackwardOf mem next (some new)
  pure { s with
    memory := mem, nextAddr := s.nextAddr + 1, level := max s.level lvl, length := s.length + 1 }

/-- The node behind a predecessor, if it has the key. -/
def nodeOf (s : SkipList K V) (pred : Addr) (key : K) : Except Fault (Option Addr) := do
  match ← s.memory.forward pred 0 with
  | none => pure none
  | some a => do
      let n ← s.memory.deref a
      pure (if n.key = key then some a else none)

def insert (s : SkipList K V) (key : K) (value : V) (draws : Nat → UInt32) :
    Except Fault (SkipList K V) := do
  let update ← s.findUpdate key
  let pred ← update.get 0
  match ← s.nodeOf pred key with
  | some a => do
      let mem ← s.memory.setValue a value
      pure { s with memory := mem }
  | none => s.insertNew key value (randomLevel draws) update

def search (s : SkipList K V) (key : K) : Except Fault (Option V) := do
  let (current, _) ← s.descend (fun k => decide (k < key)) s.level s.head fun _ => none
  match ← s.nodeOf current key with
  | none => pure none
  | some a => do
      let n ← s.memory.deref a
      pure (some n.value)

/-- The value before it is written through the reference. -/
def searchMut (s : SkipList K V) (key : K) (change : V → V) :
    Except Fault (Option V × SkipList K V) := do
  let update ← s.findUpdate key
  let pred ← update.get 0
  match ← s.nodeOf pred key with
  | none => pure (none, s)
  | some a => do
      let n ← s.memory.deref a
      let mem ← s.memory.setValue a (change n.value)
      pure (some n.value, { s with memory := mem })

/-- The node is unlinked where a predecessor points at it. -/
def unlinkLevels (update : Update) (node : Addr) :
    List Nat → Memory K V → Except Fault (Memory K V)
  | [], mem => .ok mem
  | i :: levels, mem => do
      let pred ← update.get i
      let link ← mem.forward pred i
      if link = some node then do
        let behind ← mem.forward node i
        let mem ← mem.setForward pred i behind
        unlinkLevels update node levels mem
      else unlinkLevels update node levels mem

/-- Levels without nodes are given up. -/
def lowerLevel (mem : Memory K V) (head : Addr) : Nat → Except Fault Nat
  | 0 => .ok 0
  | 1 => .ok 1
  | i + 2 => do
      match ← mem.forward head (i + 1) with
      | none => lowerLevel mem head (i + 1)
      | some _ => pure (i + 2)

def removeNode (s : SkipList K V) (node : Addr) (update : Update) :
    Except Fault (V × SkipList K V) := do
  let mem ← unlinkLevels update node (List.range s.level) s.memory
  let n ← mem.deref node
  let next ← mem.forward node 0
  let mem ← setBackwardOf mem next n.backward
  let level ← lowerLevel mem s.head s.level
  let length ← sub s.length 1
  let boxed ← mem.deref node
  pure (boxed.value, { s with memory := mem.store node none, level := level, length := length })

def remove (s : SkipList K V) (key : K) : Except Fault (Option V × SkipList K V) := do
  let update ← s.findUpdate key
  let pred ← update.get 0
  match ← s.nodeOf pred key with
  | none => pure (none, s)
  | some a => do
      let (value, s) ← s.removeNode a update
      pure (some value, s)

def contains (s : SkipList K V) (key : K) : Except Fault Bool := do
  let value ← s.search key
  pure value.isSome

end

/-- All nodes of the lowest level are freed. -/
def freeLoop : Nat → Option Addr → Memory K V → Except Fault (Memory K V)
  | 0, _, _ => .error .endless
  | _ + 1, none, mem => .ok mem
  | fuel + 1, some a, mem => do
      let next ← mem.forward a 0
      freeLoop fuel next (mem.store a none)

def clear (s : SkipList K V) : Except Fault (SkipList K V) := do
  let first ← s.memory.forward s.head 0
  let mem ← freeLoop (s.length + 1) first s.memory
  let n ← mem.deref s.head
  let mem := mem.store s.head (some { n with
    forward := fun i => if i < maxLevel then none else n.forward i, backward := none })
  pure { s with memory := mem, level := 1, length := 0 }

def first (s : SkipList K V) : Except Fault (Option (K × V)) := do
  match ← s.memory.forward s.head 0 with
  | none => pure none
  | some a => do
      let n ← s.memory.deref a
      pure (some (n.key, n.value))

def lastNode (s : SkipList K V) : Except Fault (Option Addr) := do
  let (current, _) ← s.descend (fun _ => true) s.level s.head fun _ => none
  pure (if current = s.head then none else some current)

def last (s : SkipList K V) : Except Fault (Option (K × V)) := do
  match ← s.lastNode with
  | none => pure none
  | some a => do
      let n ← s.memory.deref a
      pure (some (n.key, n.value))

/-- What is read from an iterator: its `next` is called until it returns `None`. -/
def collect (next : Option Addr → Except Fault (Option ((K × V) × Option Addr))) :
    Nat → Option Addr → Except Fault (List (K × V))
  | 0, _ => .error .endless
  | fuel + 1, current => do
      match ← next current with
      | none => pure []
      | some (item, current) => do
          let items ← collect next fuel current
          pure (item :: items)

/-- `SkipListIter::next`. -/
def nextItem (s : SkipList K V) (current : Option Addr) :
    Except Fault (Option ((K × V) × Option Addr)) :=
  match current with
  | none => .ok none
  | some a => do
      let n ← s.memory.deref a
      let link ← s.memory.forward a 0
      pure (some ((n.key, n.value), link))

/-- `ReverseIter::next`. -/
def nextBack (s : SkipList K V) (current : Option Addr) :
    Except Fault (Option ((K × V) × Option Addr)) :=
  match current with
  | none => .ok none
  | some a =>
      if a = s.head then .ok none
      else do
        let n ← s.memory.deref a
        pure (some ((n.key, n.value), n.backward))

def iter (s : SkipList K V) : Except Fault (List (K × V)) := do
  let current ← s.memory.forward s.head 0
  collect s.nextItem (s.length + 1) current

def iterRev (s : SkipList K V) : Except Fault (List (K × V)) := do
  let current ← s.lastNode
  collect s.nextBack (s.length + 1) current

section

variable [LinearOrder K]

/-- `RangeIter::next`. -/
def nextInRange (s : SkipList K V) (stop : K) (current : Option Addr) :
    Except Fault (Option ((K × V) × Option Addr)) :=
  match current with
  | none => .ok none
  | some a => do
      let n ← s.memory.deref a
      if stop ≤ n.key then pure none
      else do
        let link ← s.memory.forward a 0
        pure (some ((n.key, n.value), link))

def range (s : SkipList K V) (start stop : K) : Except Fault (List (K × V)) := do
  let (current, _) ← s.descend (fun k => decide (k < start)) s.level s.head fun _ => none
  let first ← s.memory.forward current 0
  collect (s.nextInRange stop) (s.length + 1) first

/-- A use of the list; an insertion comes with the numbers that are drawn for it. -/
inductive Call (K V : Type)
  | insert (key : K) (value : V) (draws : Nat → UInt32)
  | remove (key : K)
  | search (key : K)
  | searchMut (key : K) (change : V → V)
  | contains (key : K)
  | first
  | last
  | range (start stop : K)
  | iter
  | iterRev
  | clear
  | len
  | isEmpty

inductive Reply (K V : Type)
  | done
  | value (v : Option V)
  | flag (b : Bool)
  | item (p : Option (K × V))
  | items (l : List (K × V))
  | count (n : Nat)
  deriving DecidableEq

def step (s : SkipList K V) : Call K V → Except Fault (Reply K V × SkipList K V)
  | .insert key value draws => do
      let s ← s.insert key value draws
      pure (.done, s)
  | .remove key => do
      let (v, s) ← s.remove key
      pure (.value v, s)
  | .search key => do
      let v ← s.search key
      pure (.value v, s)
  | .searchMut key change => do
      let (v, s) ← s.searchMut key change
      pure (.value v, s)
  | .contains key => do
      let b ← s.contains key
      pure (.flag b, s)
  | .first => do
      let p ← s.first
      pure (.item p, s)
  | .last => do
      let p ← s.last
      pure (.item p, s)
  | .range start stop => do
      let l ← s.range start stop
      pure (.items l, s)
  | .iter => do
      let l ← s.iter
      pure (.items l, s)
  | .iterRev => do
      let l ← s.iterRev
      pure (.items l, s)
  | .clear => do
      let s ← s.clear
      pure (.done, s)
  | .len => .ok (.count s.length, s)
  | .isEmpty => .ok (.flag (s.length == 0), s)

def run : SkipList K V → List (Call K V) → Except Fault (List (Reply K V) × SkipList K V)
  | s, [] => .ok ([], s)
  | s, c :: calls => do
      let (reply, s) ← s.step c
      let (replies, s) ← run s calls
      pure (reply :: replies, s)

end

end SkipList

end Zumic.Database
