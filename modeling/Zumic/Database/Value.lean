/- The values of the store (`types.rs`) and the data types inside them. -/

import Zumic.Lib.Assoc
import Zumic.Lib.F64
import Zumic.Lib.Utf8

namespace Zumic.Database

open Lib Lib.ByteString Lib.Utf8

/-- A binary-safe string. -/
abbrev Sds := Bytes

/-- The bytes of an `Sds` beside its heap: a tag and three words. -/
def sdsSize : Nat := 32

structure StreamId where
  msTime : UInt64
  sequence : UInt64
  deriving DecidableEq

/-- The registers of a sketch: the nonzero ones in the order of their index, or all of them packed
six bits each. -/
inductive HllEncoding where
  | sparse (registers : List (Nat × UInt8)) (threshold : Nat)
  | dense (data : Bytes)
  deriving DecidableEq

/-- A sketch of precision 14 with the seed of its hasher. -/
structure Hll where
  encoding : HllEncoding
  version : UInt8
  seed : UInt64
  deriving DecidableEq

def numRegisters : Nat := 2 ^ 14

def denseSize : Nat := numRegisters * 6 / 8

def HllEncoding.setRegister (data : Bytes) (index : Nat) (value : UInt8) : Bytes :=
  let byteIndex := index * 6 / 8
  let bitOffset := index * 6 % 8
  let byte1 := (data.getD byteIndex 0).toUInt16
  let byte2 := (data.getD (byteIndex + 1) 0).toUInt16
  let combined := byte1 ||| (byte2 <<< 8)
  let shift := UInt16.ofNat bitOffset
  let cleared := combined &&& ~~~((0x3F : UInt16) <<< shift)
  let written := cleared ||| ((value.toUInt16 &&& 0x3F) <<< shift)
  (data.set byteIndex written.toUInt8).set (byteIndex + 1) (written >>> 8).toUInt8

def HllEncoding.fromSparse (registers : List (Nat × UInt8)) : Bytes :=
  registers.foldl (fun data r => HllEncoding.setRegister data r.1 r.2) (List.replicate denseSize 0)

/-- The packed registers of a sketch. -/
def HllEncoding.denseData : HllEncoding → Bytes
  | .sparse registers _ => HllEncoding.fromSparse registers
  | .dense data => data

/-- A value. Hash tables are listed in their iteration order, skip lists in ascending order. -/
inductive Value where
  | str (s : Sds)
  | int (i : Int64)
  | float (f : F64)
  | bool (b : Bool)
  | null
  | list (items : List Sds)
  | array (items : List Value)
  | hash (entries : List (Sds × Sds))
  | zset (dict : List (Sds × F64)) (sorted : List (F64 × Sds))
  | set (members : List Sds)
  | hyperLogLog (hll : Hll)
  | sstream (entries : List (StreamId × List (Str × Value)))
  | bitmap (bytes : Bytes)

namespace Value

theorem induct {P : Value → Prop} (str : ∀ s, P (.str s)) (int : ∀ i, P (.int i))
    (float : ∀ f, P (.float f)) (bool : ∀ b, P (.bool b)) (null : P .null)
    (list : ∀ items, P (.list items)) (array : ∀ items, (∀ v ∈ items, P v) → P (.array items))
    (hash : ∀ entries, P (.hash entries)) (zset : ∀ dict sorted, P (.zset dict sorted))
    (set : ∀ members, P (.set members)) (hyperLogLog : ∀ hll, P (.hyperLogLog hll))
    (sstream : ∀ entries, P (.sstream entries)) (bitmap : ∀ bytes, P (.bitmap bytes))
    (v : Value) : P v := by
  refine @Value.rec P (fun l => ∀ v ∈ l, P v) (fun _ => True) (fun _ => True) (fun _ => True)
    (fun _ => True) str int float bool null list array hash zset set hyperLogLog
    (fun entries _ => sstream entries) bitmap ?_ ?_ ?_ ?_ ?_ ?_ ?_ ?_ v
  · simp
  · intro w l head tail x hx
    rcases List.mem_cons.mp hx with rfl | later
    · exact head
    · exact tail x later
  · trivial
  · intros; trivial
  · intros; trivial
  · trivial
  · intros; trivial
  · intros; trivial

mutual

/-- Whether `p` holds of the value and of every value inside its arrays. -/
def all (p : Value → Bool) : Value → Bool
  | .array items => p (.array items) && allItems p items
  | v => p v

def allItems (p : Value → Bool) : List Value → Bool
  | [] => true
  | v :: l => all p v && allItems p l

end

theorem allItems_iff {p : Value → Bool} {l : List Value} :
    allItems p l = true ↔ ∀ v ∈ l, v.all p = true := by
  induction l with
  | nil => simp [allItems]
  | cons v l ih => simp [allItems, ih]

/-- Insertion into a skip list of scores: a score that is there keeps one member. -/
def sortedInsert : List (F64 × Sds) → F64 → Sds → List (F64 × Sds)
  | [], score, member => [(score, member)]
  | e :: l, score, member =>
      if e.1.orderKey < score.orderKey then e :: sortedInsert l score member
      else if e.1.orderKey = score.orderKey then (e.1, member) :: l
      else (score, member) :: e :: l

/-- What the containers of the source guarantee of a node. -/
def wfNode : Value → Bool
  | .hash entries => decide (Assoc.keys entries).Nodup
  | .set members => decide members.Nodup
  | .zset dict sorted => decide (Assoc.keys dict).Nodup &&
      decide (sorted.Pairwise fun a b => a.1.orderKey < b.1.orderKey)
  | _ => true

end Value

end Zumic.Database
