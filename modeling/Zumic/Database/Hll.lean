/- HyperLogLog sketches (`hll_base.rs`, `hll_sparse.rs`, `hll_dense.rs`). -/

import Zumic.Lib.BitFields
import Zumic.Lib.ByteString
import Zumic.Lib.Sorted

namespace Zumic.Database.HyperLogLog

open Lib Lib.ByteString

def numRegisters (precision : Nat) : Nat := 2 ^ precision

/-- Six bits for each register. -/
def denseSize (precision : Nat) : Nat := numRegisters precision * 6 / 8

/-- The registers that are not zero, in the order of their indices. -/
structure HllSparse where
  registers : List (Nat × UInt8)
  threshold : Nat
  deriving DecidableEq

structure HllDense where
  data : List UInt8
  deriving DecidableEq

namespace HllSparse

def withThreshold (threshold : Nat) : HllSparse := ⟨[], threshold⟩

def defaultThreshold : Nat := 3000

def getRegister (s : HllSparse) (index : Nat) : UInt8 := (Assoc.get s.registers index).getD 0

/-- Registers only grow; the answer tells whether this one did. -/
def setRegister (s : HllSparse) (index : Nat) (value : UInt8) : Bool × HllSparse :=
  if value = 0 then (false, s)
  else if value ≤ s.getRegister index then (false, s)
  else (true, { s with registers := Sorted.insert s.registers index value })

def shouldConvertToDense (s : HllSparse) : Bool := s.threshold < s.registers.length

def merge (s other : HllSparse) : HllSparse :=
  other.registers.foldl (fun s entry => (s.setRegister entry.1 entry.2).2) s

end HllSparse

namespace HllDense

/-- The bytes `i` and `i + 1` as a word; a byte beyond the end counts as zero. -/
def combined (d : HllDense) (byteIndex : Nat) : BitVec 16 :=
  (d.data.getD byteIndex 0).toBitVec.setWidth 16 |||
    ((d.data.getD (byteIndex + 1) 0).toBitVec.setWidth 16 <<< 8)

def new (precision : Nat) : HllDense := ⟨List.replicate (denseSize precision) 0⟩

def setRegister (d : HllDense) (index : Nat) (value : UInt8) : HllDense :=
  let bitIndex := index * 6
  let byteIndex := bitIndex / 8
  let bitOffset := bitIndex % 8
  let word := (d.combined byteIndex &&& ~~~(0x3F#16 <<< bitOffset)) |||
    ((value.toBitVec.setWidth 16 &&& 0x3F#16) <<< bitOffset)
  ⟨(d.data.set byteIndex (UInt8.ofBitVec (word.setWidth 8))).set (byteIndex + 1)
    (UInt8.ofBitVec ((word >>> 8).setWidth 8))⟩

def getRegister (d : HllDense) (index : Nat) : UInt8 :=
  let bitIndex := index * 6
  UInt8.ofBitVec (((d.combined (bitIndex / 8) >>> (bitIndex % 8)) &&& 0x3F#16).setWidth 8)

def fromSparse (precision : Nat) (s : HllSparse) : HllDense :=
  s.registers.foldl (fun d entry => d.setRegister entry.1 entry.2) (new precision)

/-- Sets a register to a value that is greater than its own. -/
def raise (d : HllDense) (index : Nat) (value : UInt8) : HllDense :=
  if d.getRegister index < value then d.setRegister index value else d

end HllDense

inductive HllEncoding where
  | sparse (s : HllSparse)
  | dense (d : HllDense)
  deriving DecidableEq

namespace HllEncoding

def getRegister : HllEncoding → Nat → UInt8
  | sparse s, index => s.getRegister index
  | dense d, index => d.getRegister index

end HllEncoding

/-- The number of zero bits above the highest one. -/
def leadingZeros (w : UInt64) : Nat := if w = 0 then 64 else 63 - w.toNat.log2

/-- `index_and_rho`: the upper bits select a register, the zeros after them are counted. -/
def hashIndex (precision : Nat) (hash : UInt64) : Nat := hash.toNat >>> (64 - precision)

def hashRho (precision : Nat) (hash : UInt64) : Nat :=
  min (leadingZeros (UInt64.ofNat (hash.toNat <<< precision)) + 1) (64 - precision + 1)

namespace HllEncoding

variable (precision : Nat)

/-- A sparse encoding becomes dense when it holds too many registers. -/
def settle (s : HllSparse) : HllEncoding :=
  if s.shouldConvertToDense then dense (.fromSparse precision s) else sparse s

/-- `Hll::add` of a value with this hash. -/
def add (e : HllEncoding) (hash : UInt64) : HllEncoding :=
  let index := hashIndex precision hash
  let rho := UInt8.ofNat (hashRho precision hash)
  match e with
  | sparse s =>
      if s.getRegister index < rho then settle precision (s.setRegister index rho).2
      else sparse s
  | dense d => dense (d.raise index rho)

/-- The registers of the other sketch, one by one. -/
def mergeInto (d : HllDense) : HllEncoding → HllDense
  | sparse other => other.registers.foldl (fun d entry => d.raise entry.1 entry.2) d
  | dense other =>
      (List.range (numRegisters precision)).foldl (fun d i => d.raise i (other.getRegister i)) d

def merge : HllEncoding → HllEncoding → HllEncoding
  | sparse s, sparse other => settle precision (s.merge other)
  | sparse s, dense other => dense (mergeInto precision (.fromSparse precision s) (dense other))
  | dense d, other => dense (mergeInto precision d other)

end HllEncoding

/-- How a sketch is built from empty ones. -/
inductive Sketch where
  | empty (threshold : Nat)
  | add (sketch : Sketch) (value : Bytes)
  | merge (sketch other : Sketch)

def Sketch.eval (precision : Nat) (hash : Bytes → UInt64) : Sketch → HllEncoding
  | empty threshold => .sparse (.withThreshold threshold)
  | add sketch value => (sketch.eval precision hash).add precision (hash value)
  | merge sketch other =>
      (sketch.eval precision hash).merge precision (other.eval precision hash)

end Zumic.Database.HyperLogLog
