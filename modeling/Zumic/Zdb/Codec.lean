/- Values on disk: the encoder (`encode.rs`) and the decoder (`decode.rs`). -/

import Zumic.Database.Value
import Zumic.Zdb.Length

namespace Zumic.Zdb

open Database Lib Lib.ByteString Lib.Utf8

/-- The block compressor. -/
structure Zstd where
  compress : Bytes → Bytes
  decompress : Bytes → Option Bytes

def tagStr : UInt8 := 0x01
def tagInt : UInt8 := 0x02
def tagFloat : UInt8 := 0x03
def tagNull : UInt8 := 0x04
def tagList : UInt8 := 0x05
def tagHash : UInt8 := 0x06
def tagZSet : UInt8 := 0x07
def tagSet : UInt8 := 0x08
def tagHll : UInt8 := 0x09
def tagSStream : UInt8 := 0x0A
def tagBool : UInt8 := 0x0B
def tagCompressed : UInt8 := 0x0C
def tagArray : UInt8 := 0x0D
def tagBitmap : UInt8 := 0x0E

def minCompressionSize : Nat := 64

def shouldCompress (size : Nat) : Bool := minCompressionSize ≤ size

section

variable (version : FormatVersion)

/-- A byte string after its length. -/
def writeBlob (b : Bytes) : Bytes := writeLength version b.length ++ b

def writeStr (s : Sds) : Bytes := tagStr :: writeBlob version s

def writeF64 (f : F64) : Bytes := beBytes 8 f.bits.toNat

mutual

def writeValueInner : Value → Bytes
  | .str s => writeStr version s
  | .int i => tagInt :: beBytes 8 i.toUInt64.toNat
  | .float f => tagFloat :: writeF64 f
  | .bool b => [tagBool, if b then 1 else 0]
  | .null => [tagNull]
  | .list items =>
      tagList :: writeLength version items.length ++ items.flatMap (writeStr version)
  | .array items => tagArray :: writeLength version items.length ++ writeItems items
  | .hash entries =>
      tagHash :: writeLength version entries.length
        ++ entries.flatMap fun e => writeBlob version e.1 ++ writeStr version e.2
  | .zset dict sorted =>
      tagZSet :: writeLength version dict.length
        ++ sorted.flatMap fun e => writeBlob version e.2 ++ writeF64 e.1
  | .set members =>
      tagSet :: writeLength version members.length ++ members.flatMap (writeBlob version)
  | .hyperLogLog hll => tagHll :: writeBlob version hll.encoding.denseData
  | .sstream entries =>
      tagSStream :: writeLength version entries.length ++ writeStreamEntries entries
  | .bitmap bytes => tagBitmap :: writeBlob version bytes

def writeItems : List Value → Bytes
  | [] => []
  | v :: l => writeValueInner v ++ writeItems l

def writeStreamEntries : List (StreamId × List (Str × Value)) → Bytes
  | [] => []
  | (id, data) :: l =>
      beBytes 8 id.msTime.toNat ++ beBytes 8 id.sequence.toNat
        ++ writeLength version data.length ++ writeStreamFields data ++ writeStreamEntries l

def writeStreamFields : List (Str × Value) → Bytes
  | [] => []
  | (field, v) :: l => writeBlob version field.bytes ++ writeValueInner v ++ writeStreamFields l

end

/-- Writes a value, compressed when it is long enough. -/
def writeValueVersioned (zstd : Zstd) (v : Value) : Bytes :=
  let buf := writeValueInner version v
  if shouldCompress buf.length then
    tagCompressed :: writeBlob version (zstd.compress buf)
  else buf

end

def maxCompressedSize : Nat := 100 * 1024 * 1024
def maxStringSize : Nat := 512 * 1024 * 1024
def maxCollectionSize : Nat := 10000000
def maxBitmapSize : Nat := 100 * 1024 * 1024

/-- The register array the decoder allocates for a sketch. -/
def denseArraySize : Nat := 16 * 1024

def hllSerializationVersion : UInt8 := 1

def ensureSize (what : String) (index : Option Nat) (size limit : Nat) : ZdbReader Unit :=
  if size ≤ limit then pure () else throw (.sizeLimit what index size limit)

section

variable (version : FormatVersion)

/-- A byte string after its length, which is checked against `limit`. -/
def readBlob (what : String) (index : Option Nat) (limit : Nat) (context : String) :
    ZdbReader Bytes := do
  let len ← readLength version
  ensureSize what index len limit
  Reader.take len (.io context)

def readStringValue : ZdbReader Value := do
  let s ← readBlob version "String" none maxStringSize "Failed to read string bytes"
  pure (.str s)

def readIntValue : ZdbReader Value := do
  let b ← Reader.take 8 (.io "Failed to read int value")
  pure (.int (UInt64.ofNat (beNat b)).toInt64)

def readF64 (context : String) : ZdbReader F64 := do
  let b ← Reader.take 8 (.io context)
  pure ⟨UInt64.ofNat (beNat b)⟩

def readFloatValue : ZdbReader Value := do
  let f ← readF64 "Failed to read float value"
  pure (.float f)

def readBoolValue : ZdbReader Value := do
  let b ← Reader.next (.io "Failed to read bool value")
  pure (.bool (b != 0))

def readCount (what : String) : ZdbReader Nat := do
  let n ← readLength version
  ensureSize what none n maxCollectionSize
  pure n

def readZSetScore : ZdbReader F64 :=
  match version with
  | .legacy => do
      let b ← Reader.take 4 (.io "Failed to read zset score (f32)")
      pure (F64.ofF32 (beNat b))
  | _ => readF64 "Failed to read zset score (f64)"

def readZSetEntry (i : Nat) : ZdbReader (Sds × F64) := do
  let member ← readBlob version "ZSet key at index" (some i) maxStringSize
    "Failed to read zset key bytes"
  let score ← readZSetScore version
  pure (member, score)

def readZSetValue : ZdbReader Value := do
  let n ← readCount version "Zset"
  let entries ← Reader.readMany (readZSetEntry version) n
  pure (.zset (entries.foldl (fun dict e => Assoc.insert dict e.1 e.2) [])
    (entries.foldl (fun sorted e => Value.sortedInsert sorted e.2 e.1) []))

def readSetValue : ZdbReader Value := do
  let n ← readCount version "Set"
  let members ← Reader.readMany (fun i =>
    readBlob version "Set element at index" (some i) maxStringSize
      "Failed to read set element bytes") n
  pure (.set (members.foldl (fun set m => if m ∈ set then set else set ++ [m]) []))

/-- Registers are copied into an array of fixed size, cut or padded with zeros. -/
def readHllValue : ZdbReader Value := do
  let n ← readLength version
  match version with
  | .legacy => ensureSize "HLL (legasy)" none n denseArraySize
  | _ => ensureSize "HLL" none n (denseArraySize * 2)
  let regs ← Reader.take n (.io "Failed to read HLL data")
  let data := regs.take denseArraySize ++ List.replicate (denseArraySize - regs.length) 0
  pure (.hyperLogLog ⟨.dense data, hllSerializationVersion, 0⟩)

def readBitmapValue : ZdbReader Value := do
  let len ← readLength version
  match version with
  | .legacy => ensureSize "Bitmap (legacy)" none len (1024 * 1024)
  | _ => ensureSize "Bitmap" none len maxBitmapSize
  let bytes ← Reader.take len (.io "Failed to read bitmap data")
  pure (.bitmap bytes)

/-- A field and its value, which is read by the decoder itself and has to be a string. -/
def readHashEntry (readValue : ZdbReader Value) (i : Nat) : ZdbReader (Sds × Sds) := do
  let key ← readBlob version "Hash key at index" (some i) maxStringSize
    "Failed to read hash key bytes"
  match ← readValue with
  | .str s => pure (key, s)
  | _ => throw (.parse "Hash" "Expected Str for Hash value")

def readHashValue (readValue : ZdbReader Value) : ZdbReader Value := do
  let n ← readCount version "Hash"
  let entries ← Reader.readMany (readHashEntry version readValue) n
  pure (.hash (entries.foldl (fun map e => Assoc.insert map e.1 e.2) []))

def readArrayValue (readValue : ZdbReader Value) : ZdbReader Value := do
  let n ← readCount version "Array"
  let items ← Reader.readMany (fun _ => readValue) n
  pure (.array items)

/-- Decodes a block from its decompressed bytes; what follows the value there is drained. -/
def readCompressedValue (zstd : Zstd) (readValue : ZdbReader Value) : ZdbReader Value := do
  let len ← readLength version
  if len = 0 then throw (.compression "Compressed block cannot be empty")
  else
    ensureSize "Compressed data" none len maxCompressedSize
    let block ← Reader.takeUpTo len
    match zstd.decompress block with
    | none => throw (.compression "zstd decoder error")
    | some inner =>
        match readValue inner with
        | .ok (v, _) => pure v
        | .error e => throw e

/-- The reader for the tag of a value. Lists and streams have a tag but no reader. -/
def readTagged (zstd : Zstd) (readValue : ZdbReader Value) (tag : UInt8) : ZdbReader Value :=
  if tag = tagStr then readStringValue version
  else if tag = tagInt then readIntValue
  else if tag = tagFloat then readFloatValue
  else if tag = tagBool then readBoolValue
  else if tag = tagNull then pure .null
  else if tag = tagCompressed then readCompressedValue version zstd readValue
  else if tag = tagHash then readHashValue version readValue
  else if tag = tagZSet then readZSetValue version
  else if tag = tagSet then readSetValue version
  else if tag = tagHll then readHllValue version
  else if tag = tagArray then readArrayValue version readValue
  else if tag = tagBitmap then readBitmapValue version
  else throw (.invalidTag tag)

/-- The decoder, to a nesting of at most `depth` calls. A block may hold anything, itself
included, so no bound follows from the input. -/
def readValueWithVersion (zstd : Zstd) : Nat → ZdbReader Value
  | 0 => throw .tooDeep
  | depth + 1 => do
      let tag ← Reader.next (.unexpectedEof "reading value tag")
      readTagged version zstd (readValueWithVersion zstd depth) tag

end

/-- `Value::to_bytes`. -/
def toBytes (zstd : Zstd) (v : Value) : Bytes :=
  writeValueVersioned FormatVersion.current zstd v

/-- `Value::from_bytes`: what follows the value is ignored. -/
def fromBytes (zstd : Zstd) (depth : Nat) (b : Bytes) : Except ZdbError Value :=
  (readValueWithVersion FormatVersion.current zstd depth b).map Prod.fst

end Zumic.Zdb
