/- Dumps as streams of records: the writer (`encode.rs`), the reader (`decode.rs`) and the
event-driven parser (`streaming.rs`). -/

import Zumic.Lib.Journal
import Zumic.Zdb.Codec

namespace Zumic.Zdb

open Database Lib Lib.ByteString Lib.Reader Lib.Utf8

def fileMagic : Bytes := bytesOf "ZDB"

def tagEof : UInt8 := 0xFF

def FormatVersion.code : FormatVersion → UInt8
  | .legacy => 0
  | .v1 => 1
  | .v2 => 2
  | .v3 => 3

def FormatVersion.tryFrom (b : UInt8) : Option FormatVersion :=
  if b = 0 then some .legacy
  else if b = 1 then some .v1
  else if b = 2 then some .v2
  else if b = 3 then some .v3
  else none

def FormatVersion.canRead : FormatVersion → FormatVersion → Bool
  | .legacy, target => target = .legacy
  | .v1, target => target = .legacy || target = .v1
  | .v2, target => target ≠ .v3
  | .v3, _ => true

def writeStreamVersioned (version : FormatVersion) (zstd : Zstd) (kvs : List (Sds × Value)) : Bytes :=
  fileMagic ++ version.code :: kvs.flatMap (fun e =>
    writeBlob version e.1 ++ writeValueVersioned version zstd e.2) ++ [tagEof]

def writeStream (zstd : Zstd) (kvs : List (Sds × Value)) : Bytes :=
  writeStreamVersioned FormatVersion.current zstd kvs

/-- The header of a stream, as read by a reader of the current version. -/
def streamHeader : ZdbReader FormatVersion := do
  let magic ← Reader.take 3 (.io "Failed to read magic number")
  if magic ≠ fileMagic then throw (.invalidMagic magic)
  else
    let byte ← Reader.next (.io "Failed to read version byte")
    match FormatVersion.tryFrom byte with
    | none => throw (.unsupportedVersion byte)
    | some version =>
        if FormatVersion.current.canRead version then pure version
        else throw (.incompatibleVersion FormatVersion.current version)

/-- The capacity of a buffered reader. -/
def readAhead : Nat := 8192

/-- The length of a key whose first byte has been read. A varint of more bytes is read through a
buffer of its own, and what that buffer took in is lost. -/
def keyLength (version : FormatVersion) (peek : UInt8) : ZdbReader Nat :=
  if version.usesVarint then
    if peek.toNat < 128 then pure peek.toNat
    else fun s => (readVarint (peek :: s)).map fun r => (r.1, s.drop readAhead)
  else do
    let b ← Reader.take 3 (.unexpectedEof "reading key length")
    pure (beNat (peek :: b))

/-- The next record of a stream, `none` at its end mark. -/
def streamNext (version : FormatVersion) (zstd : Zstd) (depth : Nat) :
    ZdbReader (Option (Sds × Value)) := do
  let peek ← Reader.next (.unexpectedEof "reading next entry")
  if peek = tagEof then pure none
  else
    let klen ← keyLength version peek
    ensureSize "Key" none klen maxStringSize
    let key ← Reader.take klen (.io "failed to fill whole buffer")
    let value ← readValueWithVersion version zstd depth
    pure (some (key, value))

/-- What ends a parse early: an error in the dump, or one that the handler returned. -/
inductive ParseError where
  | zdb (error : ZdbError)
  | handler (message : Str)

inductive ParseEvent where
  | header (version : FormatVersion)
  | entry (key : Sds) (value : Value)
  | finish
  | failure (error : ParseError) (key : Option Sds)

/-- A handler with the state `σ`. No handler of the source goes on after an error or finalizes
anything, so the parser stops at the first error. -/
structure ParseHandler (σ : Type) where
  handleEvent : ParseEvent → σ → Except ParseError Unit × σ

/-- Collects all records. -/
def collectHandler : ParseHandler (List (Sds × Value)) where
  handleEvent
    | .entry key value, items => (.ok (), items ++ [(key, value)])
    | _, items => (.ok (), items)

/-- Calls a function for each record. -/
def callbackHandler {σ : Type} (callback : Sds → Value → σ → Except ParseError Unit × σ) :
    ParseHandler σ where
  handleEvent
    | .entry key value, s => callback key value s
    | _, s => (.ok (), s)

def readAndValidateHeader : ZdbReader FormatVersion := do
  let magic ← Reader.take 3 (.unexpectedEof "reading magic number")
  if magic ≠ fileMagic then throw (.invalidMagic magic)
  else
    let byte ← Reader.next (.unexpectedEof "reading version byte")
    match FormatVersion.tryFrom byte with
    | none => throw (.unsupportedVersion byte)
    | some version => pure version

/-- The bytes of a varint after the first one. -/
def varintContinuation : Nat → Nat → Nat → ZdbReader Nat
  | 0, _, _ => throw (.parse "varint" "Varint too long (>5 bytes), possible corruption")
  | left + 1, shift, value => do
      let byte ← Reader.next (.unexpectedEof "reading varint key length continuation")
      let value := value + byte.toNat % 128 * 2 ^ shift % 2 ^ 32
      if byte.toNat < 128 then pure value else varintContinuation left (shift + 7) value

/-- The length of a key whose first byte has been read. -/
def parserKeyLength (version : FormatVersion) (peek : UInt8) : ZdbReader Nat :=
  if version.usesVarint then
    if peek.toNat < 128 then pure peek.toNat
    else varintContinuation (maxVarintLen - 1) 7 (peek.toNat % 128)
  else do
    let b ← Reader.take 3 (.unexpectedEof "reading key length")
    pure (beNat (peek :: b))

def maxKeySize : Nat := 512 * 1024 * 1024

section

variable (version : FormatVersion) (zstd : Zstd) (depth : Nat)

/-- The rest of a record after its first byte. -/
def readEntryFrom (peek : UInt8) : ZdbReader (Sds × Value) := do
  let keyLen ← parserKeyLength version peek
  ensureSize "key" none keyLen maxKeySize
  let key ← Reader.take keyLen (.unexpectedEof "reading key bytes")
  let value ← readValueWithVersion version zstd depth
  pure (key, value)

/-- The next record, `none` at the end mark. Only a dump without any byte after its header may go
without that mark. -/
def readNextEntry (recordsParsed : Nat) : ZdbReader (Option (Sds × Value)) := fun s =>
  match s with
  | [] =>
      if recordsParsed = 0 then .ok (none, [])
      else .error (.unexpectedEof "expecting next entry")
  | peek :: s =>
      if peek = tagEof then .ok (none, s)
      else (readEntryFrom version zstd depth peek s).map fun r => (some r.1, r.2)

variable {σ : Type} (handler : ParseHandler σ)

/-- Reports an error to the handler, whose own error takes its place. -/
def reportError (error : ParseError) (key : Option Sds) (s : σ) : Except ParseError Unit × σ :=
  match handler.handleEvent (.failure error key) s with
  | (.ok (), s) => (.error error, s)
  | (.error e, s) => (.error e, s)

/-- The loop over the records. Every turn takes a byte, so the length of the dump bounds it. -/
def parseLoop : Nat → Nat → Bytes → σ → Except ParseError Unit × σ
  | 0, _, _, s => (.ok (), s)
  | fuel + 1, recordsParsed, b, s =>
      match readNextEntry version zstd depth recordsParsed b with
      | .ok (some (key, value), rest) =>
          match handler.handleEvent (.entry key value) s with
          | (.ok (), s) => parseLoop fuel (recordsParsed + 1) rest s
          | (.error e, s) => reportError handler e (some key) s
      | .ok (none, _) => handler.handleEvent .finish s
      | .error e => reportError handler (.zdb e) none s

end

/-- `StreamingParser::parse` for a parser made with `new_with_version`. -/
def parse {σ : Type} (readerVersion : FormatVersion) (zstd : Zstd) (depth : Nat)
    (handler : ParseHandler σ) (b : Bytes) (s : σ) : Except ParseError Unit × σ :=
  match readAndValidateHeader b with
  | .error e => (.error (.zdb e), s)
  | .ok (version, rest) =>
      if readerVersion.canRead version then
        match handler.handleEvent (.header version) s with
        | (.ok (), s) => parseLoop version zstd depth handler (rest.length + 1) 0 rest s
        | (.error e, s) => (.error e, s)
      else (.error (.zdb (.incompatibleVersion readerVersion version)), s)

/-- The records that a parse meets, and how it ends. -/
def entries (version : FormatVersion) (zstd : Zstd) (depth : Nat) :
    Nat → Nat → Bytes → List (Sds × Value) × Except ZdbError Unit
  | 0, _, _ => ([], .ok ())
  | fuel + 1, recordsParsed, b =>
      match readNextEntry version zstd depth recordsParsed b with
      | .ok (some e, rest) =>
          let (l, outcome) := entries version zstd depth fuel (recordsParsed + 1) rest
          (e :: l, outcome)
      | .ok (none, _) => ([], .ok ())
      | .error e => ([], .error e)

section

variable {version : FormatVersion} {zstd : Zstd} {depth : Nat} {σ : Type}

/-- A handler that takes in every record and never fails. -/
structure ParseHandler.Takes (handler : ParseHandler σ) (f : σ → Sds × Value → σ) : Prop where
  header : ∀ v s, handler.handleEvent (.header v) s = (.ok (), s)
  entry : ∀ e s, handler.handleEvent (.entry e.1 e.2) s = (.ok (), f s e)
  finish : ∀ s, handler.handleEvent .finish s = (.ok (), s)
  failure : ∀ e key s, handler.handleEvent (.failure e key) s = (.ok (), s)

theorem parseLoop_of_takes {handler : ParseHandler σ} {f : σ → Sds × Value → σ}
    (takes : handler.Takes f) (fuel recordsParsed : Nat) (b : Bytes) (s : σ) :
    parseLoop version zstd depth handler fuel recordsParsed b s =
      ((entries version zstd depth fuel recordsParsed b).2.mapError ParseError.zdb,
        (entries version zstd depth fuel recordsParsed b).1.foldl f s) := by
  induction fuel generalizing recordsParsed b s with
  | zero => rfl
  | succ fuel ih =>
      rw [parseLoop, entries]
      cases readNextEntry version zstd depth recordsParsed b with
      | error e =>
          simp only [reportError, takes.failure]
          rfl
      | ok r =>
          obtain ⟨next, rest⟩ := r
          cases next with
          | none =>
              simp only [takes.finish]
              rfl
          | some e =>
              simp only [takes.entry, ih]
              rfl

theorem collectHandler_takes : collectHandler.Takes fun items e => items ++ [e] where
  header _ _ := rfl
  entry _ _ := rfl
  finish _ := rfl
  failure _ _ _ := rfl

theorem callbackHandler_takes {callback : Sds → Value → σ → Except ParseError Unit × σ}
    {f : σ → Sds × Value → σ} (total : ∀ e s, callback e.1 e.2 s = (.ok (), f s e)) :
    (callbackHandler callback).Takes f where
  header _ _ := rfl
  entry := total
  finish _ := rfl
  failure _ _ _ := rfl

theorem readAndValidateHeader_header (version : FormatVersion) (t : Bytes) :
    readAndValidateHeader (fileMagic ++ version.code :: t) = .ok (version, t) := by
  cases version <;> rfl

theorem parse_of_takes {handler : ParseHandler σ} {f : σ → Sds × Value → σ}
    (takes : handler.Takes f) {readerVersion : FormatVersion}
    (known : readerVersion.canRead version = true) (b : Bytes) (s : σ) :
    parse readerVersion zstd depth handler (fileMagic ++ version.code :: b) s =
      ((entries version zstd depth (b.length + 1) 0 b).2.mapError ParseError.zdb,
        (entries version zstd depth (b.length + 1) 0 b).1.foldl f s) := by
  rw [parse, readAndValidateHeader_header]
  simp only [if_pos known, takes.header]
  exact parseLoop_of_takes takes _ 0 b s

theorem parse_collect {readerVersion : FormatVersion}
    (known : readerVersion.canRead version = true) (b : Bytes) :
    parse readerVersion zstd depth collectHandler (fileMagic ++ version.code :: b) [] =
      ((entries version zstd depth (b.length + 1) 0 b).2.mapError ParseError.zdb,
        (entries version zstd depth (b.length + 1) 0 b).1) := by
  rw [parse_of_takes collectHandler_takes known, List.foldl_append_eq_append, ← List.flatMap_def,
    List.flatMap_singleton', List.nil_append]

end

theorem varintContinuation_eq_ok {left shift value : Nat} {s : Bytes} {r : Nat × Bytes} :
    varintContinuation left shift value s = .ok r ↔ varintLoop left shift value s = .ok r := by
  induction left generalizing shift value s with
  | zero => exact ⟨fun run => absurd run (by simp [varintContinuation, throw, throwThe,
      MonadExceptOf.throw, StateT.lift]), fun run => absurd run (by simp [varintLoop, throw, throwThe,
      MonadExceptOf.throw, StateT.lift])⟩
  | succ left ih =>
      rw [varintContinuation, varintLoop]
      cases s with
      | nil => exact ⟨fun run => absurd run (by simp [bind_apply, Reader.next, Except.bind]),
          fun run => absurd run (by simp [bind_apply, Reader.next, Except.bind])⟩
      | cons byte s =>
          rw [bind_of_ok (show Reader.next _ (byte :: s) = .ok (byte, s) from rfl),
            bind_of_ok (show Reader.next _ (byte :: s) = .ok (byte, s) from rfl)]
          split
          · exact Iff.rfl
          · exact ih

theorem readVarint_cons {peek : UInt8} (more : ¬ peek.toNat < 128) (s : Bytes) :
    readVarint (peek :: s) = varintLoop (maxVarintLen - 1) 7 (peek.toNat % 128) s := by
  have low : peek.toNat % 128 % 2 ^ 32 = peek.toNat % 128 := by omega
  rw [readVarint, maxVarintLen, varintLoop,
    bind_of_ok (show Reader.next _ (peek :: s) = .ok (peek, s) from rfl)]
  simp only [if_neg more, Nat.pow_zero, Nat.mul_one, Nat.zero_add, low]

theorem parserKeyLength_eq_ok {version : FormatVersion} {peek : UInt8} {s : Bytes} {r : Nat × Bytes} :
    parserKeyLength version peek s = .ok r ↔ readLength version (peek :: s) = .ok r := by
  unfold parserKeyLength readLength
  split
  · by_cases one : peek.toNat < 128
    · have low : peek.toNat % 128 = peek.toNat := Nat.mod_eq_of_lt one
      have word : peek.toNat % 2 ^ 32 = peek.toNat := Nat.mod_eq_of_lt (by omega)
      rw [if_pos one, readVarint, maxVarintLen, varintLoop,
        bind_of_ok (show Reader.next _ (peek :: s) = .ok (peek, s) from rfl)]
      simp only [if_pos one, Nat.pow_zero, Nat.mul_one, Nat.zero_add, low, word]
    · rw [if_neg one, readVarint_cons one]
      exact varintContinuation_eq_ok
  · by_cases enough : 3 ≤ s.length
    · have first : Reader.take 3 (.unexpectedEof "reading key length") s =
          (.ok (s.take 3, s.drop 3) : Except ZdbError _) := if_pos enough
      have whole : Reader.take 4 (.io "Failed to read fixed length") (peek :: s) =
          (.ok (peek :: s.take 3, s.drop 3) : Except ZdbError _) :=
        if_pos (by rw [List.length_cons]; omega)
      rw [bind_of_ok first, bind_of_ok whole]
    · have first : Reader.take 3 (.unexpectedEof "reading key length") s =
          (.error (.unexpectedEof "reading key length") : Except ZdbError (Bytes × Bytes)) :=
        if_neg enough
      have whole : Reader.take 4 (.io "Failed to read fixed length") (peek :: s) =
          (.error (.io "Failed to read fixed length") : Except ZdbError (Bytes × Bytes)) :=
        if_neg (by rw [List.length_cons]; omega)
      rw [bind_of_error first, bind_of_error whole]
      exact ⟨fun run => absurd run (by simp), fun run => absurd run (by simp)⟩

end Zumic.Zdb
