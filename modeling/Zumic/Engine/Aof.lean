/- The append-only log (`aof.rs`) and the checks of its records (`aof_integrity.rs`). -/

import Zumic.Lib.ByteString
import Zumic.Lib.Journal

namespace Zumic.Engine

open Lib Lib.ByteString

/-- An operation of the log, with its key and value. -/
abbrev AofEntry := Journal.Entry Bytes Bytes

inductive CorruptionPolicy where
  | strict
  | skip
  | log
  deriving DecidableEq

/-- The errors of opening and replaying a log. -/
inductive AofError where
  | invalidMagic (header : Bytes)
  | partialHeader (header : Bytes)
  | badHeader (header : Bytes)
  | checksumMismatch (expected actual : Nat)
  | unknownOperation (op : UInt8)
  | unexpectedEof (message : String)
  deriving DecidableEq

def magic : Bytes := bytesOf "AOF2"

def legacyMagic : Bytes := bytesOf "AOF1"

namespace Crc32

def polynomial : UInt32 := 0xEDB88320

def shiftBit (crc : UInt32) : UInt32 :=
  if crc &&& 1 ≠ 0 then (crc >>> 1) ^^^ polynomial else crc >>> 1

/-- The slot `i` of the table. -/
def table (i : UInt32) : UInt32 := Nat.iterate shiftBit 8 i

def checksum (data : Bytes) : UInt32 :=
  let crc : UInt32 := data.foldl (fun (crc : UInt32) (byte : UInt8) =>
    (crc >>> 8) ^^^ table ((crc ^^^ byte.toUInt32) &&& 0xFF)) 0xFFFFFFFF
  crc ^^^ 0xFFFFFFFF

end Crc32

/-- A byte string after its length, which is cast to 32 bits. -/
def lengthPrefixed (b : Bytes) : Bytes := beBytes 4 b.length ++ b

def opCode : AofEntry → UInt8
  | .set _ _ => 1
  | .del _ => 2

def payload : AofEntry → Bytes
  | .set key value => lengthPrefixed key ++ lengthPrefixed value
  | .del key => lengthPrefixed key

/-- A record: the operation, the checksum of the payload and the payload. -/
def record (e : AofEntry) : Bytes :=
  opCode e :: beBytes 4 (Crc32.checksum (payload e)).toNat ++ payload e

/-- The log with the bytes written to its file, those still buffered included. -/
structure AofLog where
  file : Bytes
  corruptionPolicy : CorruptionPolicy

namespace AofLog

/-- Opens a log: a new file gets its header, any other file must have one. -/
def openLog (file : Bytes) (policy : CorruptionPolicy) : Except AofError AofLog :=
  let header := file.take 4
  if header.length = 4 then
    if header = magic ∨ header = legacyMagic then .ok ⟨file, policy⟩
    else .error (.invalidMagic header)
  else if header.length = 0 then .ok ⟨magic, policy⟩
  else .error (.partialHeader header)

def append (log : AofLog) (e : AofEntry) : AofLog := { log with file := log.file ++ record e }

def appendSet (log : AofLog) (key value : Bytes) : AofLog := log.append (.set key value)

def appendDel (log : AofLog) (key : Bytes) : AofLog := log.append (.del key)

end AofLog

inductive ValidationResult where
  | valid
  | corrupted (expected actual : Nat)
  | truncated
  | unknownOperation (op : UInt8)
  deriving DecidableEq

/-- The big-endian word at a position. -/
def u32At (b : Bytes) (pos : Nat) : Nat := beNat ((b.drop pos).take 4)

/-- The lengths of a payload, checked against its size. -/
def payloadComplete (op : UInt8) (payload : Bytes) : Bool :=
  let afterKey := 4 + u32At payload 0
  4 ≤ payload.length && afterKey ≤ payload.length && (op != 1 ||
    (afterKey + 4 ≤ payload.length && afterKey + 4 + u32At payload afterKey ≤ payload.length))

def validateRecord (data : Bytes) : ValidationResult :=
  match data with
  | [] => .truncated
  | op :: rest =>
      if data.length < 9 then .truncated
      else if op ≠ 1 ∧ op ≠ 2 then .unknownOperation op
      else if !payloadComplete op (rest.drop 4) then .truncated
      else
        let expected := beNat (rest.take 4)
        let actual := (Crc32.checksum (rest.drop 4)).toNat
        if actual ≠ expected then .corrupted expected actual else .valid

/-- Where the record at the front ends; one that is cut takes all that is left. -/
def findRecordEnd (buf : Bytes) : Nat :=
  if buf.length < 9 then buf.length
  else
    let pos := 9 + u32At buf 5
    if buf.length < pos then buf.length
    else if buf.head? = some 1 then
      if buf.length < pos + 4 then buf.length
      else min (pos + 4 + u32At buf pos) buf.length
    else pos

/-- A byte string after its length, at the front of `b`. -/
def readBlock (b : Bytes) (short cut : String) : Except AofError (Bytes × Bytes) :=
  if b.length < 4 then .error (.unexpectedEof short)
  else
    let len := u32At b 0
    if b.length < 4 + len then .error (.unexpectedEof cut)
    else .ok ((b.drop 4).take len, b.drop (4 + len))

def parseValidRecord (data : Bytes) : Except AofError AofEntry :=
  match data with
  | [] => .error (.unexpectedEof "Empty record")
  | op :: rest =>
      if op ≠ 1 ∧ op ≠ 2 then .error (.unknownOperation op)
      else if rest.length < 4 then .error (.unexpectedEof "truncated checksum")
      else do
        let (key, rest) ← readBlock (rest.drop 4) "Unexpected EOF while reading u32" "truncated key"
        if op = 1 then
          let (value, _) ← readBlock rest "Unexpected EOF while reading u32" "truncated value"
          pure (.set key value)
        else pure (.del key)

/-- The record at the front of the buffer and what follows it. -/
def replayRecord (buf : Bytes) : Except AofError (AofEntry × Bytes) :=
  let recordEnd := findRecordEnd buf
  match validateRecord (buf.take recordEnd) with
  | .valid => do
      let e ← parseValidRecord (buf.take recordEnd)
      pure (e, buf.drop recordEnd)
  | .corrupted expected actual => .error (.checksumMismatch expected actual)
  | .truncated => .error (.unexpectedEof "Truncated AOF record")
  | .unknownOperation op => .error (.unknownOperation op)

/-- The first place at which a record could start. -/
def findNextValidRecord : Bytes → Option Bytes
  | [] => none
  | b :: rest =>
      if (b = 1 ∨ b = 2) ∧ 9 ≤ rest.length + 1 then some (b :: rest) else findNextValidRecord rest

section

variable {σ : Type} (f : σ → AofEntry → σ) (policy : CorruptionPolicy)

/-- The loop over the records. Every turn drops at least one byte, so the length of the buffer
bounds the number of turns. -/
def replayAof2Format : Nat → Bytes → σ → Except AofError σ
  | 0, _, s => .ok s
  | fuel + 1, buf, s =>
      if buf = [] then .ok s
      else
        match replayRecord buf with
        | .ok (e, rest) => replayAof2Format fuel rest (f s e)
        | .error e =>
            if policy = .strict then .error e
            else
              match findNextValidRecord buf.tail with
              | some rest => replayAof2Format fuel rest s
              | none => .ok s

/-- A record without checksum. A failure says where in the buffer it happened. -/
def replayAof1Record (buf : Bytes) : Except (AofError × Bytes) (AofEntry × Bytes) :=
  match buf with
  | [] => .error (.unexpectedEof "", [])
  | op :: rest =>
      if op ≠ 1 ∧ op ≠ 2 then .error (.unknownOperation op, buf)
      else
        match readBlock rest "Unexpected EOF while reading u32" "Truncated key data" with
        | .error e => .error (e, if rest.length < 4 then rest else rest.drop 4)
        | .ok (key, rest) =>
            if op = 1 then
              match readBlock rest "Unexpected EOF while reading u32" "Truncated value data" with
              | .error e => .error (e, if rest.length < 4 then rest else rest.drop 4)
              | .ok (value, rest) => .ok (.set key value, rest)
            else .ok (.del key, rest)

def replayAof1Format : Nat → Bytes → σ → Except AofError σ
  | 0, _, s => .ok s
  | fuel + 1, buf, s =>
      if buf = [] then .ok s
      else
        match replayAof1Record buf with
        | .ok (e, rest) => replayAof1Format fuel rest (f s e)
        | .error (e, place) =>
            if policy = .strict then .error e
            else
              match findNextValidRecord place.tail with
              | some rest => replayAof1Format fuel rest s
              | none => .ok s

end

/-- Replays all operations of a log, in the format that its header names. -/
def AofLog.replay {σ : Type} (log : AofLog) (f : σ → AofEntry → σ) (s : σ) : Except AofError σ :=
  let header := log.file.take 4
  let buf := log.file.drop 4
  if log.file.length < 4 then .error (.unexpectedEof "failed to fill whole buffer")
  else if header = legacyMagic then replayAof1Format f log.corruptionPolicy buf.length buf s
  else if header = magic then replayAof2Format f log.corruptionPolicy buf.length buf s
  else .error (.badHeader header)

section

variable {σ : Type} {f : σ → AofEntry → σ} {Inv : σ → Prop}

theorem kept_replayAof2Format (keeps : ∀ s e, Inv s → Inv (f s e)) {policy : CorruptionPolicy}
    {fuel : Nat} {buf : Bytes} {s s' : σ} (start : Inv s)
    (replayed : replayAof2Format f policy fuel buf s = .ok s') : Inv s' := by
  induction fuel generalizing buf s with
  | zero => exact Except.ok.inj replayed ▸ start
  | succ fuel ih =>
      rw [replayAof2Format] at replayed
      split at replayed
      · exact Except.ok.inj replayed ▸ start
      · split at replayed
        · exact ih (keeps s _ start) replayed
        · split at replayed
          · cases replayed
          · split at replayed
            · exact ih start replayed
            · exact Except.ok.inj replayed ▸ start

theorem kept_replayAof1Format (keeps : ∀ s e, Inv s → Inv (f s e)) {policy : CorruptionPolicy}
    {fuel : Nat} {buf : Bytes} {s s' : σ} (start : Inv s)
    (replayed : replayAof1Format f policy fuel buf s = .ok s') : Inv s' := by
  induction fuel generalizing buf s with
  | zero => exact Except.ok.inj replayed ▸ start
  | succ fuel ih =>
      rw [replayAof1Format] at replayed
      split at replayed
      · exact Except.ok.inj replayed ▸ start
      · split at replayed
        · exact ih (keeps s _ start) replayed
        · split at replayed
          · cases replayed
          · split at replayed
            · exact ih start replayed
            · exact Except.ok.inj replayed ▸ start

theorem AofLog.kept_replay (keeps : ∀ s e, Inv s → Inv (f s e)) {log : AofLog} {s s' : σ}
    (start : Inv s) (replayed : log.replay f s = .ok s') : Inv s' := by
  simp only [AofLog.replay] at replayed
  split at replayed
  · cases replayed
  · split at replayed
    · exact kept_replayAof1Format keeps start replayed
    · split at replayed
      · exact kept_replayAof2Format keeps start replayed
      · cases replayed

end

/-- Entries whose lengths survive the cast to 32 bits. -/
def Loggable : AofEntry → Prop
  | .set key value => key.length < 2 ^ 32 ∧ value.length < 2 ^ 32
  | .del key => key.length < 2 ^ 32

instance : DecidablePred Loggable
  | .set key value => inferInstanceAs (Decidable (key.length < 2 ^ 32 ∧ value.length < 2 ^ 32))
  | .del key => inferInstanceAs (Decidable (key.length < 2 ^ 32))

theorem u32At_of_append {front : Bytes} {pos n : Nat} (place : front.length = pos)
    (small : n < 2 ^ 32) (t : Bytes) : u32At (front ++ (beBytes 4 n ++ t)) pos = n := by
  subst place
  have word : (beBytes 4 n ++ t).take 4 = beBytes 4 n := by simp
  rw [u32At, List.drop_left, word, beNat_beBytes_of_lt (by simpa using small)]

theorem readBlock_lengthPrefixed {b : Bytes} (small : b.length < 2 ^ 32) (t : Bytes)
    (short cut : String) : readBlock (lengthPrefixed b ++ t) short cut = .ok (b, t) := by
  have word : u32At (lengthPrefixed b ++ t) 0 = b.length := by
    have shape : lengthPrefixed b ++ t = [] ++ (beBytes 4 b.length ++ (b ++ t)) := by
      simp [lengthPrefixed]
    rw [shape]
    exact u32At_of_append rfl small (b ++ t)
  have size : (lengthPrefixed b ++ t).length = 4 + b.length + t.length := by
    simp [lengthPrefixed, Nat.add_assoc]
  have body : (lengthPrefixed b ++ t).drop 4 = b ++ t := by
    rw [lengthPrefixed, List.append_assoc]
    exact List.drop_left' (length_beBytes 4 b.length)
  rw [readBlock, if_neg (by omega)]
  simp only [word]
  rw [if_neg (by omega), ← List.drop_drop, body, List.take_left, List.drop_left]

theorem payload_length (e : AofEntry) : 4 ≤ (payload e).length := by
  cases e with
  | set key value => simp [payload, lengthPrefixed]
  | del key => simp [payload, lengthPrefixed]

theorem record_parts (e : AofEntry) : ∃ check : Bytes, check.length = 4 ∧
    beNat check = (Crc32.checksum (payload e)).toNat ∧
    record e = opCode e :: check ++ payload e :=
  ⟨_, length_beBytes 4 _, beNat_beBytes_of_lt (Crc32.checksum (payload e)).toNat_lt, rfl⟩

theorem record_length (e : AofEntry) : (record e).length = 5 + (payload e).length := by
  obtain ⟨check, size, -, parts⟩ := record_parts e
  rw [parts]
  simp only [List.cons_append, List.length_cons, List.length_append]
  omega

/-- A record ends after its payload, whatever stands in place of its checksum. -/
theorem findRecordEnd_parts {e : AofEntry} (small : Loggable e) {check : Bytes}
    (checkSize : check.length = 4) (t : Bytes) :
    findRecordEnd (opCode e :: (check ++ (payload e ++ t))) = 5 + (payload e).length := by
  have long := payload_length e
  have whole : (opCode e :: (check ++ (payload e ++ t))).length =
      5 + (payload e).length + t.length := by
    simp only [List.length_cons, List.length_append]
    omega
  rw [findRecordEnd, if_neg (by omega)]
  cases e with
  | set key value =>
      have keyWord : u32At (1 :: (check ++ (payload (.set key value) ++ t))) 5 = key.length := by
        have shape : 1 :: (check ++ (payload (.set key value) ++ t)) = (1 :: check) ++
            (beBytes 4 key.length ++ (key ++ (beBytes 4 value.length ++ (value ++ t)))) := by
          simp [payload, lengthPrefixed]
        rw [shape]
        exact u32At_of_append (by simp [checkSize]) small.1 _
      have valueWord : u32At (1 :: (check ++ (payload (.set key value) ++ t))) (9 + key.length) =
          value.length := by
        have shape : 1 :: (check ++ (payload (.set key value) ++ t)) =
            ((1 :: check) ++ beBytes 4 key.length ++ key) ++
              (beBytes 4 value.length ++ (value ++ t)) := by
          simp [payload, lengthPrefixed]
        rw [shape]
        exact u32At_of_append (by simp [checkSize]; omega) small.2 _
      have payloadSize : (payload (.set key value)).length = 8 + key.length + value.length := by
        simp only [payload, lengthPrefixed, List.length_append, length_beBytes]
        omega
      simp only [opCode] at whole ⊢
      simp only [keyWord, valueWord, List.head?_cons, whole, if_true]
      rw [if_neg (by omega), if_neg (by omega)]
      omega
  | del key =>
      have keyWord : u32At (2 :: (check ++ (payload (.del key) ++ t))) 5 = key.length := by
        have shape : 2 :: (check ++ (payload (.del key) ++ t)) = (2 :: check) ++
            (beBytes 4 key.length ++ (key ++ t)) := by
          simp [payload, lengthPrefixed]
        rw [shape]
        exact u32At_of_append (by simp [checkSize]) small _
      have payloadSize : (payload (.del key)).length = 4 + key.length := by
        simp only [payload, lengthPrefixed, List.length_append, length_beBytes]
      simp only [opCode] at whole ⊢
      simp only [keyWord, List.head?_cons, whole]
      rw [if_neg (by omega), if_neg (by decide)]
      omega

theorem findRecordEnd_record {e : AofEntry} (small : Loggable e) (t : Bytes) :
    findRecordEnd (record e ++ t) = (record e).length := by
  obtain ⟨check, checkSize, -, parts⟩ := record_parts e
  have shape : record e ++ t = opCode e :: (check ++ (payload e ++ t)) := by
    simp [parts]
  rw [shape, findRecordEnd_parts small checkSize, record_length]

theorem payloadComplete_payload {e : AofEntry} (small : Loggable e) :
    payloadComplete (opCode e) (payload e) = true := by
  have long := payload_length e
  cases e with
  | set key value =>
      have keyWord : u32At (payload (.set key value)) 0 = key.length := by
        have shape : payload (.set key value) =
            [] ++ (beBytes 4 key.length ++ (key ++ lengthPrefixed value)) := by
          simp [payload, lengthPrefixed]
        rw [shape]
        exact u32At_of_append rfl small.1 _
      have valueWord : u32At (payload (.set key value)) (4 + key.length) = value.length := by
        have shape : payload (.set key value) =
            lengthPrefixed key ++ (beBytes 4 value.length ++ value) := rfl
        rw [shape]
        exact u32At_of_append (by simp [lengthPrefixed]) small.2 _
      have size : (payload (.set key value)).length = 8 + key.length + value.length := by
        simp only [payload, lengthPrefixed, List.length_append, length_beBytes]
        omega
      simp only [payloadComplete, keyWord, valueWord, Bool.and_eq_true, Bool.or_eq_true,
        decide_eq_true_eq, size]
      exact ⟨⟨by omega, by omega⟩, Or.inr ⟨by omega, by omega⟩⟩
  | del key =>
      have keyWord : u32At (payload (.del key)) 0 = key.length := by
        have shape : payload (.del key) = [] ++ (beBytes 4 key.length ++ (key ++ [])) := by
          simp [payload, lengthPrefixed]
        rw [shape]
        exact u32At_of_append rfl small _
      have size : (payload (.del key)).length = 4 + key.length := by
        simp only [payload, lengthPrefixed, List.length_append, length_beBytes]
      simp only [payloadComplete, keyWord, Bool.and_eq_true, Bool.or_eq_true, decide_eq_true_eq,
        size]
      exact ⟨⟨by omega, by omega⟩, Or.inl rfl⟩

theorem opCode_known (e : AofEntry) : ¬(opCode e ≠ 1 ∧ opCode e ≠ 2) := by
  cases e with
  | set key value => exact fun unknown => unknown.1 rfl
  | del key => exact fun unknown => unknown.2 rfl

theorem validateRecord_record {e : AofEntry} (small : Loggable e) :
    validateRecord (record e) = .valid := by
  have size := record_length e
  have long := payload_length e
  obtain ⟨check, checkSize, sum, parts⟩ := record_parts e
  have known := opCode_known e
  have first : (check ++ payload e).take 4 = check := List.take_left' checkSize
  have rest : (check ++ payload e).drop 4 = payload e := List.drop_left' checkSize
  rw [parts, List.cons_append] at size ⊢
  simp only [validateRecord, first, rest, sum, payloadComplete_payload small]
  rw [if_neg (by omega), if_neg known]
  simp

theorem parseValidRecord_record {e : AofEntry} (small : Loggable e) :
    parseValidRecord (record e) = .ok e := by
  obtain ⟨check, checkSize, -, parts⟩ := record_parts e
  have known := opCode_known e
  have rest : (check ++ payload e).drop 4 = payload e := List.drop_left' checkSize
  have enough : ¬(check ++ payload e).length < 4 := by
    rw [List.length_append]
    omega
  rw [parts, List.cons_append, parseValidRecord, if_neg known, if_neg enough, rest]
  cases e with
  | set key value =>
      have value' := readBlock_lengthPrefixed small.2 []
      rw [List.append_nil] at value'
      rw [payload, readBlock_lengthPrefixed small.1]
      simp only [opCode, if_true, bind, Except.bind, value']
      rfl
  | del key =>
      have key' := readBlock_lengthPrefixed small []
      rw [List.append_nil] at key'
      rw [payload, key']
      rfl

theorem replayRecord_record {e : AofEntry} (small : Loggable e) (t : Bytes) :
    replayRecord (record e ++ t) = .ok (e, t) := by
  simp only [replayRecord, findRecordEnd_record small, List.take_left, List.drop_left,
    validateRecord_record small, parseValidRecord_record small]
  rfl

theorem replayAof2Format_append {σ : Type} (f : σ → AofEntry → σ) (policy : CorruptionPolicy)
    {entries : List AofEntry} (small : ∀ e ∈ entries, Loggable e) (fuel : Nat) (t : Bytes) (s : σ) :
    replayAof2Format f policy (entries.length + fuel) (entries.flatMap record ++ t) s =
      replayAof2Format f policy fuel t (entries.foldl f s) := by
  induction entries generalizing s with
  | nil =>
      rw [List.length_nil, Nat.zero_add]
      rfl
  | cons e entries ih =>
      have some' : record e ++ (entries.flatMap record ++ t) ≠ [] := by simp [record]
      have first := replayRecord_record (small e (by simp)) (entries.flatMap record ++ t)
      rw [List.flatMap_cons, List.append_assoc, List.length_cons, Nat.add_right_comm,
        replayAof2Format, if_neg some', first]
      exact ih (fun e' member => small e' (List.mem_cons_of_mem _ member)) (f s e)

theorem replayAof2Format_records {σ : Type} (f : σ → AofEntry → σ) (policy : CorruptionPolicy)
    {entries : List AofEntry} (small : ∀ e ∈ entries, Loggable e) {fuel : Nat}
    (enough : entries.length ≤ fuel) (s : σ) :
    replayAof2Format f policy fuel (entries.flatMap record) s = .ok (entries.foldl f s) := by
  obtain ⟨n, rfl⟩ := Nat.exists_eq_add_of_le enough
  have run := replayAof2Format_append f policy small n [] s
  rw [List.append_nil] at run
  rw [run]
  cases n with
  | zero => rfl
  | succ n => rfl

theorem length_le_flatMap_record (entries : List AofEntry) :
    entries.length ≤ (entries.flatMap record).length := by
  induction entries with
  | nil => exact Nat.zero_le _
  | cons e entries ih =>
      have size := record_length e
      rw [List.flatMap_cons, List.length_append, List.length_cons]
      omega

theorem AofLog.replay_magic {σ : Type} (f : σ → AofEntry → σ) (policy : CorruptionPolicy)
    (buf : Bytes) (s : σ) :
    AofLog.replay ⟨magic ++ buf, policy⟩ f s = replayAof2Format f policy buf.length buf s := by
  have header : (magic ++ buf).take 4 = magic := List.take_left' rfl
  have body : (magic ++ buf).drop 4 = buf := List.drop_left' rfl
  have enough : ¬(magic ++ buf).length < 4 := by
    have size : magic.length = 4 := rfl
    rw [List.length_append]
    omega
  simp only [AofLog.replay, header, body, if_true]
  rw [if_neg enough, if_neg (by decide)]

theorem AofLog.replay_records {σ : Type} (f : σ → AofEntry → σ) (policy : CorruptionPolicy)
    {entries : List AofEntry} (small : ∀ e ∈ entries, Loggable e) (s : σ) :
    AofLog.replay ⟨magic ++ entries.flatMap record, policy⟩ f s = .ok (entries.foldl f s) := by
  rw [AofLog.replay_magic]
  exact replayAof2Format_records f policy small (length_le_flatMap_record entries) s

end Zumic.Engine
