/- Counted dumps: their two writers (`encode.rs`) and their reader (`decode.rs`). A dump is tried as
a stream before it is read by its count. -/

import Zumic.Lib.Crc
import Zumic.Zdb.Progress
import Zumic.Zdb.StreamDump

namespace Zumic.Zdb

open Database Lib Lib.ByteString Lib.Reader

def crcBytes (crc : UInt32) : Bytes := beBytes 4 crc.toNat

section

variable (version : FormatVersion)

/-- The body is collected in a buffer and written at the end. The bytes of the keys do not go to
the buffer but to the writer. -/
def writeDumpVersioned (kvs : List (Sds × Value)) : Bytes :=
  let start := fileMagic ++ [version.code] ++ writeLength version kvs.length
  let out : Bytes × Bytes := kvs.foldl (fun out e =>
    (out.1 ++ e.1,
      out.2 ++ writeLength version e.1.length ++ writeValueInner version e.2)) ([], start)
  out.1 ++ out.2 ++ crcBytes (Crc.checksum out.2)

/-- Writes bytes and adds them to the checksum. -/
def writeAndHash (bytes : Bytes) (out : Bytes × UInt32) : Bytes × UInt32 :=
  (out.1 ++ bytes, Crc.update out.2 bytes)

/-- A record of a counted dump; its value is never compressed. -/
def dumpRecord (e : Sds × Value) : Bytes :=
  writeLength version e.1.length ++ e.1 ++ writeValueInner version e.2

def writeDumpStreamingVersioned (kvs : List (Sds × Value)) : Bytes :=
  let out := writeAndHash fileMagic ([], Crc.initial)
  let out := writeAndHash [version.code] out
  let out := writeAndHash (writeLength version kvs.length) out
  let out := kvs.foldl (fun out e => writeAndHash (dumpRecord version e) out) out
  out.1 ++ crcBytes (Crc.finalize out.2)

/-- The count of the records and the records. -/
def countedRecords (kvs : List (Sds × Value)) : Bytes :=
  writeLength version kvs.length ++ kvs.flatMap (dumpRecord version)

/-- The body of a counted dump. -/
def dumpBody (kvs : List (Sds × Value)) : Bytes :=
  fileMagic ++ version.code :: countedRecords version kvs

/-- The body of a counted dump without the bytes of its keys. -/
def keylessBody (kvs : List (Sds × Value)) : Bytes :=
  fileMagic ++ version.code :: (writeLength version kvs.length
    ++ kvs.flatMap fun e => writeLength version e.1.length ++ writeValueInner version e.2)

end

section

variable {version : FormatVersion}

theorem foldl_collected (kvs : List (Sds × Value)) (out : Bytes × Bytes) :
    kvs.foldl (fun out e =>
      (out.1 ++ e.1,
        out.2 ++ writeLength version e.1.length ++ writeValueInner version e.2)) out =
      (out.1 ++ kvs.flatMap Prod.fst, out.2 ++ kvs.flatMap fun e =>
        writeLength version e.1.length ++ writeValueInner version e.2) := by
  induction kvs generalizing out with
  | nil => simp
  | cons e kvs ih =>
      rw [List.foldl_cons, ih]
      simp

theorem writeDumpVersioned_eq (kvs : List (Sds × Value)) :
    writeDumpVersioned version kvs = kvs.flatMap Prod.fst ++ keylessBody version kvs
      ++ crcBytes (Crc.checksum (keylessBody version kvs)) := by
  simp only [writeDumpVersioned, foldl_collected, keylessBody]
  simp

theorem foldl_written (kvs : List (Sds × Value)) (out : Bytes × UInt32) :
    kvs.foldl (fun out e => writeAndHash (dumpRecord version e) out) out =
      writeAndHash (kvs.flatMap (dumpRecord version)) out := by
  induction kvs generalizing out with
  | nil => simp [writeAndHash, Crc.update]
  | cons e kvs ih =>
      rw [List.foldl_cons, ih]
      simp [writeAndHash, Crc.update_append]

theorem writeDumpStreamingVersioned_eq (kvs : List (Sds × Value)) :
    writeDumpStreamingVersioned version kvs =
      dumpBody version kvs ++ crcBytes (Crc.checksum (dumpBody version kvs)) := by
  have shape : dumpBody version kvs = fileMagic ++ ([version.code] ++
      (writeLength version kvs.length ++ kvs.flatMap (dumpRecord version))) := rfl
  rw [shape, writeDumpStreamingVersioned]
  simp only [foldl_written]
  simp only [writeAndHash, Crc.checksum, Crc.update_append, List.nil_append, List.append_assoc]

theorem length_moved (kvs : List (Sds × Value)) :
    (kvs.flatMap Prod.fst ++ keylessBody version kvs).length = (dumpBody version kvs).length := by
  have records : (kvs.flatMap Prod.fst).length + (kvs.flatMap fun e =>
      writeLength version e.1.length ++ writeValueInner version e.2).length =
      (kvs.flatMap (dumpRecord version)).length := by
    induction kvs with
    | nil => rfl
    | cons e kvs ih =>
        simp only [List.flatMap_cons, List.length_append, dumpRecord] at ih ⊢
        omega
  simp only [keylessBody, dumpBody, countedRecords, List.length_append, List.length_cons]
  omega

theorem crcBytes_injective : Function.Injective crcBytes := by
  intro a b same
  have words := congrArg beNat same
  rw [crcBytes, crcBytes, beNat_beBytes_of_lt a.toNat_lt, beNat_beBytes_of_lt b.toNat_lt] at words
  exact UInt32.toNat_inj.mp words

/-- The two writers agree exactly when the keys, moved in front of the dump, leave its bytes and
its checksum as they are. -/
theorem dump_writers_agree_iff (version : FormatVersion) (kvs : List (Sds × Value)) :
    (writeDumpVersioned version kvs = writeDumpStreamingVersioned version kvs ↔
      kvs.flatMap Prod.fst ++ keylessBody version kvs = dumpBody version kvs ∧
        Crc.checksum (kvs.flatMap Prod.fst) = 0) ∧
      ((∀ e ∈ kvs, e.1 = []) →
        writeDumpVersioned version kvs = writeDumpStreamingVersioned version kvs) := by
  have agree : writeDumpVersioned version kvs = writeDumpStreamingVersioned version kvs ↔
      kvs.flatMap Prod.fst ++ keylessBody version kvs = dumpBody version kvs ∧
        Crc.checksum (kvs.flatMap Prod.fst) = 0 := by
    rw [writeDumpVersioned_eq, writeDumpStreamingVersioned_eq]
    constructor
    · intro same
      obtain ⟨bodies, sums⟩ := List.append_inj same (length_moved kvs)
      have sums' := crcBytes_injective sums
      rw [← bodies] at sums'
      exact ⟨bodies, (Crc.checksum_append_eq_iff _ _).mp sums'.symm⟩
    · rintro ⟨bodies, zero⟩
      rw [← bodies, (Crc.checksum_append_eq_iff _ _).mpr zero]
  refine ⟨agree, fun empty => agree.mpr ?_⟩
  have keys : kvs.flatMap Prod.fst = [] := List.flatMap_eq_nil_iff.mpr empty
  have records : kvs.flatMap (dumpRecord version) = kvs.flatMap fun e =>
      writeLength version e.1.length ++ writeValueInner version e.2 := by
    refine List.flatMap_congr fun e member => ?_
    rw [dumpRecord, empty e member, List.append_nil]
  rw [keys, keylessBody, dumpBody, countedRecords, records]
  exact ⟨rfl, by decide⟩

theorem dump_writers_agree_empty_keys :
    writeDumpVersioned .v3 [([], .int 1), ([], .str [2])] =
      writeDumpStreamingVersioned .v3 [([], .int 1), ([], .str [2])] :=
  (dump_writers_agree_iff .v3 [([], .int 1), ([], .str [2])]).2 (by decide)

/-- The key of one record is written before the magic number of its dump. -/
theorem dump_writers_one_key :
    writeDumpVersioned .v3 [([107], .null)] ≠ writeDumpStreamingVersioned .v3 [([107], .null)] := by
  decide +kernel

/-- A key can be made up so that it changes nothing. -/
example : writeDumpVersioned .v3 [([], .str [208, 181, 33, 198]),
      ([90, 68, 66, 3, 2, 0, 1, 4, 208, 181, 33, 198, 13], .null)] =
    writeDumpStreamingVersioned .v3 [([], .str [208, 181, 33, 198]),
      ([90, 68, 66, 3, 2, 0, 1, 4, 208, 181, 33, 198, 13], .null)] := by
  decide +kernel

end

inductive DumpError where
  | fileTooSmall (size minimum : Nat)
  | crcMismatch (computed recorded : Nat)
  | zdb (error : ZdbError)

section

variable (zstd : Zstd) (depth : Nat)

/-- One record of a counted dump. -/
def readDumpItem (version : FormatVersion) (i : Nat) : ZdbReader (Sds × Value) := do
  let klen ← readLength version
  ensureSize "Key length" none klen maxStringSize
  let key ← Reader.take klen (.io ("Failed to read key bytes for item " ++ toString i))
  let value ← readValueWithVersion version zstd depth
  pure (key, value)

/-- The body of a dump, read by its count. -/
def readCounted (readerVersion : FormatVersion) : ZdbReader (List (Sds × Value)) := do
  let magic ← Reader.take 3 (.io "Failed to read magic")
  if magic ≠ fileMagic then throw (.invalidMagic magic)
  else
    let byte ← Reader.next (.io "Failed to read version")
    match FormatVersion.tryFrom byte with
    | none => throw (.unsupportedVersion byte)
    | some version =>
        if readerVersion.canRead version then
          let count ← readLength version
          ensureSize "Dump item count" none count maxCollectionSize
          Reader.readMany (readDumpItem zstd depth version) count
        else throw (.incompatibleVersion readerVersion version)

/-- Checks the checksum, then takes what the stream parser makes of the body; only a body that it
refuses is read by its count. -/
def readDumpWithVersion (readerVersion : FormatVersion) (data : Bytes) :
    Except DumpError (List (Sds × Value)) :=
  if data.length < 8 then .error (.fileTooSmall data.length 8)
  else
    let body := data.take (data.length - 4)
    let recorded := beNat (data.drop (data.length - 4))
    let computed := (Crc.checksum body).toNat
    if computed ≠ recorded then .error (.crcMismatch computed recorded)
    else
      match parse readerVersion zstd depth collectHandler body [] with
      | (.ok (), items) => .ok items
      | (.error _, _) => ((readCounted zstd depth readerVersion body).map Prod.fst).mapError .zdb

end

section

variable {version : FormatVersion} {zstd : Zstd} {depth : Nat}

/-- Bytes that begin with the records of a stream and its end mark. -/
inductive StreamLike (version : FormatVersion) (zstd : Zstd) (depth : Nat) : Bytes → Prop
  | mark (t : Bytes) : StreamLike version zstd depth (tagEof :: t)
  | record {peek : UInt8} {s rest : Bytes} {e : Sds × Value} (open' : peek ≠ tagEof)
      (read : readEntryFrom version zstd depth peek s = .ok (e, rest))
      (later : StreamLike version zstd depth rest) : StreamLike version zstd depth (peek :: s)

theorem not_streamLike_nil : ¬ StreamLike version zstd depth [] := by
  intro none'
  cases none'

/-- Once a record is behind, the end of the input is no end mark. -/
theorem readNextEntry_nil {recordsParsed : Nat} (begun : ([] : Bytes) ≠ [] ∨ 0 < recordsParsed) :
    readNextEntry version zstd depth recordsParsed [] =
      .error (.unexpectedEof "expecting next entry") := by
  have parsed : recordsParsed ≠ 0 := by
    rcases begun with some' | positive
    · exact absurd rfl some'
    · omega
  rw [readNextEntry, if_neg parsed]

theorem readNextEntry_cons {peek : UInt8} (open' : peek ≠ tagEof) (s : Bytes)
    (recordsParsed : Nat) :
    readNextEntry version zstd depth recordsParsed (peek :: s) =
      (readEntryFrom version zstd depth peek s).map fun r => (some r.1, r.2) := by
  rw [readNextEntry, if_neg open']

/-- The parser accepts such bytes and no others. Only when it has not met any record yet, it takes
the end of the input for an end mark. -/
theorem entries_ok_iff {fuel recordsParsed : Nat} {b : Bytes} (enough : b.length < fuel)
    (begun : b ≠ [] ∨ 0 < recordsParsed) :
    (entries version zstd depth fuel recordsParsed b).2 = .ok () ↔
      StreamLike version zstd depth b := by
  induction fuel generalizing recordsParsed b with
  | zero => exact absurd enough (by omega)
  | succ fuel ih =>
      rw [entries]
      cases b with
      | nil =>
          rw [readNextEntry_nil begun]
          exact ⟨fun run => absurd run (by simp), fun like => absurd like not_streamLike_nil⟩
      | cons peek s =>
          by_cases mark : peek = tagEof
          · subst mark
            rw [readNextEntry, if_pos rfl]
            exact ⟨fun _ => StreamLike.mark s, fun _ => rfl⟩
          · rw [readNextEntry_cons mark]
            cases entry : readEntryFrom version zstd depth peek s with
            | error e =>
                refine ⟨fun run => absurd run (by simp [Except.map]), fun like => ?_⟩
                cases like with
                | mark => exact absurd rfl mark
                | record _ read _ => exact absurd (entry.symm.trans read) (by simp)
            | ok r =>
                obtain ⟨e, rest⟩ := r
                have shorter := shrinks_readEntryFrom version zstd depth peek s e rest entry
                rw [List.length_cons] at enough
                have later : (entries version zstd depth fuel (recordsParsed + 1) rest).2 = .ok () ↔
                    StreamLike version zstd depth rest := ih (by omega) (Or.inr (Nat.succ_pos _))
                refine ⟨fun run => StreamLike.record mark entry (later.mp run), fun like => ?_⟩
                cases like with
                | mark => exact absurd rfl mark
                | record _ read like' =>
                    obtain ⟨rfl, rfl⟩ := Prod.mk.inj (Except.ok.inj (entry.symm.trans read))
                    exact later.mpr like'

end

/-- Sorted sets whose scores are read with the width they are written with. -/
def scoreNode (version : FormatVersion) : Value → Bool
  | .zset dict _ => version ≠ .legacy || dict.isEmpty
  | _ => true

/-- Bitmaps within the limit that the decoder has for a version. -/
def bitmapNode (version : FormatVersion) : Value → Bool
  | .bitmap bytes => version ≠ .legacy || bytes.length ≤ 1024 * 1024
  | _ => true

/-- Lists of records that the decoder reads, each within its limits. -/
structure Countable (depth : Nat) (version : FormatVersion) (kvs : List (Sds × Value)) : Prop where
  count : kvs.length ≤ maxCollectionSize
  keys : ∀ e ∈ kvs, e.1.length ≤ maxStringSize
  codec : ∀ e ∈ kvs, e.2.all codecNode = true
  sound : ∀ e ∈ kvs, Sound e.2
  bitmaps : ∀ e ∈ kvs, e.2.all (bitmapNode version) = true
  deep : ∀ e ∈ kvs, (writeValueInner version e.2).length ≤ depth

section

variable {version : FormatVersion} {zstd : Zstd} {depth : Nat}

theorem matched_of_parts {v : Value} (codec : v.all codecNode = true)
    (bitmaps : v.all (bitmapNode version) = true) (scores : v.all (scoreNode version) = true) :
    v.all (matchedNode version) = true := by
  induction v using Value.induct with
  | array items ih =>
      simp only [Value.all, Bool.and_eq_true, Value.allItems_iff] at codec bitmaps scores ⊢
      exact ⟨rfl, fun v member =>
        ih v member (codec.2 v member) (bitmaps.2 v member) (scores.2 v member)⟩
  | hyperLogLog hll => exact absurd codec (by simp [Value.all, codecNode])
  | zset dict sorted => exact scores
  | bitmap bytes => exact bitmaps
  | _ => rfl

/-- What the decoder makes of a record. -/
private def rereadEntry (e : Sds × Value) : Option (Sds × Value) :=
  (reread e.2).map fun w => (e.1, w)

theorem exists_rereadEntries {kvs : List (Sds × Value)}
    (codec : ∀ e ∈ kvs, e.2.all codecNode = true) (sound : ∀ e ∈ kvs, Sound e.2) :
    ∃ items, kvs.mapM rereadEntry = some items ∧ SameEntries kvs items := by
  induction kvs with
  | nil => exact ⟨[], rfl, List.Forall₂.nil⟩
  | cons e kvs ih =>
      obtain ⟨w, image, same⟩ := reread_same (codec e (by simp)) (sound e (by simp)).halves
      obtain ⟨items, images, sames⟩ := ih (fun e' member => codec e' (List.mem_cons_of_mem _ member))
        fun e' member => sound e' (List.mem_cons_of_mem _ member)
      refine ⟨(e.1, w) :: items, ?_, List.Forall₂.cons ⟨rfl, same⟩ sames⟩
      simp [List.mapM_cons, rereadEntry, image, images]

theorem reads_readDumpItem {e e' : Sds × Value} (fits : e.1.length ≤ maxStringSize)
    (matched : e.2.all (matchedNode version) = true) (sound : Sound e.2)
    (deep : (writeValueInner version e.2).length ≤ depth) (image : rereadEntry e = some e')
    (i : Nat) : Reads (readDumpItem zstd depth version i) (dumpRecord version e) e' := by
  obtain ⟨w, image', rfl⟩ := Option.map_eq_some_iff.mp image
  have word : e.1.length < 2 ^ 32 := lt_of_le_of_lt fits (by decide)
  have value := (@reads_writeValueInner version zstd e.2 matched sound depth deep).1 w image'
  intro t
  have shape : dumpRecord version e ++ t = writeLength version e.1.length ++
      (e.1 ++ (writeValueInner version e.2 ++ t)) := by
    simp [dumpRecord]
  rw [shape, readDumpItem, bind_of_ok (reads_readLength word version _),
    bind_of_ok (ensureSize_of_le fits _), bind_of_ok (reads_take _ e.1 _), bind_of_ok (value t)]
  rfl

theorem readCounted_dumpBody {kvs : List (Sds × Value)} (countable : Countable depth version kvs)
    (scores : ∀ e ∈ kvs, e.2.all (scoreNode version) = true) :
    ∃ items, SameEntries kvs items ∧
      readCounted zstd depth .v3 (dumpBody version kvs) = .ok (items, []) := by
  obtain ⟨items, images, same⟩ := exists_rereadEntries countable.codec countable.sound
  have each : ∀ e ∈ kvs, ∀ e', rereadEntry e = some e' → ∀ i,
      Reads (readDumpItem zstd depth version i) (dumpRecord version e) e' :=
    fun e member e' image i => reads_readDumpItem (countable.keys e member)
      (matched_of_parts (countable.codec e member) (countable.bitmaps e member) (scores e member))
      (countable.sound e member) (countable.deep e member) image i
  have records := reads_readMany_mapM kvs each images []
  rw [List.append_nil] at records
  have word : kvs.length < 2 ^ 32 := lt_of_le_of_lt countable.count (by decide)
  have count := reads_readLength word version (kvs.flatMap (dumpRecord version))
  have known : FormatVersion.v3.canRead version = true := rfl
  have code : FormatVersion.tryFrom version.code = some version := by cases version <;> rfl
  have size : fileMagic.length = 3 := rfl
  refine ⟨items, same, ?_⟩
  rw [dumpBody, countedRecords, readCounted, bind_of_ok (reads_take_of_length size _),
    if_neg (by simp),
    bind_of_ok (show Reader.next _ (version.code :: _) = .ok (version.code, _) from rfl)]
  simp only [code, if_pos known]
  rw [bind_of_ok count, bind_of_ok (ensureSize_of_le countable.count _), records]

theorem readDump_body (kvs : List (Sds × Value)) :
    readDumpWithVersion zstd depth .v3 (writeDumpStreamingVersioned version kvs) =
      match parse .v3 zstd depth collectHandler (dumpBody version kvs) [] with
      | (.ok (), items) => .ok items
      | (.error _, _) =>
          ((readCounted zstd depth .v3 (dumpBody version kvs)).map Prod.fst).mapError .zdb := by
  have sum : (crcBytes (Crc.checksum (dumpBody version kvs))).length = 4 := length_beBytes 4 _
  have size : (dumpBody version kvs ++ crcBytes (Crc.checksum (dumpBody version kvs))).length - 4 =
      (dumpBody version kvs).length := by
    rw [List.length_append, sum]
    omega
  have long : ¬(dumpBody version kvs ++ crcBytes (Crc.checksum (dumpBody version kvs))).length < 8 := by
    have header : fileMagic.length = 3 := rfl
    rw [List.length_append, sum, dumpBody, List.length_append, header, List.length_cons]
    omega
  have recorded : beNat (crcBytes (Crc.checksum (dumpBody version kvs))) =
      (Crc.checksum (dumpBody version kvs)).toNat := beNat_beBytes_of_lt (UInt32.toNat_lt _)
  rw [writeDumpStreamingVersioned_eq, readDumpWithVersion, if_neg long]
  simp only [size, List.take_left, List.drop_left, recorded, ne_eq, not_true_eq_false, if_false]

theorem counted_accepted_iff (kvs : List (Sds × Value)) :
    (entries version zstd depth ((countedRecords version kvs).length + 1) 0
      (countedRecords version kvs)).2 = .ok () ↔
      StreamLike version zstd depth (countedRecords version kvs) := by
  refine entries_ok_iff (Nat.lt_succ_self _) (Or.inl fun none' => ?_)
  have field : 0 < (writeLength version kvs.length).length := length_writeLength_pos
  rw [(List.append_eq_nil_iff.mp none').1] at field
  exact absurd field (by simp)

theorem readDump_of_streamLike {kvs : List (Sds × Value)}
    (like : StreamLike version zstd depth (countedRecords version kvs)) :
    readDumpWithVersion zstd depth .v3 (writeDumpStreamingVersioned version kvs) =
      .ok (entries version zstd depth ((countedRecords version kvs).length + 1) 0
        (countedRecords version kvs)).1 := by
  rw [readDump_body, dumpBody, parse_collect rfl, (counted_accepted_iff kvs).mpr like]
  rfl

theorem readDump_of_not_streamLike {kvs : List (Sds × Value)}
    (unlike : ¬ StreamLike version zstd depth (countedRecords version kvs)) :
    readDumpWithVersion zstd depth .v3 (writeDumpStreamingVersioned version kvs) =
      ((readCounted zstd depth .v3 (dumpBody version kvs)).map Prod.fst).mapError .zdb := by
  rw [readDump_body, dumpBody, parse_collect rfl]
  cases outcome : (entries version zstd depth ((countedRecords version kvs).length + 1) 0
      (countedRecords version kvs)).2 with
  | ok u => exact absurd ((counted_accepted_iff kvs).mp outcome) unlike
  | error e => rfl

/-- A dump whose count and records do not look like a stream is read back; one that does is read
as that stream. -/
theorem readDump_writeDump (version : FormatVersion) (zstd : Zstd) (depth : Nat)
    (kvs : List (Sds × Value)) :
    (Countable depth version kvs → (∀ e ∈ kvs, e.2.all (scoreNode version) = true) →
      ¬ StreamLike version zstd depth (countedRecords version kvs) →
      ∃ items, readDumpWithVersion zstd depth .v3 (writeDumpStreamingVersioned version kvs) =
        .ok items ∧ SameEntries kvs items) ∧
    (StreamLike version zstd depth (countedRecords version kvs) →
      readDumpWithVersion zstd depth .v3 (writeDumpStreamingVersioned version kvs) =
        .ok (entries version zstd depth ((countedRecords version kvs).length + 1) 0
          (countedRecords version kvs)).1) := by
  refine ⟨fun countable scores unlike => ?_, readDump_of_streamLike⟩
  obtain ⟨items, same, read⟩ := @readCounted_dumpBody version zstd depth kvs countable scores
  refine ⟨items, ?_, same⟩
  rw [readDump_of_not_streamLike unlike, read]
  rfl

/-- Two records with a sorted set, whose count is no key length of a stream. -/
def countedPair : List (Sds × Value) :=
  [([107], .zset [([97], ⟨0x3FF8000000000000⟩)] [(⟨0x3FF8000000000000⟩, [97])]), ([2], .int 7)]

theorem readDump_writeDump_pair :
    Countable 64 .v3 countedPair ∧
      ∃ items, readDumpWithVersion storing 64 .v3 (writeDumpStreamingVersioned .v3 countedPair) =
        .ok items ∧ SameEntries countedPair items := by
  have countable : Countable 64 .v3 countedPair := by
    refine ⟨by decide, by decide, by decide, fun e member => ?_, by decide, by decide⟩
    rcases List.mem_cons.mp member with rfl | later
    · exact ⟨by decide, by decide, by decide⟩
    · obtain rfl := List.mem_singleton.mp later
      exact ⟨by decide, by decide, by decide⟩
  have unlike : ¬ StreamLike .v3 storing 64 (countedRecords .v3 countedPair) := by
    rw [← counted_accepted_iff]
    intro run
    cases run
  exact ⟨countable, (readDump_writeDump .v3 storing 64 countedPair).1 countable (by decide) unlike⟩

/-- The count and the key of this record are a record of a stream with its end mark. -/
theorem readDump_writeDump_misread :
    Countable 64 .v3 [([4, 255], .null)] ∧
      readDumpWithVersion storing 64 .v3 (writeDumpStreamingVersioned .v3 [([4, 255], .null)]) =
        .ok [([2], .null)] ∧
      ¬∃ items, readDumpWithVersion storing 64 .v3
          (writeDumpStreamingVersioned .v3 [([4, 255], .null)]) = .ok items ∧
        SameEntries [([4, 255], .null)] items := by
  have countable : Countable 64 .v3 [([4, 255], .null)] := by
    refine ⟨by decide, by decide, by decide, fun e member => ?_, by decide, by decide⟩
    obtain rfl := List.mem_singleton.mp member
    exact ⟨by decide, by decide, by decide⟩
  have like : StreamLike .v3 storing 64 (countedRecords .v3 [([4, 255], .null)]) :=
    StreamLike.record (by decide) rfl (StreamLike.mark _)
  have misread : readDumpWithVersion storing 64 .v3
      (writeDumpStreamingVersioned .v3 [([4, 255], .null)]) = .ok [([2], .null)] := by
    rw [readDump_of_streamLike like]
    rfl
  refine ⟨countable, misread, ?_⟩
  rintro ⟨items, run, same⟩
  obtain rfl := Except.ok.inj (misread.symm.trans run)
  cases same with
  | cons first _ => exact absurd first.1 (by decide)

end

end Zumic.Zdb
