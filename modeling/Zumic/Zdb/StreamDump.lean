/- What is read back from a stream dump. -/

import Mathlib.Data.List.TakeWhile
import Zumic.Zdb.RoundTrip
import Zumic.Zdb.Streaming

namespace Zumic.Zdb

open Database Lib.ByteString Lib.Reader

/-- The lengths whose field begins with the byte of the end mark. -/
def marksEnd (version : FormatVersion) (len : Nat) : Bool :=
  version.usesVarint && 128 ≤ len && len % 128 = 127

/-- Records that the decoder reads back, each within its limits. -/
structure Dumpable (zstd : Zstd) (depth : Nat) (version : FormatVersion)
    (kvs : List (Sds × Value)) : Prop where
  keys : ∀ e ∈ kvs, e.1.length ≤ maxKeySize
  codec : ∀ e ∈ kvs, e.2.all codecNode = true
  sound : ∀ e ∈ kvs, Sound e.2
  blocks : ∀ e ∈ kvs, (zstd.compress (writeValueInner version e.2)).length ≤ maxCompressedSize
  deep : ∀ e ∈ kvs, (writeValueInner version e.2).length < depth

theorem Dumpable.perm {zstd : Zstd} {depth : Nat} {version : FormatVersion}
    {kvs kvs' : List (Sds × Value)} (dumpable : Dumpable zstd depth version kvs)
    (same : kvs'.Perm kvs) : Dumpable zstd depth version kvs' where
  keys e member := dumpable.keys e (same.mem_iff.mp member)
  codec e member := dumpable.codec e (same.mem_iff.mp member)
  sound e member := dumpable.sound e (same.mem_iff.mp member)
  blocks e member := dumpable.blocks e (same.mem_iff.mp member)
  deep e member := dumpable.deep e (same.mem_iff.mp member)

/-- The same keys in the same order, with equal values. -/
def SameEntries : List (Sds × Value) → List (Sds × Value) → Prop :=
  List.Forall₂ fun a b => a.1 = b.1 ∧ Same a.2 b.2

/-- A record of a stream. -/
def streamRecord (version : FormatVersion) (zstd : Zstd) (e : Sds × Value) : Bytes :=
  writeBlob version e.1 ++ writeValueVersioned version zstd e.2

theorem writeVarint_head {n : Nat} (fits : n < 2 ^ 32) :
    ∃ t, writeVarint n = UInt8.ofNat (if n < 128 then n else n % 128 + 128) :: t := by
  have word : n % 2 ^ 32 = n := Nat.mod_eq_of_lt fits
  rw [writeVarint, word, maxVarintLen, varintBytes]
  by_cases small : n < 128
  · rw [if_pos (by omega), if_pos small, Nat.mod_eq_of_lt small]
    exact ⟨_, rfl⟩
  · rw [if_neg (by omega), if_neg small]
    exact ⟨_, rfl⟩

theorem writeLength_head {n : Nat} (fits : n ≤ maxKeySize) (version : FormatVersion) :
    ∃ peek t, writeLength version n = peek :: t ∧ (peek = tagEof ↔ marksEnd version n = true) := by
  have word : n < 2 ^ 32 := lt_of_le_of_lt fits (by decide)
  have bound : n ≤ 536870912 := fits
  have byte : ∀ m, m < 256 → (UInt8.ofNat m = tagEof ↔ m = 255) := by
    intro m small
    rw [← UInt8.toNat_inj, UInt8.toNat_ofNat', Nat.mod_eq_of_lt small]
    exact Iff.rfl
  cases varint : version.usesVarint with
  | true =>
      obtain ⟨t, head⟩ := writeVarint_head word
      refine ⟨_, t, by rw [writeLength, varint, if_pos rfl, head], ?_⟩
      simp only [marksEnd, varint, Bool.true_and, Bool.and_eq_true, decide_eq_true_eq]
      by_cases small : n < 128
      · rw [if_pos small, byte n (by omega)]
        omega
      · rw [if_neg small, byte _ (by omega)]
        omega
  | false =>
      refine ⟨UInt8.ofNat (n / 256 ^ 3), _, by rw [writeLength, varint]; rfl, ?_⟩
      rw [byte _ (by omega)]
      simp only [marksEnd, varint, Bool.false_and, Bool.false_eq_true, iff_false]
      omega

section

variable {zstd : Zstd} {depth : Nat} {version : FormatVersion}

theorem readNextEntry_record {e : Sds × Value} {w : Value} (fits : e.1.length ≤ maxKeySize)
    (plain : marksEnd version e.1.length = false)
    (read : Reads (readValueWithVersion version zstd depth)
      (writeValueVersioned version zstd e.2) w) (recordsParsed : Nat) (t : Bytes) :
    readNextEntry version zstd depth recordsParsed (streamRecord version zstd e ++ t) =
      .ok (some (e.1, w), t) := by
  obtain ⟨peek, rest, head, mark⟩ := writeLength_head fits version
  have word : e.1.length < 2 ^ 32 := lt_of_le_of_lt fits (by decide)
  have open' : peek ≠ tagEof := by
    intro same
    rw [mark.mp same] at plain
    cases plain
  have shape : streamRecord version zstd e ++ t =
      peek :: (rest ++ (e.1 ++ (writeValueVersioned version zstd e.2 ++ t))) := by
    simp [streamRecord, writeBlob, head]
  have length : parserKeyLength version peek
      (rest ++ (e.1 ++ (writeValueVersioned version zstd e.2 ++ t))) =
      .ok (e.1.length, e.1 ++ (writeValueVersioned version zstd e.2 ++ t)) := by
    rw [parserKeyLength_eq_ok, ← List.cons_append, ← head]
    exact reads_readLength word version _
  rw [shape, readNextEntry, if_neg open', readEntryFrom, bind_of_ok length,
    bind_of_ok (ensureSize_of_le fits _), bind_of_ok (reads_take _ e.1 _), bind_of_ok (read t)]
  rfl

theorem readNextEntry_marked {e : Sds × Value} (fits : e.1.length ≤ maxKeySize)
    (marked : marksEnd version e.1.length = true) (recordsParsed : Nat) (t : Bytes) :
    ∃ rest, readNextEntry version zstd depth recordsParsed (streamRecord version zstd e ++ t) =
      .ok (none, rest) := by
  obtain ⟨peek, rest, head, mark⟩ := writeLength_head fits version
  have shape : streamRecord version zstd e ++ t =
      peek :: (rest ++ (e.1 ++ (writeValueVersioned version zstd e.2 ++ t))) := by
    simp [streamRecord, writeBlob, head]
  rw [shape, readNextEntry, if_pos (mark.mpr marked)]
  exact ⟨_, rfl⟩

theorem Dumpable.head {e : Sds × Value} {kvs : List (Sds × Value)}
    (dumpable : Dumpable zstd depth version (e :: kvs)) (lossless : zstd.Lossless)
    (modern : version ≠ .legacy) :
    ∃ w, Same e.2 w ∧ Reads (readValueWithVersion version zstd depth)
      (writeValueVersioned version zstd e.2) w := by
  obtain ⟨w, image, same⟩ := reread_same (dumpable.codec e (by simp))
    (dumpable.sound e (by simp)).halves
  exact ⟨w, same, (reads_writeValueVersioned lossless modern (dumpable.sound e (by simp))
    (dumpable.blocks e (by simp)) (dumpable.deep e (by simp))).1 w image⟩

theorem Dumpable.tail {e : Sds × Value} {kvs : List (Sds × Value)}
    (dumpable : Dumpable zstd depth version (e :: kvs)) : Dumpable zstd depth version kvs where
  keys e' member := dumpable.keys e' (List.mem_cons_of_mem _ member)
  codec e' member := dumpable.codec e' (List.mem_cons_of_mem _ member)
  sound e' member := dumpable.sound e' (List.mem_cons_of_mem _ member)
  blocks e' member := dumpable.blocks e' (List.mem_cons_of_mem _ member)
  deep e' member := dumpable.deep e' (List.mem_cons_of_mem _ member)

/-- The records before the first one whose length field is taken for the end mark. -/
def beforeMark (version : FormatVersion) : List (Sds × Value) → List (Sds × Value) :=
  List.takeWhile fun e => !marksEnd version e.1.length

theorem entries_records (lossless : zstd.Lossless) (modern : version ≠ .legacy)
    {kvs : List (Sds × Value)} (dumpable : Dumpable zstd depth version kvs) {fuel : Nat}
    (enough : kvs.length < fuel) (recordsParsed : Nat) (t : Bytes) :
    ∃ items, SameEntries (beforeMark version kvs) items ∧
      entries version zstd depth fuel recordsParsed
        (kvs.flatMap (streamRecord version zstd) ++ tagEof :: t) = (items, .ok ()) := by
  obtain ⟨n, rfl⟩ : ∃ n, fuel = n + 1 := ⟨fuel - 1, by omega⟩
  induction kvs generalizing n recordsParsed with
  | nil => exact ⟨[], List.Forall₂.nil, rfl⟩
  | cons e kvs ih =>
      rw [List.flatMap_cons, List.append_assoc]
      cases marked : marksEnd version e.1.length with
      | true =>
          obtain ⟨rest, last⟩ := @readNextEntry_marked zstd depth version e
            (dumpable.keys e (by simp)) marked recordsParsed
            (kvs.flatMap (streamRecord version zstd) ++ tagEof :: t)
          refine ⟨[], ?_, by rw [entries, last]⟩
          rw [beforeMark, List.takeWhile_cons_of_neg (by simp [marked])]
          exact List.Forall₂.nil
      | false =>
          obtain ⟨w, same, read⟩ := dumpable.head lossless modern
          obtain ⟨m, rfl⟩ : ∃ m, n = m + 1 := ⟨n - 1, by simp at enough; omega⟩
          obtain ⟨items, sames, rest⟩ := ih dumpable.tail (recordsParsed + 1) m
            (by simp at enough; omega)
          refine ⟨(e.1, w) :: items, ?_, ?_⟩
          · rw [beforeMark, List.takeWhile_cons_of_pos (by simp [marked])]
            exact List.Forall₂.cons ⟨rfl, same⟩ sames
          · rw [entries, readNextEntry_record (dumpable.keys e (by simp)) marked read]
            simp only [rest]

theorem beforeMark_eq_iff {kvs : List (Sds × Value)} :
    beforeMark version kvs = kvs ↔ ∀ e ∈ kvs, marksEnd version e.1.length = false := by
  simp [beforeMark, List.takeWhile_eq_self_iff]

theorem length_le_flatMap_streamRecord (version : FormatVersion) (zstd : Zstd) (kvs : List (Sds × Value)) :
    kvs.length ≤ (kvs.flatMap (streamRecord version zstd)).length := by
  have positive : ∀ e, 1 ≤ (streamRecord version zstd e).length := by
    intro e
    have field : 0 < (writeLength version e.1.length).length := length_writeLength_pos
    simp only [streamRecord, writeBlob, List.length_append]
    omega
  induction kvs with
  | nil => exact Nat.zero_le _
  | cons e kvs ih =>
      have first := positive e
      rw [List.flatMap_cons, List.length_append, List.length_cons]
      omega

theorem entries_writeStream (lossless : zstd.Lossless) (modern : version ≠ .legacy)
    {kvs : List (Sds × Value)} (dumpable : Dumpable zstd depth version kvs) :
    ∃ b items, writeStreamVersioned version zstd kvs = fileMagic ++ version.code :: b ∧
      SameEntries (beforeMark version kvs) items ∧
      entries version zstd depth (b.length + 1) 0 b = (items, .ok ()) := by
  have size := length_le_flatMap_streamRecord version zstd kvs
  obtain ⟨items, same, met⟩ := entries_records lossless modern dumpable
    (show kvs.length < (kvs.flatMap (streamRecord version zstd) ++ [tagEof]).length + 1 by
      rw [List.length_append]
      omega) 0 []
  exact ⟨_, items, by rw [writeStreamVersioned, List.append_assoc]; rfl, same, met⟩

theorem parse_writeStream_iff (lossless : zstd.Lossless) (modern : version ≠ .legacy)
    {kvs : List (Sds × Value)} (dumpable : Dumpable zstd depth version kvs) :
    (∃ items, parse .v3 zstd depth collectHandler (writeStreamVersioned version zstd kvs) [] =
        (.ok (), items) ∧ SameEntries kvs items) ↔
      ∀ e ∈ kvs, marksEnd version e.1.length = false := by
  have known : FormatVersion.v3.canRead version = true := rfl
  obtain ⟨b, items, shape, same, met⟩ := entries_writeStream lossless modern dumpable
  have parsed : parse .v3 zstd depth collectHandler (writeStreamVersioned version zstd kvs) [] =
      (.ok (), items) := by
    rw [shape, parse_collect known, met]
    rfl
  rw [← beforeMark_eq_iff]
  constructor
  · rintro ⟨items', parsed', same'⟩
    rw [parsed] at parsed'
    obtain rfl : items = items' := (Prod.mk.inj parsed').2
    have lengths : (beforeMark version kvs).length = kvs.length :=
      same.length_eq.trans same'.length_eq.symm
    exact (List.takeWhile_prefix _).eq_of_length lengths
  · intro whole
    rw [whole] at same
    exact ⟨items, parsed, same⟩

end

end Zumic.Zdb
