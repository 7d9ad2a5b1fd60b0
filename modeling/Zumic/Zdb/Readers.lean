/- The two readers of stream dumps: the iterator `StreamReader` (`decode.rs`) against the
event-driven parser. -/

import Zumic.Zdb.Counted

namespace Zumic.Zdb

open Database Lib Lib.ByteString Lib.Reader

section

variable (zstd : Zstd) (depth : Nat)

/-- The records that a `StreamReader` yields until its first error or its end. Every record takes a
byte, so the length of the dump bounds them. -/
def collectStream (version : FormatVersion) :
    Nat → Bytes → List (Sds × Value) × Except ZdbError Unit
  | 0, _ => ([], .ok ())
  | fuel + 1, b =>
      match streamNext version zstd depth b with
      | .ok (some e, rest) =>
          let (l, outcome) := collectStream version fuel rest
          (e :: l, outcome)
      | .ok (none, _) => ([], .ok ())
      | .error e => ([], .error e)

/-- A `StreamReader` opened on a dump and collected. -/
def collectReader (b : Bytes) : List (Sds × Value) × Except ZdbError Unit :=
  match streamHeader b with
  | .error e => ([], .error e)
  | .ok (version, rest) => collectStream zstd depth version (rest.length + 1) rest

/-- The same records, and a normal end for both or for neither. -/
structure ReadersAgree (b : Bytes) : Prop where
  items : (collectReader zstd depth b).1 = (parse .v3 zstd depth collectHandler b []).2
  ends : (collectReader zstd depth b).2 = .ok () ↔
    (parse .v3 zstd depth collectHandler b []).1 = .ok ()

end

/-- The length of a key that takes more than one byte of a varint. -/
def longLength (version : FormatVersion) (peek : UInt8) : Bool :=
  version.usesVarint && decide (128 ≤ peek.toNat)

/-- Bytes in which the parser comes to a record with such a key. -/
inductive LongKey (version : FormatVersion) (zstd : Zstd) (depth : Nat) : Bytes → Prop
  | here {peek : UInt8} {s : Bytes} (open' : peek ≠ tagEof)
      (long : longLength version peek = true) : LongKey version zstd depth (peek :: s)
  | later {peek : UInt8} {s rest : Bytes} {e : Sds × Value} (open' : peek ≠ tagEof)
      (read : readEntryFrom version zstd depth peek s = .ok (e, rest))
      (long : LongKey version zstd depth rest) : LongKey version zstd depth (peek :: s)

section

variable {version : FormatVersion} {zstd : Zstd} {depth : Nat}

/-- The rest of a record of a `StreamReader` after its first byte. -/
private def streamEntryFrom (version : FormatVersion) (zstd : Zstd) (depth : Nat) (peek : UInt8) :
    ZdbReader (Option (Sds × Value)) := do
  let klen ← keyLength version peek
  ensureSize "Key" none klen maxStringSize
  let key ← Reader.take klen (.io "failed to fill whole buffer")
  let value ← readValueWithVersion version zstd depth
  pure (some (key, value))

theorem streamNext_cons {peek : UInt8} (open' : peek ≠ tagEof) (s : Bytes) :
    streamNext version zstd depth (peek :: s) = streamEntryFrom version zstd depth peek s := by
  rw [streamNext, bind_of_ok (show Reader.next _ (peek :: s) = .ok (peek, s) from rfl),
    if_neg open']
  rfl

theorem keyLength_of_short {peek : UInt8} (short : longLength version peek = false) :
    keyLength version peek = parserKeyLength version peek := by
  unfold keyLength parserKeyLength
  split
  · rename_i varint
    rw [longLength, varint, Bool.true_and, decide_eq_false_iff_not, not_le] at short
    rw [if_pos short, if_pos short]
  · rfl

theorem streamEntryFrom_agrees {peek : UInt8} (short : longLength version peek = false) :
    Agrees (streamEntryFrom version zstd depth peek)
      (readEntryFrom version zstd depth peek >>= fun e => pure (some e)) := by
  have flat : (readEntryFrom version zstd depth peek >>= fun e => pure (some e)) = (do
      let keyLen ← parserKeyLength version peek
      ensureSize "key" none keyLen maxKeySize
      let key ← Reader.take keyLen (.unexpectedEof "reading key bytes")
      let value ← readValueWithVersion version zstd depth
      pure (some (key, value))) := by
    simp [readEntryFrom]
  rw [flat, streamEntryFrom, keyLength_of_short short]
  refine (Agrees.refl _).bind fun klen => ?_
  refine Agrees.bind (agrees_ite (Agrees.refl _) (agrees_throw _ _)) fun _ => ?_
  exact (agrees_take _ _ _).bind fun key => Agrees.refl _

theorem streamNext_eq_some {peek : UInt8} {s rest : Bytes} {e : Sds × Value}
    (open' : peek ≠ tagEof) (short : longLength version peek = false) :
    streamNext version zstd depth (peek :: s) = .ok (some e, rest) ↔
      readEntryFrom version zstd depth peek s = .ok (e, rest) := by
  rw [streamNext_cons open', streamEntryFrom_agrees short s]
  constructor
  · intro run
    obtain ⟨e', rest', read, last⟩ := bind_eq_ok run
    obtain ⟨some', rfl⟩ := Prod.mk.inj (Except.ok.inj last)
    obtain rfl := Option.some.inj some'
    exact read
  · intro read
    rw [bind_of_ok read]
    rfl

theorem streamNext_of_error {peek : UInt8} {s : Bytes} {err : ZdbError}
    (open' : peek ≠ tagEof) (short : longLength version peek = false)
    (read : readEntryFrom version zstd depth peek s = .error err) :
    ∃ err', streamNext version zstd depth (peek :: s) = .error err' := by
  cases run : streamNext version zstd depth (peek :: s) with
  | error err' => exact ⟨err', rfl⟩
  | ok r =>
      rw [streamNext_cons open', streamEntryFrom_agrees short s, bind_of_error read] at run
      cases run

theorem readValueWithVersion_nil {r : Value × Bytes} :
    readValueWithVersion version zstd depth [] ≠ .ok r := by
  intro run
  cases depth with
  | zero => cases run
  | succ depth => cases run

/-- After a long key length the buffer has taken in what is left of a small dump. -/
theorem streamNext_of_long {peek : UInt8} {s : Bytes} (open' : peek ≠ tagEof)
    (long : longLength version peek = true) (small : s.length ≤ readAhead) :
    ∃ err, streamNext version zstd depth (peek :: s) = .error err := by
  cases run : streamNext version zstd depth (peek :: s) with
  | error err => exact ⟨err, rfl⟩
  | ok r =>
      exfalso
      rw [streamNext_cons open', streamEntryFrom] at run
      obtain ⟨klen, rest, field, run⟩ := bind_eq_ok run
      obtain ⟨varint, more⟩ := Bool.and_eq_true_iff.mp long
      rw [keyLength, if_pos varint, if_neg (by simpa using more)] at field
      -- Nothing is left, so that no value can follow the key.
      have gone : rest = [] := by
        cases whole : readVarint (peek :: s) with
        | error err =>
            rw [whole] at field
            cases field
        | ok r =>
            rw [whole] at field
            have tail := (Prod.mk.inj (Except.ok.inj field)).2
            rw [← tail]
            exact List.drop_eq_nil_of_le small
      obtain ⟨_, rest', size, run⟩ := bind_eq_ok run
      obtain ⟨key, rest'', taken, run⟩ := bind_eq_ok run
      obtain ⟨value, last, read, -⟩ := bind_eq_ok run
      have first := shrinks_ensureSize _ _ _ _ _ _ _ size
      have second := shrinks_take _ _ _ _ _ taken
      subst gone
      rw [List.length_nil] at first
      have none' : rest'' = [] := List.length_eq_zero_iff.mp (by omega)
      rw [none'] at read
      exact readValueWithVersion_nil read

theorem collectStream_of_short {fuel recordsParsed : Nat} {b : Bytes}
    (enough : b.length < fuel) (begun : b ≠ [] ∨ 0 < recordsParsed)
    (short : ¬ LongKey version zstd depth b) :
    (collectStream zstd depth version fuel b).1 =
        (entries version zstd depth fuel recordsParsed b).1 ∧
      ((collectStream zstd depth version fuel b).2 = .ok () ↔
        (entries version zstd depth fuel recordsParsed b).2 = .ok ()) := by
  induction fuel generalizing recordsParsed b with
  | zero => omega
  | succ fuel ih =>
      rw [collectStream, entries]
      cases b with
      | nil =>
          rw [readNextEntry_nil begun]
          exact ⟨rfl, fun run => (by cases run), fun run => (by cases run)⟩
      | cons peek s =>
          by_cases mark : peek = tagEof
          · subst mark
            rw [readNextEntry, if_pos rfl]
            exact ⟨rfl, Iff.rfl⟩
          · have one : longLength version peek = false := by
              by_contra long
              exact short (LongKey.here mark (Bool.eq_true_of_not_eq_false long))
            rw [readNextEntry_cons mark]
            cases read : readEntryFrom version zstd depth peek s with
            | error err =>
                obtain ⟨err', stuck⟩ := streamNext_of_error mark one read
                rw [stuck]
                exact ⟨rfl, fun run => (by cases run), fun run => (by cases run)⟩
            | ok r =>
                obtain ⟨e, rest⟩ := r
                rw [(streamNext_eq_some mark one).mpr read]
                have shorter := shrinks_readEntryFrom version zstd depth peek s e rest read
                rw [List.length_cons] at enough
                have later := @ih (recordsParsed + 1) rest (by omega) (Or.inr (Nat.succ_pos _))
                  fun long => short (LongKey.later mark read long)
                exact ⟨congrArg (e :: ·) later.1, later.2⟩

theorem collectStream_of_long {fuel recordsParsed : Nat} {b : Bytes}
    (enough : b.length < fuel) (small : b.length ≤ readAhead + 1)
    (like : StreamLike version zstd depth b) (long : LongKey version zstd depth b) :
    (collectStream zstd depth version fuel b).1 ≠
      (entries version zstd depth fuel recordsParsed b).1 := by
  induction fuel generalizing recordsParsed b with
  | zero => omega
  | succ fuel ih =>
      rw [collectStream, entries]
      cases like with
      | mark t =>
          cases long with
          | here open' _ => exact absurd rfl open'
          | later open' _ _ => exact absurd rfl open'
      | @record peek s rest e open' read like' =>
          rw [readNextEntry_cons open', read]
          rw [List.length_cons] at enough small
          cases one : longLength version peek with
          | true =>
              have small' : s.length ≤ readAhead := by omega
              obtain ⟨err, stuck⟩ := streamNext_of_long open' one small'
              rw [stuck]
              exact (List.cons_ne_nil _ _).symm
          | false =>
              have shorter := shrinks_readEntryFrom version zstd depth peek s e rest read
              rw [(streamNext_eq_some open' one).mpr read]
              cases long with
              | here _ long' => exact absurd (one.symm.trans long') (by simp)
              | @later _ _ rest' _ _ read' long' =>
                  have equal := (Prod.mk.inj (Except.ok.inj (read.symm.trans read'))).2
                  rw [← equal] at long'
                  intro same
                  exact @ih (recordsParsed + 1) rest (by omega) (by omega) like' long'
                    (List.cons.inj same).2

theorem collectReader_header (b : Bytes) :
    collectReader zstd depth (fileMagic ++ version.code :: b) =
      collectStream zstd depth version (b.length + 1) b := by
  cases version <;> rfl

/-- The readers agree on every dump without long keys. On a dump that fits into the buffer and is
closed by its end mark they agree in no other case. -/
theorem stream_readers_agree (version : FormatVersion) (zstd : Zstd) (depth : Nat) (b : Bytes) :
    (b ≠ [] → ¬ LongKey version zstd depth b →
      ReadersAgree zstd depth (fileMagic ++ version.code :: b)) ∧
    (StreamLike version zstd depth b → b.length ≤ readAhead + 1 →
      (ReadersAgree zstd depth (fileMagic ++ version.code :: b) ↔
        ¬ LongKey version zstd depth b)) := by
  have parsed := @parse_collect version zstd depth .v3 rfl b
  have agree : b ≠ [] → ¬ LongKey version zstd depth b →
      ReadersAgree zstd depth (fileMagic ++ version.code :: b) := by
    intro some' short
    obtain ⟨items, ends⟩ := @collectStream_of_short version zstd depth _ 0 b
      (Nat.lt_succ_self b.length) (Or.inl some') short
    constructor
    · rw [collectReader_header, parsed]
      exact items
    · rw [collectReader_header, parsed, ends]
      cases (entries version zstd depth (b.length + 1) 0 b).2 with
      | ok u => exact ⟨fun _ => rfl, fun _ => rfl⟩
      | error e => exact ⟨fun run => (by cases run), fun run => (by cases run)⟩
  refine ⟨agree, fun like small => ⟨fun same long => ?_, fun short => agree ?_ short⟩⟩
  · have items := same.items
    rw [collectReader_header, parsed] at items
    exact collectStream_of_long (Nat.lt_succ_self b.length) small like long items
  · rintro rfl
    exact not_streamLike_nil like

/-- Two records with short keys. -/
def shortKeys : Bytes := [1, 107, tagNull, 0, tagNull, tagEof]

theorem stream_readers_agree_short_keys :
    StreamLike .v3 storing 64 shortKeys ∧ shortKeys.length ≤ readAhead + 1 ∧
      ¬ LongKey .v3 storing 64 shortKeys ∧
      ReadersAgree storing 64 (fileMagic ++ FormatVersion.v3.code :: shortKeys) := by
  have like : StreamLike .v3 storing 64 shortKeys :=
    StreamLike.record (by decide) rfl (StreamLike.record (by decide) rfl (StreamLike.mark []))
  have short : ¬ LongKey .v3 storing 64 shortKeys := by
    intro long
    cases long with
    | here _ long' => exact absurd long' (by decide)
    | later _ read long' =>
        obtain ⟨-, rfl⟩ := Prod.mk.inj (Except.ok.inj read)
        cases long' with
        | here _ long'' => exact absurd long'' (by decide)
        | later _ read' long'' =>
            obtain ⟨-, rfl⟩ := Prod.mk.inj (Except.ok.inj read')
            cases long'' with
            | here open' _ => exact absurd rfl open'
            | later open' _ _ => exact absurd rfl open'
  exact ⟨like, by decide, short,
    ((stream_readers_agree .v3 storing 64 shortKeys).2 like (by decide)).mpr short⟩

/-- A dump with one key of 128 bytes. -/
def longKeyDump : Bytes :=
  fileMagic ++ FormatVersion.v3.code :: ([128, 1] ++ List.replicate 128 107 ++ [tagNull, tagEof])

set_option maxRecDepth 4000 in
/-- The parser reads such a dump, the other reader fails at its first record. -/
theorem stream_readers_long_key :
    parse .v3 storing 64 collectHandler longKeyDump [] =
      (.ok (), [(List.replicate 128 107, .null)]) ∧
    collectReader storing 64 longKeyDump = ([], .error (.io "failed to fill whole buffer")) ∧
    ¬ ReadersAgree storing 64 longKeyDump := by
  have parsed : parse .v3 storing 64 collectHandler longKeyDump [] =
      (.ok (), [(List.replicate 128 107, .null)]) := rfl
  have collected : collectReader storing 64 longKeyDump =
      ([], .error (.io "failed to fill whole buffer")) := rfl
  refine ⟨parsed, collected, fun same => ?_⟩
  have items := same.items
  rw [parsed, collected] at items
  cases items

end

end Zumic.Zdb
