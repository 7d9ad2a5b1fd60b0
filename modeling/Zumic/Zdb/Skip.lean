/- Skipping a value without decoding it (`decode.rs`), against reading it. -/

import Zumic.Lib.Composed
import Zumic.Zdb.Codec

namespace Zumic.Zdb

open Database Lib Lib.ByteString Lib.Reader

/-- The buffer of `skip_bytes`. -/
def skipBufferSize : Nat := 8 * 1024

/-- Takes `n` bytes, a buffer at a time, and throws them away. -/
def skipBytes (n : Nat) (b : Bytes) : Except ZdbError (Unit × Bytes) :=
  if n = 0 then .ok ((), b)
  else
    let read := (b.take (min n skipBufferSize)).length
    if read = 0 then .error (.unexpectedEof "slipping bytes")
    else skipBytes (n - read) (b.drop read)
termination_by n
decreasing_by omega

section

variable (version : FormatVersion)

/-- A length and the bytes it announces. -/
def skipBlob : ZdbReader Unit := do
  let len ← readLength version
  skipBytes len

def skipZSetEntry : ZdbReader Unit := do
  skipBlob version
  match version with
  | .legacy => do
      let _ ← Reader.take 4 (.io "Failed to skip zset score (f32)")
      pure ()
  | _ => do
      let _ ← Reader.take 8 (.io "Failed to skip zset score (f64)")
      pure ()

def skipTagged (skipValue : ZdbReader Unit) (tag : UInt8) : ZdbReader Unit :=
  if tag = tagNull then pure ()
  else if tag = tagBool then do
    let _ ← Reader.next (.io "Failed to skip bool value")
    pure ()
  else if tag = tagInt then do
    let _ ← Reader.take 8 (.io "Failed to skip int value")
    pure ()
  else if tag = tagFloat then do
    let _ ← Reader.take 8 (.io "Failed to skip float value")
    pure ()
  else if tag = tagStr then skipBlob version
  else if tag = tagCompressed then skipBlob version
  else if tag = tagArray then do
    let count ← readLength version
    skipMany skipValue count
  else if tag = tagHash then do
    let count ← readLength version
    skipMany (do skipBlob version; skipValue) count
  else if tag = tagSet then do
    let count ← readLength version
    skipMany (skipBlob version) count
  else if tag = tagZSet then do
    let count ← readLength version
    skipMany (skipZSetEntry version) count
  else if tag = tagHll then skipBlob version
  else if tag = tagBitmap then skipBlob version
  else throw (.invalidTag tag)

/-- `skip_value`, to a nesting of at most `depth` calls. -/
def skipValue : Nat → ZdbReader Unit
  | 0 => throw .tooDeep
  | depth + 1 => do
      let tag ← Reader.next (.io "Failed to read tag for skip")
      skipTagged version (skipValue depth) tag

/-- A compressed block that the bytes end before the end of. -/
def ShortBlock (s : Bytes) : Prop :=
  ∃ len block, readLength version s = .ok (len, block) ∧ block.length < len

/-- After the tag of a value: the value has a compressed block that is cut short. -/
def CutAfter (readValue : ZdbReader Value) (cut : Bytes → Prop) (tag : UInt8) (s : Bytes) : Prop :=
  if tag = tagCompressed then ShortBlock version s
  else if tag = tagArray then
    ∃ count items, readLength version s = .ok (count, items) ∧
      SomeItem (fun _ => readValue) cut 0 count items
  else if tag = tagHash then
    ∃ count entries, readLength version s = .ok (count, entries) ∧
      SomeItem (readHashEntry version readValue)
        (fun entry => ∃ len key, readLength version entry = .ok (len, key) ∧ cut (key.drop len))
        0 count entries
  else False

/-- The value, or one that it is read from, has a compressed block that announces more bytes than
there are. Blocks within blocks do not count: they are skipped with the outer one. -/
def CutShort (zstd : Zstd) : Nat → Bytes → Prop
  | 0, _ => False
  | _ + 1, [] => False
  | depth + 1, tag :: s =>
      CutAfter version (readValueWithVersion version zstd depth) (CutShort zstd depth) tag s

end

theorem skipBytes_of_le {n : Nat} {b : Bytes} (enough : n ≤ b.length) :
    skipBytes n b = .ok ((), b.drop n) := by
  induction n using Nat.strong_induction_on generalizing b with
  | _ n ih =>
      rw [skipBytes]
      by_cases done : n = 0
      · rw [if_pos done, done, List.drop_zero]
      · have size : (b.take (min n skipBufferSize)).length = min n skipBufferSize := by
          rw [List.length_take]
          omega
        have positive : 0 < min n skipBufferSize := Nat.lt_min.mpr ⟨by omega, by decide⟩
        have part : min n skipBufferSize ≤ n := Nat.min_le_left _ _
        rw [if_neg done]
        simp only [size]
        rw [if_neg (by omega), ih _ (by omega) (by rw [List.length_drop]; omega), List.drop_drop]
        congr 3
        omega

theorem skipBytes_of_lt {n : Nat} {b : Bytes} (missing : b.length < n) :
    skipBytes n b = .error (.unexpectedEof "slipping bytes") := by
  induction n using Nat.strong_induction_on generalizing b with
  | _ n ih =>
      rw [skipBytes, if_neg (by omega)]
      dsimp only
      split
      · rfl
      · rename_i some'
        rw [List.length_take] at some' ⊢
        refine ih _ (by omega) ?_
        rw [List.length_drop]
        omega

theorem ensureSize_eq_ok {what : String} {index : Option Nat} {size limit : Nat} {b rest : Bytes}
    {done : Unit} (checked : ensureSize what index size limit b = .ok (done, rest)) :
    size ≤ limit ∧ rest = b := by
  rw [ensureSize] at checked
  split at checked
  · rename_i fits
    exact ⟨fits, (Prod.mk.inj (Except.ok.inj checked)).2.symm⟩
  · cases checked

theorem quiet_ensureSize (what : String) (index : Option Nat) (size limit : Nat) :
    Quiet (ensureSize what index size limit) := by
  unfold ensureSize
  split
  · exact quiet_pure ()
  · exact quiet_throw _

theorem skips_take (n : Nat) (e : ZdbError) :
    Skips (skipBytes n) (fun _ => False) (Reader.take n e) := by
  refine skips_of_ok fun b a rest run => ?_
  rw [Reader.take] at run
  split at run
  · rename_i enough
    obtain ⟨-, rfl⟩ := Prod.mk.inj (Except.ok.inj run)
    exact skipBytes_of_le enough
  · cases run

theorem skips_fixed (n : Nat) (e e' : ZdbError) :
    Skips (do let _ ← Reader.take n e; pure () : ZdbReader Unit) (fun _ => False)
      (Reader.take n e') := by
  refine skips_of_ok fun b a rest run => ?_
  have same := (agrees_take n e' e b _).mp run
  rw [bind_of_ok same]
  rfl

section

variable (version : FormatVersion)

theorem skips_readBlob (what : String) (index : Option Nat) (limit : Nat) (context : String) :
    Skips (skipBlob version) (fun _ => False) (readBlob version what index limit context) :=
  Skips.after_never fun len => Skips.guarded (quiet_ensureSize _ _ _ _) fun _ => skips_take len _

theorem skips_readF64 (context context' : String) :
    Skips (do let _ ← Reader.take 8 (.io context); pure () : ZdbReader Unit) (fun _ => False)
      (readF64 context') :=
  (skips_fixed 8 _ _).mapped fun _ => quiet_pure _

theorem skips_readZSetEntry (i : Nat) :
    Skips (skipZSetEntry version) (fun _ => False) (readZSetEntry version i) := by
  refine (skips_readBlob version _ _ _ _).bind_never fun member => ?_
  refine Skips.mapped ?_ fun score => quiet_pure (member, score)
  cases version with
  | legacy => exact (skips_fixed 4 _ _).mapped fun b => quiet_pure _
  | v1 => exact skips_readF64 _ _
  | v2 => exact skips_readF64 _ _
  | v3 => exact skips_readF64 _ _

theorem skips_counted {α β : Type} (what : String) {p : Nat → ZdbReader α}
    {f : List α → β} {q : ZdbReader Unit} {C : Bytes → Prop} (each : ∀ i, Skips q C (p i)) :
    Skips (do let count ← readLength version; skipMany q count)
      (fun s => ∃ count items, readLength version s = .ok (count, items) ∧
        SomeItem p C 0 count items)
      (do let n ← readCount version what; let items ← readMany p n; pure (f items)) := by
  unfold readCount
  simp only [bind_assoc, pure_bind]
  refine Skips.after fun count => Skips.guarded (quiet_ensureSize _ _ _ _) fun _ => ?_
  exact (skips_readMany each count).mapped fun items => quiet_pure (f items)

theorem skips_counted_never {α β : Type} (what : String) {p : Nat → ZdbReader α}
    {f : List α → β} {q : ZdbReader Unit} (each : ∀ i, Skips q (fun _ => False) (p i)) :
    Skips (do let count ← readLength version; skipMany q count) (fun _ => False)
      (do let n ← readCount version what; let items ← readMany p n; pure (f items)) := by
  refine (skips_counted version what each).never ?_
  rintro s ⟨count, items, -, cut⟩
  exact not_someItem 0 count items cut

theorem skips_readHllValue :
    Skips (skipBlob version) (fun _ => False) (readHllValue version) := by
  refine Skips.after_never fun n => ?_
  split
  all_goals
    refine Skips.guarded (quiet_ensureSize _ _ _ _) fun _ => ?_
    exact (skips_take n _).mapped fun regs => quiet_pure _

theorem skips_readBitmapValue :
    Skips (skipBlob version) (fun _ => False) (readBitmapValue version) := by
  refine Skips.after_never fun n => ?_
  split
  all_goals
    refine Skips.guarded (quiet_ensureSize _ _ _ _) fun _ => ?_
    exact (skips_take n _).mapped fun bytes => quiet_pure _

theorem skips_readCompressedValue (zstd : Zstd) (readValue : ZdbReader Value) :
    Skips (skipBlob version) (ShortBlock version)
      (readCompressedValue version zstd readValue) := by
  refine Skips.after fun len => ?_
  by_cases empty : len = 0
  · rw [if_pos empty]
    exact skips_throw _ _ _
  · rw [if_neg empty]
    refine Skips.guarded (quiet_ensureSize _ _ _ _) fun _ => Skips.mapped ?_ fun block => ?_
    · intro b block rest run
      obtain ⟨-, rfl⟩ := Prod.mk.inj (Except.ok.inj run)
      exact ⟨fun short => ⟨_, skipBytes_of_lt short⟩, fun whole => skipBytes_of_le (not_lt.mp whole)⟩
    · cases zstd.decompress block with
      | none => exact quiet_throw _
      | some inner =>
          dsimp only
          split
          · exact quiet_pure _
          · exact quiet_throw _

variable {zstd : Zstd} {readValue : ZdbReader Value} {q : ZdbReader Unit} {C : Bytes → Prop}

theorem skips_readBoolValue :
    Skips (do let _ ← Reader.next (.io "Failed to skip bool value"); pure () : ZdbReader Unit)
      (fun _ => False) readBoolValue := by
  refine skips_of_ok fun b v rest run => ?_
  cases b with
  | nil => cases run
  | cons x b =>
      obtain ⟨-, rfl⟩ := Prod.mk.inj (Except.ok.inj run)
      rfl

theorem readCount_eq_ok {version : FormatVersion} {what : String} {s rest : Bytes} {n : Nat}
    (read : readCount version what s = .ok (n, rest)) :
    readLength version s = .ok (n, rest) ∧ n ≤ maxCollectionSize := by
  obtain ⟨n', tail, length, later⟩ := bind_eq_ok read
  obtain ⟨done, tail', checked, made⟩ := bind_eq_ok later
  obtain ⟨fits, rfl⟩ := ensureSize_eq_ok checked
  obtain ⟨rfl, rfl⟩ := Prod.mk.inj (Except.ok.inj made)
  exact ⟨length, fits⟩

theorem readBlob_eq_ok {what context : String} {index : Option Nat} {limit : Nat}
    {s blob rest : Bytes} (read : readBlob version what index limit context s = .ok (blob, rest)) :
    ∃ tail, readLength version s = .ok (blob.length, tail) ∧ tail = blob ++ rest := by
  obtain ⟨len, tail, length, later⟩ := bind_eq_ok read
  obtain ⟨done, tail', checked, taken⟩ := bind_eq_ok later
  obtain ⟨-, rfl⟩ := ensureSize_eq_ok checked
  rw [Reader.take] at taken
  split at taken
  · rename_i enough
    obtain ⟨rfl, rfl⟩ := Prod.mk.inj (Except.ok.inj taken)
    refine ⟨tail', ?_, (List.take_append_drop len tail').symm⟩
    rw [List.length_take_of_le enough]
    exact length
  · cases taken

theorem length_readBlob_le {what context : String} {index : Option Nat} {limit : Nat}
    {s blob rest : Bytes} (read : readBlob version what index limit context s = .ok (blob, rest)) :
    blob.length ≤ limit := by
  obtain ⟨len, tail, -, later⟩ := bind_eq_ok read
  obtain ⟨done, tail', checked, taken⟩ := bind_eq_ok later
  obtain ⟨fits, -⟩ := ensureSize_eq_ok checked
  rw [Reader.take] at taken
  split at taken
  · obtain ⟨rfl, -⟩ := Prod.mk.inj (Except.ok.inj taken)
    exact Nat.le_trans (List.length_take_le _ _) fits
  · cases taken

/-- What the value of a hash entry becomes. -/
private def hashField (key : Sds) : Value → ZdbReader (Sds × Sds)
  | .str s => pure (key, s)
  | _ => throw (.parse "Hash" "Expected Str for Hash value")

theorem skips_readHashEntry (inner : Skips q C readValue) (i : Nat) :
    Skips (do skipBlob version; q)
      (fun entry => ∃ len key, readLength version entry = .ok (len, key) ∧ C (key.drop len))
      (readHashEntry version readValue i) := by
  have both := (skips_readBlob version "Hash key at index" (some i) maxStringSize
    "Failed to read hash key bytes").bind fun key => inner.mapped (f := hashField key) fun v => by
    cases v with
    | str s => exact quiet_pure (key, s)
    | _ => exact quiet_throw _
  refine both.congr fun b a rest run => ?_
  obtain ⟨key, s, blob, -⟩ := bind_eq_ok run
  obtain ⟨tail, length, rfl⟩ := readBlob_eq_ok version blob
  constructor
  · rintro (impossible | ⟨key', s', blob', cut⟩)
    · exact impossible.elim
    · rw [blob] at blob'
      obtain ⟨rfl, rfl⟩ := Prod.mk.inj (Except.ok.inj blob')
      exact ⟨key.length, _, length, by rw [List.drop_left]; exact cut⟩
  · rintro ⟨len', tail', length', cut⟩
    rw [length] at length'
    obtain ⟨rfl, rfl⟩ := Prod.mk.inj (Except.ok.inj length')
    rw [List.drop_left] at cut
    exact Or.inr ⟨key, _, blob, cut⟩

theorem skips_readTagged (inner : Skips q C readValue) (tag : UInt8) :
    Skips (skipTagged version q tag) (CutAfter version readValue C tag)
      (readTagged version zstd readValue tag) := by
  by_cases known : tag ∈ [tagStr, tagInt, tagFloat, tagBool, tagNull, tagCompressed, tagHash,
      tagZSet, tagSet, tagHll, tagArray, tagBitmap]
  · simp only [List.mem_cons, List.not_mem_nil, or_false] at known
    obtain rfl | rfl | rfl | rfl | rfl | rfl | rfl | rfl | rfl | rfl | rfl | rfl := known
    · exact (skips_readBlob version _ _ _ _).mapped fun s => quiet_pure _
    · exact (skips_fixed 8 _ _).mapped fun b => quiet_pure _
    · exact (skips_readF64 _ _).mapped fun f => quiet_pure _
    · exact skips_readBoolValue
    · exact skips_of_ok fun b v rest run => by rw [← (Prod.mk.inj (Except.ok.inj run)).2]; rfl
    · exact skips_readCompressedValue version zstd readValue
    · exact skips_counted version _ (skips_readHashEntry version inner)
    · exact skips_counted_never version _ (skips_readZSetEntry version)
    · exact skips_counted_never version _ fun i => skips_readBlob version _ _ _ _
    · exact skips_readHllValue version
    · exact skips_counted version _ fun _ => inner
    · exact skips_readBitmapValue version
  · simp only [List.mem_cons, List.not_mem_nil, or_false, not_or] at known
    obtain ⟨str, int, float, bool, null, compressed, hash, zset, set, hll, array, bitmap⟩ := known
    rw [readTagged, if_neg str, if_neg int, if_neg float, if_neg bool, if_neg null,
      if_neg compressed, if_neg hash, if_neg zset, if_neg set, if_neg hll, if_neg array,
      if_neg bitmap]
    exact skips_throw _ _ _

end

/-- Wherever a value is read, skipping it moves over the same bytes, or runs out of bytes in a
compressed block that is cut short. -/
theorem skips_readValueWithVersion (version : FormatVersion) (zstd : Zstd) {depth nesting : Nat}
    (deep : depth ≤ nesting) :
    Skips (skipValue version nesting) (CutShort version zstd depth)
      (readValueWithVersion version zstd depth) := by
  induction depth generalizing nesting with
  | zero => exact skips_throw _ _ _
  | succ depth ih =>
      cases nesting with
      | zero => exact absurd deep (Nat.not_succ_le_zero depth)
      | succ nesting =>
          have inner := ih (Nat.le_of_succ_le_succ deep)
          intro b v rest run
          cases b with
          | nil => cases run
          | cons tag s => exact skips_readTagged version inner tag s v rest run

/-- Skipping agrees with reading exactly where no compressed block of the value is cut short. -/
theorem skipValue_iff_not_cutShort (version : FormatVersion) (zstd : Zstd)
    {depth nesting : Nat} (deep : depth ≤ nesting) {b rest : Bytes} {v : Value}
    (read : readValueWithVersion version zstd depth b = .ok (v, rest)) :
    skipValue version nesting b = .ok ((), rest) ↔ ¬ CutShort version zstd depth b :=
  (skips_readValueWithVersion version zstd deep).iff read

/-- A frame with one raw block, which holds a null value. -/
def nullFrame : Bytes := [0x28, 0xB5, 0x2F, 0xFD, 0x20, 0x01, 0x09, 0x00, 0x00, 0x04]

/-- The compressor, as far as it knows the frame of a null value. -/
def nullZstd : Zstd := ⟨fun _ => nullFrame, fun b => if b = nullFrame then some [0x04] else none⟩

theorem skipValue_iff_not_cutShort_frame :
    skipValue .v3 2 (0x0C :: 0x0A :: nullFrame ++ [0xFF]) = .ok ((), [0xFF]) ↔
      ¬ CutShort .v3 nullZstd 2 (0x0C :: 0x0A :: nullFrame ++ [0xFF]) :=
  @skipValue_iff_not_cutShort .v3 nullZstd 2 2 (Nat.le_refl 2) _ [0xFF] .null rfl

/-- The block announces 64 bytes, and the frame in it is over after ten. -/
theorem skipValue_short_block :
    readValueWithVersion .v3 nullZstd 2 (0x0C :: 0x40 :: nullFrame) = .ok (.null, []) ∧
      skipValue .v3 2 (0x0C :: 0x40 :: nullFrame) =
        .error (.unexpectedEof "slipping bytes") := by
  refine ⟨rfl, ?_⟩
  change skipBytes 64 nullFrame = _
  exact skipBytes_of_lt (by decide)

end Zumic.Zdb
