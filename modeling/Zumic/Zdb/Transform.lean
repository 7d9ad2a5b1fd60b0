/- Writing a dump from another one (`TransformHandler`), and what is read back from it. -/

import Zumic.Zdb.Skip
import Zumic.Zdb.Truncation

namespace Zumic.Zdb

open Database Lib Lib.ByteString Lib.Reader

/-- Writes what `transform` makes of the records: the bytes written so far, and their count. -/
def transformHandler (zstd : Zstd) (transform : Sds → Value → Option (Sds × Value)) :
    ParseHandler (Bytes × Nat) where
  handleEvent
    | .header version, (writer, count) => (.ok (), (writer ++ fileMagic ++ [version.code], count))
    | .entry key value, (writer, count) =>
        match transform key value with
        | some (newKey, newValue) =>
            (.ok (), (writer ++ beBytes 4 newKey.length ++ newKey
              ++ writeValueVersioned FormatVersion.current zstd newValue, count + 1))
        | none => (.ok (), (writer, count))
    | .finish, (writer, count) => (.ok (), (writer ++ [tagEof], count))
    | .failure _ _, s => (.ok (), s)

/-- A record as the handler writes it: a key length of four bytes, and a value in the current
format. -/
def transformRecord (zstd : Zstd) (e : Sds × Value) : Bytes :=
  beBytes 4 e.1.length ++ (e.1 ++ writeValueVersioned FormatVersion.current zstd e.2)

/-- The values that are written alike in every version. -/
def fixedSize : Value → Bool
  | .int _ => true
  | .float _ => true
  | .bool _ => true
  | .null => true
  | _ => false

/-- The records that a dump of a version can take from the handler. -/
def Carries (version : FormatVersion) (records : List (Sds × Value)) : Prop :=
  if version.usesVarint then records = []
  else ∀ e ∈ records, e.1.length ≤ maxKeySize ∧ fixedSize e.2 = true

/-- What the format of the compressor says of its frames: they begin with its magic number, and what
begins with the last byte of that number is no frame. -/
structure Zstd.Framed (zstd : Zstd) : Prop where
  magic : ∀ b, ∃ frame, zstd.compress b = 0x28 :: 0xB5 :: 0x2F :: 0xFD :: frame
  not_frame : ∀ b, zstd.decompress (0xFD :: b) = none

section

variable {version : FormatVersion} {zstd : Zstd} {depth : Nat}
  {transform : Sds → Value → Option (Sds × Value)}

theorem parseLoop_transform {fuel recordsParsed : Nat} {b : Bytes}
    {items : List (Sds × Value)} (met : entries version zstd depth fuel recordsParsed b =
      (items, .ok ())) (enough : b.length < fuel) (writer : Bytes) (count : Nat) :
    parseLoop version zstd depth (transformHandler zstd transform) fuel recordsParsed b
        (writer, count) =
      (.ok (), (writer ++ ((items.filterMap fun e => transform e.1 e.2).flatMap
        (transformRecord zstd) ++ [tagEof]),
        count + (items.filterMap fun e => transform e.1 e.2).length)) := by
  induction fuel generalizing recordsParsed b items writer count with
  | zero => exact absurd enough (Nat.not_lt_zero _)
  | succ fuel ih =>
      rw [entries] at met
      rw [parseLoop]
      cases run : readNextEntry version zstd depth recordsParsed b with
      | error e =>
          rw [run] at met
          cases met
      | ok r =>
          obtain ⟨entry, rest⟩ := r
          rw [run] at met
          cases entry with
          | none =>
              obtain ⟨rfl, -⟩ := Prod.mk.inj met
              rfl
          | some e =>
              obtain ⟨rfl, outcome⟩ := Prod.mk.inj met
              have shorter := length_readNextEntry run
              have later := fun writer count =>
                @ih (recordsParsed + 1) rest _ (Prod.ext rfl outcome)
                  (Nat.lt_of_lt_of_le shorter (Nat.le_of_lt_succ enough)) writer count
              cases made : transform e.1 e.2 with
              | none =>
                  have handled : (transformHandler zstd transform).handleEvent (.entry e.1 e.2)
                      (writer, count) = (.ok (), (writer, count)) := by
                    simp only [transformHandler, made]
                  simp only [handled, List.filterMap_cons, made]
                  exact later writer count
              | some new =>
                  have handled : (transformHandler zstd transform).handleEvent (.entry e.1 e.2)
                      (writer, count) = (.ok (), (writer ++ transformRecord zstd new, count + 1)) := by
                    simp only [transformHandler, made, transformRecord, List.append_assoc]
                  simp only [handled, List.filterMap_cons, made, List.flatMap_cons]
                  refine (later _ (count + 1)).trans ?_
                  simp [Nat.add_assoc, Nat.add_comm 1]

end

section

variable {version : FormatVersion}

theorem readLength_fixed (fixed : version.usesVarint = false) {s rest : Bytes} {n : Nat}
    (read : readLength version s = .ok (n, rest)) :
    ∃ a b c d, s = a :: b :: c :: d :: rest ∧
      n = a.toNat * 2 ^ 24 + b.toNat * 2 ^ 16 + c.toNat * 2 ^ 8 + d.toNat := by
  rw [readLength, fixed] at read
  obtain ⟨word, tail, taken, made⟩ := bind_eq_ok read
  rw [Reader.take] at taken
  split at taken
  · rename_i enough
    obtain ⟨rfl, rfl⟩ := Prod.mk.inj (Except.ok.inj taken)
    obtain ⟨rfl, rfl⟩ := Prod.mk.inj (Except.ok.inj made)
    rcases s with _ | ⟨a, _ | ⟨b, _ | ⟨c, _ | ⟨d, s⟩⟩⟩⟩
    · exact absurd enough (by simp)
    · exact absurd enough (by simp)
    · exact absurd enough (by simp)
    · exact absurd enough (by simp)
    · refine ⟨a, b, c, d, rfl, ?_⟩
      simp [beNat]
      ring
  · cases taken

theorem writeLength_small {n : Nat} (small : n < 128) :
    writeLength FormatVersion.current n = [UInt8.ofNat n] := by
  have word : n % 2 ^ 32 = n := Nat.mod_eq_of_lt (by omega)
  have group : n % 128 = n := Nat.mod_eq_of_lt small
  have last : n / 128 = 0 := Nat.div_eq_of_lt small
  change varintBytes 5 (n % 2 ^ 32) = _
  rw [word, varintBytes, if_pos last, group]

/-- A short length, read as one of four bytes: three bytes of what follows are taken for it too. -/
theorem readLength_mixed (fixed : version.usesVarint = false) {n : Nat} (small : n < 128)
    {s rest : Bytes} {len : Nat}
    (read : readLength version (writeLength FormatVersion.current n ++ s) = .ok (len, rest)) :
    ∃ b c d : UInt8, s = b :: c :: d :: rest ∧
      len = n * 2 ^ 24 + b.toNat * 2 ^ 16 + c.toNat * 2 ^ 8 + d.toNat := by
  rw [writeLength_small small] at read
  obtain ⟨a, b, c, d, shape, value⟩ := readLength_fixed fixed read
  obtain ⟨rfl, rfl⟩ := List.cons.inj shape
  have byte : (UInt8.ofNat n).toNat = n := by
    rw [UInt8.toNat_ofNat']
    omega
  rw [byte] at value
  exact ⟨b, c, d, rfl, value⟩

theorem readLength_mixed_same (fixed : version.usesVarint = false) {n : Nat}
    (small : n < 128) {s rest : Bytes}
    (read : readLength version (writeLength FormatVersion.current n ++ s) = .ok (n, rest)) :
    n = 0 ∧ s = 0 :: 0 :: 0 :: rest := by
  obtain ⟨b, c, d, rfl, value⟩ := readLength_mixed fixed small read
  have zero : ∀ x : UInt8, x.toNat = 0 → x = 0 := fun x none' => UInt8.toNat_inj.mp none'
  refine ⟨by omega, ?_⟩
  rw [zero b (by omega), zero c (by omega), zero d (by omega)]

end

section

variable {version : FormatVersion} {zstd : Zstd}

theorem writeLength_first (n : Nat) :
    ∃ first more, writeLength FormatVersion.current n = first :: more ∧
      (128 ≤ first.toNat ∨ more = [] ∧ n % 2 ^ 32 < 128) := by
  change ∃ first more, varintBytes 5 (n % 2 ^ 32) = first :: more ∧ _
  rw [varintBytes]
  split
  · rename_i last
    exact ⟨_, [], rfl, Or.inr ⟨rfl, (Nat.div_eq_zero_iff_lt (by decide)).mp last⟩⟩
  · refine ⟨_, _, rfl, Or.inl ?_⟩
    rw [UInt8.toNat_ofNat']
    omega

/-- The length of a block is no length of four bytes, and the block does not begin where a reader of
the older versions looks for it. -/
theorem readCompressedValue_mixed (framed : zstd.Framed) (fixed : version.usesVarint = false)
    (readValue : ZdbReader Value) (b tail : Bytes) (r : Value × Bytes) :
    readCompressedValue version zstd readValue
      (writeBlob FormatVersion.current (zstd.compress b) ++ tail) ≠ .ok r := by
  intro read
  obtain ⟨frame, shape⟩ := framed.magic b
  obtain ⟨first, more, field, size⟩ := writeLength_first (zstd.compress b).length
  obtain ⟨len, s, length, later⟩ := bind_eq_ok read
  split at later
  · cases later
  · rename_i some'
    obtain ⟨done, s', checked, taken⟩ := bind_eq_ok later
    obtain ⟨fits, rfl⟩ := ensureSize_eq_ok checked
    obtain ⟨x, y, z, w, bytes, value⟩ := readLength_fixed fixed length
    rw [writeBlob, field, shape] at bytes
    have limit : len ≤ 104857600 := fits
    rcases size with large | ⟨rfl, -⟩
    · obtain ⟨same, -⟩ := List.cons.inj bytes
      rw [same] at large
      omega
    · simp only [List.cons_append, List.nil_append, List.cons.injEq] at bytes
      obtain ⟨-, -, -, -, rfl⟩ := bytes
      obtain ⟨block, s'', upTo, opened⟩ := bind_eq_ok taken
      obtain ⟨rfl, rfl⟩ := Prod.mk.inj (Except.ok.inj upTo)
      obtain ⟨m, rfl⟩ : ∃ m, len = m + 1 := ⟨len - 1, by omega⟩
      rw [List.take_succ_cons, framed.not_frame] at opened
      cases opened

theorem length_foldl {α β : Type} {f : List β → α → List β}
    (slow : ∀ l x, (f l x).length ≤ l.length + 1) (grows : ∀ l x, f l x ≠ []) (l : List α) :
    (l.foldl f []).length ≤ l.length ∧ ((l.foldl f []).length = 0 → l = []) := by
  constructor
  · have bound : ∀ start, (l.foldl f start).length ≤ start.length + l.length := by
      induction l with
      | nil => exact fun start => Nat.le_refl _
      | cons x l ih =>
          intro start
          have step := slow start x
          have rest := ih (f start x)
          rw [List.foldl_cons, List.length_cons]
          omega
    simpa using bound []
  · intro empty
    by_contra some'
    obtain ⟨init, last, rfl⟩ := (List.eq_nil_or_concat l).resolve_left some'
    rw [List.concat_eq_append, List.foldl_append] at empty
    exact grows _ _ (List.eq_nil_of_length_eq_zero empty)

theorem length_insert_le {κ α : Type} [DecidableEq κ] (m : List (κ × α)) (k : κ) (v : α) :
    (Assoc.insert m k v).length ≤ m.length + 1 := by
  rw [Assoc.length_insert]
  split
  · exact Nat.le_succ _
  · exact Nat.le_refl _

theorem length_addMember_le (set : List Sds) (m : Sds) :
    (if m ∈ set then set else set ++ [m]).length ≤ set.length + 1 := by
  split
  · exact Nat.le_succ _
  · rw [List.length_append]
    exact Nat.le_refl _

theorem addMember_ne_nil (set : List Sds) (m : Sds) :
    (if m ∈ set then set else set ++ [m]) ≠ [] := by
  split
  · rename_i here
    exact List.ne_nil_of_mem here
  · exact List.append_ne_nil_of_right_ne_nil _ (List.cons_ne_nil _ _)

theorem insert_ne_nil {κ α : Type} [DecidableEq κ] (m : List (κ × α)) (k : κ) (v : α) :
    Assoc.insert m k v ≠ [] := by
  cases m with
  | nil => exact List.cons_ne_nil _ _
  | cons p m =>
      rw [Assoc.insert]
      split
      · exact List.cons_ne_nil _ _
      · exact List.cons_ne_nil _ _

theorem sized_eq_ok {checks : Nat → ZdbReader Unit} (quiet : ∀ n, Quiet (checks n))
    {e : ZdbError} {f : Bytes → Value} {s rest : Bytes} {v : Value}
    (read : (do let n ← readLength version; checks n; let a ← Reader.take n e; pure (f a) :
      ZdbReader Value) s = .ok (v, rest)) :
    ∃ a, f a = v ∧ readLength version s = .ok (a.length, a ++ rest) := by
  obtain ⟨n, tail, length, later⟩ := bind_eq_ok read
  obtain ⟨done, tail', checked, later'⟩ := bind_eq_ok later
  obtain ⟨a, tail'', taken, made⟩ := bind_eq_ok later'
  obtain rfl := quiet n _ _ _ checked
  obtain ⟨image, rfl⟩ := Prod.mk.inj (Except.ok.inj made)
  rw [Reader.take] at taken
  split at taken
  · rename_i enough
    obtain ⟨rfl, rfl⟩ := Prod.mk.inj (Except.ok.inj taken)
    refine ⟨_, image, ?_⟩
    rw [List.length_take_of_le enough, List.take_append_drop]
    exact length
  · cases taken

theorem blob_mixed (fixed : version.usesVarint = false) {b tail rest : Bytes}
    (small : b.length < 128)
    (read : readLength version (writeBlob FormatVersion.current b ++ tail) =
      .ok (b.length, b ++ rest)) : tail = 0 :: 0 :: 0 :: rest := by
  rw [writeBlob, List.append_assoc] at read
  obtain ⟨empty, bytes⟩ := readLength_mixed_same fixed small read
  obtain rfl : b = [] := List.eq_nil_of_length_eq_zero empty
  exact bytes

theorem readBitmapValue_eq_ok {s b rest : Bytes}
    (read : readBitmapValue version s = .ok (.bitmap b, rest)) :
    readLength version s = .ok (b.length, b ++ rest) := by
  cases version with
  | _ =>
      obtain ⟨a, image, length⟩ := sized_eq_ok (fun n => quiet_ensureSize _ _ n _) read
      obtain rfl := Value.bitmap.inj image
      exact length

theorem readHllValue_eq_ok {s rest : Bytes} {hll : Hll}
    (read : readHllValue version s = .ok (.hyperLogLog hll, rest)) :
    hll.encoding.denseData.length = denseArraySize := by
  have full : ∀ a : Bytes, (a.take denseArraySize ++
      List.replicate (denseArraySize - a.length) 0).length = denseArraySize := by
    intro a
    rw [List.length_append, List.length_take, List.length_replicate]
    omega
  cases version with
  | _ =>
      obtain ⟨a, image, -⟩ := sized_eq_ok (fun n => quiet_ensureSize _ _ n _) read
      obtain rfl := Value.hyperLogLog.inj image
      exact full a

theorem counted_mixed {α : Type} (fixed : version.usesVarint = false) {what : String}
    {p : Nat → ZdbReader α} {f : List α → Value} {v : Value} {n : Nat}
    (fits : ∀ items : List α, f items = v → n ≤ items.length ∧ (n = 0 → items = []))
    {s rest : Bytes} (read : (do
      let n ← readCount version what
      let items ← readMany p n
      pure (f items) : ZdbReader Value) (writeLength FormatVersion.current n ++ s) = .ok (v, rest)) :
    f [] = v ∧ s = 0 :: 0 :: 0 :: rest := by
  obtain ⟨count, tail, counted, later⟩ := bind_eq_ok read
  obtain ⟨items, tail', many, made⟩ := bind_eq_ok later
  obtain ⟨image, rfl⟩ := Prod.mk.inj (Except.ok.inj made)
  obtain ⟨length, limit⟩ := readCount_eq_ok counted
  obtain ⟨atLeast, empty⟩ := fits items image
  have limit' : count ≤ 10000000 := limit
  have small : n < 128 := by
    rw [length_of_readMany many] at atLeast
    obtain ⟨first, more, field, size⟩ := writeLength_first n
    rcases size with large | ⟨-, single⟩
    · obtain ⟨a, b, c, d, bytes, value⟩ := readLength_fixed fixed length
      rw [field] at bytes
      obtain ⟨same, -⟩ := List.cons.inj bytes
      rw [same] at large
      omega
    · omega
  obtain ⟨b, c, d, -, value⟩ := readLength_mixed fixed small length
  have zero : n = 0 := by omega
  have none' : items = [] := empty zero
  obtain rfl : count = 0 := by rw [← length_of_readMany many, none', List.length_nil]
  obtain ⟨-, rfl⟩ := Prod.mk.inj (Except.ok.inj many)
  rw [zero] at length
  rw [none'] at image
  exact ⟨image, (readLength_mixed_same fixed (by decide) length).2⟩

/-- A value of the current format that an older format reads back is one of fixed size, or an empty
one whose length is filled up with three zero bytes from what follows. -/
theorem value_mixed (framed : zstd.Framed) (fixed : version.usesVarint = false)
    {depth : Nat} {v : Value} {tail rest : Bytes}
    (read : readValueWithVersion version zstd depth
      (writeValueVersioned FormatVersion.current zstd v ++ tail) = .ok (v, rest)) :
    fixedSize v = true ∨ tail = 0 :: 0 :: 0 :: rest := by
  cases depth with
  | zero => cases read
  | succ depth =>
      unfold writeValueVersioned at read
      simp only [] at read
      by_cases long : shouldCompress (writeValueInner FormatVersion.current v).length = true
      · rw [if_pos long] at read
        exact absurd read (readCompressedValue_mixed framed fixed _ _ _ _)
      · rw [if_neg long] at read
        have small : (writeValueInner FormatVersion.current v).length < 64 := by
          by_contra big
          exact long (decide_eq_true (not_lt.mp big))
        cases v with
        | int i => exact Or.inl rfl
        | float f => exact Or.inl rfl
        | bool b => exact Or.inl rfl
        | null => exact Or.inl rfl
        | list items =>
            rw [writeValueInner] at read
            cases read
        | sstream entries =>
            rw [writeValueInner] at read
            cases read
        | str s =>
            rw [writeValueInner, writeStr] at read small
            have read' : readStringValue version
                (writeBlob FormatVersion.current s ++ tail) = .ok (.str s, rest) := read
            obtain ⟨blob, s', got, made⟩ := bind_eq_ok read'
            obtain ⟨image, rfl⟩ := Prod.mk.inj (Except.ok.inj made)
            obtain rfl := Value.str.inj image
            obtain ⟨tail', length, rfl⟩ := readBlob_eq_ok version got
            rw [writeBlob, List.length_cons, List.length_append] at small
            exact Or.inr (blob_mixed fixed (by omega) length)
        | bitmap s =>
            rw [writeValueInner] at read small
            rw [writeBlob, List.length_cons, List.length_append] at small
            have read' : readBitmapValue version
                (writeBlob FormatVersion.current s ++ tail) = .ok (.bitmap s, rest) := read
            exact Or.inr (blob_mixed fixed (by omega) (readBitmapValue_eq_ok read'))
        | hyperLogLog hll =>
            rw [writeValueInner] at read small
            rw [writeBlob, List.length_cons, List.length_append] at small
            have read' : readHllValue version (writeBlob FormatVersion.current
                hll.encoding.denseData ++ tail) = .ok (.hyperLogLog hll, rest) := read
            have full : hll.encoding.denseData.length = 16384 := readHllValue_eq_ok read'
            omega
        | array items =>
            rw [writeValueInner] at read
            have read' : readArrayValue version (readValueWithVersion version zstd depth)
                (writeLength FormatVersion.current items.length ++
                  (writeItems FormatVersion.current items ++ tail)) = .ok (.array items, rest) := by
              rw [← List.append_assoc]
              exact read
            obtain ⟨image, bytes⟩ := counted_mixed fixed (fun items' image => by
              rw [Value.array.inj image]
              exact ⟨Nat.le_refl _, List.eq_nil_of_length_eq_zero⟩) read'
            obtain rfl := Value.array.inj image
            exact Or.inr bytes
        | hash entries =>
            rw [writeValueInner] at read
            have read' : readHashValue version (readValueWithVersion version zstd depth)
                (writeLength FormatVersion.current entries.length ++ ((entries.flatMap fun e =>
                  writeBlob FormatVersion.current e.1 ++ writeStr FormatVersion.current e.2) ++ tail)) =
                .ok (.hash entries, rest) := by
              rw [← List.append_assoc]
              exact read
            obtain ⟨image, bytes⟩ := counted_mixed fixed (fun items image => by
              rw [← Value.hash.inj image]
              exact length_foldl (fun m e => length_insert_le m e.1 e.2)
                (fun m e => insert_ne_nil m e.1 e.2) items) read'
            obtain rfl := Value.hash.inj image
            exact Or.inr bytes
        | set members =>
            rw [writeValueInner] at read
            have read' : readSetValue version (writeLength FormatVersion.current members.length ++
                (members.flatMap (writeBlob FormatVersion.current) ++ tail)) =
                .ok (.set members, rest) := by
              rw [← List.append_assoc]
              exact read
            obtain ⟨image, bytes⟩ := counted_mixed fixed (fun items image => by
              rw [← Value.set.inj image]
              exact length_foldl length_addMember_le addMember_ne_nil items) read'
            obtain rfl := Value.set.inj image
            exact Or.inr bytes
        | zset dict sorted =>
            rw [writeValueInner] at read
            have read' : readZSetValue version (writeLength FormatVersion.current dict.length ++
                ((sorted.flatMap fun e => writeBlob FormatVersion.current e.2 ++ writeF64 e.1) ++
                  tail)) = .ok (.zset dict sorted, rest) := by
              rw [← List.append_assoc]
              exact read
            obtain ⟨image, bytes⟩ := counted_mixed fixed (fun items image => by
              rw [← (Value.zset.inj image).1]
              exact length_foldl (fun m e => length_insert_le m e.1 e.2)
                (fun m e => insert_ne_nil m e.1 e.2) items) read'
            obtain ⟨rfl, rfl⟩ := Value.zset.inj image
            exact Or.inr bytes

end

section

variable {version : FormatVersion} {zstd : Zstd} {depth : Nat}

theorem entries_eq_cons {fuel recordsParsed : Nat} {b : Bytes} {e : Sds × Value}
    {l : List (Sds × Value)}
    (met : entries version zstd depth fuel recordsParsed b = (e :: l, .ok ())) :
    ∃ fuel' peek s rest, b = peek :: s ∧ peek ≠ tagEof ∧
      readEntryFrom version zstd depth peek s = .ok (e, rest) ∧
      entries version zstd depth fuel' (recordsParsed + 1) rest = (l, .ok ()) := by
  cases fuel with
  | zero => cases met
  | succ fuel =>
      rw [entries] at met
      cases run : readNextEntry version zstd depth recordsParsed b with
      | error e =>
          rw [run] at met
          cases met
      | ok r =>
          obtain ⟨entry, rest⟩ := r
          rw [run] at met
          cases entry with
          | none => cases met
          | some e' =>
              obtain ⟨records, outcome⟩ := Prod.mk.inj met
              obtain ⟨rfl, rfl⟩ := List.cons.inj records
              cases b with
              | nil =>
                  rw [readNextEntry] at run
                  split at run
                  · cases run
                  · cases run
              | cons peek s =>
                  rw [readNextEntry] at run
                  split at run
                  · cases run
                  · rename_i open'
                    refine ⟨fuel, peek, s, rest, rfl, open', ?_, Prod.ext rfl outcome⟩
                    cases entry : readEntryFrom version zstd depth peek s with
                    | error e =>
                        rw [entry] at run
                        cases run
                    | ok r =>
                        rw [entry] at run
                        obtain ⟨same, rfl⟩ := Prod.mk.inj (Except.ok.inj run)
                        obtain rfl := Option.some.inj same
                        rfl

theorem readEntryFrom_eq_ok {peek : UInt8} {s rest : Bytes} {e : Sds × Value}
    (read : readEntryFrom version zstd depth peek s = .ok (e, rest)) :
    ∃ tail, readLength version (peek :: s) = .ok (e.1.length, e.1 ++ tail) ∧
      e.1.length ≤ maxKeySize ∧
      readValueWithVersion version zstd depth tail = .ok (e.2, rest) := by
  obtain ⟨keyLen, tail, length, later⟩ := bind_eq_ok read
  obtain ⟨done, tail', checked, later'⟩ := bind_eq_ok later
  obtain ⟨key, tail'', taken, later''⟩ := bind_eq_ok later'
  obtain ⟨value, rest', valued, made⟩ := bind_eq_ok later''
  obtain ⟨rfl, rfl⟩ := Prod.mk.inj (Except.ok.inj made)
  obtain ⟨limit, rfl⟩ := ensureSize_eq_ok checked
  rw [Reader.take] at taken
  split at taken
  · rename_i enough
    obtain ⟨rfl, rfl⟩ := Prod.mk.inj (Except.ok.inj taken)
    have size : (tail'.take keyLen).length = keyLen := List.length_take_of_le enough
    refine ⟨tail'.drop keyLen, ?_, ?_, valued⟩
    · rw [parserKeyLength_eq_ok] at length
      rw [size, List.take_append_drop]
      exact length
    · rw [size]
      exact limit
  · cases taken

theorem record_eq_ok (fixed : version.usesVarint = false) {fuel recordsParsed : Nat}
    {e : Sds × Value} {l : List (Sds × Value)} {tail : Bytes}
    (met : entries version zstd depth fuel recordsParsed (transformRecord zstd e ++ tail) =
      (e :: l, .ok ())) :
    e.1.length ≤ maxKeySize ∧ ∃ fuel' rest, readValueWithVersion version zstd depth
        (writeValueVersioned FormatVersion.current zstd e.2 ++ tail) = .ok (e.2, rest) ∧
      entries version zstd depth fuel' (recordsParsed + 1) rest = (l, .ok ()) := by
  obtain ⟨fuel', peek, s, rest, bytes, -, read, later⟩ := entries_eq_cons met
  obtain ⟨tail', length, limit, value⟩ := readEntryFrom_eq_ok read
  refine ⟨limit, fuel', rest, ?_, later⟩
  rw [← bytes, transformRecord, List.append_assoc, List.append_assoc, readLength, fixed,
    if_neg Bool.false_ne_true, bind_of_ok (reads_take_of_length (length_beBytes 4 _) _)] at length
  obtain ⟨-, after⟩ := Prod.mk.inj (Except.ok.inj length)
  rw [List.append_cancel_left_eq] at after
  rw [after]
  exact value

theorem beBytes_word {n : Nat} (limit : n ≤ maxKeySize) :
    ∃ x y z w : UInt8, beBytes 4 n = [x, y, z, w] ∧ x.toNat = n / 2 ^ 24 ∧
      y.toNat = n / 2 ^ 16 % 256 ∧ z.toNat = n / 2 ^ 8 % 256 ∧ w.toNat = n % 256 := by
  have bound : n ≤ 536870912 := limit
  have powers : 256 ^ 3 = 2 ^ 24 ∧ 256 ^ 2 = 2 ^ 16 ∧ 256 ^ 1 = 2 ^ 8 ∧ 256 ^ 0 = 1 := by decide
  obtain ⟨third, second, first, zeroth⟩ := powers
  refine ⟨_, _, _, _, rfl, ?_, ?_, ?_, ?_⟩
  · rw [UInt8.toNat_ofNat', third]
    omega
  · rw [UInt8.toNat_ofNat', second]
  · rw [UInt8.toNat_ofNat', first]
  · rw [UInt8.toNat_ofNat', zeroth, Nat.div_one]

theorem writeValueVersioned_head (zstd : Zstd) (v : Value) :
    ∃ tag body, writeValueVersioned FormatVersion.current zstd v = tag :: body ∧ tag ≠ 0 := by
  unfold writeValueVersioned
  simp only []
  split
  · exact ⟨_, _, rfl, by decide⟩
  · cases v with
    | _ => exact ⟨_, _, rfl, by decide⟩

theorem not_shifted (fixed : version.usesVarint = false) {fuel recordsParsed : Nat}
    {l : List (Sds × Value)} {rest : Bytes}
    (shape : l.flatMap (transformRecord zstd) ++ [tagEof] = 0 :: 0 :: 0 :: rest)
    (met : entries version zstd depth fuel recordsParsed rest = (l, .ok ())) : False := by
  cases l with
  | nil => exact absurd (List.cons.inj shape).1 (by decide)
  | cons e l =>
      obtain ⟨fuel', peek, s, rest', rfl, -, read, -⟩ := entries_eq_cons met
      obtain ⟨tail, length, limit, -⟩ := readEntryFrom_eq_ok read
      obtain ⟨x, y, z, w, word, high, middle, low, last⟩ := beBytes_word limit
      obtain ⟨tag, body, value, some'⟩ := writeValueVersioned_head zstd e.2
      rw [List.flatMap_cons, transformRecord, word, value] at shape
      simp only [List.cons_append, List.nil_append, List.append_assoc, List.cons.injEq] at shape
      obtain ⟨rfl, rfl, rfl, head, after⟩ := shape
      obtain ⟨a, b, c, d, bytes, number⟩ := readLength_fixed fixed length
      obtain ⟨same, more⟩ := List.cons.inj bytes
      rw [head, same] at last
      have zero : (0 : UInt8).toNat = 0 := rfl
      have bound : e.1.length ≤ 536870912 := limit
      have none' : e.1.length = 0 := by omega
      rw [← after, List.eq_nil_of_length_eq_zero none', List.nil_append] at more
      obtain ⟨first, -⟩ := List.cons.inj more
      exact some' (first.trans (UInt8.toNat_inj.mp (by omega)))

theorem readVarint_one {byte : UInt8} (small : byte.toNat < 128) (s : Bytes) :
    readVarint (byte :: s) = .ok (byte.toNat, s) := by
  have low : byte.toNat % 128 = byte.toNat := Nat.mod_eq_of_lt small
  have word : byte.toNat % 2 ^ 32 = byte.toNat := Nat.mod_eq_of_lt (by omega)
  rw [readVarint, maxVarintLen, varintLoop,
    bind_of_ok (show Reader.next _ (byte :: s) = .ok (byte, s) from rfl)]
  simp only [if_pos small, Nat.pow_zero, Nat.mul_one, Nat.zero_add, low, word]
  rfl

theorem not_varint_record (varint : version.usesVarint = true) {fuel recordsParsed : Nat}
    {e : Sds × Value} {l : List (Sds × Value)} {tail : Bytes}
    (met : entries version zstd depth fuel recordsParsed (transformRecord zstd e ++ tail) =
      (e :: l, .ok ())) : False := by
  obtain ⟨fuel', peek, s, rest, bytes, -, read, -⟩ := entries_eq_cons met
  obtain ⟨tail', length, limit, value⟩ := readEntryFrom_eq_ok read
  obtain ⟨x, y, z, w, word, high, middle, low, last⟩ := beBytes_word limit
  have bound : e.1.length ≤ 536870912 := limit
  rw [transformRecord, word] at bytes
  simp only [List.cons_append, List.nil_append, List.cons.injEq] at bytes
  obtain ⟨rfl, rfl⟩ := bytes
  rw [readLength, varint, if_pos rfl, readVarint_one (by omega)] at length
  obtain ⟨same, after⟩ := Prod.mk.inj (Except.ok.inj length)
  have empty : e.1 = [] := List.eq_nil_of_length_eq_zero (by omega)
  have none' : y.toNat = 0 := by omega
  have zero : y = 0 := UInt8.toNat_inj.mp none'
  rw [empty] at after
  change _ = tail' at after
  rw [← after, zero] at value
  cases depth with
  | zero => cases value
  | succ depth => cases value

theorem reads_fixedSize {v : Value} (size : fixedSize v = true) :
    Reads (readValueWithVersion version zstd (depth + 1))
      (writeValueVersioned FormatVersion.current zstd v) v := by
  cases v with
  | int i => exact reads_tagged (reads_readIntValue i)
  | float f => exact reads_tagged (reads_readF64 f _).bind_pure
  | bool b =>
      cases b with
      | true => exact reads_tagged (reads_next _ 1).bind_pure
      | false => exact reads_tagged (reads_next _ 0).bind_pure
  | null => exact reads_tagged (reads_pure _)
  | _ => cases size

theorem writeValueVersioned_fixedSize {v : Value} (size : fixedSize v = true) :
    writeValueVersioned FormatVersion.current zstd v = writeValueVersioned version zstd v := by
  cases v with
  | int i => rfl
  | float f => rfl
  | bool b => rfl
  | null => rfl
  | _ => cases size

theorem transformRecord_eq (fixed : version.usesVarint = false) {e : Sds × Value}
    (size : fixedSize e.2 = true) : transformRecord zstd e = streamRecord version zstd e := by
  have length : writeLength version e.1.length = beBytes 4 e.1.length := by
    rw [writeLength, fixed, if_neg Bool.false_ne_true]
  rw [transformRecord, streamRecord, writeBlob, length, List.append_assoc,
    writeValueVersioned_fixedSize size]

theorem carries_of_entries (framed : zstd.Framed) (fixed : version.usesVarint = false)
    {records : List (Sds × Value)} {fuel recordsParsed : Nat}
    (met : entries version zstd (depth + 1) fuel recordsParsed
      (records.flatMap (transformRecord zstd) ++ [tagEof]) = (records, .ok ())) :
    ∀ e ∈ records, e.1.length ≤ maxKeySize ∧ fixedSize e.2 = true := by
  induction records generalizing fuel recordsParsed with
  | nil => exact fun e member => absurd member List.not_mem_nil
  | cons e l ih =>
      rw [List.flatMap_cons, List.append_assoc] at met
      obtain ⟨limit, fuel', rest, value, later⟩ := record_eq_ok fixed met
      rcases value_mixed framed fixed value with size | shifted
      · have whole := @reads_fixedSize version zstd depth e.2 size
          (l.flatMap (transformRecord zstd) ++ [tagEof])
        rw [whole] at value
        obtain ⟨-, rfl⟩ := Prod.mk.inj (Except.ok.inj value)
        intro e' member
        rcases List.mem_cons.mp member with rfl | member
        · exact ⟨limit, size⟩
        · exact ih later e' member
      · exact (not_shifted fixed shifted later).elim

theorem entries_of_carries (fixed : version.usesVarint = false)
    {records : List (Sds × Value)}
    (carries : ∀ e ∈ records, e.1.length ≤ maxKeySize ∧ fixedSize e.2 = true) {fuel : Nat}
    (enough : (records.flatMap (transformRecord zstd) ++ [tagEof]).length < fuel)
    (recordsParsed : Nat) :
    entries version zstd (depth + 1) fuel recordsParsed
      (records.flatMap (transformRecord zstd) ++ [tagEof]) = (records, .ok ()) := by
  induction records generalizing fuel recordsParsed with
  | nil =>
      cases fuel with
      | zero => exact absurd enough (Nat.not_lt_zero _)
      | succ fuel => rfl
  | cons e l ih =>
      cases fuel with
      | zero => exact absurd enough (Nat.not_lt_zero _)
      | succ fuel =>
          obtain ⟨limit, size⟩ := carries e (by simp)
          have unmarked : marksEnd version e.1.length = false := by rw [marksEnd, fixed]; rfl
          have value : writeValueVersioned FormatVersion.current zstd e.2 =
              writeValueVersioned version zstd e.2 := writeValueVersioned_fixedSize size
          have reads := @reads_fixedSize version zstd depth e.2 size
          rw [value] at reads
          have next := readNextEntry_record limit unmarked reads recordsParsed
            (l.flatMap (transformRecord zstd) ++ [tagEof])
          have field : 4 ≤ (transformRecord zstd e).length := by
            rw [transformRecord, List.length_append, length_beBytes]
            omega
          have shorter : (l.flatMap (transformRecord zstd) ++ [tagEof]).length < fuel := by
            rw [List.flatMap_cons, List.append_assoc, List.length_append] at enough
            omega
          have later := ih (fun e' member => carries e' (List.mem_cons_of_mem _ member)) shorter
            (recordsParsed + 1)
          rw [List.flatMap_cons, List.append_assoc, transformRecord_eq fixed size, entries,
            next]
          simp only [later]

theorem entries_transformed_iff (framed : zstd.Framed) {records : List (Sds × Value)} {fuel : Nat}
    (enough : (records.flatMap (transformRecord zstd) ++ [tagEof]).length < fuel)
    (recordsParsed : Nat) :
    entries version zstd (depth + 1) fuel recordsParsed
        (records.flatMap (transformRecord zstd) ++ [tagEof]) = (records, .ok ()) ↔
      Carries version records := by
  unfold Carries
  cases varint : version.usesVarint with
  | true =>
      rw [if_pos rfl]
      cases records with
      | nil =>
          cases fuel with
          | zero => exact absurd enough (Nat.not_lt_zero _)
          | succ fuel => exact ⟨fun _ => rfl, fun _ => rfl⟩
      | cons e l =>
          rw [List.flatMap_cons, List.append_assoc]
          exact ⟨fun met => (not_varint_record varint met).elim, fun none' => by cases none'⟩
  | false =>
      rw [if_neg Bool.false_ne_true]
      exact ⟨carries_of_entries framed varint, fun carries =>
        entries_of_carries varint carries enough recordsParsed⟩

end

theorem accepted_parts {zstd : Zstd} {depth : Nat} {readerVersion : FormatVersion} {b : Bytes}
    {items : List (Sds × Value)}
    (accepted : parse readerVersion zstd depth collectHandler b [] = (.ok (), items)) :
    ∃ version rest, readAndValidateHeader b = .ok (version, rest) ∧
      readerVersion.canRead version = true ∧
      entries version zstd depth (rest.length + 1) 0 rest = (items, .ok ()) := by
  rw [parse] at accepted
  cases header : readAndValidateHeader b with
  | error e =>
      rw [header] at accepted
      cases accepted
  | ok r =>
      obtain ⟨version, rest⟩ := r
      refine ⟨version, rest, rfl, ?_⟩
      rw [header] at accepted
      dsimp only at accepted
      by_cases known : readerVersion.canRead version = true
      · refine ⟨known, ?_⟩
        rw [if_pos known] at accepted
        change parseLoop version zstd depth collectHandler (rest.length + 1) 0 rest [] = _ at accepted
        rw [parseLoop_of_takes collectHandler_takes, List.foldl_append_eq_append,
          ← List.flatMap_def, List.flatMap_singleton', List.nil_append] at accepted
        obtain ⟨outcome, records⟩ := Prod.mk.inj accepted
        cases ends : (entries version zstd depth (rest.length + 1) 0 rest).2 with
        | error e =>
            rw [ends] at outcome
            cases outcome
        | ok done => exact Prod.ext records ends
      · rw [if_neg known] at accepted
        cases accepted

/-- From a dump that the parser accepts the handler writes bytes that are read back as the records
it has written exactly when the version of the dump can take these records. -/
theorem transform_rereads_iff {zstd : Zstd} (framed : zstd.Framed) {depth : Nat}
    {readerVersion : FormatVersion} {b : Bytes} {items : List (Sds × Value)}
    (accepted : parse readerVersion zstd depth collectHandler b [] = (.ok (), items))
    (transform : Sds → Value → Option (Sds × Value)) (depth' : Nat) :
    ∃ version rest written, readAndValidateHeader b = .ok (version, rest) ∧
      parse readerVersion zstd depth (transformHandler zstd transform) b ([], 0) =
        (.ok (), (written, (items.filterMap fun e => transform e.1 e.2).length)) ∧
      (parse readerVersion zstd (depth' + 1) collectHandler written [] =
          (.ok (), items.filterMap fun e => transform e.1 e.2) ↔
        Carries version (items.filterMap fun e => transform e.1 e.2)) := by
  obtain ⟨version, rest, header, known, met⟩ := accepted_parts accepted
  refine ⟨version, rest, fileMagic ++ version.code :: ((items.filterMap fun e =>
    transform e.1 e.2).flatMap (transformRecord zstd) ++ [tagEof]), header, ?_, ?_⟩
  · rw [parse, header]
    dsimp only
    rw [if_pos known]
    exact (parseLoop_transform met (Nat.lt_succ_self _) _ 0).trans (by simp)
  · rw [parse_collect known,
      ← @entries_transformed_iff version zstd depth' framed _ _ (Nat.lt_succ_self _) 0]
    constructor
    · intro run
      obtain ⟨outcome, records⟩ := Prod.mk.inj run
      refine Prod.ext records ?_
      revert outcome
      cases (entries version zstd (depth' + 1) _ 0 _).2 with
      | error e => exact fun outcome => by cases outcome
      | ok done => exact fun _ => rfl
    · intro met'
      rw [met']
      rfl

theorem storing_framed : storing.Framed where
  magic b := ⟨b, rfl⟩
  not_frame b := by simp [storing]

set_option maxRecDepth 2000 in
/-- A record with a number and one that is left out, in the older format. -/
theorem transform_rereads_number :
    ∃ version rest written,
      readAndValidateHeader (writeStreamVersioned .v2 storing [([107], .int 7), ([2], .str [])]) =
        .ok (version, rest) ∧
      parse .v3 storing 64 (transformHandler storing fun key value =>
          if fixedSize value then some (key ++ key, value) else none)
          (writeStreamVersioned .v2 storing [([107], .int 7), ([2], .str [])]) ([], 0) =
        (.ok (), (written, 1)) ∧
      (parse .v3 storing 64 collectHandler written [] = (.ok (), [([107, 107], .int 7)]) ↔
        Carries version [([107, 107], .int 7)]) := by
  have accepted : parse .v3 storing 64 collectHandler
      (writeStreamVersioned .v2 storing [([107], .int 7), ([2], .str [])]) [] =
      (.ok (), [([107], .int 7), ([2], .str [])]) := rfl
  exact transform_rereads_iff storing_framed accepted (fun key value =>
    if fixedSize value then some (key ++ key, value) else none) 63

/-- In the current format not even the unchanged record is read back: the first byte of its key
length is taken for all of it, and the second one for a tag. -/
theorem transform_identity_v3 :
    parse .v3 storing 64 collectHandler (writeStreamVersioned .v3 storing [([107], .int 7)]) [] =
        (.ok (), [([107], .int 7)]) ∧
      parse .v3 storing 64 (transformHandler storing fun key value => some (key, value))
          (writeStreamVersioned .v3 storing [([107], .int 7)]) ([], 0) =
        (.ok (), (fileMagic ++ [3, 0, 0, 0, 1, 107, 2, 0, 0, 0, 0, 0, 0, 0, 7, 255], 1)) ∧
      parse .v3 storing 64 collectHandler
          (fileMagic ++ [3, 0, 0, 0, 1, 107, 2, 0, 0, 0, 0, 0, 0, 0, 7, 255]) [] =
        (.error (.zdb (.invalidTag 0)), []) :=
  ⟨rfl, rfl, rfl⟩

end Zumic.Zdb
