/- Whole numbers as strings (`sds_numeric.rs`): rendered from the back of a buffer, and read. -/

import Zumic.Commands.Counters
import Zumic.Database.Sds

namespace Zumic.Database.SdsNumeric

open Commands Database.Sds Lib Lib.Buffer Lib.ByteString Lib.Decimal Lib.Utf8

/-- The loop of both writers: a digit is written in front of those that are there already. -/
def writeDigits : Nat → UInt64 → Bytes → Except Fault (Nat × Bytes)
  | pos, magnitude, buf =>
      if magnitude = 0 then .ok (pos, buf)
      else
        match pos with
        | 0 => .error .underflow
        | pos + 1 => do
            let buf ← Buffer.write buf pos [48 + (magnitude % 10).toUInt8]
            writeDigits pos (magnitude / 10) buf

def unsignedAbs (n : Int64) : UInt64 := (if n < 0 then -n else n).toUInt64

def writeI64 (n : Int64) (buf : Bytes) : Except Fault Bytes :=
  if n = 0 then do
    let buf ← Buffer.write buf 0 [48]
    slice buf 0 1
  else do
    let (pos, buf) ← writeDigits 20 (unsignedAbs n) buf
    if n < 0 then do
      let pos ← Buffer.sub pos 1
      let buf ← Buffer.write buf pos [45]
      slice buf pos 20
    else slice buf pos 20

def writeU64 (n : UInt64) (buf : Bytes) : Except Fault Bytes :=
  if n = 0 then do
    let buf ← Buffer.write buf 0 [48]
    slice buf 0 1
  else do
    let (pos, buf) ← writeDigits 20 n buf
    slice buf pos 20

def fromI64 (n : Int64) : Except Fault Repr := do
  let written ← writeI64 n (List.replicate 20 0)
  fromBytes written

def fromU64 (n : UInt64) : Except Fault Repr := do
  let written ← writeU64 n (List.replicate 20 0)
  fromBytes written

/-- The errors of the standard library's reader. -/
inductive IntErrorKind where
  | empty
  | invalidDigit
  | posOverflow
  | negOverflow
  deriving DecidableEq

/-- A digit more, on the side of zero where `limit` is the first number that does not fit. -/
def pushWithin (overflow : IntErrorKind) (limit result : Nat) (b : UInt8) :
    Except IntErrorKind Nat :=
  if isDigit b then
    if result * 10 + (b.toNat - 48) < limit then .ok (result * 10 + (b.toNat - 48))
    else .error overflow
  else .error .invalidDigit

/-- `str::parse::<i64>`. -/
def strParse : Bytes → Except IntErrorKind Int64
  | [] => .error .empty
  | [45] => .error .invalidDigit
  | [43] => .error .invalidDigit
  | 45 :: digits =>
      (digits.foldlM (pushWithin .negOverflow (2 ^ 63 + 1)) 0).map fun n : Nat => Int64.ofInt (-n)
  | 43 :: digits =>
      (digits.foldlM (pushWithin .posOverflow (2 ^ 63)) 0).map fun n : Nat => Int64.ofInt n
  | digits =>
      (digits.foldlM (pushWithin .posOverflow (2 ^ 63)) 0).map fun n : Nat => Int64.ofInt n

def ofIntErrorKind : IntErrorKind → SdsNumericError
  | .posOverflow => .overflow
  | .negOverflow => .overflow
  | .empty => .empty
  | .invalidDigit => .invalidInteger

def toI64 (s : Repr) : Except Fault (Except SdsNumericError Int64) := do
  let bytes ← asSlice s
  if bytes = [] then pure (.error .empty)
  else
    match Str.fromUtf8 bytes with
    | none => pure (.error .invalidUtf8)
    | some text => pure ((strParse text.bytes).mapError ofIntErrorKind)

/-- The number that digits denote. -/
def valueOf (digits : Bytes) : Nat := Nat.ofDigits 10 (digits.reverse.map fun x => x.toNat - 48)

/-- Digits without a zero in front. -/
structure Canonical (b : Bytes) (n : Nat) : Prop where
  nonempty : b ≠ []
  digits : ∀ x ∈ b, isDigit x = true
  lead : b.head? = some 48 → b = [48]
  value : valueOf b = n

/-- An optional sign and digits. -/
inductive Numeral : Bytes → Int → Prop
  | plain {b : Bytes} (nonempty : b ≠ []) (digits : ∀ x ∈ b, isDigit x = true) :
      Numeral b (valueOf b)
  | plus {b : Bytes} (nonempty : b ≠ []) (digits : ∀ x ∈ b, isDigit x = true) :
      Numeral (43 :: b) (valueOf b)
  | minus {b : Bytes} (nonempty : b ≠ []) (digits : ∀ x ∈ b, isDigit x = true) :
      Numeral (45 :: b) (-valueOf b)

theorem valueOf_eq_foldl (digits : Bytes) :
    valueOf digits = digits.foldl (fun acc x => acc * 10 + (x.toNat - 48)) 0 := by
  unfold valueOf
  rw [Nat.ofDigits_eq_foldr, List.foldr_map, List.foldr_reverse]
  congr 1
  funext acc x
  simp [Nat.add_comm, Nat.mul_comm]

theorem readNat_eq_some_iff {b : Bytes} {n : Nat} :
    readNat b = some n ↔ b ≠ [] ∧ (∀ x ∈ b, isDigit x = true) ∧ valueOf b = n := by
  unfold readNat
  rw [valueOf_eq_foldl, ← List.all_eq_true]
  split
  · rename_i digits
    rw [Option.some.injEq]
    exact ⟨fun same => ⟨digits.1, digits.2, same⟩, fun all => all.2.2⟩
  · rename_i other
    constructor
    · intro none
      cases none
    · rintro ⟨nonempty, digits, -⟩
      exact absurd ⟨nonempty, digits⟩ other

theorem canonical_renderNat (n : Nat) : Canonical (renderNat n) n := by
  obtain ⟨nonempty, digits, value⟩ := readNat_eq_some_iff.mp (readNat_renderNat n)
  refine ⟨nonempty, digits, fun zero => ?_, value⟩
  by_cases none : n = 0
  · rw [renderNat, if_pos none]
  · rw [renderNat, if_neg none] at zero
    have some := (@Nat.digits_ne_nil_iff_ne_zero 10 n).mpr none
    rw [List.head?_map, List.head?_reverse, List.getLast?_eq_some_getLast some,
      Option.map_some, Option.some.injEq] at zero
    have low : (Nat.digits 10 n).getLast some < 10 :=
      Nat.digits_lt_base (by decide) (List.getLast_mem some)
    have first := congrArg UInt8.toNat zero
    rw [digitByte, UInt8.toNat_ofNat'] at first
    have top := Nat.getLast_digit_ne_zero 10 none
    have code : (48 : UInt8).toNat = 48 := rfl
    omega

theorem readInt_eq_some_iff {b : Bytes} {i : Int} : readInt b = some i ↔ Numeral b i := by
  constructor
  · intro read
    unfold readInt at read
    split at read
    all_goals
      obtain ⟨n, found, rfl⟩ := Option.map_eq_some_iff.mp read
      obtain ⟨nonempty, digits, rfl⟩ := readNat_eq_some_iff.mp found
    · exact .minus nonempty digits
    · exact .plus nonempty digits
    · exact .plain nonempty digits
  · intro numeral
    cases numeral with
    | @minus b nonempty digits =>
        have found := readNat_eq_some_iff.mpr ⟨nonempty, digits, rfl⟩
        simp only [readInt, found, Option.map_some]
    | @plus b nonempty digits =>
        have found := readNat_eq_some_iff.mpr ⟨nonempty, digits, rfl⟩
        simp only [readInt, found, Option.map_some]
    | plain nonempty digits =>
        have found := readNat_eq_some_iff.mpr ⟨nonempty, digits, rfl⟩
        unfold readInt
        split
        · have minus := digits 45 List.mem_cons_self
          cases minus
        · have plus := digits 43 List.mem_cons_self
          cases plus
        · rw [found, Option.map_some]

theorem digitByte_eq (magnitude : UInt64) :
    48 + (magnitude % 10).toUInt8 = digitByte (magnitude.toNat % 10) := by
  apply UInt8.toNat_inj.mp
  have ten : (10 : UInt64).toNat = 10 := rfl
  have code : (48 : UInt8).toNat = 48 := rfl
  rw [digitByte, UInt8.toNat_ofNat', UInt8.toNat_add, UInt64.toNat_toUInt8, UInt64.toNat_mod, ten,
    code]
  omega

/-- The digits take the end of the space in front of what is written, and no more. -/
theorem writeDigits_spec {front back : Bytes} {magnitude : UInt64}
    (room : (Nat.digits 10 magnitude.toNat).length ≤ front.length) :
    ∃ left : Bytes, writeDigits front.length magnitude (front ++ back) =
        .ok (left.length,
          left ++ ((Nat.digits 10 magnitude.toNat).reverse.map digitByte ++ back)) ∧
      left.length + (Nat.digits 10 magnitude.toNat).length = front.length := by
  induction front using List.reverseRecOn generalizing back magnitude with
  | nil =>
      have none : magnitude = 0 := by
        have short := List.length_eq_zero_iff.mp (Nat.le_zero.mp room)
        exact UInt64.toNat_inj.mp (Nat.digits_eq_nil_iff_eq_zero.mp short)
      subst none
      exact ⟨[], rfl, rfl⟩
  | append_singleton front x ih =>
      by_cases none : magnitude = 0
      · subst none
        refine ⟨front ++ [x], ?_, rfl⟩
        unfold writeDigits
        rw [if_pos rfl]
        rfl
      · have ten : (10 : UInt64).toNat = 10 := rfl
        have quotient : (magnitude / 10).toNat = magnitude.toNat / 10 := by
          rw [UInt64.toNat_div, ten]
        have positive : magnitude.toNat ≠ 0 := fun zero => none (UInt64.toNat_inj.mp zero)
        have digits := Nat.digits_eq_cons_digits_div (b := 10) (by decide) positive
        rw [digits, List.length_cons, List.length_append, List.length_singleton] at room
        have rest : (Nat.digits 10 (magnitude / 10).toNat).length ≤ front.length := by
          rw [quotient]
          omega
        have stored : Buffer.write (front ++ [x] ++ back) front.length
            [48 + (magnitude % 10).toUInt8] =
            .ok (front ++ [48 + (magnitude % 10).toUInt8] ++ back) := write_middle rfl rfl
        obtain ⟨left, done, sum⟩ :=
          @ih ((48 + (magnitude % 10).toUInt8) :: back) (magnitude / 10) rest
        refine ⟨left, ?_, ?_⟩
        · rw [List.length_append, List.length_singleton]
          unfold writeDigits
          rw [if_neg none]
          simp only [stored, ok_bind]
          rw [List.append_assoc, List.singleton_append, done, digits, quotient, digitByte_eq]
          simp
        · rw [digits, List.length_append, List.length_cons, List.length_singleton]
          rw [quotient] at sum
          omega

theorem toNat_unsignedAbs (n : Int64) : (unsignedAbs n).toNat = n.toInt.natAbs := by
  have whole := BitVec.toInt_eq_toNat_cond n.toBitVec
  rw [Int64.toInt_toBitVec] at whole
  have bound := n.toBitVec.isLt
  have zero : (0 : Int64).toInt = 0 := rfl
  have sign : n < 0 ↔ n.toInt < 0 := by rw [Int64.lt_iff_toInt_lt, zero]
  unfold unsignedAbs
  by_cases negative : n < 0
  · have low := sign.mp negative
    have turned : (-n).toUInt64.toNat = (2 ^ 64 - n.toBitVec.toNat) % 2 ^ 64 :=
      BitVec.toNat_neg n.toBitVec
    rw [if_pos negative, turned]
    split at whole <;> omega
  · have high : ¬ n.toInt < 0 := fun low => negative (sign.mpr low)
    have same : n.toUInt64.toNat = n.toBitVec.toNat := rfl
    rw [if_neg negative, same]
    split at whole <;> omega

/-- A buffer without a spare byte is enough for the digits of any number. -/
theorem writeDigits_buffer {magnitude : UInt64} {k : Nat} (small : magnitude.toNat < 10 ^ k)
    (fits : k ≤ 20) :
    ∃ left : Bytes, writeDigits 20 magnitude (List.replicate 20 0) =
        .ok (left.length, left ++ (Nat.digits 10 magnitude.toNat).reverse.map digitByte) ∧
      left.length + (Nat.digits 10 magnitude.toNat).length = 20 ∧ 20 - k ≤ left.length := by
  have short := (Nat.digits_length_le_iff (by decide) magnitude.toNat).mpr small
  have room : (Nat.digits 10 magnitude.toNat).length ≤ (List.replicate 20 (0 : UInt8)).length := by
    rw [List.length_replicate]
    omega
  obtain ⟨left, done, sum⟩ := @writeDigits_spec _ [] _ room
  rw [List.append_nil, List.append_nil, List.length_replicate] at done
  rw [List.length_replicate] at sum
  exact ⟨left, done, sum, by omega⟩

theorem write_zero : (do
    let buf ← Buffer.write (List.replicate 20 0) 0 [48]
    slice buf 0 1) = .ok (renderNat 0) := rfl

theorem writeU64_eq (n : UInt64) : writeU64 n (List.replicate 20 0) = .ok (renderNat n.toNat) := by
  unfold writeU64
  by_cases none : n = 0
  · subst none
    rw [if_pos rfl]
    exact write_zero
  · have positive : n.toNat ≠ 0 := fun zero => none (UInt64.toNat_inj.mp zero)
    have small : n.toNat < 10 ^ 20 := lt_trans n.toNat_lt (by norm_num)
    obtain ⟨left, done, sum, -⟩ := writeDigits_buffer small (le_refl 20)
    rw [if_neg none, done, ok_bind, renderNat, if_neg positive,
      ← List.append_nil (left ++ _)]
    exact slice_middle rfl (by simpa using sum.symm)

theorem writeI64_eq (n : Int64) : writeI64 n (List.replicate 20 0) = .ok (renderInt n.toInt) := by
  unfold writeI64
  by_cases none : n = 0
  · subst none
    rw [if_pos rfl]
    exact write_zero
  · have zero : (0 : Int64).toInt = 0 := rfl
    have positive : n.toInt ≠ 0 := fun same => none (Int64.toInt_inj.mp (same.trans zero.symm))
    have low := Int64.le_toInt n
    have high := Int64.toInt_lt n
    have magnitude := toNat_unsignedAbs n
    have small : (unsignedAbs n).toNat < 10 ^ 19 := by
      rw [magnitude]
      omega
    obtain ⟨left, done, sum, spare⟩ := writeDigits_buffer small (by decide)
    rw [magnitude] at done sum
    have digits : renderNat n.toInt.natAbs =
        (Nat.digits 10 n.toInt.natAbs).reverse.map digitByte := if_neg (by omega)
    rw [← digits] at done
    have width := congrArg List.length digits
    rw [List.length_map, List.length_reverse] at width
    rw [if_neg none, done, ok_bind, renderInt]
    dsimp only
    by_cases negative : n < 0
    · have below : n.toInt < 0 := by
        rw [← zero]
        exact Int64.lt_iff_toInt_lt.mp negative
      have some : left ≠ [] := by
        rintro rfl
        cases spare
      obtain ⟨front, x, rfl⟩ := (List.eq_nil_or_concat left).resolve_left some
      rw [List.concat_eq_append, List.length_append, List.length_singleton] at sum spare
      have stored : Buffer.write (front ++ [x] ++ renderNat n.toInt.natAbs) front.length [45] =
          .ok (front ++ [45] ++ renderNat n.toInt.natAbs) := write_middle rfl rfl
      rw [if_pos negative, if_pos below, List.concat_eq_append, List.length_append,
        List.length_singleton, sub_of_le (by omega), ok_bind, Nat.add_sub_cancel, stored, ok_bind,
        List.append_assoc, List.singleton_append, ← List.append_nil (front ++ _)]
      exact slice_middle rfl (by rw [List.length_cons]; omega)
    · have above : ¬ n.toInt < 0 := by
        rw [← zero]
        exact fun below => negative (Int64.lt_iff_toInt_lt.mpr below)
      rw [if_neg negative, if_neg above, ← List.append_nil (left ++ _)]
      exact slice_middle rfl (by omega)

theorem foldlM_pushWithin_iff {overflow : IntErrorKind} {limit m : Nat} {digits : Bytes}
    (nonempty : digits ≠ []) (positive : 0 < limit) :
    digits.foldlM (pushWithin overflow limit) 0 = .ok m ↔ readNat digits = some m ∧ m < limit := by
  have pushed := @foldlM_push _ (pushWithin overflow limit) limit push_eq_ok_iff digits 0 m positive
  rw [pushed, readNat_eq_some_iff, valueOf_eq_foldl]
  tauto

theorem map_foldlM_iff {overflow : IntErrorKind} {limit : Nat} {digits : Bytes}
    (nonempty : digits ≠ []) (positive : 0 < limit) (f : Nat → Int64) {n : Int64} :
    (digits.foldlM (pushWithin overflow limit) 0).map f = .ok n ↔
      ((readNat digits).bind fun m => if m < limit then some (f m) else none) = some n := by
  constructor
  · intro done
    cases folded : digits.foldlM (pushWithin overflow limit) 0 with
    | error e =>
        rw [folded] at done
        cases done
    | ok m =>
        rw [folded] at done
        obtain ⟨read, small⟩ := (foldlM_pushWithin_iff nonempty positive).mp folded
        rw [read, Option.bind_some, if_pos small]
        exact congrArg some (Except.ok.inj done)
  · intro found
    obtain ⟨m, read, image⟩ := Option.bind_eq_some_iff.mp found
    split at image
    · rename_i small
      rw [(foldlM_pushWithin_iff nonempty positive).mpr ⟨read, small⟩]
      exact congrArg Except.ok (Option.some.inj image)
    · cases image

theorem strParse_eq_ok_iff {b : Bytes} {n : Int64} : strParse b = .ok n ↔ readI64 b = some n := by
  unfold strParse readI64
  split
  · constructor <;> exact nofun
  · constructor <;> exact nofun
  · constructor <;> exact nofun
  · rename_i digits lone
    have nonempty : digits ≠ [] := lone
    have read := @map_foldlM_iff .negOverflow (2 ^ 63 + 1) digits nonempty (by decide)
      (fun m => Int64.ofInt (-m)) n
    simp only [Nat.lt_succ_iff] at read
    exact read
  · rename_i digits lone
    have nonempty : digits ≠ [] := lone
    exact map_foldlM_iff nonempty (by decide) _
  · rename_i nonempty minus plus minus' plus'
    split
    · exact absurd rfl (minus' _)
    · exact absurd rfl (plus' _)
    · exact map_foldlM_iff nonempty (by decide) _

theorem toI64_eq_ok_iff {s : Repr} {b : Bytes} {n : Int64} (reads : Reads s b) :
    toI64 s = .ok (.ok n) ↔ parseI64 b = .ok n := by
  rw [parseI64_eq_ok_iff, toI64, reads.asSlice, ok_bind]
  by_cases empty : b = []
  · subst empty
    rw [if_pos rfl]
    constructor <;> exact nofun
  · rw [if_neg empty]
    by_cases valid : validUtf8 b = true
    · have text : Str.fromUtf8 b = some ⟨b, valid⟩ := dif_pos valid
      rw [text, ← strParse_eq_ok_iff]
      dsimp only
      cases strParse b with
      | ok m =>
          constructor
          · intro done
            cases done
            rfl
          · intro read
            cases read
            rfl
      | error e => constructor <;> exact nofun
    · have text : Str.fromUtf8 b = none := dif_neg valid
      rw [text]
      constructor
      · exact nofun
      · intro read
        rw [readI64_eq] at read
        obtain ⟨i, read, -⟩ := Option.bind_eq_some_iff.mp read
        exact absurd (validUtf8_of_ascii (ascii_of_readInt read)) valid

/-- What the hand-written parser accepts, and the exact number it gives. -/
theorem parseI64_iff_numeral {b : Bytes} {n : Int64} : parseI64 b = .ok n ↔ Numeral b n.toInt := by
  rw [parseI64_eq_ok_iff, readI64_eq, Option.bind_eq_some_iff]
  constructor
  · rintro ⟨i, read, fits⟩
    rw [toI64_eq_some_iff.mp fits] at read
    exact readInt_eq_some_iff.mp read
  · intro numeral
    exact ⟨n.toInt, readInt_eq_some_iff.mpr numeral, toI64_eq_some_iff.mpr rfl⟩

/-- The canonical numeral of a signed number. -/
def CanonicalInt (b : Bytes) (n : Int64) : Prop :=
  if n < 0 then ∃ digits, b = 45 :: digits ∧ Canonical digits n.toInt.natAbs
  else Canonical b n.toInt.natAbs

theorem canonicalInt_renderInt (n : Int64) : CanonicalInt (renderInt n.toInt) n := by
  have zero : (0 : Int64).toInt = 0 := rfl
  unfold CanonicalInt renderInt
  by_cases negative : n < 0
  · have below : n.toInt < 0 := by
      rw [← zero]
      exact Int64.lt_iff_toInt_lt.mp negative
    rw [if_pos negative, if_pos below]
    exact ⟨_, rfl, canonical_renderNat _⟩
  · have above : ¬ n.toInt < 0 := by
      rw [← zero]
      exact fun below => negative (Int64.lt_iff_toInt_lt.mpr below)
    rw [if_neg negative, if_neg above]
    exact canonical_renderNat _

/-- Numbers are rendered canonically in the buffer of twenty bytes and read back, and what is
read is an optional sign with digits, taken as the exact number they denote. -/
theorem numerals_exact :
    (∀ n : Int64, ∃ s b, fromI64 n = .ok s ∧ Reads s b ∧ CanonicalInt b n ∧
      parseI64 b = .ok n ∧ toI64 s = .ok (.ok n)) ∧
    (∀ m : UInt64, ∃ s b, fromU64 m = .ok s ∧ Reads s b ∧ Canonical b m.toNat) ∧
    ∀ (b : Bytes) (n : Int64), parseI64 b = .ok n ↔ Numeral b n.toInt := by
  refine ⟨fun n => ?_, fun m => ?_, fun b n => parseI64_iff_numeral⟩
  · obtain ⟨s, built, reads⟩ := gives_fromBytes (renderInt n.toInt)
    have parsed : parseI64 (renderInt n.toInt) = .ok n :=
      parseI64_eq_ok_iff.mpr (readI64_renderInt n)
    refine ⟨s, renderInt n.toInt, ?_, reads, canonicalInt_renderInt n, parsed,
      (toI64_eq_ok_iff reads).mpr parsed⟩
    rw [fromI64, writeI64_eq, ok_bind, built]
  · obtain ⟨s, built, reads⟩ := gives_fromBytes (renderNat m.toNat)
    refine ⟨s, renderNat m.toNat, ?_, reads, canonical_renderNat m.toNat⟩
    rw [fromU64, writeU64_eq, ok_bind, built]

end Zumic.Database.SdsNumeric
