/- How the readers of a dump use their input: they take bytes from its front only, so they never
hand back more bytes than they were given. Which numbers the varint reader gives back. -/

import Zumic.Lib.Composed
import Zumic.Zdb.Streaming

namespace Zumic.Zdb

open Database Lib Lib.ByteString Lib.Reader

theorem composed_ensureSize (what : String) (index : Option Nat) (size limit : Nat) :
    Composed (ensureSize what index size limit) :=
  composed_ite (Composed.pure _) (Composed.throw _)

theorem shrinks_ensureSize (what : String) (index : Option Nat) (size limit : Nat) :
    Shrinks (ensureSize what index size limit) :=
  (composed_ensureSize what index size limit).shrinks

theorem composed_varintLoop (left shift result : Nat) :
    Composed (varintLoop left shift result) := by
  induction left generalizing shift result with
  | zero => exact Composed.throw _
  | succ left ih =>
      exact (Composed.next _).bind fun byte => composed_ite (Composed.pure _) (ih _ _)

theorem shrinks_varintLoop (left shift result : Nat) :
    Shrinks (varintLoop left shift result) :=
  (composed_varintLoop left shift result).shrinks

theorem composed_varintContinuation (left shift value : Nat) :
    Composed (varintContinuation left shift value) := by
  induction left generalizing shift value with
  | zero => exact Composed.throw _
  | succ left ih =>
      exact (Composed.next _).bind fun byte => composed_ite (Composed.pure _) (ih _ _)

section

variable (version : FormatVersion)

theorem composed_readLength : Composed (readLength version) :=
  composed_ite (composed_varintLoop _ _ _)
    ((Composed.take _ _).bind fun b => Composed.pure (beNat b))

theorem composed_readBlob (what : String) (index : Option Nat) (limit : Nat)
    (context : String) : Composed (readBlob version what index limit context) :=
  (composed_readLength version).bind fun len =>
    (composed_ensureSize what index len limit).bind fun _ => Composed.take len _

theorem composed_readCount (what : String) : Composed (readCount version what) :=
  (composed_readLength version).bind fun n =>
    (composed_ensureSize what none n _).bind fun _ => Composed.pure n

theorem composed_readF64 (context : String) : Composed (readF64 context) :=
  (Composed.take _ _).bind fun _ => Composed.pure _

theorem composed_readZSetScore : Composed (readZSetScore version) := by
  unfold readZSetScore
  split
  · exact (Composed.take _ _).bind fun b => Composed.pure _
  · exact composed_readF64 _

theorem composed_readZSetValue : Composed (readZSetValue version) := by
  refine (composed_readCount version _).bind fun n => ?_
  refine (composed_readMany (fun i => ?_) n).bind fun entries => Composed.pure _
  exact (composed_readBlob version _ _ _ _).bind fun member =>
    (composed_readZSetScore version).bind fun score => Composed.pure (member, score)

theorem composed_readSetValue : Composed (readSetValue version) :=
  (composed_readCount version _).bind fun n =>
    (composed_readMany (fun _ => composed_readBlob version _ _ _ _) n).bind fun _ => Composed.pure _

theorem composed_sized (what : String) (n limit : Nat) (e : ZdbError)
    (value : Bytes → Value) : Composed (do
      ensureSize what none n limit
      let bytes ← Reader.take n e
      pure (value bytes)) :=
  (composed_ensureSize what none n limit).bind fun _ =>
    (Composed.take n e).bind fun _ => Composed.pure _

theorem composed_readHllValue : Composed (readHllValue version) := by
  refine (composed_readLength version).bind fun n => ?_
  split <;> exact composed_sized _ _ _ _ _

theorem composed_readBitmapValue : Composed (readBitmapValue version) := by
  refine (composed_readLength version).bind fun n => ?_
  split <;> exact composed_sized _ _ _ _ _

variable {readValue : ZdbReader Value} (zstd : Zstd)

theorem composed_readHashValue (inner : Composed readValue) :
    Composed (readHashValue version readValue) := by
  refine (composed_readCount version _).bind fun n => ?_
  refine (composed_readMany (fun i => ?_) n).bind fun entries => Composed.pure _
  refine (composed_readBlob version _ _ _ _).bind fun key => inner.bind fun v => ?_
  cases v with
  | str s => exact Composed.pure (key, s)
  | _ => exact Composed.throw _

theorem composed_readArrayValue (inner : Composed readValue) :
    Composed (readArrayValue version readValue) :=
  (composed_readCount version _).bind fun n =>
    (composed_readMany (fun _ => inner) n).bind fun _ => Composed.pure _

theorem composed_readCompressedValue :
    Composed (readCompressedValue version zstd readValue) := by
  refine (composed_readLength version).bind fun len => ?_
  refine composed_ite (Composed.throw _) ((composed_ensureSize _ _ _ _).bind fun _ => ?_)
  refine (Composed.takeUpTo len).bind fun block => ?_
  cases zstd.decompress block with
  | none => exact Composed.throw _
  | some inner =>
      dsimp only
      split
      · exact Composed.pure _
      · exact Composed.throw _

theorem composed_readTagged (inner : Composed readValue) (tag : UInt8) :
    Composed (readTagged version zstd readValue tag) := by
  unfold readTagged
  refine composed_ite ((composed_readBlob version _ _ _ _).bind fun s => Composed.pure _) ?_
  refine composed_ite ((Composed.take _ _).bind fun b => Composed.pure _) ?_
  refine composed_ite ((composed_readF64 _).bind fun f => Composed.pure _) ?_
  refine composed_ite ((Composed.next _).bind fun b => Composed.pure _) ?_
  refine composed_ite (Composed.pure _) ?_
  refine composed_ite (composed_readCompressedValue version zstd) ?_
  refine composed_ite (composed_readHashValue version inner) ?_
  refine composed_ite (composed_readZSetValue version) ?_
  refine composed_ite (composed_readSetValue version) ?_
  refine composed_ite (composed_readHllValue version) ?_
  refine composed_ite (composed_readArrayValue version inner) ?_
  exact composed_ite (composed_readBitmapValue version) (Composed.throw _)

theorem composed_readValueWithVersion (depth : Nat) :
    Composed (readValueWithVersion version zstd depth) := by
  induction depth with
  | zero => exact Composed.throw _
  | succ depth ih => exact (Composed.next _).bind (composed_readTagged version zstd ih)

theorem composed_parserKeyLength (peek : UInt8) :
    Composed (parserKeyLength version peek) :=
  composed_ite (composed_ite (Composed.pure _) (composed_varintContinuation _ _ _))
    ((Composed.take _ _).bind fun _ => Composed.pure _)

theorem composed_readEntryFrom (depth : Nat) (peek : UInt8) :
    Composed (readEntryFrom version zstd depth peek) :=
  (composed_parserKeyLength version peek).bind fun _ =>
    (composed_ensureSize _ _ _ _).bind fun _ => (Composed.take _ _).bind fun key =>
      (composed_readValueWithVersion version zstd depth).bind fun value =>
        Composed.pure (key, value)

theorem shrinks_readEntryFrom (depth : Nat) (peek : UInt8) :
    Shrinks (readEntryFrom version zstd depth peek) :=
  (composed_readEntryFrom version zstd depth peek).shrinks

end

theorem length_readNextEntry {version : FormatVersion} {zstd : Zstd} {depth recordsParsed : Nat}
    {b rest : Bytes} {e : Sds × Value}
    (run : readNextEntry version zstd depth recordsParsed b = .ok (some e, rest)) :
    rest.length < b.length := by
  cases b with
  | nil =>
      rw [readNextEntry] at run
      split at run <;> exact absurd run (by simp)
  | cons peek b =>
      rw [readNextEntry] at run
      split at run
      · exact absurd run (by simp)
      · cases entry : readEntryFrom version zstd depth peek b with
        | error err =>
            rw [entry] at run
            exact absurd run (by simp [Except.map])
        | ok r =>
            rw [entry] at run
            obtain ⟨-, rfl⟩ := Prod.mk.inj (Except.ok.inj run)
            have shorter := shrinks_readEntryFrom version zstd depth peek b r.1 r.2 entry
            rw [List.length_cons]
            omega

/-- The loop of `varint_size`. -/
def countGroups (value : Nat) : Nat := if value = 0 then 0 else countGroups (value / 128) + 1
termination_by value
decreasing_by omega

def varintSize (value : UInt32) : Nat := if value = 0 then 1 else countGroups value.toNat

/-- The number that groups of seven bits stand for, the lowest first. -/
def groupSum : Bytes → Nat
  | [] => 0
  | byte :: groups => byte.toNat % 128 + groupSum groups * 128

theorem length_varintBytes {fuel value : Nat} (bits : value < 128 ^ fuel) (positive : 0 < value) :
    (varintBytes fuel value).length = countGroups value := by
  induction fuel generalizing value with
  | zero =>
      rw [Nat.pow_zero] at bits
      omega
  | succ fuel ih =>
      have more : countGroups value = countGroups (value / 128) + 1 := by
        rw [countGroups, if_neg (Nat.pos_iff_ne_zero.mp positive)]
      rw [varintBytes, more]
      by_cases last : value / 128 = 0
      · rw [if_pos last, last, countGroups, if_pos rfl]
        rfl
      · have bits' : value / 128 < 128 ^ fuel := by
          rw [Nat.pow_succ] at bits
          exact Nat.div_lt_of_lt_mul (by omega)
        rw [if_neg last, List.length_cons, ih bits' (Nat.pos_of_ne_zero last)]

theorem length_writeVarint (value : UInt32) :
    (writeVarint value.toNat).length = varintSize value := by
  have word : value.toNat % 2 ^ 32 = value.toNat := Nat.mod_eq_of_lt value.toNat_lt
  unfold writeVarint varintSize
  rw [word]
  by_cases zero : value = 0
  · rw [if_pos zero, zero]
    rfl
  · have positive : 0 < value.toNat := by
      apply Nat.pos_of_ne_zero
      intro same
      exact zero (UInt32.toNat_inj.mp same)
    have bits : value.toNat < 128 ^ maxVarintLen := lt_of_lt_of_le value.toNat_lt (by decide)
    rw [if_neg zero, length_varintBytes bits positive]

/-- The bits of a group that the word has room for. Only the fifth group may not fit. -/
theorem group_fits {left shift byte : Nat} (place : shift + 7 * (left + 1) = 35) :
    byte % 128 * 2 ^ shift % 2 ^ 32 = byte % 128 * 2 ^ shift ↔ left = 0 → byte % 128 < 16 := by
  cases left with
  | zero =>
      obtain rfl : shift = 28 := by omega
      omega
  | succ left =>
      have shiftSmall : shift ≤ 21 := by omega
      have power : 2 ^ shift ≤ 2 ^ 21 := Nat.pow_le_pow_right (by decide) shiftSmall
      have bound : byte % 128 * 2 ^ shift ≤ 127 * 2 ^ 21 :=
        Nat.mul_le_mul (by omega) power
      refine iff_of_true (Nat.mod_eq_of_lt (by omega)) fun last => ?_
      omega

theorem varintLoop_shorter {left shift result v : Nat} {s rest : Bytes}
    (run : varintLoop left shift result s = .ok (v, rest)) : rest.length < s.length := by
  cases left with
  | zero => exact absurd run (by simp [varintLoop, throw, throwThe, MonadExceptOf.throw,
      StateT.lift])
  | succ left =>
      rw [varintLoop] at run
      obtain ⟨byte, tail, first, later⟩ := bind_eq_ok run
      cases s with
      | nil => cases first
      | cons head tail' =>
          obtain ⟨rfl, rfl⟩ := Prod.mk.inj (Except.ok.inj first)
          rw [List.length_cons]
          refine Nat.lt_succ_of_le ?_
          split at later
          · obtain ⟨-, rfl⟩ := Prod.mk.inj (Except.ok.inj later)
            exact Nat.le_refl _
          · exact shrinks_varintLoop _ _ _ _ _ _ later

/-- The loop from its place in the word: the groups come out whole unless the fifth one has bits
beyond the word. -/
theorem varintLoop_exact_iff {left shift result v : Nat} {groups rest : Bytes}
    (place : shift + 7 * left = 35)
    (run : varintLoop left shift result (groups ++ rest) = .ok (v, rest)) :
    v = result + groupSum groups * 2 ^ shift ↔
      ∀ last, 0 < left → groups[left - 1]? = some last → last.toNat % 128 < 16 := by
  induction left generalizing shift result groups with
  | zero => exact absurd run (by simp [varintLoop, throw, throwThe, MonadExceptOf.throw,
      StateT.lift])
  | succ left ih =>
      cases groups with
      | nil => exact absurd (varintLoop_shorter run) (Nat.lt_irrefl _)
      | cons byte groups =>
          have fits := @group_fits left shift byte.toNat place
          have split : (byte.toNat % 128 + groupSum groups * 128) * 2 ^ shift =
              byte.toNat % 128 * 2 ^ shift + groupSum groups * 2 ^ (shift + 7) := by ring
          have first : Reader.next (ZdbError.io "Failed to read varint byte")
              (byte :: (groups ++ rest)) = .ok (byte, groups ++ rest) := rfl
          rw [List.cons_append, varintLoop, bind_of_ok first] at run
          rw [groupSum, split]
          by_cases done : byte.toNat < 128
          · rw [if_pos done] at run
            obtain ⟨rfl, same⟩ := Prod.mk.inj (Except.ok.inj run)
            obtain rfl : groups = [] := List.append_left_eq_self.mp same
            rw [groupSum, Nat.zero_mul, Nat.add_zero, Nat.add_left_cancel_iff, fits]
            cases left with
            | zero => simp
            | succ left => simp
          · rw [if_neg done] at run
            cases left with
            | zero => exact absurd run (by simp [varintLoop, throw, throwThe, MonadExceptOf.throw,
                StateT.lift])
            | succ left =>
                have whole := fits.mpr fun last => absurd last (Nat.succ_ne_zero left)
                rw [whole] at run
                rw [← Nat.add_assoc, ih (by omega) run]
                simp

/-- Every word is written in its own number of bytes and read back, whatever follows it; and what is
read stands for all bits of its groups exactly when the fifth group has no bits beyond the word. -/
theorem varint_exact_iff (n : UInt32) (t : Bytes) {groups rest : Bytes} {v : Nat}
    (read : readVarint (groups ++ rest) = .ok (v, rest)) :
    (readVarint (writeVarint n.toNat ++ t) = .ok (n.toNat, t) ∧
      (writeVarint n.toNat).length = varintSize n ∧ varintSize n ≤ 5) ∧
    (v = groupSum groups ↔ ∀ fifth, groups[4]? = some fifth → fifth.toNat % 128 < 16) := by
  have exact := varintLoop_exact_iff rfl read
  rw [Nat.pow_zero, Nat.mul_one, Nat.zero_add] at exact
  refine ⟨⟨reads_readVarint n.toNat_lt t, length_writeVarint n, ?_⟩, ?_⟩
  · rw [← length_writeVarint]
    exact length_varintBytes_le 5 _
  · rw [exact]
    constructor
    · exact fun small fifth here => small fifth (by decide) here
    · exact fun small fifth _ here => small fifth here

/-- The largest word, followed by the end mark of a stream. -/
theorem varint_exact_largest :
    (readVarint (writeVarint (300 : UInt32).toNat ++ []) = .ok (300, []) ∧
      (writeVarint (300 : UInt32).toNat).length = varintSize 300 ∧ varintSize 300 ≤ 5) ∧
    (4294967295 = groupSum [0xFF, 0xFF, 0xFF, 0xFF, 0x0F] ↔
      ∀ fifth, ([0xFF, 0xFF, 0xFF, 0xFF, 0x0F] : Bytes)[4]? = some fifth →
        fifth.toNat % 128 < 16) :=
  @varint_exact_iff 300 [] [0xFF, 0xFF, 0xFF, 0xFF, 0x0F] [0xFF] 4294967295 rfl

/-- Two numbers that are read as one. -/
theorem varint_truncated :
    readVarint [0xFF, 0xFF, 0xFF, 0xFF, 0x0F] = .ok (4294967295, []) ∧
      readVarint [0xFF, 0xFF, 0xFF, 0xFF, 0x1F] = .ok (4294967295, []) ∧
      groupSum [0xFF, 0xFF, 0xFF, 0xFF, 0x0F] = 4294967295 ∧
      groupSum [0xFF, 0xFF, 0xFF, 0xFF, 0x1F] = 8589934591 :=
  ⟨rfl, rfl, rfl, rfl⟩

end Zumic.Zdb
