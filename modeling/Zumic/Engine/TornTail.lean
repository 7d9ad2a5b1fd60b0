/- What a replay makes of a log that was cut inside a record. -/

import Mathlib.Data.List.Infix
import Zumic.Engine.Reopen

namespace Zumic.Engine

open Lib Lib.ByteString

/-- The operations whose records lie within the first `n` bytes. -/
def completeBefore : Nat → List AofEntry → List AofEntry
  | _, [] => []
  | n, e :: entries =>
      if (record e).length ≤ n then e :: completeBefore (n - (record e).length) entries else []

/-- What the first `n` bytes hold of the record that the cut goes through. -/
def tornTail : Nat → List AofEntry → Bytes
  | _, [] => []
  | n, e :: entries =>
      if (record e).length ≤ n then tornTail (n - (record e).length) entries
      else (record e).take n

/-- Bytes that hold a whole record behind their first byte. -/
def EmbedsRecord (torn : Bytes) : Prop :=
  ∃ (front : Bytes) (e : AofEntry) (rest : Bytes),
    front ≠ [] ∧ Loggable e ∧ torn = front ++ (record e ++ rest)

theorem readBlock_inv {b block rest : Bytes} {short cut : String}
    (run : readBlock b short cut = .ok (block, rest)) :
    b = lengthPrefixed block ++ rest ∧ block.length < 2 ^ 32 := by
  rw [readBlock] at run
  split at run
  · cases run
  · rename_i long
    dsimp only at run
    split at run
    · cases run
    · rename_i whole
      obtain ⟨rfl, rfl⟩ := Prod.mk.inj (Except.ok.inj run)
      have wordSize : (b.take 4).length = 4 := by
        rw [List.length_take]
        omega
      have word : u32At b 0 = beNat (b.take 4) := rfl
      have size : ((b.drop 4).take (u32At b 0)).length = u32At b 0 := by
        rw [List.length_take, List.length_drop]
        omega
      have written : beBytes 4 (u32At b 0) = b.take 4 := by
        have back := beBytes_beNat (b.take 4)
        rw [wordSize] at back
        exact back
      have bound := beNat_lt (b.take 4)
      rw [wordSize, ← word] at bound
      refine ⟨?_, by rw [size]; omega⟩
      rw [lengthPrefixed, size, written, ← List.drop_drop, List.append_assoc, List.take_append_drop,
        List.take_append_drop]

theorem parseValidRecord_inv {d : Bytes} {e : AofEntry} (run : parseValidRecord d = .ok e) :
    Loggable e ∧ ∃ check t : Bytes, check.length = 4 ∧ d = opCode e :: (check ++ (payload e ++ t)) := by
  cases d with
  | nil => cases run
  | cons op r =>
      rw [parseValidRecord] at run
      split at run
      · cases run
      · rename_i known
        split at run
        · cases run
        · rename_i long
          have checkSize : (r.take 4).length = 4 := by
            rw [List.length_take]
            omega
          cases first : readBlock (r.drop 4) "Unexpected EOF while reading u32" "truncated key" with
          | error err =>
              rw [first] at run
              cases run
          | ok block =>
              obtain ⟨key, rest⟩ := block
              obtain ⟨shape, keySmall⟩ := readBlock_inv first
              have parts : r = r.take 4 ++ (lengthPrefixed key ++ rest) := by
                rw [← shape, List.take_append_drop]
              rw [first] at run
              by_cases set' : op = 1
              · subst set'
                cases second : readBlock rest "Unexpected EOF while reading u32" "truncated value" with
                | error err =>
                    simp only [bind, Except.bind, if_true, second] at run
                    cases run
                | ok block' =>
                    obtain ⟨value, rest'⟩ := block'
                    obtain ⟨rfl, valueSmall⟩ := readBlock_inv second
                    simp only [bind, Except.bind, if_true, second, pure, Except.pure,
                      Except.ok.injEq] at run
                    subst run
                    refine ⟨⟨keySmall, valueSmall⟩, r.take 4, rest', checkSize, ?_⟩
                    rw [payload, opCode, List.append_assoc (lengthPrefixed key), ← parts]
              · obtain rfl : op = 2 := by
                  by_contra del'
                  exact known ⟨set', del'⟩
                simp only [bind, Except.bind, if_neg set', pure, Except.pure, Except.ok.injEq] at run
                subst run
                exact ⟨keySmall, r.take 4, rest, checkSize, by rw [payload, opCode, ← parts]⟩

theorem checksum_of_valid {op : UInt8} {check b : Bytes} (checkSize : check.length = 4)
    (valid : validateRecord (op :: (check ++ b)) = .valid) :
    beNat check = (Crc32.checksum b).toNat := by
  have front : (check ++ b).take 4 = check := List.take_left' checkSize
  have rest : (check ++ b).drop 4 = b := List.drop_left' checkSize
  simp only [validateRecord, front, rest] at valid
  split at valid
  · cases valid
  · split at valid
    · cases valid
    · split at valid
      · cases valid
      · split at valid
        · cases valid
        · rename_i same
          exact (not_not.mp same).symm

theorem replayRecord_inv {u rest : Bytes} {e : AofEntry} (run : replayRecord u = .ok (e, rest)) :
    Loggable e ∧ u = record e ++ rest := by
  simp only [replayRecord] at run
  split at run
  · rename_i valid
    cases parsed : parseValidRecord (u.take (findRecordEnd u)) with
    | error err =>
        rw [parsed] at run
        cases run
    | ok e' =>
        rw [parsed] at run
        obtain ⟨rfl, rfl⟩ := Prod.mk.inj (Except.ok.inj run)
        obtain ⟨small, check, t, checkSize, parts⟩ := parseValidRecord_inv parsed
        have whole : u = opCode e' :: (check ++ (payload e' ++ (t ++ u.drop (findRecordEnd u)))) := by
          conv_lhs => rw [← List.take_append_drop (findRecordEnd u) u, parts]
          simp
        -- The front part is as long as its payload says, so that nothing stands behind it.
        have stop : findRecordEnd u = 5 + (payload e').length := by
          conv_lhs => rw [whole]
          exact findRecordEnd_parts small checkSize _
        have ends : t = [] := by
          have size := congrArg List.length parts
          rw [List.length_take, stop] at size
          simp only [List.length_cons, List.length_append] at size
          exact List.length_eq_zero_iff.mp (by omega)
        subst ends
        rw [List.append_nil] at parts
        have sum : beNat check = (Crc32.checksum (payload e')).toNat :=
          checksum_of_valid checkSize (parts ▸ valid)
        have front : u.take (findRecordEnd u) = record e' := by
          have back := beBytes_beNat check
          rw [checkSize, sum] at back
          rw [parts, record, back, List.cons_append]
        exact ⟨small, by rw [← front, List.take_append_drop]⟩
  · cases run
  · cases run
  · cases run

/-- A place behind the first byte at which a replay reads a record. -/
theorem embedsRecord_iff (torn : Bytes) : EmbedsRecord torn ↔
    ∃ u ∈ torn.tail.tails, (replayRecord u).toBool = true := by
  constructor
  · rintro ⟨front, e, rest, some', small, rfl⟩
    cases front with
    | nil => exact absurd rfl some'
    | cons x front =>
        refine ⟨record e ++ rest, (List.mem_tails _ _).mpr ⟨front, rfl⟩, ?_⟩
        rw [replayRecord_record small]
        rfl
  · rintro ⟨u, within, run⟩
    obtain ⟨front, shape⟩ := (List.mem_tails _ _).mp within
    cases read : replayRecord u with
    | error err =>
        rw [read] at run
        cases run
    | ok r =>
        obtain ⟨e, rest⟩ := r
        obtain ⟨small, rfl⟩ := replayRecord_inv read
        cases torn with
        | nil => cases (List.append_eq_nil_iff.mp shape).2
        | cons x b => exact ⟨x :: front, e, rest, List.cons_ne_nil _ _, small, congrArg (x :: ·) shape.symm⟩

instance (torn : Bytes) : Decidable (EmbedsRecord torn) :=
  decidable_of_iff _ (embedsRecord_iff torn).symm

theorem take_records (n : Nat) (entries : List AofEntry) :
    (entries.flatMap record).take n =
      (completeBefore n entries).flatMap record ++ tornTail n entries := by
  induction entries generalizing n with
  | nil => simp [completeBefore, tornTail]
  | cons e entries ih =>
      rw [completeBefore, tornTail, List.flatMap_cons]
      by_cases fits : (record e).length ≤ n
      · rw [if_pos fits, if_pos fits, List.flatMap_cons, List.append_assoc, ← ih,
          List.take_append, List.take_of_length_le fits]
      · rw [if_neg fits, if_neg fits, List.flatMap_nil, List.nil_append,
          List.take_append_of_le_length (by omega)]

theorem completeBefore_subset {n : Nat} {entries : List AofEntry} {e : AofEntry}
    (member : e ∈ completeBefore n entries) : e ∈ entries := by
  induction entries generalizing n with
  | nil => exact member
  | cons e' entries ih =>
      rw [completeBefore] at member
      split at member
      · rcases List.mem_cons.mp member with rfl | later
        · exact List.mem_cons_self
        · exact List.mem_cons_of_mem _ (ih later)
      · cases member

theorem tornTail_cut {n : Nat} {entries : List AofEntry}
    (small : ∀ e ∈ entries, Loggable e) :
    tornTail n entries = [] ∨ ∃ (e : AofEntry) (m : Nat), Loggable e ∧
      m < (record e).length ∧ tornTail n entries = (record e).take m := by
  induction entries generalizing n with
  | nil => exact Or.inl rfl
  | cons e entries ih =>
      rw [tornTail]
      split
      · exact ih fun e' member => small e' (List.mem_cons_of_mem _ member)
      · rename_i cut
        exact Or.inr ⟨e, n, small e List.mem_cons_self, by omega, rfl⟩

theorem replayRecord_nil {r : AofEntry × Bytes} : replayRecord [] ≠ .ok r := by
  intro run
  cases run

/-- No record stands at the front of the torn bytes: with the bytes that are missing there would be
two of them. -/
theorem replayRecord_tornTail {n : Nat} {entries : List AofEntry}
    (small : ∀ e ∈ entries, Loggable e) (r : AofEntry × Bytes) :
    replayRecord (tornTail n entries) ≠ .ok r := by
  rcases tornTail_cut (n := n) small with none' | ⟨e, m, small', cut, shape⟩
  · rw [none']
    exact replayRecord_nil
  · intro run
    obtain ⟨e', rest⟩ := r
    rw [shape] at run
    obtain ⟨small'', front⟩ := replayRecord_inv run
    have whole : record e ++ [] = record e' ++ (rest ++ (record e).drop m) := by
      rw [← List.append_assoc, ← front, List.take_append_drop, List.append_nil]
    have once := replayRecord_record small' []
    rw [whole, replayRecord_record small''] at once
    have ends := (Prod.mk.inj (Except.ok.inj once)).2
    have missing := (List.append_eq_nil_iff.mp ends).2
    rw [List.drop_eq_nil_iff] at missing
    omega

section

variable {policy : CorruptionPolicy}

theorem findNextValidRecord_suffix {b v : Bytes} (found : findNextValidRecord b = some v) :
    v <:+ b := by
  induction b with
  | nil => cases found
  | cons x b ih =>
      rw [findNextValidRecord] at found
      split at found
      · obtain rfl := Option.some.inj found
        exact List.suffix_refl _
      · exact (ih found).trans (List.suffix_cons x b)

theorem findNextValidRecord_of_suffix {b : Bytes} {e : AofEntry} {rest : Bytes}
    (within : record e ++ rest <:+ b) :
    ∃ v, findNextValidRecord b = some v ∧ record e ++ rest <:+ v := by
  induction b with
  | nil =>
      have none' := List.suffix_nil.mp within
      cases none'
  | cons x b ih =>
      rw [findNextValidRecord]
      split
      · exact ⟨x :: b, rfl, within⟩
      · rename_i candidate
        rcases List.suffix_cons_iff.mp within with here | later
        · exfalso
          apply candidate
          have size := congrArg List.length here
          have recordSize := record_length e
          have payloadSize := payload_length e
          rw [List.length_append, List.length_cons] at size
          have first : opCode e = x := (List.cons.inj here).1
          rw [← first]
          refine ⟨?_, by omega⟩
          cases e with
          | set key value => exact Or.inl rfl
          | del key => exact Or.inr rfl
        · exact ih later

theorem replay_appends (lenient : policy ≠ .strict) (fuel : Nat) (buf : Bytes)
    (ops : List AofEntry) :
    ∃ l, replayAof2Format (fun ops e => ops ++ [e]) policy fuel buf ops = .ok (ops ++ l) := by
  induction fuel generalizing buf ops with
  | zero => exact ⟨[], by rw [replayAof2Format, List.append_nil]⟩
  | succ fuel ih =>
      rw [replayAof2Format]
      split
      · exact ⟨[], by rw [List.append_nil]⟩
      · split
        · rename_i e rest _
          obtain ⟨l, run⟩ := ih rest (ops ++ [e])
          exact ⟨e :: l, by rw [run, List.append_assoc, List.singleton_append]⟩
        · split
          · exact ih _ ops
          · exact ⟨[], by rw [List.append_nil]⟩

theorem replay_of_no_record (lenient : policy ≠ .strict) {fuel : Nat} {buf : Bytes}
    (bare : ∀ u, u <:+ buf → ∀ r, replayRecord u ≠ .ok r) (ops : List AofEntry) :
    replayAof2Format (fun ops e => ops ++ [e]) policy fuel buf ops = .ok ops := by
  induction fuel generalizing buf with
  | zero => rfl
  | succ fuel ih =>
      rw [replayAof2Format]
      split
      · rfl
      · split
        · rename_i read
          exact absurd read (bare buf (List.suffix_refl _) _)
        · split
          · rename_i v found
            apply ih
            intro u within
            exact bare u ((within.trans (findNextValidRecord_suffix found)).trans
              (List.tail_suffix buf))
          · rfl

/-- A record that stands anywhere in the buffer makes the replay call back something. -/
theorem replay_of_record (lenient : policy ≠ .strict) {fuel : Nat} {buf rest : Bytes}
    {e : AofEntry} (enough : buf.length ≤ fuel) (small : Loggable e)
    (within : record e ++ rest <:+ buf) (ops : List AofEntry) :
    ∃ e' l, replayAof2Format (fun ops e => ops ++ [e]) policy fuel buf ops =
      .ok (ops ++ e' :: l) := by
  induction fuel generalizing buf with
  | zero =>
      have none' := List.length_eq_zero_iff.mp (Nat.le_zero.mp enough)
      rw [none', List.suffix_nil] at within
      cases within
  | succ fuel ih =>
      cases buf with
      | nil =>
          have none' := List.suffix_nil.mp within
          cases none'
      | cons x b =>
          rw [replayAof2Format, if_neg (List.cons_ne_nil x b)]
          rw [List.length_cons] at enough
          split
          · rename_i e' rest' _
            obtain ⟨l, run⟩ := replay_appends lenient fuel rest' (ops ++ [e'])
            exact ⟨e', l, by rw [run, List.append_assoc, List.singleton_append]⟩
          · rename_i err fails
            rw [if_neg lenient]
            have later : record e ++ rest <:+ b := by
              rcases List.suffix_cons_iff.mp within with here | later
              · rw [← here, replayRecord_record small] at fails
                cases fails
              · exact later
            obtain ⟨v, found, within'⟩ := findNextValidRecord_of_suffix later
            have shorter := (findNextValidRecord_suffix found).length_le
            rw [List.tail_cons, found]
            exact ih (by omega) within'

end

section

variable {policy : CorruptionPolicy}

theorem replay_torn (lenient : policy ≠ .strict) {torn : Bytes}
    (first : ∀ r, replayRecord torn ≠ .ok r) (ops : List AofEntry) {fuel : Nat}
    (enough : torn.length ≤ fuel) :
    replayAof2Format (fun ops e => ops ++ [e]) policy fuel torn ops = .ok ops ↔
      ¬ EmbedsRecord torn := by
  constructor
  · rintro same ⟨front, e, rest, -, small, shape⟩
    have within : record e ++ rest <:+ torn := ⟨front, shape.symm⟩
    obtain ⟨e', l, run⟩ := replay_of_record lenient enough small within ops
    rw [same, Except.ok.injEq] at run
    simp at run
  · intro bare
    apply replay_of_no_record lenient
    rintro u ⟨front, shape⟩ ⟨e, rest⟩ run
    obtain ⟨small, parts⟩ := replayRecord_inv run
    cases front with
    | nil =>
        rw [List.nil_append] at shape
        exact first (e, rest) (shape ▸ run)
    | cons x front =>
        exact bare ⟨x :: front, e, rest, List.cons_ne_nil _ _, small, by rw [← shape, parts]⟩

/-- A cut log replays to the operations before the cut exactly when the record that the cut goes
through does not hold another one. -/
theorem callbacks_cut_iff (entries : List AofEntry) (n : Nat) (policy : CorruptionPolicy)
    (small : ∀ e ∈ entries, Loggable e) (lenient : policy ≠ .strict) :
    AofLog.callbacks ⟨(magic ++ entries.flatMap record).take (4 + n), policy⟩ =
      .ok (completeBefore n entries) ↔ ¬ EmbedsRecord (tornTail n entries) := by
  have file : (magic ++ entries.flatMap record).take (4 + n) =
      magic ++ ((completeBefore n entries).flatMap record ++ tornTail n entries) := by
    rw [← take_records]
    exact @List.take_length_add_append UInt8 magic _ n
  have small' : ∀ e ∈ completeBefore n entries, Loggable e :=
    fun e member => small e (completeBefore_subset member)
  -- The records before the cut take one turn of the loop each; the rest is left for the torn bytes.
  have turns : ((completeBefore n entries).flatMap record ++ tornTail n entries).length =
      (completeBefore n entries).length + (((completeBefore n entries).flatMap record).length -
        (completeBefore n entries).length + (tornTail n entries).length) := by
    have longer := length_le_flatMap_record (completeBefore n entries)
    rw [List.length_append]
    omega
  rw [file, AofLog.callbacks, AofLog.replay_magic, turns, replayAof2Format_append _ policy small',
    List.foldl_append_eq_append, ← List.flatMap_def, List.flatMap_singleton', List.nil_append]
  exact replay_torn lenient (replayRecord_tornTail small) _ (by omega)

/-- A cut inside the value of the second record. -/
theorem callbacks_cut_iff_value :
    AofLog.callbacks ⟨(magic ++ List.flatMap record [.set [107] [1], .set [108] [7, 7, 7]]).take
      (4 + 30), .skip⟩ = .ok [.set [107] [1]] :=
  (callbacks_cut_iff [.set [107] [1], .set [108] [7, 7, 7]] 30 .skip (by decide)
    (by decide)).mpr (by decide +kernel)

/-- A value that holds the record of a deletion, and a cut before its last byte. -/
theorem callbacks_cut_inside_value :
    AofLog.callbacks ⟨(magic ++ List.flatMap record
      [.set [107] (record (.del [120]) ++ [0])]).take (4 + 24), .skip⟩ = .ok [.del [120]] ∧
    completeBefore 24 [.set [107] (record (.del [120]) ++ [0])] = [] ∧
    AofLog.callbacks ⟨(magic ++ List.flatMap record
      [.set [107] (record (.del [120]) ++ [0])]).take (4 + 24), .skip⟩ ≠
      .ok (completeBefore 24 [.set [107] (record (.del [120]) ++ [0])]) := by
  decide +kernel

end

end Zumic.Engine
