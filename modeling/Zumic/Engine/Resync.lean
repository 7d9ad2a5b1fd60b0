/- What a replay makes of damaged bytes between intact records. -/

import Zumic.Lib.Runs
import Zumic.Engine.TornTail

namespace Zumic.Engine

open Lib.ByteString Lib.Loop

/-- A record that the checks let through stands at the front. -/
def StartsRecord (b : Bytes) : Prop := validateRecord (b.take (findRecordEnd b)) = .valid

instance (b : Bytes) : Decidable (StartsRecord b) := inferInstanceAs (Decidable (_ = _))

/-- No place in `gap` starts a record; one that starts there may end in `behind`. -/
def Unreadable (gap behind : Bytes) : Prop :=
  ∀ u, u <:+ gap → u ≠ [] → ¬ StartsRecord (u ++ behind)

theorem readBlock_of_length {b : Bytes} (long : 4 ≤ b.length)
    (whole : 4 + u32At b 0 ≤ b.length) (short cut : String) :
    readBlock b short cut = .ok ((b.drop 4).take (u32At b 0), b.drop (4 + u32At b 0)) := by
  rw [readBlock, if_neg (by omega)]
  dsimp only
  rw [if_neg (by omega)]

theorem u32At_drop (b : Bytes) (n : Nat) : u32At (b.drop n) 0 = u32At b n := by
  rw [u32At, u32At, List.drop_drop, Nat.add_zero]

theorem parseValidRecord_of_valid {d : Bytes} (valid : validateRecord d = .valid) :
    ∃ e, parseValidRecord d = .ok e := by
  cases d with
  | nil => cases valid
  | cons op rest =>
      rw [validateRecord] at valid
      split at valid
      · cases valid
      · rename_i long
        split at valid
        · cases valid
        · rename_i known
          split at valid
          · cases valid
          · rename_i complete
            simp only [Bool.not_eq_true', Bool.not_eq_false, payloadComplete, Bool.and_eq_true,
              Bool.or_eq_true, decide_eq_true_eq, bne_iff_ne, ne_eq] at complete
            obtain ⟨⟨word, key⟩, value⟩ := complete
            rw [List.length_cons] at long
            rw [parseValidRecord, if_neg known, if_neg (by omega),
              readBlock_of_length word key]
            by_cases set' : op = 1
            · obtain ⟨word', value'⟩ := value.resolve_left (not_not.mpr set')
              have size : ((rest.drop 4).drop (4 + u32At (rest.drop 4) 0)).length =
                  (rest.drop 4).length - (4 + u32At (rest.drop 4) 0) := List.length_drop
              have second := @readBlock_of_length ((rest.drop 4).drop (4 + u32At (rest.drop 4) 0))
                (by omega) (by rw [u32At_drop]; omega) "Unexpected EOF while reading u32"
                "truncated value"
              simp only [bind, Except.bind, if_pos set', second]
              exact ⟨_, rfl⟩
            · simp only [bind, Except.bind, if_neg set']
              exact ⟨_, rfl⟩

/-- The records that pass the checks are the written ones. -/
theorem startsRecord_iff (b : Bytes) :
    StartsRecord b ↔ ∃ e rest, Loggable e ∧ b = record e ++ rest := by
  constructor
  · intro valid
    obtain ⟨e, parsed⟩ := parseValidRecord_of_valid valid
    have run : replayRecord b = .ok (e, b.drop (findRecordEnd b)) := by
      simp only [replayRecord]
      rw [valid, parsed]
      rfl
    obtain ⟨small, shape⟩ := replayRecord_inv run
    exact ⟨e, _, small, shape⟩
  · rintro ⟨e, rest, small, rfl⟩
    rw [StartsRecord, findRecordEnd_record small, List.take_left]
    exact validateRecord_record small

theorem replayRecord_error {b : Bytes} (none' : ¬ StartsRecord b) :
    ∃ err, replayRecord b = .error err := by
  cases read : replayRecord b with
  | error err => exact ⟨err, rfl⟩
  | ok r =>
      obtain ⟨small, shape⟩ := replayRecord_inv read
      exact absurd ((startsRecord_iff b).mpr ⟨r.1, r.2, small, shape⟩) none'

instance (gap behind : Bytes) : Decidable (Unreadable gap behind) :=
  decidable_of_iff (∀ u ∈ gap.tails, u ≠ [] → ¬ StartsRecord (u ++ behind)) (by
    simp only [Unreadable, List.mem_tails])

theorem Unreadable.suffix {gap gap' behind : Bytes} (bare : Unreadable gap behind)
    (within : gap' <:+ gap) : Unreadable gap' behind :=
  fun u inner => bare u (inner.trans within)

section

variable {σ : Type} (f : σ → AofEntry → σ) (policy : CorruptionPolicy)

/-- One turn of the loop of `replayAof2Format`. -/
def replayTurn : Bytes × σ → (Bytes × σ) ⊕ Except AofError σ
  | (buf, s) =>
      if buf = [] then .inr (.ok s)
      else
        match replayRecord buf with
        | .ok (e, rest) => .inl (rest, f s e)
        | .error e =>
            if policy = .strict then .inr (.error e)
            else
              match findNextValidRecord buf.tail with
              | some rest => .inl (rest, s)
              | none => .inr (.ok s)

theorem length_lt_of_replayTurn {buf buf' : Bytes} {s s' : σ}
    (turn : replayTurn f policy (buf, s) = .inl (buf', s')) : buf'.length < buf.length := by
  rw [replayTurn] at turn
  split at turn
  · cases turn
  · rename_i some'
    have size : 0 < buf.length := List.length_pos_iff.mpr some'
    split at turn
    · rename_i e rest run
      obtain ⟨rfl, rfl⟩ := Prod.mk.inj (Sum.inl.inj turn)
      have shape := congrArg List.length (replayRecord_inv run).2
      have recordSize := record_length e
      rw [List.length_append] at shape
      omega
    · split at turn
      · cases turn
      · split at turn
        · rename_i rest found
          obtain ⟨rfl, rfl⟩ := Prod.mk.inj (Sum.inl.inj turn)
          have shorter := (findNextValidRecord_suffix found).length_le
          rw [List.length_tail] at shorter
          omega
        · cases turn

theorem replayAof2Format_succ (fuel : Nat) (buf : Bytes) (s : σ) :
    replayAof2Format f policy (fuel + 1) buf s =
      match replayTurn f policy (buf, s) with
      | .inl (buf', s') => replayAof2Format f policy fuel buf' s'
      | .inr r => r := by
  rw [replayAof2Format, replayTurn]
  repeat' split
  all_goals simp_all

theorem turns_replayTurn {fuel : Nat} {buf : Bytes} (enough : buf.length ≤ fuel) (s : σ) :
    turns (replayTurn f policy) (fuel + 1) (buf, s) =
      .inr (replayAof2Format f policy fuel buf s) := by
  induction fuel generalizing buf s with
  | zero =>
      obtain rfl := List.length_eq_zero_iff.mp (Nat.le_zero.mp enough)
      rfl
  | succ fuel ih =>
      rw [turns, replayAof2Format_succ]
      cases turn : replayTurn f policy (buf, s) with
      | inl next =>
          have shorter := length_lt_of_replayTurn f policy turn
          exact ih (by omega) next.2
      | inr r => rfl

end

section

variable {σ : Type} (f : σ → AofEntry → σ) {policy : CorruptionPolicy}

theorem findNextValidRecord_gap (gap : Bytes) (entries : List AofEntry) :
    (∃ gap', gap' <:+ gap ∧ findNextValidRecord (gap ++ entries.flatMap record) =
      some (gap' ++ entries.flatMap record)) ∨
    entries = [] ∧ findNextValidRecord (gap ++ entries.flatMap record) = none := by
  have stops : (∃ v, findNextValidRecord (gap ++ entries.flatMap record) = some v ∧
      entries.flatMap record <:+ v) ∨
      entries = [] ∧ findNextValidRecord (gap ++ entries.flatMap record) = none := by
    cases entries with
    | nil =>
        cases found : findNextValidRecord (gap ++ List.flatMap record []) with
        | none => exact Or.inr ⟨rfl, rfl⟩
        | some v => exact Or.inl ⟨v, rfl, List.nil_suffix⟩
    | cons e entries => exact Or.inl (findNextValidRecord_of_suffix (List.suffix_append gap _))
  rcases stops with ⟨v, found, ⟨gap', rfl⟩⟩ | none'
  · obtain ⟨front, shape⟩ := findNextValidRecord_suffix found
    rw [← List.append_assoc] at shape
    exact Or.inl ⟨gap', ⟨front, List.append_cancel_right shape⟩, found⟩
  · exact Or.inr none'

/-- Whatever candidates a gap offers, the loop leaves it at the records behind it. -/
theorem replay_gap (lenient : policy ≠ .strict) {entries : List AofEntry}
    (small : ∀ e ∈ entries, Loggable e) {gap : Bytes}
    (bare : Unreadable gap (entries.flatMap record)) {fuel : Nat}
    (enough : gap.length + (entries.flatMap record).length ≤ fuel) (s : σ) :
    replayAof2Format f policy fuel (gap ++ entries.flatMap record) s =
      .ok (entries.foldl f s) := by
  induction fuel generalizing gap with
  | zero =>
      obtain rfl : gap = [] := List.length_eq_zero_iff.mp (by omega)
      have count := length_le_flatMap_record entries
      exact replayAof2Format_records f policy small (by omega) s
  | succ fuel ih =>
      cases gap with
      | nil =>
          have count := length_le_flatMap_record entries
          rw [List.length_nil] at enough
          exact replayAof2Format_records f policy small (by omega) s
      | cons x gap =>
          obtain ⟨err, fails⟩ := replayRecord_error
            (bare (x :: gap) (List.suffix_refl _) (List.cons_ne_nil x gap))
          rw [List.length_cons] at enough
          rw [replayAof2Format, if_neg (by simp), fails]
          dsimp only
          rw [if_neg lenient, List.cons_append, List.tail_cons]
          rcases findNextValidRecord_gap gap entries with ⟨gap', within, found⟩ | ⟨rfl, none'⟩
          · have shorter := within.length_le
            rw [found]
            exact ih (bare.suffix (within.trans (List.suffix_cons x gap))) (by omega)
          · rw [none']
            rfl

/-- Damaged bytes between two runs of records cost no record. -/
theorem replay_resynchronises {policy : CorruptionPolicy} (lenient : policy ≠ .strict)
    (before behind : List AofEntry) (smallBefore : ∀ e ∈ before, Loggable e)
    (smallBehind : ∀ e ∈ behind, Loggable e) (gap : Bytes)
    (bare : Unreadable gap (behind.flatMap record)) (s : σ) :
    (∃ n, turns (replayTurn f policy)
      n (before.flatMap record ++ gap ++ behind.flatMap record, s) =
        .inr (.ok (behind.foldl f (before.foldl f s)))) ∧
    AofLog.replay ⟨magic ++ (before.flatMap record ++ gap ++ behind.flatMap record), policy⟩ f s =
      .ok (behind.foldl f (before.foldl f s)) := by
  have count := length_le_flatMap_record before
  have run : replayAof2Format f policy
      (before.flatMap record ++ gap ++ behind.flatMap record).length
      (before.flatMap record ++ gap ++ behind.flatMap record) s =
        .ok (behind.foldl f (before.foldl f s)) := by
    have fuel : (before.flatMap record ++ gap ++ behind.flatMap record).length =
        before.length + ((before.flatMap record).length - before.length +
          (gap.length + (behind.flatMap record).length)) := by
      rw [List.length_append, List.length_append]
      omega
    rw [fuel, List.append_assoc, replayAof2Format_append f policy smallBefore]
    exact replay_gap f lenient smallBehind bare (by omega) _
  constructor
  · exact ⟨_, (turns_replayTurn f policy (Nat.le_refl _) s).trans (congrArg Sum.inr run)⟩
  · rw [AofLog.replay_magic, run]

/-- A lost length that claims the record behind it, and a candidate inside the damage. -/
theorem replay_resynchronises_length :
    AofLog.replay ⟨magic ++ (List.flatMap record [.set [107] [1]] ++
      [1, 0, 0, 0, 0, 0, 0, 0, 30, 2, 9] ++ List.flatMap record [.del [108], .del [107]]),
      .skip⟩ (fun ops e => ops ++ [e]) ([] : List AofEntry) =
      .ok [.set [107] [1], .del [108], .del [107]] :=
  (replay_resynchronises (fun ops e => ops ++ [e]) (by decide) [.set [107] [1]]
    [.del [108], .del [107]] (by decide) (by decide) [1, 0, 0, 0, 0, 0, 0, 0, 30, 2, 9]
    (by decide +kernel) []).2

end

end Zumic.Engine
