/- Statistics of the validator (`aof_integrity.rs`) and repair of a log (`AofLog::repair`). -/

import Zumic.Engine.Persistent
import Zumic.Engine.Resync

namespace Zumic.Engine

open Lib Lib.ByteString

structure IntegrityStats where
  recordsChecked : Nat
  recordsValid : Nat
  recordsCorrupted : Nat
  recordsTruncated : Nat
  recordsUnknownOp : Nat
  recordsSkipped : Nat
  deriving DecidableEq

namespace IntegrityStats

/-- The statistics of a new validator, and those after `reset_stats`. -/
def default : IntegrityStats := ⟨0, 0, 0, 0, 0, 0⟩

def update (stats : IntegrityStats) (result : ValidationResult) : IntegrityStats :=
  let stats := { stats with recordsChecked := stats.recordsChecked + 1 }
  match result with
  | .valid => { stats with recordsValid := stats.recordsValid + 1 }
  | .corrupted _ _ => { stats with recordsCorrupted := stats.recordsCorrupted + 1 }
  | .truncated => { stats with recordsTruncated := stats.recordsTruncated + 1 }
  | .unknownOperation _ => { stats with recordsUnknownOp := stats.recordsUnknownOp + 1 }

def skipRecord (stats : IntegrityStats) : IntegrityStats :=
  { stats with recordsSkipped := stats.recordsSkipped + 1 }

/-- The damage that makes `repair` rewrite the file. -/
def damaged (stats : IntegrityStats) : Bool :=
  decide (0 < stats.recordsCorrupted) || decide (0 < stats.recordsTruncated)

end IntegrityStats

inductive RepairMode where
  | skip
  | strict
  | recover
  deriving DecidableEq

def RepairMode.policy : RepairMode → CorruptionPolicy
  | .skip => .skip
  | .strict => .strict
  | .recover => .log

theorem RepairMode.policy_ne_strict {mode : RepairMode} (lenient : mode ≠ .strict) :
    mode.policy ≠ .strict := by
  cases mode with
  | skip => decide
  | strict => exact absurd rfl lenient
  | recover => decide

structure RepairResult where
  stats : IntegrityStats
  modified : Bool
  messages : List String
  deriving DecidableEq

/-- What the file system refuses during `rewrite`: before or after the new file has taken the place
of the old one. -/
structure RewriteFault where
  replaced : Bool
  message : String

/-- A log, all of it on disk, with the statistics of its validator. -/
structure CheckedLog extends AofLog where
  stats : IntegrityStats

section

variable {σ : Type} (f : σ → AofEntry → σ) (policy : CorruptionPolicy)

/-- The loop of `replayAof2Format` with what the validator counts. -/
def replayAof2Checked : Nat → Bytes → IntegrityStats → σ → Except AofError σ × IntegrityStats
  | 0, _, stats, s => (.ok s, stats)
  | fuel + 1, buf, stats, s =>
      if buf = [] then (.ok s, stats)
      else
        let stats := stats.update (validateRecord (buf.take (findRecordEnd buf)))
        match replayRecord buf with
        | .ok (e, rest) => replayAof2Checked fuel rest stats (f s e)
        | .error e =>
            if policy = .strict then (.error e, stats)
            else
              match findNextValidRecord buf.tail with
              | some rest => replayAof2Checked fuel rest stats.skipRecord s
              | none => (.ok s, stats.skipRecord)

/-- `AofLog::replay`. The loop over the old format, which has no checksums, does not use the
validator. -/
def CheckedLog.replay (log : CheckedLog) (s : σ) : Except AofError σ × CheckedLog :=
  if log.file.length < 4 ∨ log.file.take 4 ≠ magic then (log.toAofLog.replay f s, log)
  else
    let buf := log.file.drop 4
    let (outcome, stats) := replayAof2Checked f log.corruptionPolicy buf.length buf log.stats s
    (outcome, { log with stats := stats })

end

/-- The callback of `repair`. -/
def collectEntry (recovered : List (Bytes × Bytes)) : AofEntry → List (Bytes × Bytes)
  | .set key value => Assoc.insert recovered key value
  | .del key => Assoc.erase recovered key

namespace CheckedLog

variable (order : IterationOrder (Bytes × Bytes)) (fault : Option RewriteFault)

/-- Puts a file with the live data in the place of the log. -/
def rewrite (log : CheckedLog) (live : List (Bytes × Bytes)) : Except String Unit × CheckedLog :=
  let file := magic ++ ((order.order live).map fun e => .set e.1 e.2).flatMap record
  match fault with
  | none => (.ok (), { log with file := file })
  | some ⟨true, message⟩ => (.error message, { log with file := file })
  | some ⟨false, message⟩ => (.error message, log)

/-- `AofLog::repair` with the path of the log itself. A replay that tolerates damage fails at the
header only, before anything is recovered. -/
def repair (log : CheckedLog) (mode : RepairMode) : Except AofError RepairResult × CheckedLog :=
  let (replayed, checked) :=
    CheckedLog.replay collectEntry { log with corruptionPolicy := mode.policy } []
  let stats := checked.stats
  let (written, rewritten) : List String × CheckedLog :=
    if stats.damaged ∧ mode ≠ .strict then
      match checked.rewrite order fault (replayed.toOption.getD []) with
      | (.ok (), rewritten) => (["AOF file successfully repaired and rewritten"], rewritten)
      | (.error e, rewritten) => (["Failed to rewrite repaired AOF: " ++ e], rewritten)
    else ([], checked)
  let found (count : Nat) (text : String) : List String := if 0 < count then [text] else []
  let messages := written ++
    found stats.recordsCorrupted ("Found " ++ toString stats.recordsCorrupted ++ " corrupted records") ++
    found stats.recordsTruncated ("Found " ++ toString stats.recordsTruncated ++ " truncated records") ++
    found stats.recordsSkipped ("Skipped " ++ toString stats.recordsSkipped ++ " invalid records")
  let result : RepairResult := ⟨stats, stats.damaged, messages⟩
  let restored := { rewritten with corruptionPolicy := log.corruptionPolicy }
  match replayed with
  | .ok _ => (.ok result, restored)
  | .error e => if mode = .strict then (.error e, restored) else (.ok result, restored)

end CheckedLog

/-- Nothing but records. -/
def Clean (body : Bytes) : Prop :=
  ∃ entries : List AofEntry, (∀ e ∈ entries, Loggable e) ∧ body = entries.flatMap record

/-- Damage that shows up as unknown operations only: runs of bytes that are no operation, each
before an intact record, and an end of the file without a place for a record. -/
inductive Unnoticed : Bytes → Prop
  | nil : Unnoticed []
  | record {e : AofEntry} {rest : Bytes} (small : Loggable e) (behind : Unnoticed rest) :
      Unnoticed (record e ++ rest)
  | skipped {gap : Bytes} {e : AofEntry} {rest : Bytes} (some' : gap ≠ [])
      (bare : ∀ b ∈ gap, b ≠ 1 ∧ b ≠ 2) (small : Loggable e) (behind : Unnoticed rest) :
      Unnoticed (gap ++ (Engine.record e ++ rest))
  | left {gap : Bytes} (long : 9 ≤ gap.length) (bare : findNextValidRecord gap = none) :
      Unnoticed gap

theorem le_findRecordEnd {buf : Bytes} (long : 9 ≤ buf.length) : 9 ≤ findRecordEnd buf := by
  rw [findRecordEnd, if_neg (by omega)]
  dsimp only
  split
  · exact long
  · split
    · split
      · exact long
      · omega
    · omega

/-- Only a byte that is no operation, with place for a record, is an unknown operation. -/
theorem verdict_unknown (op : UInt8) (rest : Bytes) :
    (∃ o, validateRecord ((op :: rest).take (findRecordEnd (op :: rest))) = .unknownOperation o) ↔
      9 ≤ rest.length + 1 ∧ op ≠ 1 ∧ op ≠ 2 := by
  by_cases long : 9 ≤ rest.length + 1
  · obtain ⟨n, stop⟩ := Nat.exists_eq_add_of_le' (@le_findRecordEnd (op :: rest) long)
    have size : ((op :: rest).take (n + 9)).length = min (n + 9) (rest.length + 1) :=
      List.length_take
    rw [stop, List.take_succ_cons] at *
    rw [List.length_cons] at size
    rw [validateRecord]
    rw [if_neg (by rw [List.length_cons]; omega)]
    by_cases unknown : op ≠ 1 ∧ op ≠ 2
    · rw [if_pos unknown]
      exact ⟨fun _ => ⟨long, unknown⟩, fun _ => ⟨op, rfl⟩⟩
    · rw [if_neg unknown]
      refine ⟨fun verdict => ?_, fun verdict => absurd verdict.2 unknown⟩
      obtain ⟨o, verdict⟩ := verdict
      split at verdict
      · cases verdict
      · dsimp only at verdict
        split at verdict <;> cases verdict
  · refine ⟨fun verdict => ?_, fun verdict => absurd verdict.1 long⟩
    obtain ⟨o, verdict⟩ := verdict
    have short : (op :: rest).length < 9 := by
      rw [List.length_cons]
      omega
    rw [findRecordEnd, if_pos short, List.take_length, validateRecord, if_pos short] at verdict
    cases verdict

/-- The search goes past the bytes that are no operation. -/
theorem findNextValidRecord_eq_some_iff {b v : Bytes} : findNextValidRecord b = some v ↔
    (∃ gap, b = gap ++ v ∧ ∀ x ∈ gap, x ≠ 1 ∧ x ≠ 2) ∧
      (v.head? = some 1 ∨ v.head? = some 2) ∧ 9 ≤ v.length := by
  constructor
  · intro found
    induction b with
    | nil => cases found
    | cons x b ih =>
        rw [findNextValidRecord] at found
        split at found
        · rename_i candidate
          obtain rfl := Option.some.inj found
          refine ⟨⟨[], rfl, fun y member => absurd member List.not_mem_nil⟩, ?_, candidate.2⟩
          simpa using candidate.1
        · rename_i other
          have shorter := (findNextValidRecord_suffix found).length_le
          obtain ⟨⟨gap, rfl, bare⟩, op, long⟩ := ih found
          have skipped : x ≠ 1 ∧ x ≠ 2 := by
            rw [← not_or]
            exact fun op => other ⟨op, by omega⟩
          refine ⟨⟨x :: gap, rfl, fun y member => ?_⟩, op, long⟩
          rcases List.mem_cons.mp member with rfl | later
          · exact skipped
          · exact bare y later
  · rintro ⟨⟨gap, rfl, bare⟩, op, long⟩
    induction gap with
    | nil =>
        cases v with
        | nil => cases long
        | cons x v =>
            have candidate : (x = 1 ∨ x = 2) ∧ 9 ≤ v.length + 1 := ⟨by simpa using op, long⟩
            rw [List.nil_append, findNextValidRecord, if_pos candidate]
    | cons x gap ih =>
        obtain ⟨set', del'⟩ := bare x List.mem_cons_self
        have other : ¬((x = 1 ∨ x = 2) ∧ 9 ≤ (gap ++ v).length + 1) :=
          fun candidate => candidate.1.elim set' del'
        rw [List.cons_append, findNextValidRecord, if_neg other]
        exact ih fun y member => bare y (List.mem_cons_of_mem _ member)

theorem candidate_record (e : AofEntry) (rest : Bytes) :
    ((record e ++ rest).head? = some 1 ∨ (record e ++ rest).head? = some 2) ∧
      9 ≤ (record e ++ rest).length := by
  have size := record_length e
  have long := payload_length e
  refine ⟨?_, by rw [List.length_append]; omega⟩
  cases e with
  | set key value => exact Or.inl rfl
  | del key => exact Or.inr rfl

theorem Unnoticed.of_candidate {v : Bytes} (unnoticed : Unnoticed v)
    (op : v.head? = some 1 ∨ v.head? = some 2) (long : 9 ≤ v.length) :
    ∃ e rest, Loggable e ∧ v = Engine.record e ++ rest ∧ Unnoticed rest := by
  cases unnoticed with
  | nil => cases long
  | record small behind => exact ⟨_, _, small, rfl, behind⟩
  | @skipped gap e rest some' bare small behind =>
      cases gap with
      | nil => exact absurd rfl some'
      | cons x gap =>
          obtain ⟨set', del'⟩ := bare x List.mem_cons_self
          rcases op with op | op
          · exact absurd (Option.some.inj op) set'
          · exact absurd (Option.some.inj op) del'
  | left _ bare =>
      have here : findNextValidRecord v = some v :=
        findNextValidRecord_eq_some_iff.mpr
          ⟨⟨[], rfl, fun y member => absurd member List.not_mem_nil⟩, op, long⟩
      rw [bare] at here
      cases here

theorem unnoticed_record_iff {e : AofEntry} (small : Loggable e) (rest : Bytes) :
    Unnoticed (record e ++ rest) ↔ Unnoticed rest := by
  refine ⟨fun unnoticed => ?_, Unnoticed.record small⟩
  obtain ⟨op, long⟩ := candidate_record e rest
  obtain ⟨e', rest', small', same, behind⟩ := unnoticed.of_candidate op long
  have read := replayRecord_record small rest
  rw [same, replayRecord_record small'] at read
  obtain ⟨-, rfl⟩ := Prod.mk.inj (Except.ok.inj read)
  exact behind

theorem unnoticed_cons_iff {x : UInt8} {b : Bytes} (damage : ¬ StartsRecord (x :: b)) :
    Unnoticed (x :: b) ↔ (9 ≤ b.length + 1 ∧ x ≠ 1 ∧ x ≠ 2) ∧
      ∀ rest, findNextValidRecord b = some rest → Unnoticed rest := by
  constructor
  · intro unnoticed
    generalize shape : x :: b = buf at unnoticed
    cases unnoticed with
    | nil => cases shape
    | record small behind =>
        exact absurd ((startsRecord_iff _).mpr ⟨_, _, small, shape⟩) damage
    | @skipped gap e rest some' bare small behind =>
        cases gap with
        | nil => exact absurd rfl some'
        | cons y gap =>
            rw [List.cons_append] at shape
            obtain ⟨rfl, rfl⟩ := List.cons.inj shape
            obtain ⟨op, long⟩ := candidate_record e rest
            have found : findNextValidRecord (gap ++ (record e ++ rest)) =
                some (record e ++ rest) :=
              findNextValidRecord_eq_some_iff.mpr
                ⟨⟨gap, rfl, fun y member => bare y (List.mem_cons_of_mem _ member)⟩, op, long⟩
            refine ⟨⟨by rw [List.length_append]; omega, bare x List.mem_cons_self⟩, ?_⟩
            intro rest' next
            rw [found] at next
            obtain rfl := Option.some.inj next
            exact Unnoticed.record small behind
    | left long bare =>
        subst shape
        rw [findNextValidRecord] at bare
        split at bare
        · cases bare
        · rename_i other
          rw [List.length_cons] at long
          refine ⟨⟨long, not_or.mp fun op => other ⟨op, long⟩⟩, ?_⟩
          intro rest next
          rw [bare] at next
          cases next
  · rintro ⟨⟨long, unknown⟩, next⟩
    cases found : findNextValidRecord b with
    | none =>
        refine Unnoticed.left long ?_
        rw [findNextValidRecord, if_neg fun candidate => not_or.mpr unknown candidate.1, found]
    | some v =>
        obtain ⟨⟨gap, rfl, bare⟩, op, long'⟩ := findNextValidRecord_eq_some_iff.mp found
        obtain ⟨e, rest, small, rfl, behind⟩ := (next v found).of_candidate op long'
        refine Unnoticed.skipped (List.cons_ne_nil x gap) (fun y member => ?_) small behind
        rcases List.mem_cons.mp member with rfl | later
        · exact unknown
        · exact bare y later

section

/-- What counts towards a rewrite. -/
private def IntegrityStats.damage (stats : IntegrityStats) : Nat :=
  stats.recordsCorrupted + stats.recordsTruncated

theorem damaged_iff (stats : IntegrityStats) :
    stats.damaged = true ↔ stats.damage ≠ 0 := by
  simp only [IntegrityStats.damaged, IntegrityStats.damage, Bool.or_eq_true, decide_eq_true_eq]
  omega

theorem damage_skipRecord (stats : IntegrityStats) :
    stats.skipRecord.damage = stats.damage := rfl

theorem damage_update (stats : IntegrityStats) (result : ValidationResult) :
    (stats.update result).damage = stats.damage ∧
        (result = .valid ∨ ∃ o, result = .unknownOperation o) ∨
      (stats.update result).damage = stats.damage + 1 ∧ result ≠ .valid ∧
        ¬ ∃ o, result = .unknownOperation o := by
  cases result with
  | valid => exact Or.inl ⟨rfl, Or.inl rfl⟩
  | corrupted expected actual =>
      refine Or.inr ⟨?_, by simp, by simp⟩
      simp only [IntegrityStats.damage, IntegrityStats.update]
      omega
  | truncated => exact Or.inr ⟨rfl, by simp, by simp⟩
  | unknownOperation o => exact Or.inl ⟨rfl, Or.inr ⟨o, rfl⟩⟩

variable {σ : Type} {f : σ → AofEntry → σ} {policy : CorruptionPolicy}

theorem replayAof2Checked_fst (fuel : Nat) (buf : Bytes) (stats : IntegrityStats) (s : σ) :
    (replayAof2Checked f policy fuel buf stats s).1 = replayAof2Format f policy fuel buf s := by
  induction fuel generalizing buf stats s with
  | zero => rfl
  | succ fuel ih =>
      rw [replayAof2Checked, replayAof2Format]
      by_cases done : buf = []
      · rw [if_pos done, if_pos done]
      · rw [if_neg done, if_neg done]
        cases read : replayRecord buf with
        | ok r => exact ih _ _ _
        | error e =>
            dsimp only
            by_cases strict : policy = .strict
            · rw [if_pos strict, if_pos strict]
            · rw [if_neg strict, if_neg strict]
              cases found : findNextValidRecord buf.tail with
              | none => rfl
              | some rest => exact ih _ _ _

/-- The counts grow, but for damage that goes unnoticed. -/
theorem damage_replay (lenient : policy ≠ .strict) {fuel : Nat} {buf : Bytes}
    (enough : buf.length ≤ fuel) (stats : IntegrityStats) (s : σ) :
    stats.damage ≤ (replayAof2Checked f policy fuel buf stats s).2.damage ∧
      ((replayAof2Checked f policy fuel buf stats s).2.damage = stats.damage ↔
        Unnoticed buf) := by
  induction fuel generalizing buf stats s with
  | zero =>
      obtain rfl := List.length_eq_zero_iff.mp (Nat.le_zero.mp enough)
      exact ⟨Nat.le_refl _, fun _ => Unnoticed.nil, fun _ => rfl⟩
  | succ fuel ih =>
      cases buf with
      | nil => exact ⟨Nat.le_refl _, fun _ => Unnoticed.nil, fun _ => rfl⟩
      | cons x b =>
          rw [List.length_cons] at enough
          rw [replayAof2Checked, if_neg (List.cons_ne_nil x b)]
          dsimp only
          by_cases intact : StartsRecord (x :: b)
          · obtain ⟨e, rest, small, shape⟩ := (startsRecord_iff _).mp intact
            have size := congrArg List.length shape
            have recordSize := record_length e
            rw [List.length_append, List.length_cons] at size
            rw [StartsRecord] at intact
            rw [intact, shape, replayRecord_record small, unnoticed_record_iff small]
            exact @ih rest (by omega) (stats.update .valid) (f s e)
          · obtain ⟨err, fails⟩ := replayRecord_error intact
            rw [fails]
            dsimp only
            rw [if_neg lenient, unnoticed_cons_iff intact, ← verdict_unknown x b, List.tail_cons]
            generalize verdict : validateRecord ((x :: b).take (findRecordEnd (x :: b))) = result
            have invalid : result ≠ .valid := fun valid => intact (verdict.trans valid)
            cases found : findNextValidRecord b with
            | none =>
                dsimp only
                rw [damage_skipRecord]
                rcases damage_update stats result with ⟨same, unknown⟩ | ⟨more, -, known⟩
                · rw [same]
                  refine ⟨Nat.le_refl _, fun _ => ⟨unknown.resolve_left invalid, ?_⟩, fun _ => rfl⟩
                  exact fun rest next => absurd next (by simp)
                · rw [more]
                  exact ⟨by omega, fun same => by omega, fun both => absurd both.1 known⟩
            | some v =>
                dsimp only
                have shorter := (findNextValidRecord_suffix found).length_le
                obtain ⟨grows, stays⟩ := @ih v (by omega) (stats.update result).skipRecord s
                rw [damage_skipRecord] at grows stays
                rcases damage_update stats result with ⟨same, unknown⟩ | ⟨more, -, known⟩
                · rw [same] at grows stays
                  refine ⟨grows, ?_⟩
                  rw [stays]
                  refine ⟨fun behind => ⟨unknown.resolve_left invalid, fun rest next => ?_⟩,
                    fun both => both.2 v rfl⟩
                  exact Option.some.inj next ▸ behind
                · rw [more] at grows
                  exact ⟨by omega, fun same => by omega, fun both => absurd both.1 known⟩

end

section

variable {policy : CorruptionPolicy}

theorem exists_replayed (lenient : policy ≠ .strict) (fuel : Nat) (buf : Bytes) :
    ∃ entries : List AofEntry, (∀ e ∈ entries, Loggable e) ∧
      ∀ (σ : Type) (f : σ → AofEntry → σ) (s : σ),
        replayAof2Format f policy fuel buf s = .ok (entries.foldl f s) := by
  induction fuel generalizing buf with
  | zero => exact ⟨[], fun e member => absurd member List.not_mem_nil, fun σ f s => rfl⟩
  | succ fuel ih =>
      by_cases done : buf = []
      · refine ⟨[], fun e member => absurd member List.not_mem_nil, fun σ f s => ?_⟩
        rw [replayAof2Format, if_pos done, List.foldl_nil]
      · cases read : replayRecord buf with
        | ok r =>
            obtain ⟨entries, small, run⟩ := ih r.2
            refine ⟨r.1 :: entries, fun e member => ?_, fun σ f s => ?_⟩
            · rcases List.mem_cons.mp member with rfl | later
              · exact (replayRecord_inv read).1
              · exact small e later
            · rw [replayAof2Format, if_neg done, read]
              exact run σ f (f s r.1)
        | error err =>
            cases found : findNextValidRecord buf.tail with
            | none =>
                refine ⟨[], fun e member => absurd member List.not_mem_nil, fun σ f s => ?_⟩
                simp only [replayAof2Format, if_neg done, read, if_neg lenient, found,
                  List.foldl_nil]
            | some rest =>
                obtain ⟨entries, small, run⟩ := ih rest
                refine ⟨entries, small, fun σ f s => ?_⟩
                simp only [replayAof2Format, if_neg done, read, if_neg lenient, found]
                exact run σ f s

theorem strict_iff {σ : Type} (f : σ → AofEntry → σ) {fuel : Nat} {buf : Bytes}
    (enough : buf.length ≤ fuel) (s : σ) :
    (∃ s', replayAof2Format f .strict fuel buf s = .ok s') ↔ Clean buf := by
  constructor
  · rintro ⟨s', run⟩
    induction fuel generalizing buf s with
    | zero =>
        obtain rfl := List.length_eq_zero_iff.mp (Nat.le_zero.mp enough)
        exact ⟨[], fun e member => absurd member List.not_mem_nil, rfl⟩
    | succ fuel ih =>
        rw [replayAof2Format] at run
        split at run
        · rename_i done
          exact ⟨[], fun e member => absurd member List.not_mem_nil, done⟩
        · split at run
          · rename_i e rest read
            obtain ⟨small, rfl⟩ := replayRecord_inv read
            have recordSize := record_length e
            rw [List.length_append] at enough
            obtain ⟨entries, small', rfl⟩ := @ih rest (by omega) (f s e) run
            refine ⟨e :: entries, fun e' member => ?_, rfl⟩
            rcases List.mem_cons.mp member with rfl | later
            · exact small
            · exact small' e' later
          · rw [if_pos rfl] at run
            cases run
  · rintro ⟨entries, small, rfl⟩
    have count := length_le_flatMap_record entries
    exact ⟨_, replayAof2Format_records f .strict small (by omega) s⟩

theorem unnoticed_of_clean {body : Bytes} (clean : Clean body) : Unnoticed body := by
  obtain ⟨entries, small, rfl⟩ := clean
  induction entries with
  | nil => exact Unnoticed.nil
  | cons e entries ih =>
      rw [List.flatMap_cons]
      exact Unnoticed.record (small e List.mem_cons_self)
        (ih fun e' member => small e' (List.mem_cons_of_mem _ member))

end

theorem foldl_collectEntry (entries : List AofEntry) {recovered : List (Bytes × Bytes)}
    (distinct : (Assoc.keys recovered).Nodup) :
    (Assoc.keys (entries.foldl collectEntry recovered)).Nodup ∧
      Assoc.get (entries.foldl collectEntry recovered) =
        Journal.replay entries (Assoc.get recovered) := by
  induction entries generalizing recovered with
  | nil => exact ⟨distinct, rfl⟩
  | cons e entries ih =>
      rw [List.foldl_cons, Journal.replay_cons]
      cases e with
      | set key value =>
          have next := ih (Assoc.nodup_keys_insert distinct key value)
          have one : Assoc.get (Assoc.insert recovered key value) =
              Function.update (Assoc.get recovered) key (some value) := by
            funext k
            rw [Assoc.get_insert, Function.update_apply]
            simp only [eq_comm]
          rw [one] at next
          exact next
      | del key =>
          have next := ih (Assoc.nodup_keys_erase distinct key)
          have one : Assoc.get (Assoc.erase recovered key) =
              Function.update (Assoc.get recovered) key none := by
            funext k
            rw [Assoc.get_erase, Function.update_apply]
            simp only [eq_comm]
          rw [one] at next
          exact next

theorem small_collectEntry {entries : List AofEntry} (small : ∀ e ∈ entries, Loggable e)
    {recovered : List (Bytes × Bytes)} (before : ∀ p ∈ recovered, Loggable (.set p.1 p.2)) :
    ∀ p ∈ entries.foldl collectEntry recovered, Loggable (.set p.1 p.2) := by
  induction entries generalizing recovered with
  | nil => exact before
  | cons e entries ih =>
      apply ih fun e' member => small e' (List.mem_cons_of_mem _ member)
      intro p member
      cases e with
      | set key value =>
          rcases Assoc.mem_insert member with rfl | older
          · exact small _ List.mem_cons_self
          · exact before p older
      | del key => exact before p ((Assoc.erase_sublist recovered key).subset member)

namespace CheckedLog

/-- After a repair a replay that stops at errors gives the data of the tolerant one, and a clean
file has not been touched. -/
def Repairs (order : IterationOrder (Bytes × Bytes)) (fault : Option RewriteFault)
    (log : CheckedLog) (mode : RepairMode) : Prop :=
  ∃ result after data, log.repair order fault mode = (.ok result, after) ∧
    AofLog.replay ⟨log.file, mode.policy⟩ Journal.Entry.apply (fun _ => none) = .ok data ∧
    AofLog.replay ⟨after.file, .strict⟩ Journal.Entry.apply (fun _ => none) = .ok data ∧
    (Clean (log.file.drop 4) → result.modified = false)

section

variable {order : IterationOrder (Bytes × Bytes)} {fault : Option RewriteFault} {log : CheckedLog}
variable {body : Bytes} {mode : RepairMode} {σ : Type}

theorem damaged_replay (lenient : mode ≠ .strict) :
    (replayAof2Checked collectEntry mode.policy body.length body log.stats []).2.damaged = true ↔
      log.stats.damaged = true ∨ ¬ Unnoticed body := by
  obtain ⟨grows, stays⟩ := @damage_replay _ collectEntry _
    (RepairMode.policy_ne_strict lenient) _ body (Nat.le_refl _) log.stats []
  rw [damaged_iff, damaged_iff, ← stays]
  omega

theorem repair_lenient (lenient : mode ≠ .strict) (file : log.file = magic ++ body)
    {recovered : List (Bytes × Bytes)}
    (replayed : replayAof2Format collectEntry mode.policy body.length body [] = .ok recovered) :
    ∃ result after, log.repair order fault mode = (.ok result, after) ∧
      (result.modified = true ↔ log.stats.damaged = true ∨ ¬ Unnoticed body) ∧
      after.file = if result.modified = true ∧ ∀ f ∈ fault, f.replaced = true
        then magic ++ ((order.order recovered).map fun e => Journal.Entry.set e.1 e.2).flatMap record
        else log.file := by
  have checks := @damaged_replay log body mode lenient
  have outcome := @replayAof2Checked_fst _ collectEntry mode.policy body.length body log.stats []
  rw [replayed] at outcome
  have long : ¬((magic ++ body).length < 4 ∨ (magic ++ body).take 4 ≠ magic) := by
    have size : magic.length = 4 := rfl
    rw [not_or, not_not, List.length_append]
    exact ⟨by omega, List.take_left' rfl⟩
  have rest : (magic ++ body).drop 4 = body := List.drop_left' rfl
  simp only [repair, replay, file, if_neg long, rest, outcome, lenient, ne_eq, not_false_eq_true,
    and_true]
  refine ⟨_, _, rfl, checks, ?_⟩
  dsimp only
  generalize (replayAof2Checked collectEntry mode.policy body.length body log.stats []).2 = stats
  by_cases damage : stats.damaged = true
  · simp only [damage, if_true, true_and, Except.toOption]
    cases fault with
    | none => simp [rewrite]
    | some refused =>
        obtain ⟨replaced, message⟩ := refused
        cases replaced with
        | true => simp [rewrite]
        | false => simp [rewrite]
  · simp [damage]

/-- The file that a repair writes holds the data of the tolerant replay. -/
theorem strict_rewritten {entries : List AofEntry} (small : ∀ e ∈ entries, Loggable e) :
    AofLog.replay ⟨magic ++ ((order.order (entries.foldl collectEntry [])).map
      fun e => Journal.Entry.set e.1 e.2).flatMap record, .strict⟩ Journal.Entry.apply
        (fun _ => none) = .ok (Journal.replay entries fun _ => none) := by
  obtain ⟨distinct, data⟩ := @foldl_collectEntry entries [] List.nodup_nil
  have fits := small_collectEntry small fun p member => absurd member List.not_mem_nil
  have listed := order.perm (entries.foldl collectEntry [])
  have distinct' : (Assoc.keys (order.order (entries.foldl collectEntry []))).Nodup :=
    (listed.map Prod.fst).nodup_iff.mpr distinct
  rw [AofLog.replay_records]
  · have sets := Journal.replay_sets distinct' (fun _ => none)
    rw [Journal.replay] at sets
    rw [sets]
    congr 1
    funext k
    rw [Option.or_none, Assoc.get_of_perm listed distinct', data]
    rfl
  · intro e member
    obtain ⟨p, among, rfl⟩ := List.mem_map.mp member
    exact fits p (listed.mem_iff.mp among)

/-- A repair gives a clean log with the data of the tolerant replay, and leaves clean files alone,
exactly when the earlier counts are zero in the one case, and in the other when the damage counts
and the new file takes the place of the old one. -/
theorem repairs_iff (order : IterationOrder (Bytes × Bytes)) (fault : Option RewriteFault)
    (log : CheckedLog) (body : Bytes) (file : log.file = magic ++ body) (mode : RepairMode)
    (lenient : mode ≠ .strict) :
    Repairs order fault log mode ↔
      Clean body ∧ log.stats.damaged = false ∨
        ¬ Clean body ∧ (log.stats.damaged = true ∨ ¬ Unnoticed body) ∧
          ∀ f ∈ fault, f.replaced = true := by
  obtain ⟨entries, small, runs⟩ :=
    exists_replayed (RepairMode.policy_ne_strict lenient) body.length body
  have tolerant : AofLog.replay ⟨log.file, mode.policy⟩ Journal.Entry.apply (fun _ => none) =
      .ok (Journal.replay entries fun _ => none) := by
    rw [file, AofLog.replay_magic]
    exact runs _ Journal.Entry.apply fun _ => none
  obtain ⟨result, after, run, modified, written⟩ :=
    @repair_lenient order fault log body mode lenient file _ (runs _ collectEntry [])
  have rest : log.file.drop 4 = body := by
    rw [file]
    exact List.drop_left' rfl
  have held : Repairs order fault log mode ↔
      AofLog.replay ⟨after.file, .strict⟩ Journal.Entry.apply (fun _ => none) =
        .ok (Journal.replay entries fun _ => none) ∧ (Clean body → result.modified = false) := by
    rw [Repairs, run, tolerant, rest]
    constructor
    · rintro ⟨result', after', data, same, read, strict, untouched⟩
      obtain ⟨done, rfl⟩ := Prod.mk.inj same
      obtain rfl := Except.ok.inj done
      obtain rfl := Except.ok.inj read
      exact ⟨strict, untouched⟩
    · rintro ⟨strict, untouched⟩
      exact ⟨result, after, _, rfl, rfl, strict, untouched⟩
  rw [held]
  by_cases clean : Clean body
  · constructor
    · rintro ⟨-, untouched⟩
      refine Or.inl ⟨clean, ?_⟩
      by_contra counted
      rw [Bool.not_eq_false] at counted
      have touched := modified.mpr (Or.inl counted)
      rw [untouched clean] at touched
      cases touched
    · rintro (⟨-, fresh⟩ | ⟨damage, -⟩)
      · have untouched : result.modified = false := by
          rw [← Bool.not_eq_true, modified, fresh, not_or, not_not]
          exact ⟨Bool.false_ne_true, unnoticed_of_clean clean⟩
        refine ⟨?_, fun _ => untouched⟩
        have same : after.file = log.file := by
          rw [written, untouched, if_neg fun both => Bool.false_ne_true both.1]
        obtain ⟨entries', small', rfl⟩ := clean
        rw [file, AofLog.replay_records _ _ small'] at tolerant
        rw [same, file, AofLog.replay_records _ _ small', tolerant]
      · exact absurd clean damage
  · constructor
    · rintro ⟨strict, -⟩
      by_cases replaced : result.modified = true ∧ ∀ f ∈ fault, f.replaced = true
      · exact Or.inr ⟨clean, modified.mp replaced.1, replaced.2⟩
      · rw [written, if_neg replaced, file, AofLog.replay_magic] at strict
        exact absurd ((strict_iff _ (Nat.le_refl _) _).mp ⟨_, strict⟩) clean
    · rintro (⟨clean', -⟩ | ⟨-, counted, replaced⟩)
      · exact absurd clean' clean
      · refine ⟨?_, fun clean' => absurd clean' clean⟩
        rw [written, if_pos ⟨modified.mpr counted, replaced⟩]
        exact strict_rewritten small

theorem not_strict {body : Bytes} (fails : (AofLog.callbacks ⟨magic ++ body, .strict⟩).toBool = false)
    (f : σ → AofEntry → σ) (s s' : σ) : AofLog.replay ⟨magic ++ body, .strict⟩ f s ≠ .ok s' := by
  intro run
  rw [AofLog.replay_magic] at run
  have clean := (strict_iff f (Nat.le_refl _) s).mp ⟨s', run⟩
  obtain ⟨entries, done⟩ := (strict_iff (fun ops e => ops ++ [e]) (Nat.le_refl _)
    ([] : List AofEntry)).mpr clean
  rw [AofLog.callbacks, AofLog.replay_magic, done] at fails
  cases fails

end

theorem torn_not_unnoticed :
    ¬ Unnoticed (record (.set [107] [1]) ++ [2, 0, 0]) := by
  rw [unnoticed_record_iff (by decide), unnoticed_cons_iff (by decide +kernel)]
  exact fun both => absurd both.1.1 (by decide)

/-- A file cut inside its last record. -/
theorem repairs_iff_cut :
    Repairs ⟨fun l => l, fun l => List.Perm.refl l⟩ none
      ⟨⟨magic ++ (record (.set [107] [1]) ++ [2, 0, 0]), .log⟩, .default⟩ .skip :=
  (repairs_iff ⟨fun l => l, fun l => List.Perm.refl l⟩ none
    ⟨⟨magic ++ (record (.set [107] [1]) ++ [2, 0, 0]), .log⟩, .default⟩
    (record (.set [107] [1]) ++ [2, 0, 0]) rfl .skip (by decide)).mpr
    (Or.inr ⟨fun clean => torn_not_unnoticed (unnoticed_of_clean clean),
      Or.inr torn_not_unnoticed, by decide⟩)

/-- An unknown operation is left in the file; and a second repair reports a change to the file that
the first one has written. -/
theorem repair_unknown_operation :
    ¬ Repairs ⟨fun l => l, fun l => List.Perm.refl l⟩ none
      ⟨⟨magic ++ ([9, 0, 0, 0, 0, 0, 0, 0, 0] ++ record (.set [107] [1])), .log⟩, .default⟩ .skip ∧
    ¬ Repairs ⟨fun l => l, fun l => List.Perm.refl l⟩ none
      (repair ⟨fun l => l, fun l => List.Perm.refl l⟩ none
        ⟨⟨magic ++ (record (.set [107] [1]) ++ [2, 0, 0]), .log⟩, .default⟩ .skip).2 .skip := by
  constructor
  · rintro ⟨result, after, data, run, -, strict, -⟩
    have same : after.file = magic ++ ([9, 0, 0, 0, 0, 0, 0, 0, 0] ++ record (.set [107] [1])) := by
      rw [← congrArg (fun r => r.2.file) run]
      decide +kernel
    rw [same] at strict
    exact not_strict (by decide +kernel) _ _ _ strict
  · rintro ⟨result, after, data, run, -, -, untouched⟩
    have touched : result.modified = true := by
      have changed : ((repair ⟨fun l => l, fun l => List.Perm.refl l⟩ none
        (repair ⟨fun l => l, fun l => List.Perm.refl l⟩ none
          ⟨⟨magic ++ (record (.set [107] [1]) ++ [2, 0, 0]), .log⟩, .default⟩ .skip).2 .skip).1.map
            RepairResult.modified).toOption = some true := by decide +kernel
      rw [run] at changed
      exact Option.some.inj changed
    rw [untouched ⟨[.set [107] [1]], by decide, by decide +kernel⟩] at touched
    cases touched

end CheckedLog

end Zumic.Engine
