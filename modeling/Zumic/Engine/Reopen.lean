/- Logs that are opened again, and the two formats they may have. -/

import Zumic.Engine.Aof

namespace Zumic.Engine

open Lib Lib.ByteString

inductive AofFormat where
  | aof1
  | aof2
  deriving DecidableEq

namespace AofFormat

def header : AofFormat → Bytes
  | .aof1 => legacyMagic
  | .aof2 => magic

/-- A record of a format; the old one has no checksum. -/
def recordOf : AofFormat → AofEntry → Bytes
  | .aof1, e => opCode e :: payload e
  | .aof2, e => record e

/-- The file of a valid log. -/
def fileOf (format : AofFormat) (ops : List AofEntry) : Bytes :=
  format.header ++ ops.flatMap format.recordOf

end AofFormat

namespace AofLog

/-- One session: the log is opened, operations are appended, and it is closed, which writes out
what is still buffered. -/
def session (file : Bytes) (s : CorruptionPolicy × List AofEntry) : Except AofError Bytes := do
  let log ← openLog file s.1
  pure (s.2.foldl append log).file

/-- The operations that a replay calls back. -/
def callbacks (log : AofLog) : Except AofError (List AofEntry) :=
  log.replay (fun ops e => ops ++ [e]) []

/-- A log after some sessions, opened once more and replayed. -/
def reopened (file : Bytes) (sessions : List (CorruptionPolicy × List AofEntry))
    (policy : CorruptionPolicy) : Except AofError (List AofEntry) := do
  let file ← sessions.foldlM session file
  let log ← openLog file policy
  log.callbacks

end AofLog

theorem header_length (format : AofFormat) : format.header.length = 4 := by
  cases format <;> rfl

theorem AofLog.openLog_header (format : AofFormat) (t : Bytes) (policy : CorruptionPolicy) :
    AofLog.openLog (format.header ++ t) policy = .ok ⟨format.header ++ t, policy⟩ := by
  have front : (format.header ++ t).take 4 = format.header :=
    List.take_left' (header_length format)
  have known : format.header = magic ∨ format.header = legacyMagic := by
    cases format with
    | aof1 => exact Or.inr rfl
    | aof2 => exact Or.inl rfl
  simp only [AofLog.openLog, front]
  rw [if_pos (header_length format), if_pos known]

theorem foldl_append (ops : List AofEntry) (log : AofLog) :
    (ops.foldl AofLog.append log).file = log.file ++ ops.flatMap record := by
  induction ops generalizing log with
  | nil => simp
  | cons e ops ih =>
      rw [List.foldl_cons, ih]
      simp [AofLog.append]

/-- The sessions append the records of their operations, whatever the format of the file. -/
theorem foldlM_session (format : AofFormat)
    (sessions : List (CorruptionPolicy × List AofEntry)) (t : Bytes) :
    sessions.foldlM AofLog.session (format.header ++ t) =
      .ok (format.header ++ (t ++ (sessions.flatMap Prod.snd).flatMap record)) := by
  induction sessions generalizing t with
  | nil => simp [pure, Except.pure]
  | cons s sessions ih =>
      have first : AofLog.session (format.header ++ t) s =
          .ok (format.header ++ (t ++ s.2.flatMap record)) := by
        simp only [AofLog.session, AofLog.openLog_header, bind, Except.bind, pure, Except.pure,
          foldl_append]
        rw [List.append_assoc]
      rw [List.foldlM_cons, first]
      refine (ih _).trans ?_
      simp

section

variable {σ : Type}

theorem replayAof1Record_record {e : AofEntry} (small : Loggable e) (t : Bytes) :
    replayAof1Record (AofFormat.aof1.recordOf e ++ t) = .ok (e, t) := by
  have known := opCode_known e
  simp only [AofFormat.recordOf, List.cons_append, replayAof1Record]
  rw [if_neg known]
  cases e with
  | set key value =>
      rw [payload, List.append_assoc, readBlock_lengthPrefixed small.1]
      simp only [opCode, if_true]
      rw [readBlock_lengthPrefixed small.2]
  | del key =>
      rw [payload, readBlock_lengthPrefixed small]
      rfl

theorem replayAof1Format_records (f : σ → AofEntry → σ) (policy : CorruptionPolicy)
    {entries : List AofEntry} (small : ∀ e ∈ entries, Loggable e) {fuel : Nat}
    (enough : entries.length ≤ fuel) (s : σ) :
    replayAof1Format f policy fuel (entries.flatMap AofFormat.aof1.recordOf) s =
      .ok (entries.foldl f s) := by
  induction entries generalizing fuel s with
  | nil =>
      cases fuel with
      | zero => rfl
      | succ fuel => rfl
  | cons e entries ih =>
      rw [List.length_cons] at enough
      obtain ⟨n, rfl⟩ : ∃ n, fuel = n + 1 := ⟨fuel - 1, by omega⟩
      have some' : AofFormat.aof1.recordOf e ++ entries.flatMap AofFormat.aof1.recordOf ≠ [] := by
        simp [AofFormat.recordOf]
      have first := replayAof1Record_record (small e (by simp))
        (entries.flatMap AofFormat.aof1.recordOf)
      rw [List.flatMap_cons, replayAof1Format, if_neg some', first]
      exact ih (fun e' member => small e' (List.mem_cons_of_mem _ member)) (by omega) (f s e)

theorem length_readBlock {b block rest : Bytes} {short cut : String}
    (run : readBlock b short cut = .ok (block, rest)) :
    b.length = 4 + block.length + rest.length := by
  rw [readBlock] at run
  split at run
  · cases run
  · dsimp only at run
    split at run
    · cases run
    · obtain ⟨rfl, rfl⟩ := Prod.mk.inj (Except.ok.inj run)
      rw [List.length_take, List.length_drop, List.length_drop]
      omega

theorem length_replayAof1Record {buf rest : Bytes} {e : AofEntry}
    (run : replayAof1Record buf = .ok (e, rest)) :
    buf.length = (AofFormat.aof1.recordOf e).length + rest.length := by
  cases buf with
  | nil => cases run
  | cons op b =>
      rw [replayAof1Record] at run
      split at run
      · cases run
      · split at run
        · cases run
        · rename_i key rest' first
          have keySize := length_readBlock first
          split at run
          · split at run
            · cases run
            · rename_i value rest'' second
              have valueSize := length_readBlock second
              obtain ⟨rfl, rfl⟩ := Prod.mk.inj (Except.ok.inj run)
              simp only [AofFormat.recordOf, payload, lengthPrefixed, List.length_cons,
                List.length_append, length_beBytes]
              omega
          · obtain ⟨rfl, rfl⟩ := Prod.mk.inj (Except.ok.inj run)
            simp only [AofFormat.recordOf, payload, lengthPrefixed, List.length_cons,
              List.length_append, length_beBytes]
            omega

/-- A strict replay of the old format takes the whole buffer for the records it calls back. -/
theorem length_strict_replay {fuel : Nat} {buf : Bytes} {ops ops' : List AofEntry}
    (enough : buf.length ≤ fuel)
    (run : replayAof1Format (fun ops e => ops ++ [e]) .strict fuel buf ops = .ok ops') :
    ∃ l, ops' = ops ++ l ∧ buf.length = (l.flatMap AofFormat.aof1.recordOf).length := by
  induction fuel generalizing buf ops with
  | zero =>
      rw [replayAof1Format] at run
      obtain rfl := Except.ok.inj run
      exact ⟨[], by simp, by simpa using enough⟩
  | succ fuel ih =>
      rw [replayAof1Format] at run
      split at run
      · rename_i none'
        obtain rfl := Except.ok.inj run
        exact ⟨[], by simp, by simp [none']⟩
      · split at run
        · rename_i e rest read
          have size := length_replayAof1Record read
          have positive : 0 < (AofFormat.aof1.recordOf e).length := Nat.succ_pos _
          obtain ⟨l, rfl, sizes⟩ := ih (by omega) run
          refine ⟨e :: l, by simp, ?_⟩
          rw [List.flatMap_cons, List.length_append, ← sizes]
          exact size
        · rw [if_pos rfl] at run
          cases run

theorem AofLog.replay_legacyMagic (f : σ → AofEntry → σ) (policy : CorruptionPolicy) (buf : Bytes)
    (s : σ) :
    AofLog.replay ⟨legacyMagic ++ buf, policy⟩ f s = replayAof1Format f policy buf.length buf s := by
  have front : (legacyMagic ++ buf).take 4 = legacyMagic := List.take_left' rfl
  have body : (legacyMagic ++ buf).drop 4 = buf := List.drop_left' rfl
  have enough : ¬(legacyMagic ++ buf).length < 4 := by
    have size : legacyMagic.length = 4 := rfl
    rw [List.length_append]
    omega
  simp only [AofLog.replay, front, body, if_true]
  rw [if_neg enough]

theorem length_le_flatMap_recordOf (ops : List AofEntry) :
    ops.length ≤ (ops.flatMap AofFormat.aof1.recordOf).length := by
  induction ops with
  | nil => exact Nat.zero_le _
  | cons e ops ih =>
      simp only [List.flatMap_cons, List.length_append, List.length_cons, AofFormat.recordOf] at ih ⊢
      omega

theorem AofLog.replay_fileOf (format : AofFormat) (f : σ → AofEntry → σ)
    (policy : CorruptionPolicy) {ops : List AofEntry} (small : ∀ e ∈ ops, Loggable e) (s : σ) :
    AofLog.replay ⟨format.fileOf ops, policy⟩ f s = .ok (ops.foldl f s) := by
  cases format with
  | aof1 =>
      rw [AofFormat.fileOf, AofFormat.header, AofLog.replay_legacyMagic]
      exact replayAof1Format_records f policy small (length_le_flatMap_recordOf ops) s
  | aof2 => exact AofLog.replay_records f policy small s

end

theorem reopened_eq (format : AofFormat) (ops : List AofEntry)
    (sessions : List (CorruptionPolicy × List AofEntry)) (policy : CorruptionPolicy) :
    AofLog.reopened (format.fileOf ops) sessions policy =
      AofLog.callbacks ⟨format.header ++ (ops.flatMap format.recordOf ++
        (sessions.flatMap Prod.snd).flatMap record), policy⟩ := by
  simp only [AofLog.reopened, AofFormat.fileOf, foldlM_session, bind, Except.bind, AofLog.openLog_header]

theorem callbacks_fileOf (format : AofFormat) (policy : CorruptionPolicy)
    {ops : List AofEntry} (small : ∀ e ∈ ops, Loggable e) :
    AofLog.callbacks ⟨format.fileOf ops, policy⟩ = .ok ops := by
  rw [AofLog.callbacks, AofLog.replay_fileOf format _ policy small, List.foldl_append_eq_append,
    ← List.flatMap_def, List.flatMap_singleton', List.nil_append]

theorem length_flatMap_recordOf (ops : List AofEntry) :
    (ops.flatMap record).length = (ops.flatMap AofFormat.aof1.recordOf).length + 4 * ops.length := by
  induction ops with
  | nil => rfl
  | cons e ops ih =>
      have size := record_length e
      simp only [List.flatMap_cons, List.length_append, List.length_cons, AofFormat.recordOf] at ih ⊢
      omega

/-- A log comes back whole under every policy exactly when its file has the format that is
appended, or nothing was appended to it. -/
theorem reopened_iff (format : AofFormat) (ops : List AofEntry)
    (sessions : List (CorruptionPolicy × List AofEntry)) (old : ∀ e ∈ ops, Loggable e)
    (new : ∀ s ∈ sessions, ∀ e ∈ s.2, Loggable e) :
    (∀ policy, AofLog.reopened (format.fileOf ops) sessions policy =
      .ok (ops ++ sessions.flatMap Prod.snd)) ↔
      format = .aof2 ∨ sessions.flatMap Prod.snd = [] := by
  have appended : ∀ e ∈ sessions.flatMap Prod.snd, Loggable e := by
    intro e member
    obtain ⟨s, among, within⟩ := List.mem_flatMap.mp member
    exact new s among e within
  cases format with
  | aof2 =>
      refine ⟨fun _ => Or.inl rfl, fun _ policy => ?_⟩
      have shape : ops.flatMap AofFormat.aof2.recordOf ++ (sessions.flatMap Prod.snd).flatMap record =
          (ops ++ sessions.flatMap Prod.snd).flatMap record := by
        rw [List.flatMap_append]
        rfl
      rw [reopened_eq, shape]
      apply callbacks_fileOf .aof2 policy
      intro e member
      rcases List.mem_append.mp member with early | late
      · exact old e early
      · exact appended e late
  | aof1 =>
      constructor
      · intro whole
        -- A strict replay accounts for every byte, and the checksums are four too many.
        have strict := whole .strict
        rw [reopened_eq, AofFormat.header, AofLog.callbacks, AofLog.replay_legacyMagic] at strict
        obtain ⟨l, same, sizes⟩ := length_strict_replay le_rfl strict
        rw [List.nil_append] at same
        rw [← same, List.flatMap_append, List.length_append, List.length_append,
          length_flatMap_recordOf] at sizes
        right
        exact List.length_eq_zero_iff.mp (by omega)
      · rintro (wrong | none') policy
        · cases wrong
        · rw [reopened_eq, none', List.flatMap_nil, List.append_nil, List.append_nil]
          exact callbacks_fileOf .aof1 policy old

/-- Both formats, in several sessions. -/
theorem reopened_iff_sessions :
    AofLog.reopened (AofFormat.aof2.fileOf [.set [107] [1], .del [108]])
        [(.skip, [.set [109] []]), (.log, []), (.strict, [.del [107], .set [107] [2]])] .strict =
      .ok [.set [107] [1], .del [108], .set [109] [], .del [107], .set [107] [2]] ∧
    AofLog.reopened (AofFormat.aof1.fileOf [.set [107] [1], .del [108]]) [(.log, [])] .skip =
      .ok [.set [107] [1], .del [108]] :=
  ⟨(reopened_iff .aof2 [.set [107] [1], .del [108]]
      [(.skip, [.set [109] []]), (.log, []), (.strict, [.del [107], .set [107] [2]])]
      (by decide) (by decide)).mpr (Or.inl rfl) .strict,
    (reopened_iff .aof1 [.set [107] [1], .del [108]] [(.log, [])] (by decide) (by decide)).mpr
      (Or.inr rfl) .skip⟩

/-- One operation appended to a file of the old format is lost, or keeps the log from being
replayed. -/
theorem reopened_old_format :
    AofLog.reopened (AofFormat.aof1.fileOf [.set [107] [1]]) [(.log, [.del [107]])] .log =
      .ok [.set [107] [1]] ∧
    AofLog.reopened (AofFormat.aof1.fileOf [.set [107] [1]]) [(.log, [.del [107]])] .strict =
      .error (.unexpectedEof "Truncated key data") ∧
    ∀ policy, AofLog.reopened (AofFormat.aof1.fileOf [.set [107] [1]]) [(.log, [.del [107]])] policy ≠
      .ok ([.set [107] [1]] ++ [.del [107]]) := by
  refine ⟨by decide +kernel, by decide +kernel, fun policy => ?_⟩
  cases policy <;> decide +kernel

end Zumic.Engine
