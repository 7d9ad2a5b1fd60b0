/- Parsing that goes on after errors, and how it may fail to end (`streaming.rs`, `decode.rs`). -/

import Zumic.Lib.Runs
import Zumic.Zdb.Progress
import Zumic.Zdb.RoundTrip

namespace Zumic.Zdb

open Database Lib.ByteString Lib.Loop Lib.Reader

def ZdbError.isRecoverable : ZdbError → Bool
  | .unexpectedEof _ => true
  | .invalidTag _ => true
  | .parse _ _ => true
  | _ => false

/-- The data of an error event. -/
structure ErrorReport where
  error : ParseError
  key : Option Sds
  offset : Nat
  recoverable : Bool

/-- A handler that may ask the parser to go on. Its error events come as reports. -/
structure TolerantHandler (σ : Type) extends ParseHandler σ where
  handleError : ErrorReport → σ → Except ParseError Unit × σ
  shouldContinueOnError : σ → Bool
  finalize : σ → Except ParseError Unit × σ

/-- Where a read that fails after the first byte leaves the input. How much `read_exact` takes in
before it meets the end of the input is not specified, but it is never more than there is. -/
structure Leftover where
  left : UInt8 → Bytes → Bytes
  suffix : ∀ peek s, left peek s <:+ s

/-- What a key adds to `stats.bytes_read` after its first byte, also when it cannot be read whole. -/
def countedKey (version : FormatVersion) (peek : UInt8) (s : Bytes) : Nat :=
  match parserKeyLength version peek s with
  | .ok (keyLen, rest) =>
      s.length - rest.length + (if keyLen ≤ maxKeySize ∧ keyLen ≤ rest.length then keyLen else 0)
  | .error _ => if version.usesVarint then min (maxVarintLen - 1) s.length else 0

/-- What `read_next_entry` adds to `stats.bytes_read`, which leaves out the values. -/
def countedBytes (version : FormatVersion) : Bytes → Nat
  | [] => 0
  | peek :: s => if peek = tagEof then 1 else 1 + countedKey version peek s

/-- The parser between two turns of its loop. -/
structure ParseState (σ : Type) where
  recordsParsed : Nat
  bytesRead : Nat
  rest : Bytes
  handler : σ

section

variable (version : FormatVersion) (zstd : Zstd) (depth : Nat) (leftover : Leftover)

/-- The input after a failed `read_next_entry`. -/
def Leftover.after (leftover : Leftover) : Bytes → Bytes
  | [] => []
  | peek :: s => leftover.left peek s

variable {σ : Type} (handler : TolerantHandler σ)

/-- Reports an error, whose place an error of the handler takes. -/
def reportFailure (report : ErrorReport) (s : σ) : Except ParseError Unit × σ :=
  match handler.handleError report s with
  | (.ok (), s) => (.error report.error, s)
  | (.error e, s) => (.error e, s)

/-- The end of a parse. -/
def finishParse (s : σ) : Except ParseError Unit × σ :=
  match handler.handleEvent .finish s with
  | (.ok (), s) => handler.finalize s
  | (.error e, s) => (.error e, s)

/-- One turn of the loop over the records, with one call of `read_next_entry`. -/
def parseTurn (state : ParseState σ) : ParseState σ ⊕ (Except ParseError Unit × σ) :=
  let offset := state.bytesRead
  let bytesRead := state.bytesRead + countedBytes version state.rest
  match readNextEntry version zstd depth state.recordsParsed state.rest with
  | .ok (some (key, value), rest) =>
      match handler.handleEvent (.entry key value) state.handler with
      | (.ok (), s) => .inl ⟨state.recordsParsed + 1, bytesRead, rest, s⟩
      | (.error e, s) => .inr (reportFailure handler ⟨e, some key, offset, false⟩ s)
  | .ok (none, _) => .inr (finishParse handler state.handler)
  | .error e =>
      match handler.handleError ⟨.zdb e, none, offset, e.isRecoverable⟩ state.handler with
      | (.error e', s) => .inr (.error e', s)
      | (.ok (), s) =>
          if handler.shouldContinueOnError s then
            .inl ⟨state.recordsParsed, bytesRead, leftover.after state.rest, s⟩
          else .inr (.error (.zdb e), s)

end

/-- What `parse` does before its loop: the state the loop starts from, or the result. -/
def parseStart {σ : Type} (readerVersion : FormatVersion) (handler : TolerantHandler σ) (b : Bytes)
    (s : σ) : (FormatVersion × ParseState σ) ⊕ (Except ParseError Unit × σ) :=
  match readAndValidateHeader b with
  | .error e => .inr (.error (.zdb e), s)
  | .ok (version, rest) =>
      if readerVersion.canRead version then
        match handler.handleEvent (.header version) s with
        | (.ok (), s) => .inl (version, ⟨0, 4, rest, s⟩)
        | (.error e, s) => .inr (.error e, s)
      else .inr (.error (.zdb (.incompatibleVersion readerVersion version)), s)

/-- The handler answers the report with `Ok` and asks to go on, however often it comes. -/
def Tolerates {σ : Type} (handler : TolerantHandler σ) (report : ErrorReport) (s : σ) : Prop :=
  ∀ n, (handler.handleError report ((fun u => (handler.handleError report u).2)^[n] s)).1 = .ok () ∧
    handler.shouldContinueOnError ((fun u => (handler.handleError report u).2)^[n + 1] s) = true

/-- The parser has come to the end of its input without an end mark, and its handler wants to go on
for ever. -/
structure Stuck {σ : Type} (handler : TolerantHandler σ) (state : ParseState σ) : Prop where
  empty : state.rest = []
  begun : 0 < state.recordsParsed
  tolerates : Tolerates handler
    ⟨.zdb (.unexpectedEof "expecting next entry"), none, state.bytesRead, true⟩ state.handler

/-- `StreamReader::next`: an item, `none` at the end mark, and the input after it. -/
def nextItem (version : FormatVersion) (zstd : Zstd) (depth : Nat) (leftover : Leftover) (b : Bytes) :
    Option (Except ZdbError (Sds × Value)) × Bytes :=
  match streamNext version zstd depth b with
  | .ok (some e, rest) => (some (.ok e), rest)
  | .ok (none, rest) => (none, rest)
  | .error e => (some (.error e), leftover.after b)

/-- One turn of a loop over the items of a stream reader. -/
def itemTurn (version : FormatVersion) (zstd : Zstd) (depth : Nat) (leftover : Leftover) (b : Bytes) :
    Bytes ⊕ Unit :=
  match nextItem version zstd depth leftover b with
  | (some _, rest) => .inl rest
  | (none, _) => .inr ()

section

variable {version : FormatVersion} {zstd : Zstd} {depth : Nat} {leftover : Leftover}

theorem length_after (leftover : Leftover) {b : Bytes} (some' : b ≠ []) :
    (leftover.after b).length < b.length := by
  cases b with
  | nil => exact absurd rfl some'
  | cons peek s => exact Nat.lt_succ_of_le (leftover.suffix peek s).length_le

theorem shrinks_keyLength (version : FormatVersion) (peek : UInt8) :
    Shrinks (keyLength version peek) := by
  unfold keyLength
  refine shrinks_ite (shrinks_ite (shrinks_pure _) ?_)
    ((shrinks_take _ _).bind fun b => shrinks_pure _)
  intro s n rest run
  dsimp only at run
  cases read : readVarint (peek :: s) with
  | error e =>
      rw [read] at run
      cases run
  | ok r =>
      rw [read] at run
      obtain ⟨-, rfl⟩ := Prod.mk.inj (Except.ok.inj run)
      simp

theorem length_streamNext {b rest : Bytes} {item : Option (Sds × Value)}
    (run : streamNext version zstd depth b = .ok (item, rest)) : rest.length < b.length := by
  cases b with
  | nil => cases run
  | cons peek s =>
      obtain ⟨x, tail, first, later⟩ := bind_eq_ok run
      obtain ⟨rfl, rfl⟩ := Prod.mk.inj (Except.ok.inj first)
      refine Nat.lt_succ_of_le ((?_ : Shrinks _) _ _ _ later)
      refine shrinks_ite (shrinks_pure _) ((shrinks_keyLength version peek).bind fun klen => ?_)
      refine (shrinks_ensureSize _ _ _ _).bind fun _ => (shrinks_take _ _).bind fun key => ?_
      exact (composed_readValueWithVersion version zstd depth).shrinks.bind fun value =>
        shrinks_pure _

theorem itemTurn_down {b rest : Bytes} (some' : b ≠ [])
    (turn : itemTurn version zstd depth leftover b = .inl rest) : rest.length < b.length := by
  rw [itemTurn, nextItem] at turn
  cases run : streamNext version zstd depth b with
  | error e =>
      rw [run] at turn
      obtain rfl := Sum.inl.inj turn
      exact length_after leftover some'
  | ok r =>
      obtain ⟨item, after⟩ := r
      rw [run] at turn
      cases item with
      | none => cases turn
      | some e =>
          obtain rfl := Sum.inl.inj turn
          exact length_streamNext run

theorem items_end_iff (b : Bytes) :
    Ends (itemTurn version zstd depth leftover) b ↔
      ¬ Reaches (itemTurn version zstd depth leftover) b [] := by
  have endless : ¬ Ends (itemTurn version zstd depth leftover) [] :=
    not_ends_of_invariant (I := fun b => b = []) (fun b empty => ⟨[], by rw [empty]; rfl, rfl⟩) rfl
  rw [ends_iff (fun b => b = []) List.length fun b rest some' turn =>
    itemTurn_down some' turn]
  constructor
  · exact fun dry reaches => endless (dry [] reaches rfl)
  · rintro never t reaches rfl
    exact absurd reaches never

end

section

variable {version : FormatVersion} {zstd : Zstd} {depth : Nat} {leftover : Leftover} {σ : Type}
  {handler : TolerantHandler σ}

theorem parseTurn_dry {recordsParsed : Nat} (begun : 0 < recordsParsed) (bytesRead : Nat)
    (s : σ) :
    parseTurn version zstd depth leftover handler ⟨recordsParsed, bytesRead, [], s⟩ =
      match handler.handleError ⟨.zdb (.unexpectedEof "expecting next entry"), none, bytesRead, true⟩ s
        with
      | (.error e, s) => .inr (.error e, s)
      | (.ok (), s) =>
          if handler.shouldContinueOnError s then .inl ⟨recordsParsed, bytesRead, [], s⟩
          else .inr (.error (.zdb (.unexpectedEof "expecting next entry")), s) := by
  have positive : recordsParsed ≠ 0 := Nat.pos_iff_ne_zero.mp begun
  simp only [parseTurn, readNextEntry, if_neg positive, countedBytes, Nat.add_zero,
    Leftover.after]
  rfl

theorem Tolerates.step {report : ErrorReport} {s : σ}
    (tolerates : Tolerates handler report s) :
    (handler.handleError report s).1 = .ok () ∧
      handler.shouldContinueOnError (handler.handleError report s).2 = true ∧
      Tolerates handler report (handler.handleError report s).2 := by
  obtain ⟨taken, more⟩ := tolerates 0
  rw [Function.iterate_zero, id] at taken
  rw [Nat.zero_add, Function.iterate_one] at more
  refine ⟨taken, more, fun n => ?_⟩
  have later := tolerates (n + 1)
  rw [Function.iterate_succ_apply, Function.iterate_succ_apply] at later
  exact later

/-- The report of the end of the input. -/
private abbrev endReport (bytesRead : Nat) : ErrorReport :=
  ⟨.zdb (.unexpectedEof "expecting next entry"), none, bytesRead, true⟩

theorem dry_goesOn {recordsParsed : Nat} (begun : 0 < recordsParsed) (bytesRead : Nat)
    {s : σ} (goesOn : (handler.handleError (endReport bytesRead) s).1 = .ok () ∧
      handler.shouldContinueOnError (handler.handleError (endReport bytesRead) s).2 = true) :
    parseTurn version zstd depth leftover handler ⟨recordsParsed, bytesRead, [], s⟩ =
      .inl ⟨recordsParsed, bytesRead, [], (handler.handleError (endReport bytesRead) s).2⟩ := by
  rw [parseTurn_dry begun]
  cases handled : handler.handleError (endReport bytesRead) s with
  | mk outcome u =>
      rw [handled] at goesOn
      obtain ⟨rfl, more⟩ := goesOn
      exact if_pos more

theorem dry_stops {recordsParsed : Nat} (begun : 0 < recordsParsed) (bytesRead : Nat)
    {s : σ} (stops : ¬ ((handler.handleError (endReport bytesRead) s).1 = .ok () ∧
      handler.shouldContinueOnError (handler.handleError (endReport bytesRead) s).2 = true)) :
    Ends (parseTurn version zstd depth leftover handler) ⟨recordsParsed, bytesRead, [], s⟩ := by
  have turn := @parseTurn_dry version zstd depth leftover σ handler recordsParsed begun bytesRead s
  cases handled : handler.handleError (endReport bytesRead) s with
  | mk outcome u =>
      rw [handled] at stops turn
      cases outcome with
      | error e => exact ends_of_result turn
      | ok done =>
          dsimp only at turn
          rw [if_neg fun more => stops ⟨rfl, more⟩] at turn
          exact ends_of_result turn

theorem dry_ends_iff {recordsParsed : Nat} (begun : 0 < recordsParsed) (bytesRead : Nat)
    (s : σ) :
    Ends (parseTurn version zstd depth leftover handler) ⟨recordsParsed, bytesRead, [], s⟩ ↔
      ¬ Tolerates handler (endReport bytesRead) s := by
  constructor
  · intro ends tolerates
    refine not_ends_of_invariant (I := fun state : ParseState σ =>
      ∃ u, state = ⟨recordsParsed, bytesRead, [], u⟩ ∧
        Tolerates handler (endReport bytesRead) u) ?_
      ⟨s, rfl, tolerates⟩ ends
    rintro state ⟨u, rfl, goesOn⟩
    obtain ⟨taken, more, goesOn'⟩ := goesOn.step
    exact ⟨_, dry_goesOn begun bytesRead ⟨taken, more⟩, _, rfl, goesOn'⟩
  · intro stops
    obtain ⟨n, stopsAt⟩ := not_forall.mp stops
    clear stops
    -- The handler stops at the report that comes after `n` of them.
    induction n generalizing s with
    | zero => exact dry_stops begun bytesRead stopsAt
    | succ n ih =>
        rw [Function.iterate_succ_apply, Function.iterate_succ_apply] at stopsAt
        by_cases goesOn : (handler.handleError (endReport bytesRead) s).1 = .ok () ∧
            handler.shouldContinueOnError (handler.handleError (endReport bytesRead) s).2 = true
        · exact (ends_iff_of_turn (dry_goesOn begun bytesRead goesOn)).mpr (ih _ stopsAt)
        · exact dry_stops begun bytesRead goesOn

theorem parseTurn_down {state state' : ParseState σ}
    (some' : ¬ (state.rest = [] ∧ 0 < state.recordsParsed))
    (turn : parseTurn version zstd depth leftover handler state = .inl state') :
    state'.rest.length < state.rest.length := by
  obtain ⟨recordsParsed, bytesRead, rest, s⟩ := state
  unfold parseTurn at turn
  cases run : readNextEntry version zstd depth recordsParsed rest with
  | ok r =>
      obtain ⟨entry, rest'⟩ := r
      cases entry with
      | none =>
          rw [run] at turn
          cases turn
      | some e =>
          obtain ⟨key, value⟩ := e
          rw [run] at turn
          dsimp only at turn
          split at turn
          · obtain rfl := Sum.inl.inj turn
            exact length_readNextEntry run
          · cases turn
  | error e =>
      have begun : rest ≠ [] := by
        rintro rfl
        refine some' ⟨rfl, Nat.pos_of_ne_zero fun none' => ?_⟩
        rw [readNextEntry, if_pos none'] at run
        cases run
      rw [run] at turn
      dsimp only at turn
      split at turn
      · cases turn
      · split at turn
        · obtain rfl := Sum.inl.inj turn
          exact length_after leftover begun
        · cases turn

theorem loop_ends_iff (state : ParseState σ) :
    Ends (parseTurn version zstd depth leftover handler) state ↔
      ∀ t, Reaches (parseTurn version zstd depth leftover handler) state t → ¬ Stuck handler t := by
  rw [ends_iff (fun t => t.rest = [] ∧ 0 < t.recordsParsed) (fun t => t.rest.length)
    fun t t' some' turn => parseTurn_down some' turn]
  refine forall_congr' fun t => imp_congr_right fun _ => ?_
  obtain ⟨recordsParsed, bytesRead, rest, s⟩ := t
  constructor
  · rintro ends ⟨empty, begun, tolerates⟩
    obtain rfl : rest = [] := empty
    exact (dry_ends_iff begun bytesRead s).mp (ends ⟨rfl, begun⟩) tolerates
  · rintro free ⟨empty, begun⟩
    obtain rfl : rest = [] := empty
    exact (dry_ends_iff begun bytesRead s).mpr fun tolerates => free ⟨rfl, begun, tolerates⟩

/-- A handler of the source: it stops at the first error and finalizes nothing. -/
def ParseHandler.strict (handler : ParseHandler σ) : TolerantHandler σ where
  toParseHandler := handler
  handleError report s := handler.handleEvent (.failure report.error report.key) s
  shouldContinueOnError _ := false
  finalize s := (.ok (), s)

/-- With such a handler the turns are those of the loop that stops at the first error. -/
theorem turns_strict {handler : ParseHandler σ} {fuel : Nat} {state : ParseState σ}
    (enough : state.rest.length < fuel) :
    turns (parseTurn version zstd depth leftover handler.strict) fuel state =
      .inr (parseLoop version zstd depth handler fuel state.recordsParsed state.rest
        state.handler) := by
  induction fuel generalizing state with
  | zero => exact absurd enough (Nat.not_lt_zero _)
  | succ fuel ih =>
      obtain ⟨recordsParsed, bytesRead, rest, s⟩ := state
      rw [turns, parseLoop, parseTurn]
      cases run : readNextEntry version zstd depth recordsParsed rest with
      | error e =>
          simp only [ParseHandler.strict, reportError]
          cases handler.handleEvent (.failure (.zdb e) none) s with
          | mk outcome u => cases outcome with
            | error e' => rfl
            | ok done => rfl
      | ok r =>
          obtain ⟨entry, rest'⟩ := r
          cases entry with
          | none =>
              simp only [finishParse, ParseHandler.strict]
              cases handler.handleEvent .finish s with
              | mk outcome u => cases outcome with
                | error e' => rfl
                | ok done => rfl
          | some e =>
              obtain ⟨key, value⟩ := e
              have shorter := length_readNextEntry run
              dsimp only at enough ⊢
              cases handled : handler.handleEvent (.entry key value) s with
              | mk outcome u => cases outcome with
                | error e' =>
                    cases failed : handler.handleEvent (.failure e' (some key)) u with
                    | mk outcome' u' => cases outcome' with
                      | error e'' =>
                          simp [ParseHandler.strict, handled, reportFailure, reportError, failed]
                      | ok done =>
                          simp [ParseHandler.strict, handled, reportFailure, reportError, failed]
                | ok done =>
                    have later := @ih ⟨recordsParsed + 1, bytesRead + countedBytes version rest,
                      rest', u⟩ (Nat.lt_of_lt_of_le shorter (Nat.le_of_lt_succ enough))
                    simp only [ParseHandler.strict, handled] at later ⊢
                    exact later

end

/-- A parse ends exactly when it does not come to the end of its input, past a record and with no
end mark, in a state of the handler that would go on for ever; a stream reader has finitely many
items exactly when it does not come to the end of its input. -/
theorem parsing_ends_iff (zstd : Zstd) (depth : Nat) (leftover leftover' : Leftover) :
    (∀ {σ : Type} (handler : TolerantHandler σ) (readerVersion : FormatVersion) (b : Bytes) (s : σ),
      (∀ version state, parseStart readerVersion handler b s = .inl (version, state) →
        Ends (parseTurn version zstd depth leftover handler) state) ↔
      ∀ version state, parseStart readerVersion handler b s = .inl (version, state) →
        ∀ t, Reaches (parseTurn version zstd depth leftover handler) state t → ¬ Stuck handler t) ∧
    (∀ (version : FormatVersion) (b : Bytes),
      Ends (itemTurn version zstd depth leftover') b ↔
        ¬ Reaches (itemTurn version zstd depth leftover') b []) := by
  refine ⟨fun handler readerVersion b s => ?_, fun version b => items_end_iff b⟩
  refine forall_congr' fun version => forall_congr' fun state => imp_congr_right fun _ => ?_
  exact loop_ends_iff state

/-- Collects the records and goes on after every error. -/
def collectAll : TolerantHandler (List (Sds × Value)) where
  toParseHandler := collectHandler
  handleError _ items := (.ok (), items)
  shouldContinueOnError _ := true
  finalize items := (.ok (), items)

/-- A read that fails takes in all that there is. -/
def drained : Leftover := ⟨fun _ _ => [], fun _ _ => List.nil_suffix⟩

/-- A dump with one record and no end mark: the parser never ends, and neither does the reader. -/
theorem parsing_without_mark :
    parseStart .v3 collectAll (fileMagic ++ [3, 1, 107, 4]) [] =
        .inl (.v3, ⟨0, 4, [1, 107, 4], []⟩) ∧
      ¬ Ends (parseTurn .v3 storing 64 drained collectAll) ⟨0, 4, [1, 107, 4], []⟩ ∧
      ¬ Ends (itemTurn .v3 storing 64 drained) [1, 107, 4] := by
  refine ⟨rfl, ?_, ?_⟩
  · have turn : parseTurn .v3 storing 64 drained collectAll ⟨0, 4, [1, 107, 4], []⟩ =
        .inl ⟨1, 6, [], [([107], .null)]⟩ := rfl
    rw [ends_iff_of_turn turn]
    exact not_ends_of_invariant (I := (· = ⟨1, 6, [], [([107], .null)]⟩))
      (fun state same => ⟨state, by rw [same]; rfl, same⟩) rfl
  · have turn : itemTurn .v3 storing 64 drained [1, 107, 4] = .inl [] := rfl
    rw [ends_iff_of_turn turn]
    exact not_ends_of_invariant (I := (· = [])) (fun b same => ⟨b, by rw [same]; rfl, same⟩) rfl

end Zumic.Zdb
