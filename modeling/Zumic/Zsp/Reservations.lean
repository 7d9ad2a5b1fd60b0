/- The room that the decoder asks for: how much of it the input alone decides. -/

import Zumic.Zsp.ScanAgreement
import Zumic.Zsp.Wire

namespace Zumic.Zsp

open Lib Lib.ByteString Lib.Checked Lib.Reader Lib.Utf8
open Zumic.Zsp.Checked (Limits Allocator)

/-- The state that a call leaves; a call that fails leaves the initial one. -/
def next (state : ZspDecodeState) (s : Bytes) : ZspDecodeState :=
  match decode state s with
  | .ok ((_, state'), _) => state'
  | .error _ => .initial

/-- The state of a decoder that has been called on these inputs, one after another. -/
def stateAfter (calls : List Bytes) : ZspDecodeState := calls.foldl next .initial

namespace Scan

/-- A frame without frames inside it, or a payload that is kept within its bounds. -/
def ScalarAnswer : Decoded → Prop
  | (some f, state) => isScalar f = true ∧ state = .initial
  | (none, state) => Fits state ∧ ∃ len data, state = .partialBinaryString len data

theorem yields_scalar {f : ZspFrame} (scalar : isScalar f = true) :
    Yields ScalarAnswer (pure (some f, .initial) : FrameReader Decoded) :=
  yields_pure ⟨scalar, rfl⟩

theorem yields_parseBinaryString : Yields ScalarAnswer parseBinaryString := by
  refine yields_bind fun len => yields_ite (yields_scalar rfl) (yields_ite ?_ (yields_throw _))
  dsimp only
  split
  · exact yields_throw _
  · rename_i short
    intro s r rest run
    obtain ⟨data, middle, copied, later⟩ := bind_eq_ok run
    split at later
    · have whole : Yields ScalarAnswer (do
          expectCrlf
          pure (some (.binaryString (some data)), .initial)) :=
        yields_bind fun _ => yields_scalar rfl
      exact whole middle r rest later
    · obtain ⟨rfl, -⟩ := Prod.mk.inj (Except.ok.inj later)
      obtain ⟨rfl, -⟩ := Prod.mk.inj (Except.ok.inj copied)
      exact ⟨⟨List.length_take_le _ _, not_lt.mp short⟩, _, _, rfl⟩

theorem yields_parseScalar (b : UInt8) : Yields ScalarAnswer (parseScalar b) := by
  have float : Yields ScalarAnswer parseFloat := by
    refine yields_bind fun text => ?_
    cases readFloat text.bytes with
    | none => exact yields_throw _
    | some f => exact yields_scalar rfl
  have bool : Yields ScalarAnswer parseBool := by
    intro s r rest run
    unfold parseBool at run
    split at run
    · split_ifs at run <;> cases run <;> exact ⟨rfl, rfl⟩
    · cases run
  have null : Yields ScalarAnswer parseNull := by
    intro s r rest run
    unfold parseNull at run
    split at run
    · split_ifs at run
      cases run
      exact ⟨rfl, rfl⟩
    · cases run
  unfold parseScalar
  refine yields_ite (yields_bind fun _ => yields_scalar rfl) ?_
  refine yields_ite (yields_bind fun _ => yields_scalar rfl) ?_
  refine yields_ite (yields_bind fun _ => yields_scalar rfl) ?_
  refine yields_ite float (yields_ite bool (yields_ite yields_parseBinaryString ?_))
  exact yields_ite null (yields_throw _)

/-- A reader that leaves a payload within its bounds, where it leaves one. -/
private abbrev Parks (p : FrameReader Decoded) : Prop :=
  Yields (fun r : Decoded => r.1 = none → Fits r.2) p

theorem parks_some (f : ZspFrame) (state : ZspDecodeState) :
    Parks (pure (some f, state)) :=
  yields_pure fun none' => by cases none'

theorem parks_continueItems {d : FrameDecoder} (c : Container)
    (held : ∀ len items remaining, Fits (c.hold len items remaining)) (len : Nat)
    (items : List ZspFrame) (remaining : Nat) (state : ZspDecodeState) :
    Parks (continueItems d c len items remaining state) := by
  refine yields_bind fun out => ?_
  obtain ⟨items', _ | remaining', state'⟩ := out
  · exact parks_some _ _
  · exact yields_pure fun _ => held _ _ _

theorem parks_continuePairs {α : Type} {d : FrameDecoder} (c : PairContainer α)
    (held : ∀ len items remaining pending, Fits (c.hold len items remaining pending)) (len : Nat)
    (items : List (Str × α)) (remaining : Nat) (pending : Option Str) (state : ZspDecodeState) :
    Parks (continuePairs d c len items remaining pending state) := by
  refine yields_bind fun out => ?_
  obtain ⟨items', _ | remaining', pending', state'⟩ := out
  · exact parks_some _ _
  · exact yields_pure fun _ => held _ _ _ _

theorem parks_parseCounted {d : FrameDecoder} (c : Container)
    (held : ∀ len items remaining, Fits (c.hold len items remaining)) (invalid negative : String) :
    Parks (parseCounted d c invalid negative) := by
  refine yields_bind fun len => yields_ite (parks_some _ _) (yields_ite ?_ (yields_throw _))
  exact parks_continueItems c held _ _ _ _

theorem parks_parseFrame (d : FrameDecoder) (b : UInt8) : Parks (parseFrame d b) := by
  cases marker : Checked.Kind.ofMarker b with
  | none =>
      rw [parseFrame_scalar marker]
      intro s r rest run
      obtain ⟨_ | f, state⟩ := r
      · exact fun _ => (yields_parseScalar b s _ rest run).1
      · exact fun none' => by cases none'
  | some kind =>
      rcases ofMarker_eq_some marker with ⟨rfl, -⟩ | ⟨rfl, -⟩ | ⟨rfl, -⟩ | ⟨rfl, -⟩ | ⟨rfl, -⟩
      · show Parks (parseArray d 0)
        refine yields_bind fun len => yields_ite (parks_some _ _) ?_
        refine yields_ite ?_ (yields_throw _)
        exact parks_continueItems arrayContainer (fun _ _ _ => trivial) _ _ _ _
      · show Parks (parseDictionary d)
        refine yields_bind fun len => yields_ite (parks_some _ _) ?_
        refine yields_ite ?_ (yields_throw _)
        exact parks_continuePairs dictionaryContainer (fun _ _ _ _ => trivial) _ _ _ _ _
      · exact parks_parseCounted setContainer (fun _ _ _ => trivial) _ _
      · exact parks_parseCounted pushContainer (fun _ _ _ => trivial) _ _
      · show Parks (parseZSet d)
        refine yields_bind fun len => yields_ite (parks_some _ _) ?_
        refine yields_ite ?_ (yields_throw _)
        exact parks_continuePairs zsetContainer (fun _ _ _ _ => trivial) _ _ _ _ _

theorem parks_decode (state : ZspDecodeState) : Parks (decode state) := by
  intro s r rest run
  rw [decode_eq] at run
  cases state with
  | initial =>
      cases s with
      | nil =>
          cases run
          exact fun _ => trivial
      | cons b s => exact parks_parseFrame decode b s r rest run
  | partialBinaryString len data =>
      have whole : Parks (continueBinaryString len data) := by
        refine yields_bind fun more => yields_ite ?_ (yields_pure fun _ => trivial)
        exact yields_bind fun _ => parks_some _ _
      exact whole s r rest run
  | partialArray len items remaining =>
      exact parks_continueItems arrayContainer (fun _ _ _ => trivial) _ _ _ _ s r rest run
  | partialDictionary len items remaining pending =>
      refine parks_continuePairs dictionaryContainer ?_ _ _ _ _ _ s r rest run
      exact fun _ _ _ _ => trivial
  | partialSet len items remaining =>
      exact parks_continueItems setContainer (fun _ _ _ => trivial) _ _ _ _ s r rest run
  | partialPush len items remaining =>
      exact parks_continueItems pushContainer (fun _ _ _ => trivial) _ _ _ _ s r rest run
  | partialZSet len items pending remaining =>
      refine parks_continuePairs zsetContainer ?_ _ _ _ _ _ s r rest run
      exact fun _ _ _ _ => trivial

theorem fits_next (state : ZspDecodeState) (s : Bytes) : Fits (next state s) := by
  rw [next]
  cases run : decode state s with
  | error e => trivial
  | ok r =>
      obtain ⟨⟨_ | f, state'⟩, rest⟩ := r
      · exact parks_decode state s _ rest run rfl
      · have settled := settles_decodeWithin (s.length + 2) state s (some f, state') rest run
        obtain rfl : state' = .initial := settled.2 rfl
        trivial

theorem fits_stateAfter (calls : List Bytes) : Fits (stateAfter calls) := by
  induction calls using List.reverseRecOn with
  | nil => trivial
  | append_singleton calls s ih =>
      rw [stateAfter, List.foldl_concat]
      exact fits_next _ s

end Scan

open Scan

/-- No check but those of ranges and of payloads. -/
def unlimited : Limits where
  calls _ := true
  enters _ := true
  elements _ _ := true

/-- Room for no more elements than there are bytes left to read them from. -/
def byUnread : Limits where
  calls _ := true
  enters _ := true
  elements n unread := decide (n ≤ unread)

theorem scanWithin_unlimited (fuel : Nat) (stack : List Open) (s : Bytes) :
    scanWithin unlimited fuel stack s = true := by
  induction fuel generalizing stack s with
  | zero => rfl
  | succ fuel ih =>
      have goesOn : ∀ stack rest, resume (scanWithin unlimited fuel) stack rest = true := by
        intro stack rest
        match stack with
        | none => rfl
        | some [] => rfl
        | some (o :: stack) => exact ih (o :: stack) rest
      cases s with
      | nil => rfl
      | cons b s =>
          rw [scanWithin]
          cases marker : Checked.Kind.ofMarker b with
          | none =>
              cases run : parseScalar b s with
              | error e => rfl
              | ok r =>
                  obtain ⟨⟨_ | f, state⟩, rest⟩ := r
                  · rfl
                  · exact goesOn _ rest
          | some kind =>
              dsimp only
              cases readCount kind s with
              | none => rfl
              | some r =>
                  obtain ⟨_ | n, rest⟩ := r
                  · exact goesOn _ rest
                  · exact ih _ rest

theorem scanFrom_unlimited (state : ZspDecodeState) (s : Bytes) :
    scanFrom unlimited state s = true := by
  have within : ∀ stack, scan unlimited stack s = true :=
    fun stack => scanWithin_unlimited _ stack s
  have elements : ∀ o, scanElements unlimited o s = true := by
    intro o
    rw [scanElements, within, Bool.or_true]
  cases state with
  | initial => exact within []
  | partialBinaryString len data => rfl
  | partialArray len items remaining => exact elements _
  | partialDictionary len items remaining pending => exact elements _
  | partialSet len items remaining => exact elements _
  | partialPush len items remaining => exact elements _
  | partialZSet len items pending remaining => exact elements _

/-- In the states that a decoder reaches, every slice operation and every subtraction is in range
and no payload is given more room than its bound: the checked call is the call. -/
theorem decode_unlimited (alloc : Allocator) (calls : List Bytes) :
    Checked.decode unlimited alloc (stateAfter calls) = lift (decode (stateAfter calls)) := by
  ext s
  have follows : Follows (Checked.decode unlimited alloc (stateAfter calls)) _ :=
    Checked.follows_decode (stateAfter calls)
  apply follows.eq_lift
  exact (scanFrom_iff (fits_stateAfter calls) s).mpr (scanFrom_unlimited _ s)

/-- The decoder asks for room for no more elements than there are unread bytes, for no payload of
more than its bound, and does nothing out of range. -/
def Modest (state : ZspDecodeState) (s : Bytes) : Prop :=
  ∀ (alloc : Allocator) (trap : Checked.Trap),
    Checked.decode byUnread alloc state s ≠ .error (.inl trap)

/-- A call in any state that the decoder reaches is modest exactly if no container that begins in
its input announces more elements than there are bytes behind its length line. The slices and the
payloads are in range in any case. -/
theorem modest_iff (calls : List Bytes) (s : Bytes) :
    (Modest (stateAfter calls) s ↔ scanFrom byUnread (stateAfter calls) s = true) ∧
      ∀ alloc : Allocator,
        Checked.decode unlimited alloc (stateAfter calls) = lift (decode (stateAfter calls)) := by
  refine ⟨?_, fun alloc => decode_unlimited alloc calls⟩
  have fits := fits_stateAfter calls
  constructor
  · intro modest
    exact (scanFrom_iff fits s).mp (modest ⟨id, fun _ => le_refl _⟩)
  · intro scanned alloc
    exact (scanFrom_iff fits s).mpr scanned

/-- An array that announces more elements than any input has. -/
theorem not_modest_array :
    ¬ Modest (stateAfter []) (bytesOf "*9223372036854775807\x0d\x0a") := by
  intro modest
  have scanned := (scanFrom_iff (fits_stateAfter []) _).mp (modest ⟨id, fun _ => le_refl _⟩)
  revert scanned
  decide +kernel

end Zumic.Zsp
