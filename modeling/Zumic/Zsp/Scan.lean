/- A scan of the input that builds no frames: it keeps a stack of the containers that stand open,
and finds whether a call on that input stays within its limits. -/

import Zumic.Zsp.CheckedAgreement

namespace Zumic.Zsp

open Lib.ByteString Lib.Decimal Lib.Reader Lib.Utf8

namespace Checked.Kind

def ofMarker (b : UInt8) : Option Kind :=
  if b = 42 then some .array
  else if b = 37 then some .dictionary
  else if b = 126 then some .set
  else if b = 62 then some .push
  else if b = 94 then some .zset
  else none

/-- The number of elements that a length line announces, if the container may have it. -/
def count (kind : Kind) (n : Int) : Option Nat :=
  if 0 ≤ n then some n.toNat
  else if n = -1 then
    match kind with
    | array => some 0
    | zset => some 0
    | _ => none
  else none

def isPaired : Kind → Bool
  | dictionary => true
  | zset => true
  | _ => false

def empty : Kind → ZspFrame
  | array => .array []
  | dictionary => .dictionary []
  | set => .set []
  | push => .push []
  | zset => .zset []

/-- Whether a frame may be the key or the member of an element. -/
def takesName (kind : Kind) (f : ZspFrame) : Bool :=
  match kind with
  | dictionary => (dictionaryKey f).isOk
  | zset => (zsetMember f).isOk
  | _ => true

/-- Whether a frame may be the value of an element. -/
def takesValue (kind : Kind) (f : ZspFrame) : Bool :=
  match kind with
  | zset => (zsetScore f).isOk
  | _ => true

end Checked.Kind

namespace Scan

open Zumic.Zsp.Checked (Kind Limits Allocator CheckedFrames CheckedDecoder)

/-- A container with elements still to come. -/
structure Open where
  kind : Kind
  /-- How many are to come, the one that is being read included. -/
  left : Nat
  /-- Whether its name has been read already. -/
  named : Bool
  deriving DecidableEq

/-- The stack after a frame: each container that it completes is a frame of the next one. There is
none left if the frame is not of the type that is due. -/
def deliver : List Open → ZspFrame → Option (List Open)
  | [], _ => some []
  | o :: stack, f =>
      if o.kind.isPaired && !o.named then
        if o.kind.takesName f then some (⟨o.kind, o.left, true⟩ :: stack) else none
      else if o.kind.takesValue f then
        if o.left = 1 then deliver stack o.kind.empty
        else some (⟨o.kind, o.left - 1, false⟩ :: stack)
      else none

/-- Goes on where containers are still open. -/
def resume (next : List Open → Bytes → Bool) : Option (List Open) → Bytes → Bool
  | some (o :: stack), rest => next (o :: stack) rest
  | _, _ => true

def parseScalar (b : UInt8) : FrameReader Decoded :=
  if b = 43 then parseInlineString
  else if b = 45 then parseError
  else if b = 58 then parseInteger
  else if b = 44 then parseFloat
  else if b = 35 then parseBool
  else if b = 36 then parseBinaryString
  else if b = 95 then parseNull
  else invalidData "Unknown ZSP/RESP3 type"

/-- What a length line announces for a container. -/
def readCount (kind : Kind) (s : Bytes) : Option (Nat × Bytes) :=
  match readLine s with
  | .ok (text, rest) => ((readI64 text.bytes).bind fun n => kind.count n.toInt).map (·, rest)
  | .error _ => none

variable (limits : Limits)

/-- Whether the frames that begin here, inside the open containers, stay within the limits. The
scan ends at the first frame that is refused or incomplete. -/
def scanWithin : Nat → List Open → Bytes → Bool
  | 0, _, _ => true
  | fuel + 1, stack, s =>
      limits.calls (stack.length + 1) &&
      match s with
      | [] => true
      | b :: s =>
          match Kind.ofMarker b with
          | some kind =>
              limits.enters (kind :: stack.map Open.kind) &&
              match readCount kind s with
              | none => true
              | some (0, rest) => resume (scanWithin fuel) (deliver stack kind.empty) rest
              | some (n + 1, rest) =>
                  limits.elements (n + 1) rest.length &&
                    scanWithin fuel (⟨kind, n + 1, false⟩ :: stack) rest
          | none =>
              match parseScalar b s with
              | .ok ((some f, _), rest) => resume (scanWithin fuel) (deliver stack f) rest
              | _ => true

def scan (stack : List Open) (s : Bytes) : Bool := scanWithin limits (s.length + 1) stack s

/-- Whether the elements that a container still waits for stay within the limits. -/
def scanElements (o : Open) (s : Bytes) : Bool := o.left = 0 || scan limits [o] s

/-- Whether a call from `state` stays within the limits on the input `s`. -/
def scanFrom (state : ZspDecodeState) (s : Bytes) : Bool :=
  limits.calls 1 &&
  match state with
  | .initial => scan limits [] s
  | .partialBinaryString _ _ => true
  | .partialArray _ _ remaining => scanElements limits ⟨.array, remaining, false⟩ s
  | .partialDictionary _ _ remaining pendingKey =>
      scanElements limits ⟨.dictionary, remaining, pendingKey.isSome⟩ s
  | .partialSet _ _ remaining => scanElements limits ⟨.set, remaining, false⟩ s
  | .partialPush _ _ remaining => scanElements limits ⟨.push, remaining, false⟩ s
  | .partialZSet _ _ pendingMember remaining =>
      scanElements limits ⟨.zset, remaining, pendingMember.isSome⟩ s

variable {limits}

theorem ofMarker_eq_some {b : UInt8} {kind : Kind} (marker : Kind.ofMarker b = some kind) :
    b = 42 ∧ kind = .array ∨ b = 37 ∧ kind = .dictionary ∨ b = 126 ∧ kind = .set ∨
      b = 62 ∧ kind = .push ∨ b = 94 ∧ kind = .zset := by
  unfold Kind.ofMarker at marker
  split_ifs at marker <;> cases marker <;> simp_all

theorem ofMarker_eq_none {b : UInt8} (marker : Kind.ofMarker b = none) :
    b ≠ 42 ∧ b ≠ 37 ∧ b ≠ 126 ∧ b ≠ 62 ∧ b ≠ 94 := by
  unfold Kind.ofMarker at marker
  split_ifs at marker
  exact ⟨by assumption, by assumption, by assumption, by assumption, by assumption⟩

theorem parseFrame_scalar {b : UInt8} (marker : Kind.ofMarker b = none) (d : FrameDecoder) :
    parseFrame d b = parseScalar b := by
  obtain ⟨array, dictionary, set, push, zset⟩ := ofMarker_eq_none marker
  rw [parseFrame, parseScalar, if_neg array, if_neg dictionary, if_neg set, if_neg push,
    if_neg zset]

theorem shrinks_parseScalar {b : UInt8} (marker : Kind.ofMarker b = none) :
    Shrinks (parseScalar b) := by
  intro s r rest run
  rw [← parseFrame_scalar marker (decodeWithin 0)] at run
  exact (settles_parseFrame (settles_decodeWithin 0 .initial) b s r rest run).1

theorem length_readCount {kind : Kind} {s rest : Bytes} {n : Nat}
    (read : readCount kind s = some (n, rest)) : rest.length ≤ s.length := by
  rw [readCount] at read
  cases line : readLine s with
  | error e =>
      rw [line] at read
      cases read
  | ok r =>
      rw [line] at read
      obtain ⟨count, -, made⟩ := Option.map_eq_some_iff.mp read
      obtain ⟨-, rfl⟩ := Prod.mk.inj made
      exact shrinks_readLine s r.1 r.2 line

/-- The frame that begins with a byte, with `next` for what follows its header or itself. -/
def scanFrame (limits : Limits) (next : List Open → Bytes → Bool) (stack : List Open) (b : UInt8)
    (s : Bytes) : Bool :=
  match Kind.ofMarker b with
  | some kind =>
      limits.enters (kind :: stack.map Open.kind) &&
      match readCount kind s with
      | none => true
      | some (0, rest) => resume next (deliver stack kind.empty) rest
      | some (n + 1, rest) =>
          limits.elements (n + 1) rest.length && next (⟨kind, n + 1, false⟩ :: stack) rest
  | none =>
      match parseScalar b s with
      | .ok ((some f, _), rest) => resume next (deliver stack f) rest
      | _ => true

theorem scanWithin_cons (fuel : Nat) (stack : List Open) (b : UInt8) (s : Bytes) :
    scanWithin limits (fuel + 1) stack (b :: s) =
      (limits.calls (stack.length + 1) && scanFrame limits (scanWithin limits fuel) stack b s) :=
  rfl

theorem resume_congr {next next' : List Open → Bytes → Bool} {rest : Bytes}
    (same : ∀ stack, next stack rest = next' stack rest) (stack : Option (List Open)) :
    resume next stack rest = resume next' stack rest := by
  match stack with
  | none => rfl
  | some [] => rfl
  | some (o :: stack) => exact same (o :: stack)

theorem scanFrame_congr {next next' : List Open → Bytes → Bool} {s : Bytes}
    (same : ∀ stack rest, rest.length ≤ s.length → next stack rest = next' stack rest)
    (stack : List Open) (b : UInt8) :
    scanFrame limits next stack b s = scanFrame limits next' stack b s := by
  unfold scanFrame
  cases marker : Kind.ofMarker b with
  | some kind =>
      dsimp only
      congr 1
      cases read : readCount kind s with
      | none => rfl
      | some r =>
          obtain ⟨n, rest⟩ := r
          have shorter := length_readCount read
          cases n with
          | zero => exact resume_congr (fun stack => same stack rest shorter) _
          | succ n =>
              dsimp only
              rw [same _ rest shorter]
  | none =>
      cases run : parseScalar b s with
      | error e => rfl
      | ok r =>
          obtain ⟨⟨out, state⟩, rest⟩ := r
          have shorter := shrinks_parseScalar marker s _ rest run
          cases out with
          | none => rfl
          | some f => exact resume_congr (fun stack => same stack rest shorter) _

theorem scanWithin_eq (fuel fuel' : Nat) (stack : List Open) (s : Bytes)
    (enough : s.length < fuel) (enough' : s.length < fuel') :
    scanWithin limits fuel stack s = scanWithin limits fuel' stack s := by
  induction fuel generalizing fuel' stack s with
  | zero => exact absurd enough (by omega)
  | succ fuel ih =>
      obtain ⟨fuel', rfl⟩ : ∃ n, fuel' = n + 1 := ⟨fuel' - 1, by omega⟩
      cases s with
      | nil => rfl
      | cons b s =>
          simp only [List.length_cons] at enough enough'
          rw [scanWithin_cons, scanWithin_cons, scanFrame_congr fun stack rest shorter => ?_]
          exact ih fuel' stack rest (by omega) (by omega)

theorem scan_nil (stack : List Open) : scan limits stack [] = limits.calls (stack.length + 1) := by
  simp [scan, scanWithin]

theorem scan_cons (stack : List Open) (b : UInt8) (s : Bytes) :
    scan limits stack (b :: s) =
      (limits.calls (stack.length + 1) && scanFrame limits (scan limits) stack b s) := by
  rw [scan, List.length_cons, scanWithin_cons, scanFrame_congr fun stack rest shorter => ?_]
  exact scanWithin_eq _ _ stack rest (by omega) (by omega)

theorem deliver_congr {f g : ZspFrame}
    (name : ∀ kind : Kind, kind.takesName f = kind.takesName g)
    (value : ∀ kind : Kind, kind.takesValue f = kind.takesValue g) (stack : List Open) :
    deliver stack f = deliver stack g := by
  cases stack with
  | nil => rfl
  | cons o stack => rw [deliver, deliver, name, value]

end Scan

end Zumic.Zsp
