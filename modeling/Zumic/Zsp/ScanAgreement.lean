/- The scan finds exactly the calls in which a check of the decoder is broken. -/

import Zumic.Zsp.Scan

namespace Zumic.Zsp

open Lib Lib.ByteString Lib.Checked Lib.Decimal Lib.Reader Lib.Utf8

namespace Scan

open Zumic.Zsp.Checked (Kind Limits Allocator CheckedFrames CheckedDecoder)

variable {limits : Limits} {alloc : Allocator}

/-- How the scan goes on behind a frame that the decoder reads inside the open containers. -/
def after (limits : Limits) (stack : List Open) : Decoded → Bytes → Bool
  | (none, _), _ => true
  | (some f, _), rest => resume (scan limits) (deliver stack f) rest

theorem after_nil (r : Decoded) (rest : Bytes) : after limits [] r rest = true := by
  obtain ⟨_ | f, state⟩ := r
  · rfl
  · rfl

/-- On inputs of at most `n` bytes, a checked decoder breaks no check where the scan finds none. -/
structure Scanned (limits : Limits) (n : Nat) (g : CheckedDecoder) : Prop where
  agrees : ∀ stack s, s.length ≤ n →
    passes (g (stack.map Open.kind) .initial) (after limits stack) s = scan limits stack s
  settles : ∀ inside s r rest, g inside .initial s = .ok (r, rest) →
    rest.length ≤ s.length ∧ (r.1.isSome = true → r.2 = .initial)

section

variable {n : Nat} {g : CheckedDecoder}

theorem scanned_frame (scanned : Scanned limits n g) (o : Open) (stack : List Open)
    {α : Type} {f : Decoded → CheckedFrames α} {k : α → Bytes → Bool} {s : Bytes}
    (short : s.length ≤ n) (missing : ∀ state rest, passes (f (none, state)) k rest = true)
    (found : ∀ frame rest, rest.length ≤ n → passes (f (some frame, .initial)) k rest =
      resume (scan limits) (deliver (o :: stack) frame) rest) :
    passes (g (o.kind :: stack.map Open.kind) .initial >>= f) k s = scan limits (o :: stack) s := by
  rw [passes_bind, ← scanned.agrees (o :: stack) s short]
  refine passes_congr fun r rest run => ?_
  obtain ⟨shorter, initial⟩ := scanned.settles _ s r rest run
  obtain ⟨_ | frame, state⟩ := r
  · exact missing state rest
  · obtain rfl : state = .initial := initial rfl
    exact found frame rest (shorter.trans short)

/-- What is done when a loop ends. -/
private def afterItems (limits : Limits) (stack : List Open) (kind : Kind) :
    List ZspFrame × Nat × ZspDecodeState → Bytes → Bool
  | (_, 0, _), rest => resume (scan limits) (deliver stack kind.empty) rest
  | (_, _ + 1, _), _ => true

theorem scanned_itemsLoop (scanned : Scanned limits n g) {kind : Kind}
    (single : kind.isPaired = false) (value : ∀ f, kind.takesValue f = true)
    (stack : List Open) (add : List ZspFrame → ZspFrame → List ZspFrame) (remaining : Nat)
    (items : List ZspFrame) {s : Bytes} (short : s.length ≤ n) :
    passes (Checked.itemsLoop (g (kind :: stack.map Open.kind)) add (remaining + 1) items .initial)
        (afterItems limits stack kind) s =
      scan limits (⟨kind, remaining + 1, false⟩ :: stack) s := by
  induction remaining generalizing items s with
  | zero =>
      rw [Checked.itemsLoop]
      refine scanned_frame scanned ⟨kind, _, false⟩ stack short ?_ ?_
      · exact fun state rest => rfl
      · intro frame rest _
        rw [deliver, single, value]
        rfl
  | succ remaining ih =>
      rw [Checked.itemsLoop]
      refine scanned_frame scanned ⟨kind, _, false⟩ stack short ?_ ?_
      · exact fun state rest => rfl
      · intro frame rest short'
        rw [deliver, single, value]
        exact ih (add items frame) short'

/-- A container that is complete is delivered as any other of its kind. -/
def Completes (kind : Kind) (f : ZspFrame) : Prop :=
  ∀ stack, deliver stack f = deliver stack kind.empty

theorem completes_of {kind : Kind} {f : ZspFrame}
    (name : ∀ outer : Kind, outer.takesName f = outer.takesName kind.empty)
    (value : ∀ outer : Kind, outer.takesValue f = outer.takesValue kind.empty) :
    Completes kind f :=
  deliver_congr name value

theorem completes_array (items : List ZspFrame) : Completes .array (.array items) :=
  completes_of (fun outer => by cases outer <;> rfl) fun outer => by cases outer <;> rfl

theorem completes_set (members : List ZspFrame) : Completes .set (.set members) :=
  completes_of (fun outer => by cases outer <;> rfl) fun outer => by cases outer <;> rfl

theorem completes_push (items : List ZspFrame) : Completes .push (.push items) :=
  completes_of (fun outer => by cases outer <;> rfl) fun outer => by cases outer <;> rfl

theorem completes_dictionary (items : List (Str × ZspFrame)) :
    Completes .dictionary (.dictionary items) :=
  completes_of (fun outer => by cases outer <;> rfl) fun outer => by cases outer <;> rfl

theorem completes_zset (entries : List (Str × F64)) : Completes .zset (.zset entries) :=
  completes_of (fun outer => by cases outer <;> rfl) fun outer => by cases outer <;> rfl

/-- The containers of a kind, as the scan sees them. -/
structure ItemsOf (kind : Kind) (c : Container) : Prop where
  single : kind.isPaired = false
  value : ∀ f, kind.takesValue f = true
  completes : ∀ items, Completes kind (c.build items)

theorem itemsOf_array : ItemsOf .array arrayContainer := ⟨rfl, fun _ => rfl, completes_array⟩

theorem itemsOf_set : ItemsOf .set setContainer := ⟨rfl, fun _ => rfl, completes_set⟩

theorem itemsOf_push : ItemsOf .push pushContainer := ⟨rfl, fun _ => rfl, completes_push⟩

theorem scanned_continueItems (scanned : Scanned limits n g) {kind : Kind} {c : Container}
    (of : ItemsOf kind c) (stack : List Open) (len : Nat) (items : List ZspFrame)
    (remaining : Nat) {s : Bytes} (short : s.length ≤ n) :
    passes (Checked.continueItems (g (kind :: stack.map Open.kind)) c len items (remaining + 1)
        .initial) (after limits stack) s =
      scan limits (⟨kind, remaining + 1, false⟩ :: stack) s := by
  rw [Checked.continueItems, passes_bind,
    ← scanned_itemsLoop scanned of.single of.value stack c.add remaining items short]
  refine passes_congr fun r rest _ => ?_
  obtain ⟨items', _ | remaining', state⟩ := r
  · show resume (scan limits) (deliver stack (c.build items')) rest = _
    rw [of.completes items' stack]
    rfl
  · rfl

/-- The containers of names and values of a kind, as the scan sees them. -/
structure PairsOf {α : Type} (kind : Kind) (c : PairContainer α) : Prop where
  paired : kind.isPaired = true
  name : ∀ f, kind.takesName f = (c.name f).isOk
  value : ∀ f, kind.takesValue f = (c.value f).isOk
  completes : ∀ items, Completes kind (c.build items)

theorem pairsOf_dictionary : PairsOf .dictionary dictionaryContainer :=
  ⟨rfl, fun _ => rfl, fun _ => rfl, completes_dictionary⟩

theorem pairsOf_zset : PairsOf .zset zsetContainer :=
  ⟨rfl, fun _ => rfl, fun _ => rfl, completes_zset⟩

variable {α : Type} {kind : Kind} {c : PairContainer α}

private def afterPairs (limits : Limits) (stack : List Open) (kind : Kind) :
    List (Str × α) × Nat × Option Str × ZspDecodeState → Bytes → Bool
  | (_, 0, _), rest => resume (scan limits) (deliver stack kind.empty) rest
  | (_, _ + 1, _), _ => true

/-- The elements behind the one that is being read. -/
private def Continues (limits : Limits) (n : Nat) (stack : List Open) (kind : Kind)
    (remaining : Nat)
    (next : CheckedFrames (List (Str × α) × Nat × Option Str × ZspDecodeState)) : Prop :=
  ∀ rest : Bytes, rest.length ≤ n → passes next (afterPairs limits stack kind) rest =
    resume (scan limits) (if remaining = 0 then deliver stack kind.empty
      else some (⟨kind, remaining, false⟩ :: stack)) rest

theorem scanned_value (scanned : Scanned limits n g) (of : PairsOf kind c)
    (stack : List Open) (remaining : Nat) (items : List (Str × α)) (name : Str)
    (goesOn : ∀ items, Continues limits n stack kind remaining
      (Checked.pairsLoop (g (kind :: stack.map Open.kind)) c remaining items none .initial))
    {s : Bytes} (short : s.length ≤ n) :
    passes (Checked.pairsLoop (g (kind :: stack.map Open.kind)) c (remaining + 1) items (some name)
        .initial) (afterPairs limits stack kind) s =
      scan limits (⟨kind, remaining + 1, true⟩ :: stack) s := by
  rw [Checked.pairsLoop, Checked.nextName, pure_bind]
  refine scanned_frame scanned ⟨kind, _, true⟩ stack short ?_ ?_
  · exact fun state rest => rfl
  · intro frame rest short'
    rw [deliver, of.paired, of.value]
    dsimp only
    rw [passes_bind]
    cases c.value frame with
    | error e => rfl
    | ok value =>
        have last : (remaining + 1 = 1) = (remaining = 0) := by
          apply propext
          omega
        simp only [last, Nat.add_sub_cancel]
        exact goesOn _ rest short'

theorem scanned_name (scanned : Scanned limits n g) (of : PairsOf kind c)
    (stack : List Open) (remaining : Nat) (items : List (Str × α))
    (goesOn : ∀ items, Continues limits n stack kind remaining
      (Checked.pairsLoop (g (kind :: stack.map Open.kind)) c remaining items none .initial))
    {s : Bytes} (short : s.length ≤ n) :
    passes (Checked.pairsLoop (g (kind :: stack.map Open.kind)) c (remaining + 1) items none
        .initial) (afterPairs limits stack kind) s =
      scan limits (⟨kind, remaining + 1, false⟩ :: stack) s := by
  rw [Checked.pairsLoop, Checked.nextName, bind_assoc]
  refine scanned_frame scanned ⟨kind, _, false⟩ stack short ?_ ?_
  · exact fun state rest => rfl
  · intro frame rest short'
    rw [deliver, of.paired, of.name]
    dsimp only
    rw [passes_bind, passes_bind]
    cases named : c.name frame with
    | error e => rfl
    | ok name =>
        have value := scanned_value scanned of stack remaining items name goesOn short'
        rw [Checked.pairsLoop, Checked.nextName, pure_bind] at value
        exact value

theorem scanned_pairsLoop (scanned : Scanned limits n g) (of : PairsOf kind c)
    (stack : List Open) (remaining : Nat) (items : List (Str × α)) (pending : Option Str)
    {s : Bytes} (short : s.length ≤ n) :
    passes (Checked.pairsLoop (g (kind :: stack.map Open.kind)) c (remaining + 1) items pending
        .initial) (afterPairs limits stack kind) s =
      scan limits (⟨kind, remaining + 1, pending.isSome⟩ :: stack) s := by
  induction remaining generalizing items pending s with
  | zero =>
      have ends : ∀ items, Continues limits n stack kind 0
          (Checked.pairsLoop (g (kind :: stack.map Open.kind)) c 0 items none .initial) :=
        fun items rest _ => rfl
      cases pending with
      | none => exact scanned_name scanned of stack 0 items ends short
      | some name => exact scanned_value scanned of stack 0 items name ends short
  | succ remaining ih =>
      have goesOn : ∀ items, Continues limits n stack kind (remaining + 1)
          (Checked.pairsLoop (g (kind :: stack.map Open.kind)) c (remaining + 1) items none
            .initial) :=
        fun items rest short' => ih items none short'
      cases pending with
      | none => exact scanned_name scanned of stack (remaining + 1) items goesOn short
      | some name => exact scanned_value scanned of stack (remaining + 1) items name goesOn short

theorem scanned_continuePairs (scanned : Scanned limits n g) (of : PairsOf kind c)
    (stack : List Open) (len : Nat) (items : List (Str × α)) (remaining : Nat)
    (pending : Option Str) {s : Bytes} (short : s.length ≤ n) :
    passes (Checked.continuePairs (g (kind :: stack.map Open.kind)) c len items (remaining + 1)
        pending .initial) (after limits stack) s =
      scan limits (⟨kind, remaining + 1, pending.isSome⟩ :: stack) s := by
  rw [Checked.continuePairs, passes_bind,
    ← scanned_pairsLoop scanned of stack remaining items pending short]
  refine passes_congr fun r rest _ => ?_
  obtain ⟨items', _ | remaining', pending', state⟩ := r
  · show resume (scan limits) (deliver stack (c.build items')) rest = _
    rw [of.completes items' stack]
    rfl
  · rfl

end

section

/-- What the scan does with the number on a length line. -/
def counted (limits : Limits) (stack : List Open) (kind : Kind) (rest : Bytes) :
    Option Nat → Bool
  | none => true
  | some 0 => resume (scan limits) (deliver stack kind.empty) rest
  | some (n + 1) =>
      limits.elements (n + 1) rest.length && scan limits (⟨kind, n + 1, false⟩ :: stack) rest

theorem count_of_pos (kind : Kind) {n : Int} (positive : 0 < n) : kind.count n = some n.toNat :=
  if_pos positive.le

theorem count_of_not_pos {kind : Kind} {n : Int} (other : kind.count n ≠ some 0)
    (nonpositive : ¬ 0 < n) : kind.count n = none := by
  unfold Kind.count at other ⊢
  by_cases zero : 0 ≤ n
  · obtain rfl : n = 0 := by omega
    exact absurd rfl other
  · rw [if_neg zero] at other ⊢
    by_cases null : n = -1
    · rw [if_pos null] at other ⊢
      cases kind with
      | array => exact absurd rfl other
      | zset => exact absurd rfl other
      | dictionary => rfl
      | set => rfl
      | push => rfl
    · rw [if_neg null]

theorem count_eq_zero_of_null {kind : Kind} (null : kind = .array ∨ kind = .zset) (n : Int) :
    n = -1 ∨ n = 0 ↔ kind.count n = some 0 := by
  unfold Kind.count
  by_cases nonneg : 0 ≤ n
  · rw [if_pos nonneg, Option.some.injEq]
    omega
  · rw [if_neg nonneg]
    by_cases minus : n = -1
    · rw [if_pos minus]
      rcases null with rfl | rfl
      · simp [minus]
      · simp [minus]
    · rw [if_neg minus]
      simp only [reduceCtorEq, iff_false]
      omega

theorem count_eq_zero {kind : Kind} (array : kind ≠ .array) (zset : kind ≠ .zset) (n : Int) :
    n = 0 ↔ kind.count n = some 0 := by
  unfold Kind.count
  by_cases nonneg : 0 ≤ n
  · rw [if_pos nonneg, Option.some.injEq]
    omega
  · rw [if_neg nonneg]
    have different : n ≠ 0 := by omega
    by_cases minus : n = -1
    · rw [if_pos minus]
      cases kind with
      | array => exact absurd rfl array
      | zset => exact absurd rfl zset
      | dictionary => simpa using different
      | set => simpa using different
      | push => simpa using different
    · rw [if_neg minus]
      simpa using different

theorem passes_reserveElements {α : Type} (m : Nat) (q : CheckedFrames α)
    (k : α → Bytes → Bool) (rest : Bytes) :
    passes (Checked.reserveElements limits m >>= fun _ => q) k rest =
      (limits.elements m rest.length && passes q k rest) := by
  have run : (Checked.reserveElements limits m >>= fun _ => q) rest =
      (check .overReserved (limits.elements m rest.length) >>= fun _ => q) rest := by
    rw [Checked.reserveElements, bind_assoc, Checked.bind_unread]
  rw [passes, run]
  show passes (check .overReserved (limits.elements m rest.length) >>= fun _ => q) k rest = _
  rw [passes_bind, passes_check]

theorem scanned_count {kind : Kind} {stack : List Open} {n : Int} {empty : Prop}
    [Decidable empty] {q : CheckedFrames Decoded} {rest : Bytes} (message : String)
    (zero : empty ↔ kind.count n = some 0)
    (positive : ∀ m, n.toNat = m + 1 → passes q (after limits stack) rest =
      scan limits (⟨kind, m + 1, false⟩ :: stack) rest) :
    passes (if empty then pure (some kind.empty, .initial)
        else if 0 < n then Checked.reserveElements limits n.toNat >>= fun _ => q
        else Checked.invalidData message) (after limits stack) rest =
      counted limits stack kind rest (kind.count n) := by
  by_cases none' : empty
  · rw [if_pos none', zero.mp none']
    rfl
  · rw [if_neg none']
    by_cases some' : 0 < n
    · obtain ⟨m, size⟩ : ∃ m, n.toNat = m + 1 := ⟨n.toNat - 1, by omega⟩
      rw [if_pos some', count_of_pos kind some', passes_reserveElements, positive m size, size]
      rfl
    · rw [if_neg some', count_of_not_pos (fun is => none' (zero.mpr is)) some']
      rfl

/-- What the scan does behind the marker of a container. -/
def opened (limits : Limits) (stack : List Open) (kind : Kind) (s : Bytes) : Bool :=
  limits.enters (kind :: stack.map Open.kind) &&
  match readCount kind s with
  | none => true
  | some (0, rest) => resume (scan limits) (deliver stack kind.empty) rest
  | some (n + 1, rest) =>
      limits.elements (n + 1) rest.length && scan limits (⟨kind, n + 1, false⟩ :: stack) rest

theorem scanned_header {kind : Kind} {stack : List Open} {message : String}
    {f : Int64 → CheckedFrames Decoded} {s : Bytes}
    (body : ∀ (n : Int64) (rest : Bytes), rest.length ≤ s.length →
      passes (f n) (after limits stack) rest =
        counted limits stack kind rest (kind.count n.toInt)) :
    passes (check .tooDeep (limits.enters (kind :: stack.map Open.kind)) >>= fun _ =>
        Checked.readNumber message >>= f) (after limits stack) s =
      opened limits stack kind s := by
  rw [passes_bind, passes_check, opened]
  congr 1
  rw [passes_bind, Checked.readNumber_eq, passes_lift, Zsp.readNumber, bind_apply, readCount]
  cases line : readLine s with
  | error e => rfl
  | ok r =>
      obtain ⟨text, rest⟩ := r
      have shorter := shrinks_readLine s text rest line
      dsimp only [Except.bind]
      cases number : readI64 text.bytes with
      | none => rfl
      | some n =>
          show passes (f n) (after limits stack) rest = _
          rw [body n rest shorter]
          simp only [Option.bind_some]
          cases kind.count n.toInt with
          | none => rfl
          | some m => cases m <;> rfl

variable {n : Nat} {g : CheckedDecoder}

theorem scanned_parseArray (scanned : Scanned limits n g) (stack : List Open) {s : Bytes}
    (short : s.length ≤ n) :
    passes (Checked.parseArray limits g (stack.map Open.kind) 0) (after limits stack) s =
      opened limits stack .array s := by
  refine scanned_header fun len rest shorter => ?_
  refine scanned_count _ (count_eq_zero_of_null (.inl rfl) _) fun m size => ?_
  rw [size]
  exact scanned_continueItems scanned itemsOf_array stack _ [] m (shorter.trans short)

theorem scanned_parseCounted (scanned : Scanned limits n g) {kind : Kind} {c : Container}
    (of : ItemsOf kind c) (empty : c.build [] = kind.empty) (array : kind ≠ .array)
    (invalid negative : String) (stack : List Open) {s : Bytes} (short : s.length ≤ n) :
    passes (Checked.parseCounted limits g kind c invalid negative (stack.map Open.kind))
        (after limits stack) s = opened limits stack kind s := by
  have zset : kind ≠ .zset := by
    rintro rfl
    cases of.single
  refine scanned_header fun len rest shorter => ?_
  rw [empty]
  refine scanned_count _ (count_eq_zero array zset _) fun m size => ?_
  rw [size]
  exact scanned_continueItems scanned of stack _ [] m (shorter.trans short)

theorem scanned_parseDictionary (scanned : Scanned limits n g) (stack : List Open)
    {s : Bytes} (short : s.length ≤ n) :
    passes (Checked.parseDictionary limits g (stack.map Open.kind)) (after limits stack) s =
      opened limits stack .dictionary s := by
  refine scanned_header fun len rest shorter => ?_
  have empty := count_eq_zero (show Kind.dictionary ≠ .array by decide) (by decide) len.toInt
  refine scanned_count _ empty fun m size => ?_
  rw [size]
  exact scanned_continuePairs scanned pairsOf_dictionary stack _ [] m none (shorter.trans short)

theorem scanned_parseZSet (scanned : Scanned limits n g) (stack : List Open)
    {s : Bytes} (short : s.length ≤ n) :
    passes (Checked.parseZSet limits g (stack.map Open.kind)) (after limits stack) s =
      opened limits stack .zset s := by
  refine scanned_header fun len rest shorter => ?_
  refine scanned_count _ (count_eq_zero_of_null (.inr rfl) _) fun m size => ?_
  rw [size]
  exact scanned_continuePairs scanned pairsOf_zset stack _ [] m none (shorter.trans short)

theorem parseFrame_eq_lift {b : UInt8} (marker : Kind.ofMarker b = none) (inside : List Kind) :
    Checked.parseFrame limits alloc g inside b = lift (parseScalar b) := by
  obtain ⟨array, dictionary, set, push, zset⟩ := ofMarker_eq_none marker
  rw [Checked.parseFrame, if_neg array, if_neg dictionary, if_neg set, if_neg push, if_neg zset,
    Checked.parseInlineString_eq, Checked.parseError_eq, Checked.parseInteger_eq,
    Checked.parseFloat_eq, Checked.parseBool_eq, Checked.parseBinaryString_eq,
    Checked.parseNull_eq]
  simp only [parseScalar, lift_ite]
  rfl

theorem scanned_parseFrame (scanned : Scanned limits n g) (stack : List Open) (b : UInt8)
    {s : Bytes} (short : s.length ≤ n) :
    (limits.calls (stack.length + 1) &&
      passes (Checked.parseFrame limits alloc g (stack.map Open.kind) b) (after limits stack) s) =
      scan limits stack (b :: s) := by
  rw [scan_cons, scanFrame]
  congr 1
  cases marker : Kind.ofMarker b with
  | none =>
      rw [parseFrame_eq_lift marker, passes_lift]
      cases parseScalar b s with
      | error e => rfl
      | ok r =>
          obtain ⟨⟨_ | f, state⟩, rest⟩ := r
          · rfl
          · rfl
  | some kind =>
      rcases ofMarker_eq_some marker with
        ⟨rfl, rfl⟩ | ⟨rfl, rfl⟩ | ⟨rfl, rfl⟩ | ⟨rfl, rfl⟩ | ⟨rfl, rfl⟩
      · exact scanned_parseArray scanned stack short
      · exact scanned_parseDictionary scanned stack short
      · exact scanned_parseCounted scanned itemsOf_set rfl (by decide) _ _ stack short
      · exact scanned_parseCounted scanned itemsOf_push rfl (by decide) _ _ stack short
      · exact scanned_parseZSet scanned stack short

end

section

variable {n : Nat} {g : CheckedDecoder}

theorem scanned_nil (g : CheckedDecoder) (stack : List Open) :
    passes (Checked.decodeStep limits alloc g (stack.map Open.kind) .initial) (after limits stack)
      [] = scan limits stack [] := by
  show passes (check .tooDeep (limits.calls ((stack.map Open.kind).length + 1)) >>= fun _ =>
    Checked.initialDecode limits alloc g _) _ _ = _
  rw [passes_bind, passes_check, List.length_map, scan_nil]
  simp [passes, Checked.initialDecode_nil, after]

theorem scanned_cons (scanned : Scanned limits n g) (stack : List Open) (b : UInt8)
    {s : Bytes} (short : s.length ≤ n) :
    passes (Checked.decodeStep limits alloc g (stack.map Open.kind) .initial) (after limits stack)
      (b :: s) = scan limits stack (b :: s) := by
  show passes (check .tooDeep (limits.calls ((stack.map Open.kind).length + 1)) >>= fun _ =>
    Checked.initialDecode limits alloc g _) _ _ = _
  rw [passes_bind, passes_check, List.length_map, passes, Checked.initialDecode_cons, ← passes]
  exact scanned_parseFrame scanned stack b short

/-- The decoder breaks no check where the scan finds none, whatever containers stand open. -/
theorem scanned_decodeWithin (fuel : Nat) :
    Scanned limits fuel (Checked.decodeWithin limits alloc (fuel + 1)) := by
  induction fuel with
  | zero =>
      refine ⟨fun stack s short => ?_, fun inside s r rest => Checked.settles_checked⟩
      obtain rfl : s = [] := List.length_eq_zero_iff.mp (by omega)
      exact scanned_nil _ stack
  | succ fuel ih =>
      refine ⟨fun stack s short => ?_, fun inside s r rest => Checked.settles_checked⟩
      cases s with
      | nil => exact scanned_nil _ stack
      | cons b s => exact scanned_cons ih stack b (by simpa using short)

/-- A payload is begun within its bounds. -/
def Fits : ZspDecodeState → Prop
  | .partialBinaryString len data => data.length ≤ len ∧ len ≤ maxBinaryLength
  | _ => True

theorem scanned_items (scanned : Scanned limits n g) {kind : Kind} {c : Container}
    (of : ItemsOf kind c) (len : Nat) (items : List ZspFrame) (remaining : Nat) {s : Bytes}
    (short : s.length ≤ n) :
    passes (Checked.continueItems (g [kind]) c len items remaining .initial) (fun _ _ => true) s =
      scanElements limits ⟨kind, remaining, false⟩ s := by
  cases remaining with
  | zero => rfl
  | succ remaining =>
      rw [← passes_congr fun r rest _ => after_nil r rest]
      exact scanned_continueItems scanned of [] len items remaining short

theorem scanned_pairs {α : Type} (scanned : Scanned limits n g) {kind : Kind}
    {c : PairContainer α} (of : PairsOf kind c) (len : Nat) (items : List (Str × α))
    (remaining : Nat) (pending : Option Str) {s : Bytes} (short : s.length ≤ n) :
    passes (Checked.continuePairs (g [kind]) c len items remaining pending .initial)
        (fun _ _ => true) s = scanElements limits ⟨kind, remaining, pending.isSome⟩ s := by
  cases remaining with
  | zero => rfl
  | succ remaining =>
      rw [← passes_congr fun r rest _ => after_nil r rest]
      exact scanned_continuePairs scanned of [] len items remaining pending short

theorem calls_and_scan (s : Bytes) :
    (limits.calls 1 && scan limits [] s) = scan limits [] s := by
  cases s with
  | nil => simp [scan_nil]
  | cons b s => simp [scan_cons]

theorem passes_called (q : CheckedFrames Decoded) (s : Bytes) :
    passes (check .tooDeep (limits.calls 1) >>= fun _ => q) (fun _ _ => true) s =
      (limits.calls 1 && passes q (fun _ _ => true) s) := by
  rw [passes_bind, passes_check]

theorem passes_decodeStep (scanned : Scanned limits n g) {state : ZspDecodeState}
    (fits : Fits state) (begun : state ≠ .initial) {s : Bytes} (short : s.length ≤ n) :
    passes (Checked.decodeStep limits alloc g [] state) (fun _ _ => true) s =
      scanFrom limits state s := by
  cases state with
  | initial => exact absurd rfl begun
  | partialBinaryString len data =>
      have plain := Checked.continueBinaryString_eq alloc fits.1
      refine (passes_called (Checked.continueBinaryString alloc len data) s).trans ?_
      rw [plain, passes_lift]
      cases continueBinaryString len data s <;> rfl
  | partialArray len items remaining =>
      rw [scanFrom, ← scanned_items scanned itemsOf_array len items remaining short]
      exact passes_called _ s
  | partialDictionary len items remaining pending =>
      rw [scanFrom, ← scanned_pairs scanned pairsOf_dictionary len items remaining pending short]
      exact passes_called _ s
  | partialSet len items remaining =>
      rw [scanFrom, ← scanned_items scanned itemsOf_set len items remaining short]
      exact passes_called _ s
  | partialPush len items remaining =>
      rw [scanFrom, ← scanned_items scanned itemsOf_push len items remaining short]
      exact passes_called _ s
  | partialZSet len items pending remaining =>
      rw [scanFrom, ← scanned_pairs scanned pairsOf_zset len items remaining pending short]
      exact passes_called _ s

theorem passes_decode {state : ZspDecodeState} (fits : Fits state) (s : Bytes) :
    passes (Checked.decode limits alloc state) (fun _ _ => true) s = scanFrom limits state s := by
  rw [passes, Checked.decode, ← passes]
  by_cases begun : state = .initial
  · subst begun
    rw [← passes_congr fun r rest _ => after_nil r rest, scanFrom, calls_and_scan]
    exact (scanned_decodeWithin (s.length + 1)).agrees [] s (Nat.le_succ _)
  · rw [Checked.decodeWithin]
    exact passes_decodeStep (scanned_decodeWithin s.length) fits begun (le_refl _)

/-- A call breaks no check exactly where the scan of its input finds none broken. -/
theorem scanFrom_iff {state : ZspDecodeState} (fits : Fits state) (s : Bytes) :
    (∀ trap, Checked.decode limits alloc state s ≠ .error (.inl trap)) ↔
      scanFrom limits state s = true := by
  rw [← passes_iff, passes_decode fits]

end

end Scan

end Zumic.Zsp
