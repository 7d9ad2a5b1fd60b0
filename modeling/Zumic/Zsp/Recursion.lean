/- The bound on the decoder's recursion is never reached: `decode` satisfies the source's own
recursive equation. -/

import Zumic.Zsp.Decoder

namespace Zumic.Zsp

open Lib Lib.ByteString Lib.Reader Lib.Utf8

/-- A reader of frames that hands back a suffix, and the initial state with every frame. -/
def Settles (p : FrameReader Decoded) : Prop :=
  ∀ s r rest, p s = .ok (r, rest) → rest.length ≤ s.length ∧ (r.1.isSome = true → r.2 = .initial)

theorem settles_pure {r : Decoded} (initial : r.1.isSome = true → r.2 = .initial) :
    Settles (pure r) := by
  intro s r' rest run
  obtain ⟨rfl, rfl⟩ := Prod.mk.inj (Except.ok.inj run)
  exact ⟨le_refl _, initial⟩

theorem settles_throw (e : ZspDecodeError) : Settles (throw e) := by
  intro s r rest run
  exact absurd run (by simp [throw, throwThe, MonadExceptOf.throw, StateT.lift])

theorem settles_bind {α : Type} {p : FrameReader α} {f : α → FrameReader Decoded}
    (first : Shrinks p) (second : ∀ a, Settles (f a)) : Settles (p >>= f) := by
  intro s r rest run
  obtain ⟨a, middle, runFirst, runSecond⟩ := bind_eq_ok run
  have shorter := first s a middle runFirst
  obtain ⟨shorter', initial⟩ := second a middle r rest runSecond
  exact ⟨shorter'.trans shorter, initial⟩

theorem settles_ite {c : Prop} [Decidable c] {p q : FrameReader Decoded} (yes : Settles p)
    (no : Settles q) : Settles (if c then p else q) := by
  split
  · exact yes
  · exact no

theorem shrinks_readLine : Shrinks readLine := by
  intro s text rest run
  unfold readLine at run
  have whole := (List.dropWhile_suffix (· != (13 : UInt8)) (l := s)).length_le
  split at run
  · rename_i shape
    rw [shape] at whole
    split at run
    · obtain ⟨-, rfl⟩ := Prod.mk.inj (Except.ok.inj run)
      simp only [List.length_cons] at whole
      omega
    · exact absurd run (by simp)
  · exact absurd run (by simp)

theorem shrinks_expectCrlf : Shrinks expectCrlf := by
  intro s u rest run
  unfold expectCrlf at run
  split at run
  · obtain ⟨-, rfl⟩ := Prod.mk.inj (Except.ok.inj run)
    simp only [List.length_cons]
    omega
  · exact absurd run (by simp)

theorem shrinks_readNumber (message : String) : Shrinks (readNumber message) := by
  refine shrinks_readLine.bind fun text => ?_
  cases Decimal.readI64 text.bytes with
  | none => exact shrinks_throw _
  | some n => exact shrinks_pure n

theorem settles_parseBinaryString : Settles parseBinaryString := by
  refine settles_bind (shrinks_readNumber _) fun len => ?_
  refine settles_ite (settles_pure fun _ => rfl) (settles_ite ?_ (settles_throw _))
  refine settles_ite (settles_throw _) (settles_bind (shrinks_takeUpTo _) fun data => ?_)
  refine settles_ite ?_ (settles_pure fun some => absurd some (by simp))
  exact settles_bind shrinks_expectCrlf fun _ => settles_pure fun _ => rfl

theorem settles_continueBinaryString (len : Nat) (data : Bytes) :
    Settles (continueBinaryString len data) := by
  refine settles_bind (shrinks_takeUpTo _) fun more => ?_
  refine settles_ite ?_ (settles_pure fun some => absurd some (by simp))
  exact settles_bind shrinks_expectCrlf fun _ => settles_pure fun _ => rfl

theorem settles_parseFloat : Settles parseFloat := by
  refine settles_bind shrinks_readLine fun text => ?_
  cases readFloat text.bytes with
  | none => exact settles_throw _
  | some f => exact settles_pure fun _ => rfl

theorem settles_parseBool : Settles parseBool := by
  intro s r rest run
  unfold parseBool at run
  split at run
  · split_ifs at run
    · obtain ⟨rfl, rfl⟩ := Prod.mk.inj (Except.ok.inj run)
      exact ⟨by simp only [List.length_cons]; omega, fun _ => rfl⟩
    · obtain ⟨rfl, rfl⟩ := Prod.mk.inj (Except.ok.inj run)
      exact ⟨by simp only [List.length_cons]; omega, fun _ => rfl⟩
  · exact absurd run (by simp)

theorem settles_parseNull : Settles parseNull := by
  intro s r rest run
  unfold parseNull at run
  split at run
  · split_ifs at run
    obtain ⟨rfl, rfl⟩ := Prod.mk.inj (Except.ok.inj run)
    exact ⟨by simp only [List.length_cons]; omega, fun _ => rfl⟩
  · exact absurd run (by simp)

section

variable {d d' : FrameDecoder}

theorem itemsLoop_settles (settled : Settles (d .initial))
    {add : List ZspFrame → ZspFrame → List ZspFrame} (remaining : Nat) (items : List ZspFrame)
    (s : Bytes) (r : List ZspFrame × Nat × ZspDecodeState) (rest : Bytes)
    (run : itemsLoop d add remaining items .initial s = .ok (r, rest)) :
    rest.length ≤ s.length ∧ (r.2.1 = 0 → r.2.2 = .initial) := by
  induction remaining generalizing items s with
  | zero =>
      obtain ⟨rfl, rfl⟩ := Prod.mk.inj (Except.ok.inj run)
      exact ⟨le_refl _, fun _ => rfl⟩
  | succ remaining ih =>
      rw [itemsLoop] at run
      obtain ⟨⟨out, state⟩, middle, first, second⟩ := bind_eq_ok run
      obtain ⟨shorter, initial⟩ := settled s (out, state) middle first
      cases out with
      | none =>
          obtain ⟨rfl, rfl⟩ := Prod.mk.inj (Except.ok.inj second)
          exact ⟨shorter, fun zero => absurd zero (by simp)⟩
      | some f =>
          obtain rfl : state = .initial := initial rfl
          obtain ⟨shorter', initial'⟩ := ih (add items f) middle second
          exact ⟨shorter'.trans shorter, initial'⟩

theorem settles_continueItems (settled : Settles (d .initial)) (c : Container) (len : Nat)
    (items : List ZspFrame) (remaining : Nat) :
    Settles (continueItems d c len items remaining .initial) := by
  intro s r rest run
  rw [continueItems] at run
  obtain ⟨⟨items', remaining', state⟩, middle, first, second⟩ := bind_eq_ok run
  obtain ⟨shorter, initial⟩ := itemsLoop_settles settled remaining items s _ middle first
  cases remaining' with
  | zero =>
      obtain ⟨rfl, rfl⟩ := Prod.mk.inj (Except.ok.inj second)
      exact ⟨shorter, fun _ => initial rfl⟩
  | succ n =>
      obtain ⟨rfl, rfl⟩ := Prod.mk.inj (Except.ok.inj second)
      exact ⟨shorter, fun some => absurd some (by simp)⟩

variable {α : Type} {c : PairContainer α}

theorem nextName_settles (settled : Settles (d .initial)) (pending : Option Str)
    (s : Bytes) (r : Option Str × ZspDecodeState) (rest : Bytes)
    (run : nextName d c pending .initial s = .ok (r, rest)) :
    rest.length ≤ s.length ∧ (r.1.isSome = true → r.2 = .initial) := by
  cases pending with
  | some name =>
      obtain ⟨rfl, rfl⟩ := Prod.mk.inj (Except.ok.inj run)
      exact ⟨le_refl _, fun _ => rfl⟩
  | none =>
      rw [nextName] at run
      obtain ⟨⟨out, state⟩, middle, first, second⟩ := bind_eq_ok run
      obtain ⟨shorter, initial⟩ := settled s (out, state) middle first
      cases out with
      | none =>
          obtain ⟨rfl, rfl⟩ := Prod.mk.inj (Except.ok.inj second)
          exact ⟨shorter, fun some => absurd some (by simp)⟩
      | some f =>
          obtain ⟨name, last, third, fourth⟩ := bind_eq_ok second
          obtain ⟨rfl, rfl⟩ := Prod.mk.inj (Except.ok.inj fourth)
          have shorter' := shrinks_ofExcept (c.name f) middle name _ third
          exact ⟨shorter'.trans shorter, fun _ => initial rfl⟩

theorem pairsLoop_settles (settled : Settles (d .initial)) (remaining : Nat)
    (items : List (Str × α)) (pending : Option Str) (s : Bytes)
    (r : List (Str × α) × Nat × Option Str × ZspDecodeState) (rest : Bytes)
    (run : pairsLoop d c remaining items pending .initial s = .ok (r, rest)) :
    rest.length ≤ s.length ∧ (r.2.1 = 0 → r.2.2.2 = .initial) := by
  induction remaining generalizing items pending s with
  | zero =>
      obtain ⟨rfl, rfl⟩ := Prod.mk.inj (Except.ok.inj run)
      exact ⟨le_refl _, fun _ => rfl⟩
  | succ remaining ih =>
      rw [pairsLoop] at run
      obtain ⟨⟨name, state⟩, middle, first, second⟩ := bind_eq_ok run
      obtain ⟨shorter, initial⟩ := nextName_settles settled pending s _ middle first
      cases name with
      | none =>
          obtain ⟨rfl, rfl⟩ := Prod.mk.inj (Except.ok.inj second)
          exact ⟨shorter, fun zero => absurd zero (by simp)⟩
      | some name =>
          obtain rfl : state = .initial := initial rfl
          obtain ⟨⟨out, state⟩, last, third, fourth⟩ := bind_eq_ok second
          obtain ⟨shorter', initial'⟩ := settled middle (out, state) last third
          cases out with
          | none =>
              obtain ⟨rfl, rfl⟩ := Prod.mk.inj (Except.ok.inj fourth)
              exact ⟨shorter'.trans shorter, fun zero => absurd zero (by simp)⟩
          | some frame =>
              obtain rfl : state = .initial := initial' rfl
              obtain ⟨value, last', fifth, sixth⟩ := bind_eq_ok fourth
              have shorter'' := shrinks_ofExcept (c.value frame) last value last' fifth
              obtain ⟨rest, ends⟩ := ih _ none last' sixth
              exact ⟨by omega, ends⟩

theorem settles_continuePairs (settled : Settles (d .initial)) (len : Nat)
    (items : List (Str × α)) (remaining : Nat) (pending : Option Str) :
    Settles (continuePairs d c len items remaining pending .initial) := by
  intro s r rest run
  rw [continuePairs] at run
  obtain ⟨⟨items', remaining', pending', state⟩, middle, first, second⟩ := bind_eq_ok run
  obtain ⟨shorter, initial⟩ := pairsLoop_settles settled remaining items pending s _ middle first
  cases remaining' with
  | zero =>
      obtain ⟨rfl, rfl⟩ := Prod.mk.inj (Except.ok.inj second)
      exact ⟨shorter, fun _ => initial rfl⟩
  | succ n =>
      obtain ⟨rfl, rfl⟩ := Prod.mk.inj (Except.ok.inj second)
      exact ⟨shorter, fun some => absurd some (by simp)⟩

theorem settles_parseArray (settled : Settles (d .initial)) (depth : Nat) :
    Settles (parseArray d depth) := by
  refine settles_ite (settles_throw _) (settles_bind (shrinks_readNumber _) fun len => ?_)
  exact settles_ite (settles_pure fun _ => rfl)
    (settles_ite (settles_continueItems settled _ _ _ _) (settles_throw _))

theorem settles_parseCounted (settled : Settles (d .initial)) (c : Container)
    (invalid negative : String) : Settles (parseCounted d c invalid negative) := by
  refine settles_bind (shrinks_readNumber _) fun len => ?_
  exact settles_ite (settles_pure fun _ => rfl)
    (settles_ite (settles_continueItems settled _ _ _ _) (settles_throw _))

theorem settles_parseDictionary (settled : Settles (d .initial)) :
    Settles (parseDictionary d) := by
  refine settles_bind (shrinks_readNumber _) fun len => ?_
  exact settles_ite (settles_pure fun _ => rfl)
    (settles_ite (settles_continuePairs settled _ _ _ _) (settles_throw _))

theorem settles_parseZSet (settled : Settles (d .initial)) : Settles (parseZSet d) := by
  refine settles_bind (shrinks_readNumber _) fun len => ?_
  exact settles_ite (settles_pure fun _ => rfl)
    (settles_ite (settles_continuePairs settled _ _ _ _) (settles_throw _))

theorem settles_parseFrame (settled : Settles (d .initial)) (b : UInt8) :
    Settles (parseFrame d b) := by
  have text : Settles parseInlineString :=
    settles_bind shrinks_readLine fun _ => settles_pure fun _ => rfl
  have error : Settles parseError :=
    settles_bind shrinks_readLine fun _ => settles_pure fun _ => rfl
  have integer : Settles parseInteger :=
    settles_bind (shrinks_readNumber _) fun _ => settles_pure fun _ => rfl
  unfold parseFrame
  refine settles_ite text (settles_ite error (settles_ite integer ?_))
  refine settles_ite settles_parseFloat (settles_ite settles_parseBool ?_)
  refine settles_ite settles_parseBinaryString (settles_ite settles_parseNull ?_)
  refine settles_ite (settles_parseArray settled 0) ?_
  refine settles_ite (settles_parseDictionary settled) ?_
  refine settles_ite (settles_parseCounted settled _ _ _) ?_
  refine settles_ite (settles_parseCounted settled _ _ _) ?_
  exact settles_ite (settles_parseZSet settled) (settles_throw _)

theorem settles_initialDecode (settled : Settles (d .initial)) :
    Settles (initialDecode d) := by
  intro s r rest run
  cases s with
  | nil =>
      obtain ⟨rfl, rfl⟩ := Prod.mk.inj (Except.ok.inj run)
      exact ⟨le_refl _, fun some => absurd some (by simp)⟩
  | cons b s =>
      obtain ⟨shorter, initial⟩ := settles_parseFrame settled b s r rest run
      exact ⟨shorter.trans (by simp), initial⟩

theorem settles_decodeStep (settled : Settles (d .initial)) (state : ZspDecodeState) :
    Settles (decodeStep d state) := by
  cases state with
  | initial => exact settles_initialDecode settled
  | partialBinaryString len data => exact settles_continueBinaryString len data
  | partialArray len items remaining => exact settles_continueItems settled _ _ _ _
  | partialDictionary len items remaining pending => exact settles_continuePairs settled _ _ _ _
  | partialSet len items remaining => exact settles_continueItems settled _ _ _ _
  | partialPush len items remaining => exact settles_continueItems settled _ _ _ _
  | partialZSet len items pending remaining => exact settles_continuePairs settled _ _ _ _

end

theorem settles_decodeWithin (fuel : Nat) (state : ZspDecodeState) :
    Settles (decodeWithin fuel state) := by
  induction fuel generalizing state with
  | zero => exact settles_pure fun some => absurd some (by simp)
  | succ fuel ih => exact settles_decodeStep (ih .initial) state

/-- Both decoders read a slice of at most `n` bytes in the same way from the initial state. -/
def Agree (n : Nat) (d d' : FrameDecoder) : Prop :=
  ∀ s : Bytes, s.length ≤ n → d .initial s = d' .initial s

/-- Both readers do the same on a slice of at most `n` bytes. -/
def SameUpTo {α : Type} (n : Nat) (p q : FrameReader α) : Prop :=
  ∀ s : Bytes, s.length ≤ n → p s = q s

section

variable {d d' : FrameDecoder} {n : Nat}

theorem sameUpTo_bind {α β : Type} {p : FrameReader α} {f g : α → FrameReader β}
    (first : Shrinks p) (second : ∀ a, SameUpTo n (f a) (g a)) :
    SameUpTo n (p >>= f) (p >>= g) := by
  intro s short
  cases run : p s with
  | error e => rw [bind_of_error run, bind_of_error run]
  | ok r =>
      obtain ⟨a, rest⟩ := r
      rw [bind_of_ok run, bind_of_ok run]
      exact second a rest ((first s a rest run).trans short)

theorem sameUpTo_ite {α : Type} {c : Prop} [Decidable c] {p q p' q' : FrameReader α}
    (yes : SameUpTo n p p') (no : SameUpTo n q q') :
    SameUpTo n (if c then p else q) (if c then p' else q') := by
  split
  · exact yes
  · exact no

theorem sameUpTo_refl {α : Type} (p : FrameReader α) : SameUpTo n p p :=
  fun _ _ => rfl

theorem sameUpTo_itemsLoop (settled : Settles (d .initial)) (agree : Agree n d d')
    {add : List ZspFrame → ZspFrame → List ZspFrame} (remaining : Nat) (items : List ZspFrame) :
    SameUpTo n (itemsLoop d add remaining items .initial)
      (itemsLoop d' add remaining items .initial) := by
  induction remaining generalizing items with
  | zero => exact sameUpTo_refl _
  | succ remaining ih =>
      intro s short
      rw [itemsLoop, itemsLoop, bind_apply, bind_apply, ← agree s short]
      cases run : d .initial s with
      | error e => rfl
      | ok r =>
          obtain ⟨⟨out, state⟩, rest⟩ := r
          obtain ⟨shorter, initial⟩ := settled s (out, state) rest run
          cases out with
          | none => rfl
          | some f =>
              obtain rfl : state = .initial := initial rfl
              exact ih (add items f) rest (shorter.trans short)

theorem sameUpTo_continueItems (settled : Settles (d .initial)) (agree : Agree n d d')
    (c : Container) (len : Nat) (items : List ZspFrame) (remaining : Nat) :
    SameUpTo n (continueItems d c len items remaining .initial)
      (continueItems d' c len items remaining .initial) := by
  intro s short
  rw [continueItems, continueItems, bind_apply, bind_apply,
    sameUpTo_itemsLoop settled agree remaining items s short]

theorem sameUpTo_nextName {α : Type} {c : PairContainer α} (agree : Agree n d d')
    (pending : Option Str) :
    SameUpTo n (nextName d c pending .initial) (nextName d' c pending .initial) := by
  intro s short
  cases pending with
  | some name => rfl
  | none =>
      rw [nextName, nextName, bind_apply, bind_apply, ← agree s short]

theorem sameUpTo_pairsLoop {α : Type} {c : PairContainer α}
    (settled : Settles (d .initial)) (agree : Agree n d d') (remaining : Nat)
    (items : List (Str × α)) (pending : Option Str) :
    SameUpTo n (pairsLoop d c remaining items pending .initial)
      (pairsLoop d' c remaining items pending .initial) := by
  induction remaining generalizing items pending with
  | zero => exact sameUpTo_refl _
  | succ remaining ih =>
      intro s short
      rw [pairsLoop, pairsLoop, bind_apply, bind_apply, ← sameUpTo_nextName agree pending s short]
      cases run : nextName d c pending .initial s with
      | error e => rfl
      | ok r =>
          obtain ⟨⟨name, state⟩, middle⟩ := r
          obtain ⟨shorter, initial⟩ := nextName_settles settled pending s _ middle run
          have short' : middle.length ≤ n := shorter.trans short
          cases name with
          | none => rfl
          | some name =>
              obtain rfl : state = .initial := initial rfl
              simp only [Except.bind]
              rw [bind_apply, bind_apply, ← agree middle short']
              cases run' : d .initial middle with
              | error e => rfl
              | ok r =>
                  obtain ⟨⟨out, state⟩, rest⟩ := r
                  obtain ⟨shorter', initial'⟩ := settled middle (out, state) rest run'
                  cases out with
                  | none => rfl
                  | some frame =>
                      obtain rfl : state = .initial := initial' rfl
                      exact sameUpTo_bind (shrinks_ofExcept _) (fun value => ih _ none) rest
                        (shorter'.trans short')

theorem sameUpTo_continuePairs {α : Type} (settled : Settles (d .initial))
    (agree : Agree n d d') (c : PairContainer α) (len : Nat) (items : List (Str × α))
    (remaining : Nat) (pending : Option Str) :
    SameUpTo n (continuePairs d c len items remaining pending .initial)
      (continuePairs d' c len items remaining pending .initial) := by
  intro s short
  rw [continuePairs, continuePairs, bind_apply, bind_apply,
    sameUpTo_pairsLoop settled agree remaining items pending s short]

theorem sameUpTo_parseFrame (settled : Settles (d .initial)) (agree : Agree n d d')
    (b : UInt8) : SameUpTo n (parseFrame d b) (parseFrame d' b) := by
  have items : ∀ c len l remaining, SameUpTo n (continueItems d c len l remaining .initial)
      (continueItems d' c len l remaining .initial) :=
    fun c len l remaining => sameUpTo_continueItems settled agree c len l remaining
  have pairs : ∀ {α : Type} (c : PairContainer α) len l remaining,
      SameUpTo n (continuePairs d c len l remaining none .initial)
        (continuePairs d' c len l remaining none .initial) :=
    fun c len l remaining => sameUpTo_continuePairs settled agree c len l remaining none
  have counted : ∀ c invalid negative, SameUpTo n (parseCounted d c invalid negative)
      (parseCounted d' c invalid negative) := by
    intro c invalid negative
    refine sameUpTo_bind (shrinks_readNumber _) fun len => ?_
    exact sameUpTo_ite (sameUpTo_refl _) (sameUpTo_ite (items _ _ _ _) (sameUpTo_refl _))
  unfold parseFrame
  iterate 7 refine sameUpTo_ite (sameUpTo_refl _) ?_
  refine sameUpTo_ite (sameUpTo_ite (sameUpTo_refl _)
    (sameUpTo_bind (shrinks_readNumber _) fun len => ?_)) ?_
  · exact sameUpTo_ite (sameUpTo_refl _) (sameUpTo_ite (items _ _ _ _) (sameUpTo_refl _))
  refine sameUpTo_ite (sameUpTo_bind (shrinks_readNumber _) fun len => ?_) ?_
  · exact sameUpTo_ite (sameUpTo_refl _) (sameUpTo_ite (pairs _ _ _ _) (sameUpTo_refl _))
  refine sameUpTo_ite (counted _ _ _) (sameUpTo_ite (counted _ _ _) ?_)
  refine sameUpTo_ite (sameUpTo_bind (shrinks_readNumber _) fun len => ?_) (sameUpTo_refl _)
  exact sameUpTo_ite (sameUpTo_refl _) (sameUpTo_ite (pairs _ _ _ _) (sameUpTo_refl _))

end

theorem initialDecode_nil (d : FrameDecoder) :
    initialDecode d [] = .ok ((none, .initial), []) := rfl

theorem initialDecode_cons (d : FrameDecoder) (b : UInt8) (s : Bytes) :
    initialDecode d (b :: s) = parseFrame d b s := rfl

/-- From the initial state, more fuel than bytes is as good as any other such amount. -/
theorem decodeWithin_initial (fuel fuel' : Nat) (s : Bytes) (enough : s.length < fuel)
    (enough' : s.length < fuel') :
    decodeWithin fuel .initial s = decodeWithin fuel' .initial s := by
  induction fuel generalizing fuel' s with
  | zero => exact absurd enough (by omega)
  | succ fuel ih =>
      obtain ⟨fuel', rfl⟩ : ∃ n, fuel' = n + 1 := ⟨fuel' - 1, by omega⟩
      cases s with
      | nil => rfl
      | cons b s =>
          simp only [List.length_cons] at enough enough'
          have agree : Agree s.length (decodeWithin fuel) (decodeWithin fuel') := by
            intro t short
            exact ih fuel' t (by omega) (by omega)
          exact sameUpTo_parseFrame (settles_decodeWithin fuel .initial) agree b s (le_refl _)

/-- The source's recursion: a call of the decoder makes its nested calls on the same decoder. -/
theorem decode_eq (state : ZspDecodeState) (s : Bytes) :
    decode state s = decodeStep decode state s := by
  have agree : Agree s.length (decodeWithin (s.length + 1)) decode := by
    intro t short
    exact decodeWithin_initial (s.length + 1) (t.length + 2) t (by omega) (by omega)
  have settled := settles_decodeWithin (s.length + 1) .initial
  have whole : s.length ≤ s.length := le_refl _
  have unfolded : decode state s = decodeStep (decodeWithin (s.length + 1)) state s := by
    rw [decode, decodeWithin]
  rw [unfolded]
  cases state with
  | initial =>
      rw [decodeStep, decodeStep]
      cases s with
      | nil => rw [initialDecode_nil, initialDecode_nil]
      | cons b s =>
          have agree' : Agree s.length (decodeWithin (s.length + 2)) decode :=
            fun t short => agree t (short.trans (by simp))
          rw [initialDecode_cons, initialDecode_cons]
          exact sameUpTo_parseFrame settled agree' b s (le_refl _)
  | partialBinaryString len data => rw [decodeStep, decodeStep]
  | partialArray len items remaining =>
      exact sameUpTo_continueItems settled agree _ _ _ _ s whole
  | partialDictionary len items remaining pending =>
      exact sameUpTo_continuePairs settled agree _ _ _ _ _ s whole
  | partialSet len items remaining =>
      exact sameUpTo_continueItems settled agree _ _ _ _ s whole
  | partialPush len items remaining =>
      exact sameUpTo_continueItems settled agree _ _ _ _ s whole
  | partialZSet len items pending remaining =>
      exact sameUpTo_continuePairs settled agree _ _ _ _ _ s whole

end Zumic.Zsp
