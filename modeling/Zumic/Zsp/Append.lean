/- Bytes that follow a frame do not change how it is read. -/

import Zumic.Zsp.Recursion

namespace Zumic.Zsp

open Lib Lib.ByteString Lib.Reader Lib.Utf8

/-- A reader of frames that reads a frame in the same way whatever follows it. -/
abbrev Final (p : FrameReader Decoded) : Prop := StableOn (fun r => r.1.isSome = true) p

theorem line_append {s rest : Bytes} {b : UInt8}
    (shape : s.dropWhile (· != (13 : UInt8)) = b :: 10 :: rest) (t : Bytes) :
    (s ++ t).takeWhile (· != (13 : UInt8)) = s.takeWhile (· != (13 : UInt8)) ∧
      (s ++ t).dropWhile (· != (13 : UInt8)) = b :: 10 :: (rest ++ t) := by
  have whole : (s.takeWhile (· != (13 : UInt8))).length + (s.dropWhile (· != (13 : UInt8))).length =
      s.length := by
    rw [← List.length_append, List.takeWhile_append_dropWhile]
  rw [shape, List.length_cons, List.length_cons] at whole
  constructor
  · rw [List.takeWhile_append, if_neg (by omega)]
  · rw [List.dropWhile_append, shape]
    rfl

theorem stable_readLine : Stable readLine := by
  intro s text rest t _ run
  unfold readLine at run ⊢
  split at run
  · rename_i b rest' shape
    obtain ⟨front, back⟩ := line_append shape t
    rw [front, back]
    split at run
    · obtain ⟨rfl, rfl⟩ := Prod.mk.inj (Except.ok.inj run)
      rfl
    · exact absurd run (by simp)
  · exact absurd run (by simp)

theorem stable_readNumber (message : String) : Stable (readNumber message) := by
  refine Stable.bind stable_readLine fun text => ?_
  cases Decimal.readI64 text.bytes with
  | none => exact stableOn_throw _ _
  | some n => exact stableOn_pure _ n

theorem stable_expectCrlf : Stable expectCrlf := by
  intro s u rest t _ run
  unfold expectCrlf at run
  split at run
  · obtain ⟨-, rfl⟩ := Prod.mk.inj (Except.ok.inj run)
    rfl
  · exact absurd run (by simp)

theorem stable_takeUpTo (n : Nat) :
    StableOn (fun b => b.length = n) (takeUpTo n : FrameReader Bytes) := by
  intro s b rest t full run
  obtain ⟨rfl, rfl⟩ := Prod.mk.inj (Except.ok.inj run)
  have enough : n ≤ s.length := by
    rw [List.length_take] at full
    omega
  simp only [takeUpTo, List.take_append_of_le_length enough, List.drop_append_of_le_length enough]

theorem final_parseBinaryString : Final parseBinaryString := by
  refine Stable.bind (stable_readNumber _) fun len => ?_
  refine stableOn_ite (stableOn_pure _ _) (stableOn_ite ?_ (stableOn_throw _ _))
  refine stableOn_ite (stableOn_throw _ _) ?_
  refine StableOn.bind (stable_takeUpTo _) (fun data => ?_) fun data s r rest run found => ?_
  · refine stableOn_ite ?_ (stableOn_pure _ _)
    exact Stable.bind stable_expectCrlf fun _ => stableOn_pure _ _
  · by_contra short
    rw [if_neg short] at run
    obtain ⟨rfl, -⟩ := Prod.mk.inj (Except.ok.inj run)
    exact absurd found (by simp)

theorem final_parseFloat : Final parseFloat := by
  refine Stable.bind stable_readLine fun text => ?_
  cases readFloat text.bytes with
  | none => exact stableOn_throw _ _
  | some f => exact stableOn_pure _ _

theorem final_parseBool : Final parseBool := by
  intro s r rest t _ run
  unfold parseBool at run
  split at run
  · simp only [List.cons_append, parseBool]
    split_ifs at run with marks yes no
    · obtain ⟨rfl, rfl⟩ := Prod.mk.inj (Except.ok.inj run)
      rw [if_neg marks, if_pos yes]
    · obtain ⟨rfl, rfl⟩ := Prod.mk.inj (Except.ok.inj run)
      rw [if_neg marks, if_neg yes, if_pos no]
  · exact absurd run (by simp)

theorem final_parseNull : Final parseNull := by
  intro s r rest t _ run
  unfold parseNull at run
  split at run
  · simp only [List.cons_append, parseNull]
    split_ifs at run with marks
    obtain ⟨rfl, rfl⟩ := Prod.mk.inj (Except.ok.inj run)
    rw [if_neg marks]
  · exact absurd run (by simp)

section

variable {d : FrameDecoder}

theorem stable_itemsLoop (settled : Settles (d .initial)) (final : Final (d .initial))
    (add : List ZspFrame → ZspFrame → List ZspFrame) (remaining : Nat) (items : List ZspFrame) :
    StableOn (fun r => r.2.1 = 0) (itemsLoop d add remaining items .initial) := by
  induction remaining generalizing items with
  | zero => exact stableOn_pure _ _
  | succ remaining ih =>
      intro s r rest t finished run
      rw [itemsLoop] at run ⊢
      obtain ⟨⟨out, state⟩, middle, first, second⟩ := bind_eq_ok run
      cases out with
      | none =>
          obtain ⟨rfl, -⟩ := Prod.mk.inj (Except.ok.inj second)
          exact absurd finished (by simp)
      | some f =>
          obtain rfl : state = .initial := (settled s _ middle first).2 rfl
          rw [bind_of_ok (final s _ middle t rfl first)]
          exact ih (add items f) middle r rest t finished second

theorem final_continueItems (settled : Settles (d .initial)) (final : Final (d .initial))
    (c : Container) (len : Nat) (items : List ZspFrame) (remaining : Nat) :
    Final (continueItems d c len items remaining .initial) := by
  refine StableOn.bind (stable_itemsLoop settled final c.add remaining items)
    (fun a => ?_) fun a s r rest run found => ?_
  · obtain ⟨out, left, state⟩ := a
    cases left <;> exact stableOn_pure _ _
  · obtain ⟨out, left, state⟩ := a
    cases left with
    | zero => rfl
    | succ n =>
        obtain ⟨rfl, -⟩ := Prod.mk.inj (Except.ok.inj run)
        exact absurd found (by simp)

variable {α : Type} {c : PairContainer α}

theorem stable_ofExcept {β : Type} (x : Except ZspDecodeError β) :
    Stable (Reader.ofExcept x : FrameReader β) := by
  cases x with
  | error e => exact stableOn_throw _ e
  | ok a => exact stableOn_pure _ a

theorem stable_nextName (final : Final (d .initial)) (pending : Option Str) :
    StableOn (fun r => r.1.isSome = true) (nextName d c pending .initial) := by
  cases pending with
  | some name => exact stableOn_pure _ _
  | none =>
      refine StableOn.bind final (fun a => ?_) fun a s r rest run found => ?_
      · obtain ⟨out, state⟩ := a
        cases out with
        | none => exact stableOn_pure _ _
        | some f => exact Stable.bind (stable_ofExcept _) fun name => stableOn_pure _ _
      · obtain ⟨out, state⟩ := a
        cases out with
        | none =>
            obtain ⟨rfl, -⟩ := Prod.mk.inj (Except.ok.inj run)
            exact absurd found (by simp)
        | some f => rfl

theorem stable_pairsLoop (settled : Settles (d .initial)) (final : Final (d .initial))
    (remaining : Nat) (items : List (Str × α)) (pending : Option Str) :
    StableOn (fun r => r.2.1 = 0) (pairsLoop d c remaining items pending .initial) := by
  induction remaining generalizing items pending with
  | zero => exact stableOn_pure _ _
  | succ remaining ih =>
      intro s r rest t finished run
      rw [pairsLoop] at run ⊢
      obtain ⟨⟨name, state⟩, middle, first, second⟩ := bind_eq_ok run
      cases name with
      | none =>
          obtain ⟨rfl, -⟩ := Prod.mk.inj (Except.ok.inj second)
          exact absurd finished (by simp)
      | some name =>
          obtain rfl : state = .initial := (nextName_settles settled pending s _ middle first).2 rfl
          rw [bind_of_ok (stable_nextName final pending s _ middle t rfl first)]
          obtain ⟨⟨out, state⟩, last, third, fourth⟩ := bind_eq_ok second
          cases out with
          | none =>
              obtain ⟨rfl, -⟩ := Prod.mk.inj (Except.ok.inj fourth)
              exact absurd finished (by simp)
          | some frame =>
              obtain rfl : state = .initial := (settled middle _ last third).2 rfl
              dsimp only
              rw [bind_of_ok (final middle _ last t rfl third)]
              exact Stable.bind (stable_ofExcept _) (fun value => ih _ none) last r rest t finished
                fourth

theorem final_continuePairs (settled : Settles (d .initial)) (final : Final (d .initial))
    (c : PairContainer α) (len : Nat) (items : List (Str × α)) (remaining : Nat)
    (pending : Option Str) :
    Final (continuePairs d c len items remaining pending .initial) := by
  refine StableOn.bind (stable_pairsLoop settled final remaining items pending)
    (fun a => ?_) fun a s r rest run found => ?_
  · obtain ⟨out, left, next, state⟩ := a
    cases left <;> exact stableOn_pure _ _
  · obtain ⟨out, left, next, state⟩ := a
    cases left with
    | zero => rfl
    | succ n =>
        obtain ⟨rfl, -⟩ := Prod.mk.inj (Except.ok.inj run)
        exact absurd found (by simp)

theorem final_parseFrame (settled : Settles (d .initial)) (final : Final (d .initial))
    (b : UInt8) : Final (parseFrame d b) := by
  have items : ∀ c len l remaining, Final (continueItems d c len l remaining .initial) :=
    final_continueItems settled final
  have pairs : ∀ {α : Type} (c : PairContainer α) len l remaining,
      Final (continuePairs d c len l remaining none .initial) :=
    fun c len l remaining => final_continuePairs settled final c len l remaining none
  have counted : ∀ c invalid negative, Final (parseCounted d c invalid negative) := by
    intro c invalid negative
    refine Stable.bind (stable_readNumber _) fun len => ?_
    exact stableOn_ite (stableOn_pure _ _) (stableOn_ite (items _ _ _ _) (stableOn_throw _ _))
  have text : Final parseInlineString := Stable.bind stable_readLine fun _ => stableOn_pure _ _
  have error : Final parseError := Stable.bind stable_readLine fun _ => stableOn_pure _ _
  have integer : Final parseInteger :=
    Stable.bind (stable_readNumber _) fun _ => stableOn_pure _ _
  unfold parseFrame
  refine stableOn_ite text (stableOn_ite error (stableOn_ite integer ?_))
  refine stableOn_ite final_parseFloat (stableOn_ite final_parseBool ?_)
  refine stableOn_ite final_parseBinaryString (stableOn_ite final_parseNull ?_)
  refine stableOn_ite (stableOn_ite (stableOn_throw _ _)
    (Stable.bind (stable_readNumber _) fun len => ?_)) ?_
  · exact stableOn_ite (stableOn_pure _ _) (stableOn_ite (items _ _ _ _) (stableOn_throw _ _))
  refine stableOn_ite (Stable.bind (stable_readNumber _) fun len => ?_) ?_
  · exact stableOn_ite (stableOn_pure _ _) (stableOn_ite (pairs _ _ _ _) (stableOn_throw _ _))
  refine stableOn_ite (counted _ _ _) (stableOn_ite (counted _ _ _) ?_)
  refine stableOn_ite (Stable.bind (stable_readNumber _) fun len => ?_) (stableOn_throw _ _)
  exact stableOn_ite (stableOn_pure _ _) (stableOn_ite (pairs _ _ _ _) (stableOn_throw _ _))

end

theorem final_decodeWithin (fuel : Nat) : Final (decodeWithin fuel .initial) := by
  induction fuel with
  | zero => exact stableOn_pure _ _
  | succ fuel ih =>
      intro s r rest t found run
      cases s with
      | nil =>
          obtain ⟨rfl, -⟩ := Prod.mk.inj (Except.ok.inj run)
          exact absurd found (by simp)
      | cons b s =>
          exact final_parseFrame (settles_decodeWithin fuel .initial) ih b s r rest t found run

theorem final_decode : Final (decode .initial) := by
  intro s r rest t found run
  have longer : decodeWithin ((s ++ t).length + 2) .initial s = .ok (r, rest) := by
    rw [decodeWithin_initial _ (s.length + 2) s (by rw [List.length_append]; omega) (by omega)]
    exact run
  exact final_decodeWithin _ s r rest t found longer

end Zumic.Zsp
