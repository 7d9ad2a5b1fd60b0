/- What the checks leave as it is: a checked call does what the decoder does or stops at a check,
and outside the containers no check is ever broken. -/

import Mathlib.Data.List.TakeWhile
import Zumic.Zsp.CheckedDecoder
import Zumic.Zsp.Recursion

namespace Zumic.Zsp.Checked

open Lib.ByteString Lib.Checked Lib.Decimal Lib.Reader Lib.Utf8

section

variable {α : Type} {s : Bytes}

theorem bind_unread (f : Bytes → CheckedFrames α) (s : Bytes) : (unread >>= f) s = f s s := rfl

theorem bind_index {i : Nat} (inRange : i < s.length) (f : UInt8 → CheckedFrames α) :
    (index .outOfRange i >>= f) s = f s[i] s := by
  apply bind_of_ok
  simp [index, inRange]

theorem bind_front {n : Nat} (inRange : n ≤ s.length) (f : Bytes → CheckedFrames α) :
    (front .outOfRange n >>= f) s = f (s.take n) s := by
  apply bind_of_ok
  simp [front, inRange]

theorem bind_skip {n : Nat} (inRange : n ≤ s.length) (f : Unit → CheckedFrames α) :
    (skip .outOfRange n >>= f) s = f () (s.drop n) := by
  apply bind_of_ok
  simp [skip, inRange]

theorem minus_of_le {m n : Nat} (le : n ≤ m) :
    (minus .outOfRange m n : CheckedFrames Nat) = pure (m - n) := if_pos le

theorem reservePayload_of_le {n : Nat} (fits : n ≤ maxBinaryLength) :
    reservePayload n = pure () := by
  rw [reservePayload, check, if_pos (decide_eq_true fits)]

theorem reserve_of_le {capacity used additional : Nat} (fits : used + additional ≤ capacity) :
    reserve capacity used additional = pure () := if_pos fits

theorem topUp_eq (alloc : Allocator) (len used : Nat) : topUp alloc len used = pure () :=
  if_neg (not_lt.mpr (alloc.enough len))

theorem refuse_apply (e : ZspDecodeError) (s : Bytes) :
    (refuse e : CheckedFrames α) s = .error (.inr e) := rfl

end

theorem split_of_findIdx {s : Bytes} {pos : Nat}
    (found : s.findIdx? (· == 13) = some pos) :
    pos < s.length ∧ s.takeWhile (· != 13) = s.take pos ∧
      s.dropWhile (· != 13) = 13 :: s.drop (pos + 1) := by
  induction s generalizing pos with
  | nil => cases found
  | cons x s ih =>
      rw [List.findIdx?_cons] at found
      by_cases stop : x = 13
      · subst stop
        obtain rfl : 0 = pos := by simpa using found
        simp
      · obtain ⟨pos', later, rfl⟩ : ∃ p, s.findIdx? (· == 13) = some p ∧ p + 1 = pos := by
          simpa [stop] using found
        obtain ⟨inRange, front, back⟩ := ih later
        refine ⟨by simpa using inRange, ?_, ?_⟩
        · rw [List.takeWhile_cons_of_pos (by simpa using stop), front, List.take_succ_cons]
        · rw [List.dropWhile_cons_of_pos (by simpa using stop), back, List.drop_succ_cons]

theorem readLine_eq : readLine = lift Zsp.readLine := by
  ext s
  show readLine s = lift Zsp.readLine s
  rw [readLine, bind_unread, lift, Zsp.readLine]
  cases found : s.findIdx? (· == 13) with
  | none =>
      have none' : s.dropWhile (· != 13) = [] := by
        apply List.dropWhile_eq_nil_iff.mpr
        intro x member
        simpa using List.findIdx?_eq_none_iff.mp found x member
      rw [none']
      rfl
  | some pos =>
      obtain ⟨inRange, front, back⟩ := split_of_findIdx found
      rw [back, front]
      by_cases more : pos + 1 < s.length
      · have next : s.drop (pos + 1) = s[pos + 1] :: s.drop (pos + 2) :=
          List.drop_eq_getElem_cons more
        simp only [if_pos more]
        rw [bind_index more, next]
        by_cases feed : s[pos + 1] = 10
        · rw [if_pos feed, feed, bind_front (by omega)]
          cases text : Str.fromUtf8 (s.take pos) with
          | none => rfl
          | some t =>
              show (skip .outOfRange (pos + 2) >>= fun _ => (pure t : CheckedFrames Str)) s = _
              rw [bind_skip (by omega)]
              rfl
        · rw [if_neg feed, refuse_apply]
          split
          · rename_i shape
            exact absurd (List.cons.inj (List.cons.inj shape).2).1 feed
          · rfl
      · have none' : s.drop (pos + 1) = [] := List.drop_eq_nil_of_le (by omega)
        simp only [if_neg more]
        rw [none', refuse_apply]
        rfl

theorem expectCrlf_eq : expectCrlf = lift Zsp.expectCrlf := by
  ext s
  show expectCrlf s = lift Zsp.expectCrlf s
  rw [expectCrlf, bind_unread]
  match s with
  | [] => rfl
  | [x] =>
      rw [if_pos (by simp), refuse_apply, lift, Zsp.expectCrlf]
      · rfl
      · intro rest shape
        simp at shape
  | x :: y :: rest =>
      rw [if_neg (by simp), bind_index (by simp)]
      by_cases first : x = 13
      · subst first
        rw [if_neg (by simp), bind_index (by simp)]
        by_cases second : y = 10
        · subst second
          simp [skip, lift, Zsp.expectCrlf, Except.mapError]
        · rw [if_pos (by simpa using second), refuse_apply, lift, Zsp.expectCrlf]
          · rfl
          · intro rest' shape
            simp only [List.cons.injEq] at shape
            exact second shape.2.1
      · rw [if_pos (by simpa using first), refuse_apply, lift, Zsp.expectCrlf]
        · rfl
        · intro rest' shape
          simp only [List.cons.injEq] at shape
          exact first shape.1

theorem readNumber_eq (message : String) : readNumber message = lift (Zsp.readNumber message) := by
  rw [readNumber, Zsp.readNumber, lift_bind, readLine_eq]
  refine bind_congr fun text => ?_
  cases readI64 text.bytes with
  | none => rfl
  | some n => rfl

theorem parseInlineString_eq : parseInlineString = lift Zsp.parseInlineString := by
  rw [parseInlineString, Zsp.parseInlineString, lift_bind, readLine_eq]
  rfl

theorem parseError_eq : parseError = lift Zsp.parseError := by
  rw [parseError, Zsp.parseError, lift_bind, readLine_eq]
  rfl

theorem parseInteger_eq : parseInteger = lift Zsp.parseInteger := by
  rw [parseInteger, Zsp.parseInteger, lift_bind, readNumber_eq]
  rfl

theorem parseFloat_eq : parseFloat = lift Zsp.parseFloat := by
  rw [parseFloat, Zsp.parseFloat, lift_bind, readLine_eq]
  refine bind_congr fun text => ?_
  cases readFloat text.bytes with
  | none => rfl
  | some f => rfl

theorem parseBool_eq : parseBool = lift Zsp.parseBool := by
  ext s
  show parseBool s = lift Zsp.parseBool s
  rw [parseBool, bind_unread]
  match s with
  | [] => rfl
  | [x] => rfl
  | [x, y] => rfl
  | b :: c :: d :: rest =>
      rw [if_neg (by simp), bind_index (by simp), bind_index (by simp), lift, Zsp.parseBool]
      by_cases first : c = 13
      · subst first
        rw [if_neg (by simp), bind_index (by simp)]
        by_cases second : d = 10
        · subst second
          have clean : ¬ ((13 : UInt8) ≠ 13 ∨ (10 : UInt8) ≠ 10) := by simp
          rw [if_neg (by simp), bind_skip (by simp), if_neg clean]
          simp only [List.getElem_cons_zero, List.drop_succ_cons, List.drop_zero]
          split_ifs <;> rfl
        · rw [if_pos (by simpa using second), if_pos (.inr second)]
          rfl
      · rw [if_pos (by simpa using first), if_pos (.inl first)]
        rfl

theorem parseNull_eq : parseNull = lift Zsp.parseNull := by
  ext s
  show parseNull s = lift Zsp.parseNull s
  rw [parseNull, bind_unread]
  match s with
  | [] => rfl
  | [x] => rfl
  | b :: c :: rest =>
      rw [if_neg (by simp), bind_index (by simp), lift, Zsp.parseNull]
      by_cases first : b = 13
      · subst first
        rw [if_neg (by simp), bind_index (by simp)]
        by_cases second : c = 10
        · subst second
          rw [if_neg (by simp), bind_skip (by simp), if_neg (by simp)]
          rfl
        · rw [if_pos (by simpa using second), if_pos (.inr second)]
          rfl
      · rw [if_pos (by simpa using first), if_pos (.inl first)]
        rfl

theorem take_available (s : Bytes) (n : Nat) : s.take (min s.length n) = s.take n := by
  rcases le_total s.length n with short | long
  · rw [min_eq_left short, List.take_length, List.take_of_length_le short]
  · rw [min_eq_right long]

theorem drop_available (s : Bytes) (n : Nat) : s.drop (min s.length n) = s.drop n := by
  rcases le_total s.length n with short | long
  · rw [min_eq_left short, List.drop_length, List.drop_of_length_le short]
  · rw [min_eq_right long]

theorem parseBinaryString_eq (alloc : Allocator) :
    parseBinaryString alloc = lift Zsp.parseBinaryString := by
  rw [parseBinaryString, Zsp.parseBinaryString, lift_bind, readNumber_eq]
  refine bind_congr fun len => ?_
  rw [lift_ite, lift_ite]
  refine if_congr Iff.rfl rfl (if_congr Iff.rfl ?_ rfl)
  rw [lift_ite]
  by_cases long : maxBinaryLength < len.toInt.toNat
  · rw [if_pos long]
    simp only [if_pos long]
    rfl
  · rw [if_neg long]
    simp only [if_neg long, reservePayload_of_le (not_lt.mp long), pure_bind, lift_bind, lift_ite,
      expectCrlf_eq]
    ext s
    have room : 0 + (s.take len.toInt.toNat).length ≤ alloc.capacity len.toInt.toNat := by
      have enough := alloc.enough len.toInt.toNat
      rw [List.length_take]
      omega
    simp only [StateT.run]
    rw [bind_unread, bind_front (min_le_left _ _), take_available, reserve_of_le room, pure_bind,
      bind_skip (min_le_left _ _), drop_available]
    rfl

theorem continueBinaryString_eq (alloc : Allocator) {len : Nat} {data : Bytes}
    (begun : data.length ≤ len) :
    continueBinaryString alloc len data = lift (Zsp.continueBinaryString len data) := by
  simp only [continueBinaryString, Zsp.continueBinaryString, lift_bind, lift_ite, expectCrlf_eq,
    minus_of_le begun, topUp_eq, pure_bind]
  ext s
  have room : data.length + (s.take (len - data.length)).length ≤ alloc.capacity len := by
    have enough := alloc.enough len
    rw [List.length_take]
    omega
  simp only [StateT.run]
  rw [bind_unread, bind_front (min_le_left _ _), take_available, bind_skip (min_le_left _ _),
    drop_available, reserve_of_le room, pure_bind]
  rfl

section

variable {g : ZspDecodeState → CheckedFrames Decoded} {d : FrameDecoder}

theorem follows_itemsLoop (follows : ∀ state, Follows (g state) (d state))
    (add : List ZspFrame → ZspFrame → List ZspFrame) (remaining : Nat) (items : List ZspFrame)
    (state : ZspDecodeState) :
    Follows (itemsLoop g add remaining items state)
      (Zsp.itemsLoop d add remaining items state) := by
  induction remaining generalizing items state with
  | zero => exact follows_pure _
  | succ remaining ih =>
      refine (follows state).bind fun out => ?_
      obtain ⟨_ | frame, state'⟩ := out
      · exact follows_pure _
      · exact ih (add items frame) state'

theorem follows_continueItems (follows : ∀ state, Follows (g state) (d state))
    (c : Container) (len : Nat) (items : List ZspFrame) (remaining : Nat)
    (state : ZspDecodeState) :
    Follows (continueItems g c len items remaining state)
      (Zsp.continueItems d c len items remaining state) := by
  refine (follows_itemsLoop follows c.add remaining items state).bind fun out => ?_
  obtain ⟨items', _ | remaining', state'⟩ := out
  · exact follows_pure _
  · exact follows_pure _

variable {α : Type} {c : PairContainer α}

theorem follows_nextName (follows : ∀ state, Follows (g state) (d state))
    (pending : Option Str) (state : ZspDecodeState) :
    Follows (nextName g c pending state) (Zsp.nextName d c pending state) := by
  cases pending with
  | some name => exact follows_pure _
  | none =>
      refine (follows state).bind fun out => ?_
      obtain ⟨_ | frame, state'⟩ := out
      · exact follows_pure _
      · exact (follows_lift _).bind fun name => follows_pure _

theorem follows_pairsLoop (follows : ∀ state, Follows (g state) (d state))
    (remaining : Nat) (items : List (Str × α)) (pending : Option Str) (state : ZspDecodeState) :
    Follows (pairsLoop g c remaining items pending state)
      (Zsp.pairsLoop d c remaining items pending state) := by
  induction remaining generalizing items pending state with
  | zero => exact follows_pure _
  | succ remaining ih =>
      refine (follows_nextName follows pending state).bind fun out => ?_
      obtain ⟨_ | name, state'⟩ := out
      · exact follows_pure _
      · refine (follows state').bind fun out' => ?_
        obtain ⟨_ | frame, state''⟩ := out'
        · exact follows_pure _
        · exact (follows_lift _).bind fun value => ih _ none state''

theorem follows_continuePairs (follows : ∀ state, Follows (g state) (d state))
    (c : PairContainer α) (len : Nat) (items : List (Str × α)) (remaining : Nat)
    (pending : Option Str) (state : ZspDecodeState) :
    Follows (continuePairs g c len items remaining pending state)
      (Zsp.continuePairs d c len items remaining pending state) := by
  refine (follows_pairsLoop follows remaining items pending state).bind fun out => ?_
  obtain ⟨items', _ | remaining', pending', state'⟩ := out
  · exact follows_pure _
  · exact follows_pure _

end

section

variable {limits : Limits} {alloc : Allocator} {g : CheckedDecoder} {d : FrameDecoder}

theorem follows_reserveElements {α : Type} {h : CheckedFrames α} {p : FrameReader α}
    (follows : Follows h p) (n : Nat) : Follows (reserveElements limits n >>= fun _ => h) p := by
  constructor
  · intro s r run
    rw [reserveElements, bind_assoc, bind_unread] at run
    exact (follows.checked _ _).ok s r run
  · intro s e run
    rw [reserveElements, bind_assoc, bind_unread] at run
    exact (follows.checked _ _).failed s e run

theorem follows_readNumber (message : String) :
    Follows (readNumber message) (Zsp.readNumber message) := by
  rw [readNumber_eq]
  exact follows_lift _

theorem follows_invalidData (message : String) :
    Follows (invalidData message : CheckedFrames Decoded) (Zsp.invalidData message) :=
  follows_throw _

theorem follows_parseArray (follows : ∀ inside state, Follows (g inside state) (d state))
    (inside : List Kind) (depth : Nat) :
    Follows (parseArray limits g inside depth) (Zsp.parseArray d depth) := by
  refine (follows_ite (follows_invalidData _) ?_).checked _ _
  refine (follows_readNumber _).bind fun len => follows_ite (follows_pure _) ?_
  refine follows_ite (follows_reserveElements ?_ _) (follows_invalidData _)
  exact follows_continueItems (follows _) _ _ _ _ _

theorem follows_parseCounted (follows : ∀ inside state, Follows (g inside state) (d state))
    (kind : Kind) (c : Container) (invalid negative : String) (inside : List Kind) :
    Follows (parseCounted limits g kind c invalid negative inside)
      (Zsp.parseCounted d c invalid negative) := by
  refine ((follows_readNumber _).bind fun len => ?_).checked _ _
  refine follows_ite (follows_pure _) ?_
  refine follows_ite (follows_reserveElements ?_ _) (follows_invalidData _)
  exact follows_continueItems (follows _) _ _ _ _ _

theorem follows_parseDictionary
    (follows : ∀ inside state, Follows (g inside state) (d state)) (inside : List Kind) :
    Follows (parseDictionary limits g inside) (Zsp.parseDictionary d) := by
  refine ((follows_readNumber _).bind fun len => ?_).checked _ _
  refine follows_ite (follows_pure _) ?_
  refine follows_ite (follows_reserveElements ?_ _) (follows_invalidData _)
  exact follows_continuePairs (follows _) _ _ _ _ _ _

theorem follows_parseZSet (follows : ∀ inside state, Follows (g inside state) (d state))
    (inside : List Kind) : Follows (parseZSet limits g inside) (Zsp.parseZSet d) := by
  refine ((follows_readNumber _).bind fun len => ?_).checked _ _
  refine follows_ite (follows_pure _) ?_
  refine follows_ite (follows_reserveElements ?_ _) (follows_invalidData _)
  exact follows_continuePairs (follows _) _ _ _ _ _ _

theorem follows_parseFrame (follows : ∀ inside state, Follows (g inside state) (d state))
    (inside : List Kind) (b : UInt8) :
    Follows (parseFrame limits alloc g inside b) (Zsp.parseFrame d b) := by
  rw [parseFrame, parseInlineString_eq, parseError_eq, parseInteger_eq, parseFloat_eq,
    parseBool_eq, parseBinaryString_eq, parseNull_eq]
  iterate 7 refine follows_ite (follows_lift _) ?_
  refine follows_ite (follows_parseArray follows inside 0) ?_
  refine follows_ite (follows_parseDictionary follows inside) ?_
  refine follows_ite (follows_parseCounted follows _ _ _ _ inside) ?_
  refine follows_ite (follows_parseCounted follows _ _ _ _ inside) ?_
  exact follows_ite (follows_parseZSet follows inside) (follows_throw _)

theorem initialDecode_nil (inside : List Kind) :
    initialDecode limits alloc g inside [] = .ok ((none, .initial), []) := rfl

theorem initialDecode_cons (inside : List Kind) (b : UInt8) (s : Bytes) :
    initialDecode limits alloc g inside (b :: s) = parseFrame limits alloc g inside b s := by
  rw [initialDecode, bind_unread, if_neg (by simp), bind_index (by simp), bind_skip (by simp)]
  rfl

theorem follows_initialDecode
    (follows : ∀ inside state, Follows (g inside state) (d state)) (inside : List Kind) :
    Follows (initialDecode limits alloc g inside) (Zsp.initialDecode d) := by
  constructor
  · intro s r run
    cases s with
    | nil => exact congrArg _ (Except.ok.inj run)
    | cons b s =>
        rw [initialDecode_cons] at run
        exact (follows_parseFrame follows inside b).ok s r run
  · intro s e run
    cases s with
    | nil => cases run
    | cons b s =>
        rw [initialDecode_cons] at run
        exact (follows_parseFrame follows inside b).failed s e run

theorem follows_continueBinaryString (len : Nat) (data : Bytes) :
    Follows (continueBinaryString alloc len data) (Zsp.continueBinaryString len data) := by
  by_cases begun : data.length ≤ len
  · rw [continueBinaryString_eq alloc begun]
    exact follows_lift _
  · have stops : ∀ s, continueBinaryString alloc len data s = .error (.inl .outOfRange) := by
      intro s
      rw [continueBinaryString, minus, if_neg begun]
      rfl
    constructor
    · intro s r run
      rw [stops] at run
      cases run
    · intro s e run
      rw [stops] at run
      cases run

theorem follows_decodeStep (follows : ∀ inside state, Follows (g inside state) (d state))
    (inside : List Kind) (state : ZspDecodeState) :
    Follows (decodeStep limits alloc g inside state) (Zsp.decodeStep d state) := by
  refine Follows.checked ?_ Trap.tooDeep (limits.calls (inside.length + 1))
  cases state with
  | initial => exact follows_initialDecode follows inside
  | partialBinaryString len data => exact follows_continueBinaryString len data
  | partialArray len items remaining => exact follows_continueItems (follows _) _ _ _ _ _
  | partialDictionary len items remaining pending =>
      exact follows_continuePairs (follows _) _ _ _ _ _ _
  | partialSet len items remaining => exact follows_continueItems (follows _) _ _ _ _ _
  | partialPush len items remaining => exact follows_continueItems (follows _) _ _ _ _ _
  | partialZSet len items pending remaining =>
      exact follows_continuePairs (follows _) _ _ _ _ _ _

theorem follows_decodeWithin (fuel : Nat) (inside : List Kind) (state : ZspDecodeState) :
    Follows (decodeWithin limits alloc fuel inside state) (Zsp.decodeWithin fuel state) := by
  induction fuel generalizing inside state with
  | zero => exact follows_pure _
  | succ fuel ih => exact follows_decodeStep ih inside state

theorem follows_decode (state : ZspDecodeState) :
    Follows (decode limits alloc state) (Zsp.decode state) := by
  constructor
  · intro s r run
    exact (follows_decodeWithin (s.length + 2) [] state).ok s r run
  · intro s e run
    exact (follows_decodeWithin (s.length + 2) [] state).failed s e run

theorem settles_checked {fuel : Nat} {inside : List Kind} {state : ZspDecodeState} {s : Bytes}
    {r : Decoded} {rest : Bytes}
    (run : decodeWithin limits alloc fuel inside state s = .ok (r, rest)) :
    rest.length ≤ s.length ∧ (r.1.isSome = true → r.2 = .initial) :=
  settles_decodeWithin fuel state s r rest ((follows_decodeWithin fuel inside state).ok s _ run)

end

end Zumic.Zsp.Checked
