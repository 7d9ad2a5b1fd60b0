/- The errors of the decoder: their texts stay on one line, and an error that is not about missing
bytes stays whatever follows. -/

import Zumic.Zsp.Append

namespace Zumic.Zsp

open Lib Lib.ByteString Lib.Decimal Lib.Reader Lib.Utf8

/-- An error that no further input repairs. -/
def ZspDecodeError.isUnrepairable : ZspDecodeError → Bool
  | .invalidData _ => true
  | .unexpectedEof _ => false
  | .invalidUtf8 _ => true

def ZspDecodeError.Plain (e : ZspDecodeError) : Prop := hasLineBreak e.toStr = false

instance (e : ZspDecodeError) : Decidable e.Plain := inferInstanceAs (Decidable (_ = false))

/-- The reader fails in one line, and for good if no missing bytes are the reason. -/
def Refuses {α : Type} (p : FrameReader α) : Prop :=
  ∀ b e, p b = .error e → e.Plain ∧ (e.isUnrepairable = true → ∀ t, p (b ++ t) = .error e)

section

variable {α β : Type}

theorem refuses_pure (a : α) : Refuses (pure a : FrameReader α) := by
  intro b e failed
  cases failed

theorem refuses_throw {e : ZspDecodeError} (plain : e.Plain) :
    Refuses (throw e : FrameReader α) := by
  intro b e' failed
  obtain rfl : e = e' := Except.error.inj failed
  exact ⟨plain, fun _ _ => rfl⟩

theorem refuses_ite {c : Prop} [Decidable c] {p q : FrameReader α} (yes : Refuses p)
    (no : Refuses q) : Refuses (if c then p else q) := by
  split
  · exact yes
  · exact no

theorem refuses_ofExcept {x : Except ZspDecodeError α} (plain : ∀ e, x = .error e → e.Plain) :
    Refuses (Reader.ofExcept x : FrameReader α) := by
  cases x with
  | error e => exact refuses_throw (plain e rfl)
  | ok a => exact refuses_pure a

theorem refuses_bind {P : α → Prop} {p : FrameReader α} {f : α → FrameReader β} (first : Refuses p)
    (stable : StableOn P p) (second : ∀ a, P a → Refuses (f a))
    (needs : ∀ b a rest e, p b = .ok (a, rest) → f a rest = .error e → P a) :
    Refuses (p >>= f) := by
  intro b e failed
  cases run : p b with
  | error e' =>
      rw [bind_of_error run] at failed
      obtain rfl := Except.error.inj failed
      obtain ⟨plain, stays⟩ := first b e' run
      exact ⟨plain, fun final t => bind_of_error (stays final t)⟩
  | ok r =>
      obtain ⟨a, rest⟩ := r
      rw [bind_of_ok run] at failed
      have accepted := needs b a rest e run failed
      obtain ⟨plain, stays⟩ := second a accepted rest e failed
      refine ⟨plain, fun final t => ?_⟩
      rw [bind_of_ok (stable b a rest t accepted run)]
      exact stays final t

theorem refuses_bind_stable {p : FrameReader α} {f : α → FrameReader β} (first : Refuses p)
    (stable : Stable p) (second : ∀ a, Refuses (f a)) : Refuses (p >>= f) :=
  refuses_bind first stable (fun a _ => second a) fun _ _ _ _ _ _ => trivial

end

/-- The fixed texts of the errors. -/
private def errorTexts : List String :=
  ["Invalid integer", "Invalid float", "Invalid boolean format", "Unknown boolean value",
    "Invalid null format", "Invalid binary", "Negative binary length", "Max array depth exceeded",
    "Invalid array length", "Negative array length", "Invalid dictionary length", "Key not UTF-8",
    "Expected string key", "Negative dictionary length", "Invalid set length",
    "Negative set length", "Invalid push length", "Negative push length", "Invalid zset length",
    "Invalid UTF-8 in zset member", "Expected string for zset member",
    "Expected float/integer for zset score", "Unknown ZSP/RESP3 type"]

theorem plain_errorTexts {text : String} (known : text ∈ errorTexts) :
    (ZspDecodeError.invalidData (Str.lit text)).Plain := by
  have each : ∀ text ∈ errorTexts, (ZspDecodeError.invalidData (Str.lit text)).Plain := by
    decide +kernel
  exact each text known

theorem refuses_invalidData {α : Type} {text : String} (known : text ∈ errorTexts) :
    Refuses (invalidData text : FrameReader α) :=
  refuses_throw (plain_errorTexts known)

theorem not_contains_append {b : UInt8} {s t : Bytes} (first : b ∉ s) (second : b ∉ t) :
    b ∉ s ++ t := by
  rw [List.mem_append, not_or]
  exact ⟨first, second⟩

theorem plain_tooLong (n : Nat) :
    (ZspDecodeError.invalidData (Str.lit "Binary string too long (" ++ Str.ofNat n ++
      Str.lit " > " ++ Str.ofNat maxBinaryLength ++ Str.lit ")")).Plain := by
  have digits : ∀ b : UInt8, isDigit b = false → ∀ n, b ∉ (Str.ofNat n).bytes := by
    intro b other n member
    rw [isDigit_renderNat n b member] at other
    cases other
  have each : ∀ b : UInt8, b = 13 ∨ b = 10 → b ∉ (ZspDecodeError.invalidData
      (Str.lit "Binary string too long (" ++ Str.ofNat n ++ Str.lit " > " ++
        Str.ofNat maxBinaryLength ++ Str.lit ")")).toStr.bytes := by
    intro b lineBreak
    have noDigit : isDigit b = false := by rcases lineBreak with rfl | rfl <;> rfl
    have texts : ∀ text ∈ ["Invalid data: ", "Binary string too long (", " > ", ")"],
        b ∉ (Str.lit text).bytes := by
      rcases lineBreak with rfl | rfl <;> decide +kernel
    simp only [ZspDecodeError.toStr, Str.bytes_append]
    refine not_contains_append (texts _ (by simp)) (not_contains_append ?_ (texts _ (by simp)))
    refine not_contains_append ?_ (digits b noDigit _)
    refine not_contains_append ?_ (texts _ (by simp))
    exact not_contains_append (texts _ (by simp)) (digits b noDigit n)
  simp only [ZspDecodeError.Plain, hasLineBreak, Bool.or_eq_false_iff, List.contains_eq_mem,
    decide_eq_false_iff_not]
  exact ⟨each 13 (.inl rfl), each 10 (.inr rfl)⟩

theorem refuses_readLine : Refuses readLine := by
  intro s e failed
  unfold readLine at failed
  split at failed
  · rename_i b rest shape
    split at failed
    · cases failed
    · rename_i broken
      obtain rfl := Except.error.inj failed
      refine ⟨by decide +kernel, fun _ t => ?_⟩
      obtain ⟨front, back⟩ := line_append shape t
      simp only [readLine, front, back, broken]
  · obtain rfl := Except.error.inj failed
    exact ⟨by decide +kernel, fun final => absurd final (by simp [ZspDecodeError.isUnrepairable])⟩

theorem refuses_readNumber {message : String} (known : message ∈ errorTexts) :
    Refuses (readNumber message) := by
  refine refuses_bind_stable refuses_readLine stable_readLine fun text => ?_
  cases readI64 text.bytes with
  | none => exact refuses_invalidData known
  | some n => exact refuses_pure n

theorem expectCrlf_error {s : Bytes} {e : ZspDecodeError} (failed : expectCrlf s = .error e) :
    e = .unexpectedEof (Str.lit "Expected CRLF") := by
  unfold expectCrlf at failed
  split at failed
  · cases failed
  · exact (Except.error.inj failed).symm

/-- A payload is never refused for good: all that can be missing is the line end behind it. -/
theorem refuses_payload {n : Nat} {whole : Bytes → Prop} [DecidablePred whole]
    {f g : Bytes → Decoded} :
    Refuses (do
      let data ← takeUpTo n
      if whole data then
        expectCrlf
        pure (f data)
      else pure (g data)) := by
  intro s e failed
  rw [bind_of_ok (show (takeUpTo n : FrameReader Bytes) s = .ok (s.take n, s.drop n) from rfl)]
    at failed
  have missing : e = .unexpectedEof (Str.lit "Expected CRLF") := by
    split at failed
    · cases ending : expectCrlf (s.drop n) with
      | error e' =>
          rw [bind_of_error ending] at failed
          rw [← Except.error.inj failed]
          exact expectCrlf_error ending
      | ok r =>
          obtain ⟨u, rest⟩ := r
          rw [bind_of_ok ending] at failed
          cases failed
    · cases failed
  subst missing
  exact ⟨by decide +kernel, fun final => absurd final (by simp [ZspDecodeError.isUnrepairable])⟩

theorem refuses_parseBinaryString : Refuses parseBinaryString := by
  refine refuses_bind_stable (refuses_readNumber (by simp [errorTexts])) (stable_readNumber _)
    fun len => ?_
  refine refuses_ite (refuses_pure _) (refuses_ite ?_ (refuses_invalidData (by simp [errorTexts])))
  exact refuses_ite (refuses_throw (plain_tooLong _)) refuses_payload

theorem refuses_continueBinaryString (len : Nat) (data : Bytes) :
    Refuses (continueBinaryString len data) :=
  refuses_payload

theorem refuses_parseFloat : Refuses parseFloat := by
  refine refuses_bind_stable refuses_readLine stable_readLine fun text => ?_
  cases readFloat text.bytes with
  | none => exact refuses_invalidData (by simp [errorTexts])
  | some f => exact refuses_pure _

theorem refuses_parseBool : Refuses parseBool := by
  intro s e failed
  unfold parseBool at failed
  split at failed
  · split_ifs at failed with marks yes no
    · obtain rfl := Except.error.inj failed
      refine ⟨plain_errorTexts (by simp [errorTexts]), fun _ t => ?_⟩
      rw [List.cons_append, List.cons_append, List.cons_append, parseBool, if_pos marks]
    · obtain rfl := Except.error.inj failed
      refine ⟨plain_errorTexts (by simp [errorTexts]), fun _ t => ?_⟩
      rw [List.cons_append, List.cons_append, List.cons_append, parseBool, if_neg marks,
        if_neg yes, if_neg no]
  · obtain rfl := Except.error.inj failed
    exact ⟨by decide +kernel, fun final => absurd final (by simp [ZspDecodeError.isUnrepairable])⟩

theorem refuses_parseNull : Refuses parseNull := by
  intro s e failed
  unfold parseNull at failed
  split at failed
  · split_ifs at failed with marks
    obtain rfl := Except.error.inj failed
    refine ⟨plain_errorTexts (by simp [errorTexts]), fun _ t => ?_⟩
    rw [List.cons_append, List.cons_append, parseNull, if_pos marks]
  · obtain rfl := Except.error.inj failed
    exact ⟨by decide +kernel, fun final => absurd final (by simp [ZspDecodeError.isUnrepairable])⟩

/-- What is known of the recursive calls. -/
structure Refusing (d : FrameDecoder) : Prop where
  settled : Settles (d .initial)
  final : Final (d .initial)
  refuses : Refuses (d .initial)

section

variable {d : FrameDecoder}

/-- A reader that goes on only behind a frame, which is read in the same way whatever follows. -/
theorem refuses_bind_frame {β : Type} {f : Decoded → FrameReader β} (known : Refusing d)
    (missing : ∀ state b e, f (none, state) b ≠ .error e)
    (found : ∀ frame, Refuses (f (some frame, .initial))) : Refuses (d .initial >>= f) := by
  refine refuses_bind (P := fun r => r.1.isSome = true ∧ r.2 = .initial) known.refuses
    (fun b r rest t accepted run => known.final b r rest t accepted.1 run) ?_ ?_
  · rintro ⟨out, state⟩ ⟨some', rfl⟩
    obtain ⟨frame, rfl⟩ := Option.isSome_iff_exists.mp some'
    exact found frame
  · rintro b ⟨out, state⟩ rest e run failed
    cases out with
    | none => exact absurd failed (missing state rest e)
    | some frame => exact ⟨rfl, (known.settled b _ rest run).2 rfl⟩

theorem refuses_itemsLoop (known : Refusing d)
    (add : List ZspFrame → ZspFrame → List ZspFrame) (remaining : Nat) (items : List ZspFrame) :
    Refuses (itemsLoop d add remaining items .initial) := by
  induction remaining generalizing items with
  | zero => exact refuses_pure _
  | succ remaining ih =>
      refine refuses_bind_frame known (fun state b e failed => ?_) fun frame => ih (add items frame)
      cases failed

theorem refuses_continueItems (known : Refusing d) (c : Container) (len : Nat)
    (items : List ZspFrame) (remaining : Nat) :
    Refuses (continueItems d c len items remaining .initial) := by
  refine refuses_bind (P := fun _ => False) (refuses_itemsLoop known c.add remaining items)
    (fun _ _ _ _ impossible => impossible.elim) (fun _ impossible => impossible.elim) ?_
  rintro b ⟨out, left, state⟩ rest e run failed
  cases left <;> cases failed

variable {α : Type} {c : PairContainer α}

/-- The names and values of the container are refused in one line. -/
structure PairContainer.Plain (c : PairContainer α) : Prop where
  name : ∀ f e, c.name f = .error e → e.Plain
  value : ∀ f e, c.value f = .error e → e.Plain

theorem plain_dictionary : dictionaryContainer.Plain where
  name f e failed := by
    simp only [dictionaryContainer, dictionaryKey] at failed
    split at failed
    · split at failed
      · cases failed
      · obtain rfl := Except.error.inj failed
        exact plain_errorTexts (by simp [errorTexts])
    · cases failed
    · obtain rfl := Except.error.inj failed
      exact plain_errorTexts (by simp [errorTexts])
  value f e failed := by cases failed

theorem plain_zset : zsetContainer.Plain where
  name f e failed := by
    simp only [zsetContainer, zsetMember] at failed
    split at failed
    · cases failed
    · split at failed
      · cases failed
      · obtain rfl := Except.error.inj failed
        exact plain_errorTexts (by simp [errorTexts])
    · obtain rfl := Except.error.inj failed
      exact plain_errorTexts (by simp [errorTexts])
  value f e failed := by
    simp only [zsetContainer, zsetScore] at failed
    split at failed
    · cases failed
    · cases failed
    · obtain rfl := Except.error.inj failed
      exact plain_errorTexts (by simp [errorTexts])

theorem refuses_nextName (known : Refusing d) (plain : c.Plain) (pending : Option Str) :
    Refuses (nextName d c pending .initial) := by
  cases pending with
  | some name => exact refuses_pure _
  | none =>
      refine refuses_bind_frame known (fun state b e failed => ?_) fun frame => ?_
      · cases failed
      · exact refuses_bind_stable (refuses_ofExcept (plain.name frame)) (stable_ofExcept _)
          fun _ => refuses_pure _

theorem refuses_pairsLoop (known : Refusing d) (plain : c.Plain) (remaining : Nat)
    (items : List (Str × α)) (pending : Option Str) :
    Refuses (pairsLoop d c remaining items pending .initial) := by
  induction remaining generalizing items pending with
  | zero => exact refuses_pure _
  | succ remaining ih =>
      refine refuses_bind (P := fun r => r.1.isSome = true ∧ r.2 = .initial)
        (refuses_nextName known plain pending) (fun b r rest t accepted run =>
          stable_nextName known.final pending b r rest t accepted.1 run) ?_ ?_
      · rintro ⟨name, state⟩ ⟨some', rfl⟩
        obtain ⟨name, rfl⟩ := Option.isSome_iff_exists.mp some'
        refine refuses_bind_frame known (fun state b e failed => ?_) fun frame => ?_
        · cases failed
        · exact refuses_bind_stable (refuses_ofExcept (plain.value frame)) (stable_ofExcept _)
            fun value => ih _ none
      · rintro b ⟨name, state⟩ rest e run failed
        cases name with
        | none => cases failed
        | some name => exact ⟨rfl, (nextName_settles known.settled pending b _ rest run).2 rfl⟩

theorem refuses_continuePairs (known : Refusing d) (plain : c.Plain) (len : Nat)
    (items : List (Str × α)) (remaining : Nat) (pending : Option Str) :
    Refuses (continuePairs d c len items remaining pending .initial) := by
  refine refuses_bind (P := fun _ => False) (refuses_pairsLoop known plain remaining items pending)
    (fun _ _ _ _ impossible => impossible.elim) (fun _ impossible => impossible.elim) ?_
  rintro b ⟨out, left, next, state⟩ rest e run failed
  cases left <;> cases failed

theorem refuses_counted {invalid negative : String} {empty : Int64 → Prop}
    [DecidablePred empty] {f : Decoded} {p : Int64 → FrameReader Decoded}
    (first : invalid ∈ errorTexts) (second : negative ∈ errorTexts)
    (items : ∀ len, Refuses (p len)) :
    Refuses (do
      let len ← readNumber invalid
      if empty len then pure f
      else if 0 < len.toInt then p len
      else invalidData negative) := by
  refine refuses_bind_stable (refuses_readNumber first) (stable_readNumber _) fun len => ?_
  exact refuses_ite (refuses_pure _) (refuses_ite (items len) (refuses_invalidData second))

theorem refuses_parseFrame (known : Refusing d) (b : UInt8) : Refuses (parseFrame d b) := by
  have items : ∀ c len l remaining, Refuses (continueItems d c len l remaining .initial) :=
    refuses_continueItems known
  have text : ∀ f : Str → Decoded, Refuses (do
      let text ← readLine
      pure (f text)) := fun f =>
    refuses_bind_stable refuses_readLine stable_readLine fun _ => refuses_pure _
  unfold parseFrame
  refine refuses_ite (text _) (refuses_ite (text _) (refuses_ite ?_ ?_))
  · exact refuses_bind_stable (refuses_readNumber (by simp [errorTexts])) (stable_readNumber _)
      fun _ => refuses_pure _
  refine refuses_ite refuses_parseFloat (refuses_ite refuses_parseBool ?_)
  refine refuses_ite refuses_parseBinaryString (refuses_ite refuses_parseNull ?_)
  refine refuses_ite (refuses_ite (refuses_invalidData (by simp [errorTexts])) ?_) ?_
  · exact refuses_counted (by simp [errorTexts]) (by simp [errorTexts]) fun _ => items _ _ _ _
  refine refuses_ite ?_ (refuses_ite ?_ (refuses_ite ?_ (refuses_ite ?_ ?_)))
  · exact refuses_counted (by simp [errorTexts]) (by simp [errorTexts]) fun _ =>
      refuses_continuePairs known plain_dictionary _ _ _ _
  · exact refuses_counted (by simp [errorTexts]) (by simp [errorTexts]) fun _ => items _ _ _ _
  · exact refuses_counted (by simp [errorTexts]) (by simp [errorTexts]) fun _ => items _ _ _ _
  · exact refuses_counted (by simp [errorTexts]) (by simp [errorTexts]) fun _ =>
      refuses_continuePairs known plain_zset _ _ _ _
  · exact refuses_invalidData (by simp [errorTexts])

theorem refuses_decodeStep (known : Refusing d) (state : ZspDecodeState) :
    Refuses (decodeStep d state) := by
  cases state with
  | initial =>
      intro s e failed
      cases s with
      | nil => cases failed
      | cons b s => exact refuses_parseFrame known b s e failed
  | partialBinaryString len data => exact refuses_continueBinaryString len data
  | partialArray len items remaining => exact refuses_continueItems known _ _ _ _
  | partialDictionary len items remaining pendingKey =>
      exact refuses_continuePairs known plain_dictionary _ _ _ _
  | partialSet len items remaining => exact refuses_continueItems known _ _ _ _
  | partialPush len items remaining => exact refuses_continueItems known _ _ _ _
  | partialZSet len items pendingMember remaining =>
      exact refuses_continuePairs known plain_zset _ _ _ _

end

theorem refuses_decodeWithin (fuel : Nat) (state : ZspDecodeState) :
    Refuses (decodeWithin fuel state) := by
  induction fuel generalizing state with
  | zero => exact refuses_pure _
  | succ fuel ih =>
      refine refuses_decodeStep ⟨settles_decodeWithin fuel .initial, ?_, ih .initial⟩ state
      exact final_decodeWithin fuel

theorem refuses_decode_initial : Refuses (decode .initial) := by
  intro s e failed
  refine ⟨(refuses_decodeWithin _ .initial s e failed).1, fun unrepairable t => ?_⟩
  have longer : decodeWithin ((s ++ t).length + 2) .initial s = .error e := by
    rw [decodeWithin_initial _ (s.length + 2) s (by rw [List.length_append]; omega) (by omega)]
    exact failed
  exact (refuses_decodeWithin _ .initial s e longer).2 unrepairable t

/-- Every call fails in one line, and for good if no missing bytes are the reason. -/
theorem refuses_decode (state : ZspDecodeState) : Refuses (decode state) := by
  have known : Refusing decode :=
    ⟨fun s r rest run => settles_decodeWithin _ .initial s r rest run, final_decode,
      refuses_decode_initial⟩
  intro s e failed
  rw [decode_eq] at failed
  obtain ⟨plain, stays⟩ := refuses_decodeStep known state s e failed
  refine ⟨plain, fun unrepairable t => ?_⟩
  rw [decode_eq]
  exact stays unrepairable t

end Zumic.Zsp
