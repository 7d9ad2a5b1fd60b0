/- What a decoder spends: a frame never comes from fewer bytes than it is written with. -/

import Zumic.Zsp.Recursion
import Zumic.Zsp.Wire

namespace Zumic.Zsp

open Lib.ByteString Lib.Decimal Lib.Reader Lib.Utf8

/-- The length of the line that announces `n` items. -/
def headerLength (n : Nat) : Nat := (renderNat n).length + 3

theorem headerLength_mono {m n : Nat} (le : m ≤ n) : headerLength m ≤ headerLength n := by
  have := length_renderNat_mono le
  unfold headerLength
  omega

theorem length_header (marker : UInt8) (n : Nat) :
    (line marker (renderNat n)).length = headerLength n := by
  simp [line, crlf, headerLength]

mutual

/-- The fewest bytes that a frame is read from. Numbers, dictionaries and sorted sets can be
written in shorter ways than the encoder's and are not counted. -/
def cost : ZspFrame → Nat
  | .inlineString s => s.bytes.length + 3
  | .frameError s => s.bytes.length + 3
  | .integer i => (renderInt i.toInt).length + 3
  | .bool _ => 4
  | .binaryString (some b) => headerLength b.length + b.length + 2
  | .binaryString none => 5
  | .array items => headerLength items.length + costItems items
  | .set members => headerLength members.length + costItems members
  | .push items => headerLength items.length + costItems items
  | .null => 3
  | .float _ => 0
  | .dictionary _ => 0
  | .zset _ => 0

def costItems : List ZspFrame → Nat
  | [] => 0
  | f :: l => cost f + costItems l

end

/-- Frames whose cost is the length of their encoding. -/
def countedNode : ZspFrame → Bool
  | .float _ => false
  | .dictionary _ => false
  | .zset _ => false
  | _ => true

theorem costItems_append (l m : List ZspFrame) : costItems (l ++ m) = costItems l + costItems m := by
  induction l with
  | nil => simp [costItems]
  | cons f l ih =>
      rw [List.cons_append, costItems, costItems, ih]
      omega

theorem costItems_of_each {l : List ZspFrame} (each : ∀ f ∈ l, cost f = (wire f).length) :
    costItems l = (wireItems l).length := by
  induction l with
  | nil => rw [costItems, wireItems]; rfl
  | cons f l ih =>
      rw [costItems, wireItems, List.length_append, each f (by simp),
        ih fun g member => each g (List.mem_cons_of_mem _ member)]

theorem cost_eq {f : ZspFrame} (counted : f.all countedNode = true) : cost f = (wire f).length := by
  induction f using ZspFrame.induct with
  | inlineString s => simp [cost, wire, line, crlf]
  | frameError s => simp [cost, wire, line, crlf]
  | integer i => simp [cost, wire, line, crlf]
  | float f => exact absurd counted (by simp [ZspFrame.all, countedNode])
  | bool b => simp [cost, wire, line, crlf]
  | binaryString o =>
      cases o with
      | none => rw [cost, wire]; rfl
      | some b =>
          rw [cost, wire, bulk, List.length_append, List.length_append, length_header]
          rfl
  | array items ih =>
      simp only [ZspFrame.all, Bool.and_eq_true, ZspFrame.allItems_iff] at counted
      rw [cost, wire, List.length_append, length_header,
        costItems_of_each fun f member => ih f member (counted.2 f member)]
  | dictionary items ih => exact absurd counted (by simp [ZspFrame.all, countedNode])
  | set members ih =>
      simp only [ZspFrame.all, Bool.and_eq_true, ZspFrame.allItems_iff] at counted
      rw [cost, wire, List.length_append, length_header,
        costItems_of_each fun f member => ih f member (counted.2 f member)]
  | push items ih =>
      simp only [ZspFrame.all, Bool.and_eq_true, ZspFrame.allItems_iff] at counted
      rw [cost, wire, List.length_append, length_header,
        costItems_of_each fun f member => ih f member (counted.2 f member)]
  | zset entries => exact absurd counted (by simp [ZspFrame.all, countedNode])
  | null => simp [cost, wire, line, crlf]

theorem costItems_eq {l : List ZspFrame} (counted : ∀ f ∈ l, f.all countedNode = true) :
    costItems l = (wireItems l).length :=
  costItems_of_each fun f member => cost_eq (counted f member)

namespace ZspDecodeState

/-- The bytes that a state accounts for. -/
def credit : ZspDecodeState → Nat
  | .partialBinaryString len data => headerLength len + data.length
  | .partialArray len items _ => headerLength len + costItems items
  | .partialSet len items _ => headerLength len + costItems items
  | .partialPush len items _ => headerLength len + costItems items
  | _ => 0

/-- No more items are held and awaited than were announced. -/
def Fair : ZspDecodeState → Prop
  | .partialArray len items remaining => items.length + remaining ≤ len
  | .partialSet len items remaining => items.length + remaining ≤ len
  | .partialPush len items remaining => items.length + remaining ≤ len
  | _ => True

end ZspDecodeState

/-- What an answer accounts for. -/
def weight : Decoded → Nat
  | (some f, _) => cost f
  | (none, state) => state.credit

/-- A reader that pays for its answer out of a budget and the bytes it takes. -/
def Spends (budget : Nat) (p : FrameReader Decoded) : Prop :=
  ∀ s r rest, p s = .ok (r, rest) → weight r + rest.length ≤ budget + s.length ∧ r.2.Fair

theorem spends_pure {budget : Nat} {r : Decoded} (paid : weight r ≤ budget) (fair : r.2.Fair) :
    Spends budget (pure r) := by
  intro s r' rest run
  obtain ⟨rfl, rfl⟩ := Prod.mk.inj (Except.ok.inj run)
  exact ⟨by omega, fair⟩

theorem spends_throw {budget : Nat} (e : ZspDecodeError) : Spends budget (throw e) := by
  intro s r rest run
  exact absurd run (by simp [throw, throwThe, MonadExceptOf.throw, StateT.lift])

theorem spends_ite {budget : Nat} {c : Prop} [Decidable c] {p q : FrameReader Decoded}
    (yes : c → Spends budget p) (no : ¬ c → Spends budget q) :
    Spends budget (if c then p else q) := by
  split
  · rename_i h
    exact yes h
  · rename_i h
    exact no h

/-- A reader that takes at least `size a` bytes for its result `a`. -/
def Takes {α : Type} (size : α → Nat) (p : FrameReader α) : Prop :=
  ∀ s a rest, p s = .ok (a, rest) → size a + rest.length ≤ s.length

theorem spends_bind {α : Type} {size : α → Nat} {budget : Nat} {p : FrameReader α}
    {f : α → FrameReader Decoded} (first : Takes size p)
    (second : ∀ a, Spends (budget + size a) (f a)) : Spends budget (p >>= f) := by
  intro s r rest run
  obtain ⟨a, middle, runFirst, runSecond⟩ := bind_eq_ok run
  have taken := first s a middle runFirst
  obtain ⟨spent, fair⟩ := second a middle r rest runSecond
  exact ⟨by omega, fair⟩

theorem takes_readLine : Takes (fun text => text.bytes.length + 2) readLine := by
  intro s text rest run
  unfold readLine at run
  have whole : (s.takeWhile (· != (13 : UInt8))).length + (s.dropWhile (· != (13 : UInt8))).length =
      s.length := by
    rw [← List.length_append, List.takeWhile_append_dropWhile]
  split at run
  · rename_i shape
    rw [shape] at whole
    split at run
    · rename_i text' read
      obtain ⟨rfl, rfl⟩ := Prod.mk.inj (Except.ok.inj run)
      have bytes := Str.bytes_of_fromUtf8 read
      simp only [List.length_cons] at whole
      dsimp only
      rw [bytes]
      omega
    · exact absurd run (by simp)
  · exact absurd run (by simp)

theorem takes_readNumber (message : String) :
    Takes (fun n => (renderInt n.toInt).length + 2) (readNumber message) := by
  intro s n rest run
  rw [readNumber] at run
  obtain ⟨text, middle, first, second⟩ := bind_eq_ok run
  have taken := takes_readLine s text middle first
  cases read : readI64 text.bytes with
  | none =>
      simp only [read] at second
      exact absurd second (by simp [invalidData, throw, throwThe, MonadExceptOf.throw, StateT.lift])
  | some m =>
      simp only [read] at second
      obtain ⟨rfl, rfl⟩ := Prod.mk.inj (Except.ok.inj second)
      have shorter := length_renderInt_le read
      dsimp only at taken ⊢
      omega

theorem takes_takeUpTo (n : Nat) : Takes List.length (takeUpTo n : FrameReader Bytes) := by
  intro s b rest run
  obtain ⟨rfl, rfl⟩ := Prod.mk.inj (Except.ok.inj run)
  simp only [List.length_take, List.length_drop]
  omega

theorem takes_expectCrlf : Takes (fun _ => 2) expectCrlf := by
  intro s u rest run
  unfold expectCrlf at run
  split at run
  · obtain ⟨-, rfl⟩ := Prod.mk.inj (Except.ok.inj run)
    simp only [List.length_cons]
    omega
  · exact absurd run (by simp)

theorem headerLength_toNat {n : Int64} (positive : 0 ≤ n.toInt) :
    headerLength n.toInt.toNat = (renderInt n.toInt).length + 3 := by
  have same : n.toInt.natAbs = n.toInt.toNat := by omega
  rw [headerLength, renderInt, if_neg (by omega), same]

theorem spends_parseBinaryString : Spends 1 parseBinaryString := by
  refine spends_bind (takes_readNumber _) fun len => ?_
  refine spends_ite (fun minus => spends_pure ?_ trivial) fun _ => ?_
  · have length : (renderInt len.toInt).length = 2 := by rw [minus]; decide
    simp only [weight, cost, length]
    omega
  refine spends_ite (fun positive => ?_) fun _ => spends_throw _
  refine spends_ite (fun _ => spends_throw _) fun _ => ?_
  have header := headerLength_toNat positive
  refine spends_bind (takes_takeUpTo _) fun data => ?_
  refine spends_ite (fun full => ?_) fun _ => spends_pure ?_ trivial
  · refine spends_bind takes_expectCrlf fun _ => spends_pure ?_ trivial
    simp only [weight, cost, full]
    omega
  · simp only [weight, ZspDecodeState.credit]
    omega

theorem spends_continueBinaryString (len : Nat) (data : Bytes) :
    Spends (headerLength len + data.length) (continueBinaryString len data) := by
  refine spends_bind (takes_takeUpTo _) fun more => ?_
  refine spends_ite (fun full => ?_) fun _ => spends_pure ?_ trivial
  · refine spends_bind takes_expectCrlf fun _ => spends_pure ?_ trivial
    simp only [weight, cost, full]
    rw [List.length_append] at full
    omega
  · simp [weight, ZspDecodeState.credit]

theorem spends_parseFloat : Spends 1 parseFloat := by
  refine spends_bind takes_readLine fun text => ?_
  cases readFloat text.bytes with
  | none => exact spends_throw _
  | some f => exact spends_pure (by simp [weight, cost]) trivial

theorem spends_parseBool : Spends 1 parseBool := by
  intro s r rest run
  unfold parseBool at run
  split at run
  · split_ifs at run
    · obtain ⟨rfl, rfl⟩ := Prod.mk.inj (Except.ok.inj run)
      exact ⟨by simp only [weight, cost, List.length_cons]; omega, trivial⟩
    · obtain ⟨rfl, rfl⟩ := Prod.mk.inj (Except.ok.inj run)
      exact ⟨by simp only [weight, cost, List.length_cons]; omega, trivial⟩
  · exact absurd run (by simp)

theorem spends_parseNull : Spends 1 parseNull := by
  intro s r rest run
  unfold parseNull at run
  split at run
  · split_ifs at run
    obtain ⟨rfl, rfl⟩ := Prod.mk.inj (Except.ok.inj run)
    exact ⟨by simp only [weight, cost, List.length_cons]; omega, trivial⟩
  · exact absurd run (by simp)

/-- A container that accounts for its items. -/
structure Container.Honest (c : Container) : Prop where
  cost_add : ∀ l f, costItems (c.add l f) ≤ costItems l + cost f
  length_add : ∀ l f, (c.add l f).length ≤ l.length + 1
  cost_build : ∀ l, cost (c.build l) = headerLength l.length + costItems l
  credit_hold : ∀ len l remaining,
    (c.hold len l remaining).credit = headerLength len + costItems l
  fair_hold : ∀ len l remaining, (c.hold len l remaining).Fair ↔ l.length + remaining ≤ len

theorem costItems_snoc (l : List ZspFrame) (f : ZspFrame) :
    costItems (l ++ [f]) = costItems l + cost f := by
  rw [costItems_append, costItems, costItems]
  rfl

theorem honest_array : arrayContainer.Honest where
  cost_add l f := le_of_eq (costItems_snoc l f)
  length_add l f := by simp [arrayContainer]
  cost_build l := by rw [arrayContainer, cost]
  credit_hold len l remaining := rfl
  fair_hold len l remaining := Iff.rfl

theorem honest_push : pushContainer.Honest where
  cost_add l f := le_of_eq (costItems_snoc l f)
  length_add l f := by simp [pushContainer]
  cost_build l := by rw [pushContainer, cost]
  credit_hold len l remaining := rfl
  fair_hold len l remaining := Iff.rfl

theorem honest_set : setContainer.Honest where
  cost_add l f := by
    simp only [setContainer, ZspFrame.hashSetInsert]
    split
    · omega
    · exact le_of_eq (costItems_snoc l f)
  length_add l f := by
    simp only [setContainer, ZspFrame.hashSetInsert]
    split <;> simp
  cost_build l := by rw [setContainer, cost]
  credit_hold len l remaining := rfl
  fair_hold len l remaining := Iff.rfl

section

variable {d : FrameDecoder} {c : Container}

theorem itemsLoop_spends (settled : Settles (d .initial)) (spends : Spends 0 (d .initial))
    (honest : c.Honest) {n remaining : Nat} {items out : List ZspFrame} {s rest : Bytes}
    {state : ZspDecodeState}
    (run : itemsLoop d c.add n items .initial s = .ok ((out, remaining, state), rest)) :
    costItems out + rest.length ≤ costItems items + s.length ∧
      out.length + remaining ≤ items.length + n := by
  induction n generalizing items s with
  | zero =>
      obtain ⟨same, rfl⟩ := Prod.mk.inj (Except.ok.inj run)
      obtain ⟨rfl, rfl, -⟩ := by simpa using same
      exact ⟨le_refl _, le_refl _⟩
  | succ n ih =>
      rw [itemsLoop] at run
      obtain ⟨⟨o, next⟩, middle, first, second⟩ := bind_eq_ok run
      obtain ⟨spent, -⟩ := spends s (o, next) middle first
      cases o with
      | none =>
          obtain ⟨same, rfl⟩ := Prod.mk.inj (Except.ok.inj second)
          obtain ⟨rfl, rfl, -⟩ := by simpa using same
          exact ⟨by omega, le_refl _⟩
      | some f =>
          obtain rfl : next = .initial := (settled s (some f, next) middle first).2 rfl
          obtain ⟨paid, count⟩ := ih second
          have added := honest.cost_add items f
          have length := honest.length_add items f
          simp only [weight] at spent
          exact ⟨by omega, by omega⟩

theorem spends_continueItems (settled : Settles (d .initial)) (spends : Spends 0 (d .initial))
    (honest : c.Honest) {len remaining : Nat} {items : List ZspFrame}
    (fair : items.length + remaining ≤ len) :
    Spends (headerLength len + costItems items) (continueItems d c len items remaining .initial) := by
  intro s r rest run
  rw [continueItems] at run
  obtain ⟨⟨out, left, state⟩, middle, first, second⟩ := bind_eq_ok run
  obtain ⟨paid, count⟩ := itemsLoop_spends settled spends honest first
  cases left with
  | zero =>
      have final := (settles_continueItems settled c len items remaining s r rest
        (by rw [continueItems]; exact run)).2
      obtain ⟨rfl, rfl⟩ := Prod.mk.inj (Except.ok.inj second)
      obtain rfl : state = .initial := final rfl
      have header := headerLength_mono (show out.length ≤ len by omega)
      have built := honest.cost_build out
      exact ⟨by simp only [weight]; omega, trivial⟩
  | succ n =>
      obtain ⟨rfl, rfl⟩ := Prod.mk.inj (Except.ok.inj second)
      have held := honest.credit_hold len out (n + 1)
      exact ⟨by simp only [weight]; omega, (honest.fair_hold len out (n + 1)).mpr (by omega)⟩

/-- A container of pairs, which accounts for nothing. -/
structure PairContainer.Free {α : Type} (c : PairContainer α) : Prop where
  cost_build : ∀ l, cost (c.build l) = 0
  credit_hold : ∀ len l remaining pending, (c.hold len l remaining pending).credit = 0
  fair_hold : ∀ len l remaining pending, (c.hold len l remaining pending).Fair

theorem free_dictionary : dictionaryContainer.Free where
  cost_build l := by rw [dictionaryContainer, cost]
  credit_hold len l remaining pending := rfl
  fair_hold len l remaining pending := trivial

theorem free_zset : zsetContainer.Free where
  cost_build l := by rw [zsetContainer, cost]
  credit_hold len l remaining pending := rfl
  fair_hold len l remaining pending := trivial

theorem spends_continuePairs {α : Type} {p : PairContainer α} (settled : Settles (d .initial))
    (free : p.Free) (budget len : Nat) (items : List (Str × α)) (remaining : Nat)
    (pending : Option Str) :
    Spends budget (continuePairs d p len items remaining pending .initial) := by
  intro s r rest run
  obtain ⟨shorter, final⟩ := settles_continuePairs settled len items remaining pending s r rest run
  rw [continuePairs] at run
  obtain ⟨⟨out, left, next, state⟩, middle, first, second⟩ := bind_eq_ok run
  cases left with
  | zero =>
      obtain ⟨rfl, rfl⟩ := Prod.mk.inj (Except.ok.inj second)
      obtain rfl : state = .initial := final rfl
      have built := free.cost_build out
      exact ⟨by simp only [weight]; omega, trivial⟩
  | succ n =>
      obtain ⟨rfl, rfl⟩ := Prod.mk.inj (Except.ok.inj second)
      have held := free.credit_hold len out (n + 1) next
      exact ⟨by simp only [weight]; omega, free.fair_hold _ _ _ _⟩

theorem headerLength_zero : headerLength 0 = 4 := rfl

theorem renderInt_pos (i : Int) : 0 < (renderInt i).length := by
  unfold renderInt
  split
  · simp
  · exact List.length_pos_iff.mpr (renderNat_ne_nil _)

theorem spends_items (settled : Settles (d .initial)) (spends : Spends 0 (d .initial))
    (honest : c.Honest) {len : Int64} (positive : 0 < len.toInt) :
    Spends (1 + ((renderInt len.toInt).length + 2))
      (continueItems d c len.toInt.toNat [] len.toInt.toNat .initial) := by
  have header := headerLength_toNat (le_of_lt positive)
  have loop := spends_continueItems settled spends honest
    (show ([] : List ZspFrame).length + len.toInt.toNat ≤ len.toInt.toNat by simp)
  have same : headerLength len.toInt.toNat + costItems [] = 1 + ((renderInt len.toInt).length + 2) := by
    rw [header, costItems]
    omega
  rw [same] at loop
  exact loop

theorem spends_parseArray (settled : Settles (d .initial)) (spends : Spends 0 (d .initial))
    (depth : Nat) : Spends 1 (parseArray d depth) := by
  refine spends_ite (fun _ => spends_throw _) fun _ => ?_
  refine spends_bind (takes_readNumber _) fun len => ?_
  have digits := renderInt_pos len.toInt
  refine spends_ite (fun _ => spends_pure ?_ trivial) fun _ => ?_
  · simp only [weight, cost, costItems, List.length_nil, headerLength_zero]
    omega
  refine spends_ite (fun positive => ?_) fun _ => spends_throw _
  exact spends_items settled spends honest_array positive

theorem spends_parseCounted (settled : Settles (d .initial))
    (spends : Spends 0 (d .initial)) (honest : c.Honest) (invalid negative : String) :
    Spends 1 (parseCounted d c invalid negative) := by
  refine spends_bind (takes_readNumber _) fun len => ?_
  have digits := renderInt_pos len.toInt
  refine spends_ite (fun _ => spends_pure ?_ trivial) fun _ => ?_
  · simp only [weight, honest.cost_build, costItems, List.length_nil, headerLength_zero]
    omega
  refine spends_ite (fun positive => ?_) fun _ => spends_throw _
  exact spends_items settled spends honest positive

theorem spends_parseDictionary (settled : Settles (d .initial)) :
    Spends 1 (parseDictionary d) := by
  refine spends_bind (takes_readNumber _) fun len => ?_
  refine spends_ite (fun _ => spends_pure (by simp [weight, cost]) trivial) fun _ => ?_
  exact spends_ite (fun _ => spends_continuePairs settled free_dictionary _ _ _ _ _)
    fun _ => spends_throw _

theorem spends_parseZSet (settled : Settles (d .initial)) : Spends 1 (parseZSet d) := by
  refine spends_bind (takes_readNumber _) fun len => ?_
  refine spends_ite (fun _ => spends_pure (by simp [weight, cost]) trivial) fun _ => ?_
  exact spends_ite (fun _ => spends_continuePairs settled free_zset _ _ _ _ _)
    fun _ => spends_throw _

theorem spends_parseFrame (settled : Settles (d .initial)) (spends : Spends 0 (d .initial))
    (b : UInt8) : Spends 1 (parseFrame d b) := by
  have text : Spends 1 parseInlineString :=
    spends_bind takes_readLine fun text => spends_pure (by simp only [weight, cost]; omega) trivial
  have error : Spends 1 parseError :=
    spends_bind takes_readLine fun text => spends_pure (by simp only [weight, cost]; omega) trivial
  have integer : Spends 1 parseInteger :=
    spends_bind (takes_readNumber _) fun n => spends_pure (by simp only [weight, cost]; omega) trivial
  unfold parseFrame
  refine spends_ite (fun _ => text) fun _ => spends_ite (fun _ => error) fun _ => ?_
  refine spends_ite (fun _ => integer) fun _ => spends_ite (fun _ => spends_parseFloat) fun _ => ?_
  refine spends_ite (fun _ => spends_parseBool) fun _ => ?_
  refine spends_ite (fun _ => spends_parseBinaryString) fun _ => ?_
  refine spends_ite (fun _ => spends_parseNull) fun _ => ?_
  refine spends_ite (fun _ => spends_parseArray settled spends 0) fun _ => ?_
  refine spends_ite (fun _ => spends_parseDictionary settled) fun _ => ?_
  refine spends_ite (fun _ => spends_parseCounted settled spends honest_set _ _) fun _ => ?_
  refine spends_ite (fun _ => spends_parseCounted settled spends honest_push _ _) fun _ => ?_
  exact spends_ite (fun _ => spends_parseZSet settled) fun _ => spends_throw _

theorem spends_decodeStep (settled : Settles (d .initial)) (spends : Spends 0 (d .initial))
    {state : ZspDecodeState} (fair : state.Fair) : Spends state.credit (decodeStep d state) := by
  cases state with
  | initial =>
      intro s r rest run
      cases s with
      | nil =>
          obtain ⟨rfl, rfl⟩ := Prod.mk.inj (Except.ok.inj run)
          exact ⟨le_refl _, trivial⟩
      | cons b s =>
          obtain ⟨spent, fair'⟩ := spends_parseFrame settled spends b s r rest run
          exact ⟨by simp only [ZspDecodeState.credit, List.length_cons]; omega, fair'⟩
  | partialBinaryString len data => exact spends_continueBinaryString len data
  | partialArray len items remaining => exact spends_continueItems settled spends honest_array fair
  | partialDictionary len items remaining pending =>
      exact spends_continuePairs settled free_dictionary _ _ _ _ _
  | partialSet len items remaining => exact spends_continueItems settled spends honest_set fair
  | partialPush len items remaining => exact spends_continueItems settled spends honest_push fair
  | partialZSet len items pending remaining =>
      exact spends_continuePairs settled free_zset _ _ _ _ _

end

theorem spends_decodeWithin (fuel : Nat) {state : ZspDecodeState} (fair : state.Fair) :
    Spends state.credit (decodeWithin fuel state) := by
  induction fuel generalizing state with
  | zero => exact spends_pure (Nat.zero_le _) trivial
  | succ fuel ih =>
      have start : Spends 0 (decodeWithin fuel .initial) := ih trivial
      exact spends_decodeStep (settles_decodeWithin fuel .initial) start fair

theorem spends_decode {state : ZspDecodeState} (fair : state.Fair) :
    Spends state.credit (decode state) :=
  fun s => spends_decodeWithin (s.length + 2) fair s

end Zumic.Zsp
