/- How deep the frames nest that the decoder gives, and how deep its calls do. -/

import Zumic.Lib.Runs
import Zumic.Zsp.Reservations
import Zumic.Zsp.RoundTrip

namespace Zumic.Zsp

open Lib Lib.ByteString Lib.Checked Lib.Decimal Lib.Reader Lib.Utf8
open Zumic.Zsp.Checked (Kind Limits Allocator CheckedFrames CheckedDecoder)

mutual

/-- How many arrays, dictionaries, sets and pushes stand inside one another in a frame. -/
def nesting : ZspFrame → Nat
  | .array items => nestingItems items + 1
  | .dictionary items => nestingEntries items + 1
  | .set members => nestingItems members + 1
  | .push items => nestingItems items + 1
  | _ => 0

def nestingItems : List ZspFrame → Nat
  | [] => 0
  | f :: l => max (nesting f) (nestingItems l)

def nestingEntries : List (Str × ZspFrame) → Nat
  | [] => 0
  | (_, v) :: l => max (nesting v) (nestingEntries l)

end

theorem nestingItems_le {l : List ZspFrame} {n : Nat} :
    nestingItems l ≤ n ↔ ∀ f ∈ l, nesting f ≤ n := by
  induction l with
  | nil => simp [nestingItems]
  | cons f l ih => simp [nestingItems, ih]

theorem nestingEntries_le {l : List (Str × ZspFrame)} {n : Nat} :
    nestingEntries l ≤ n ↔ ∀ e ∈ l, nesting e.2 ≤ n := by
  induction l with
  | nil => simp [nestingEntries]
  | cons e l ih =>
      obtain ⟨k, v⟩ := e
      simp [nestingEntries, ih]

/-- The refusal of a frame for its depth. -/
def depthRefusal : ZspEncodeError := .invalidData (Str.lit "Max array depth exceed (32)")

theorem validateSimpleString_ne (s : Str) :
    validateSimpleString s ≠ .error depthRefusal := by
  unfold validateSimpleString depthRefusal
  split
  · intro same
    exact absurd (Except.error.inj same) (by decide +kernel)
  · simp

theorem validateErrorString_ne (s : Str) :
    validateErrorString s ≠ .error depthRefusal := by
  unfold validateErrorString depthRefusal
  split
  · intro same
    exact absurd (Except.error.inj same) (by decide +kernel)
  · simp

theorem tooLong_ne (n : Nat) :
    ZspEncodeError.invalidData (Str.lit "Binary string too long (" ++ Str.ofNat n
      ++ Str.lit " > " ++ Str.ofNat maxBinaryLength ++ Str.lit ")") ≠ depthRefusal := by
  intro same
  have texts := ZspEncodeError.invalidData.inj same
  have heads := congrArg (fun s : Str => s.bytes.head?) texts
  have first : (Str.lit "Binary string too long (").bytes.head? = some 66 := by decide +kernel
  have second : (Str.lit "Max array depth exceed (32)").bytes.head? = some 77 := by decide +kernel
  simp only [Str.bytes_append, List.append_assoc, List.head?_append, first, second] at heads
  cases heads

theorem bind_ne {α β : Type} {x : Except ZspEncodeError α} {f : α → Except ZspEncodeError β}
    (first : x ≠ .error depthRefusal) (second : ∀ a, f a ≠ .error depthRefusal) :
    (x >>= f) ≠ .error depthRefusal := by
  cases x with
  | error e =>
      intro same
      exact first (congrArg _ (Except.error.inj same))
  | ok a => exact second a

theorem encodeItems_ne {items : List ZspFrame} {depth : Nat}
    (each : ∀ f ∈ items, encodeFrame f depth ≠ .error depthRefusal) :
    encodeItems items depth ≠ .error depthRefusal := by
  induction items with
  | nil => simp [encodeItems, pure, Except.pure]
  | cons f l ih =>
      rw [encodeItems]
      refine bind_ne (each f (by simp)) fun head => bind_ne (ih fun g member => ?_) fun tail => ?_
      · exact each g (List.mem_cons_of_mem _ member)
      · simp [pure, Except.pure]

theorem encodeEntries_ne {items : List (Str × ZspFrame)} {depth : Nat}
    (each : ∀ e ∈ items, encodeFrame e.2 depth ≠ .error depthRefusal) :
    encodeEntries items depth ≠ .error depthRefusal := by
  induction items with
  | nil => simp [encodeEntries, pure, Except.pure]
  | cons e l ih =>
      obtain ⟨k, v⟩ := e
      rw [encodeEntries]
      refine bind_ne (each (k, v) (by simp)) fun head =>
        bind_ne (ih fun g member => ?_) fun tail => ?_
      · exact each g (List.mem_cons_of_mem _ member)
      · simp [pure, Except.pure]

theorem encodeItems_shallow {items : List ZspFrame} {depth : Nat}
    (each : ∀ f ∈ items, ∀ d, nesting f + d ≤ maxArrayDepth → encodeFrame f d ≠ .error depthRefusal)
    (shallow : nestingItems items + 1 + depth ≤ maxArrayDepth) :
    encodeItems items (depth + 1) ≠ .error depthRefusal := by
  refine encodeItems_ne fun f member => each f member (depth + 1) ?_
  have bound := nestingItems_le.mp (le_refl _) f member
  omega

theorem encodeFrame_ne {f : ZspFrame} {depth : Nat} (shallow : nesting f + depth ≤ maxArrayDepth) :
    encodeFrame f depth ≠ .error depthRefusal := by
  have entered : ¬ maxArrayDepth < depth := by omega
  have done : ∀ b : Bytes, (pure b : Except ZspEncodeError Bytes) ≠ .error depthRefusal :=
    fun b => by simp [pure, Except.pure]
  induction f using ZspFrame.induct generalizing depth with
  | inlineString s =>
      rw [encodeFrame, if_neg entered]
      exact bind_ne (validateSimpleString_ne s) fun _ => done _
  | frameError s =>
      rw [encodeFrame, if_neg entered]
      exact bind_ne (validateErrorString_ne s) fun _ => done _
  | integer i =>
      rw [encodeFrame, if_neg entered]
      exact done _
  | float f =>
      rw [encodeFrame, if_neg entered]
      exact done _
  | bool b =>
      rw [encodeFrame, if_neg entered]
      exact done _
  | binaryString b =>
      cases b with
      | none =>
          rw [encodeFrame, if_neg entered]
          exact done _
      | some b =>
          rw [encodeFrame, if_neg entered]
          split
          · exact fun same => tooLong_ne b.length (Except.error.inj same)
          · exact done _
  | array items ih =>
      rw [nesting] at shallow
      rw [encodeFrame, if_neg entered]
      refine bind_ne (encodeItems_shallow (fun f member d low => ?_) shallow) fun _ => done _
      exact ih f member low (by omega)
  | dictionary items ih =>
      rw [nesting] at shallow
      rw [encodeFrame, if_neg entered]
      refine bind_ne (encodeEntries_ne fun e member => ?_) fun _ => done _
      have bound := nestingEntries_le.mp (le_refl _) e member
      exact ih e member (by omega) (by omega)
  | set members ih =>
      rw [nesting] at shallow
      rw [encodeFrame, if_neg entered]
      refine bind_ne (encodeItems_shallow (fun f member d low => ?_) shallow) fun _ => done _
      exact ih f member low (by omega)
  | push items ih =>
      rw [nesting] at shallow
      rw [encodeFrame, if_neg entered]
      refine bind_ne (encodeItems_shallow (fun f member d low => ?_) shallow) fun _ => done _
      exact ih f member low (by omega)
  | zset entries =>
      rw [encodeFrame, if_neg entered]
      exact done _
  | null =>
      rw [encodeFrame, if_neg entered]
      exact done _

/-- Whether a container counts as a level of nesting. -/
def Checked.Kind.nests : Kind → Bool
  | .zset => false
  | _ => true

/-- No more containers inside one another than a frame may have, a sorted set and one frame in
it. -/
def byDepth : Limits where
  calls n := decide (n ≤ maxArrayDepth + 2)
  enters inside := decide (inside.countP Kind.nests ≤ maxArrayDepth)
  elements _ _ := true

/-- The levels that are left inside the containers. -/
def levelsLeft (inside : List Kind) : Nat := maxArrayDepth - inside.countP Kind.nests

/-- What a container holds nests one level less than the container may. -/
def Held (room : Nat) : ZspDecodeState → Prop
  | .partialArray _ items _ => ∀ f ∈ items, nesting f + 1 ≤ room
  | .partialDictionary _ items _ _ => ∀ e ∈ items, nesting e.2 + 1 ≤ room
  | .partialSet _ items _ => ∀ f ∈ items, nesting f + 1 ≤ room
  | .partialPush _ items _ => ∀ f ∈ items, nesting f + 1 ≤ room
  | _ => True

/-- An answer that nests no deeper than there is room for. -/
def Within (room : Nat) (r : Decoded) : Prop :=
  (∀ f, r.1 = some f → nesting f ≤ room) ∧ Held room r.2

theorem within_some {room : Nat} {f : ZspFrame} (shallow : nesting f ≤ room) :
    Within room (some f, .initial) := by
  refine ⟨fun g same => ?_, trivial⟩
  obtain rfl := Option.some.inj same
  exact shallow

theorem within_none {room : Nat} {state : ZspDecodeState} (held : Held room state) :
    Within room (none, state) :=
  ⟨fun g same => absurd same (by simp), held⟩

section

/-- A container whose items nest at most `inner` levels deep, where `room` are left. -/
structure ItemsWithin (inner room : Nat) (c : Container) : Prop where
  added : ∀ items f x, x ∈ c.add items f → x ∈ items ∨ x = f
  build : ∀ items, (∀ f ∈ items, nesting f ≤ inner) → nesting (c.build items) ≤ room
  hold : ∀ len items remaining, (∀ f ∈ items, nesting f ≤ inner) →
    Held room (c.hold len items remaining)

/-- A container whose values satisfy `Ok` when they come from frames that nest `inner` levels. -/
structure PairsWithin {α : Type} (inner room : Nat) (c : PairContainer α) (Ok : α → Prop) :
    Prop where
  value : ∀ f v, nesting f ≤ inner → c.value f = .ok v → Ok v
  added : ∀ items k v x, x ∈ c.add items k v → x ∈ items ∨ x.2 = v
  build : ∀ items, (∀ e ∈ items, Ok e.2) → nesting (c.build items) ≤ room
  hold : ∀ len items remaining pending, (∀ e ∈ items, Ok e.2) →
    Held room (c.hold len items remaining pending)

/-- A decoder that gives frames of at most `inner` levels, each with the initial state. -/
structure Gives (inner : Nat) (g : ZspDecodeState → CheckedFrames Decoded) : Prop where
  within : Yields (Within inner) (g .initial)
  settles : Yields (fun r => r.1.isSome = true → r.2 = .initial) (g .initial)

variable {inner room : Nat} {g : ZspDecodeState → CheckedFrames Decoded}

theorem yields_itemsLoop (gives : Gives inner g) {c : Container}
    (of : ItemsWithin inner room c) (remaining : Nat) {items : List ZspFrame}
    (bounded : ∀ f ∈ items, nesting f ≤ inner) :
    Yields (fun r => (∀ f ∈ r.1, nesting f ≤ inner) ∧ (r.2.1 = 0 → r.2.2 = .initial))
      (Checked.itemsLoop g c.add remaining items .initial) := by
  induction remaining generalizing items with
  | zero => exact yields_pure ⟨bounded, fun _ => rfl⟩
  | succ remaining ih =>
      intro s r rest run
      rw [Checked.itemsLoop] at run
      obtain ⟨⟨out, state⟩, middle, first, later⟩ := bind_eq_ok run
      have shallow := gives.within s _ middle first
      have settled := gives.settles s _ middle first
      cases out with
      | none =>
          obtain ⟨rfl, -⟩ := Prod.mk.inj (Except.ok.inj later)
          exact ⟨bounded, fun zero => by cases zero⟩
      | some f =>
          obtain rfl : state = .initial := settled rfl
          refine ih (fun x member => ?_) middle r rest later
          rcases of.added items f x member with old | rfl
          · exact bounded x old
          · exact shallow.1 x rfl

theorem yields_continueItems (gives : Gives inner g) {c : Container}
    (of : ItemsWithin inner room c) (len : Nat) {items : List ZspFrame} (remaining : Nat)
    (bounded : ∀ f ∈ items, nesting f ≤ inner) :
    Yields (Within room) (Checked.continueItems g c len items remaining .initial) := by
  intro s r rest run
  rw [Checked.continueItems] at run
  obtain ⟨⟨items', remaining', state⟩, middle, first, later⟩ := bind_eq_ok run
  obtain ⟨bounded', settled⟩ := yields_itemsLoop gives of remaining bounded s _ middle first
  cases remaining' with
  | zero =>
      obtain rfl : state = .initial := settled rfl
      obtain ⟨rfl, -⟩ := Prod.mk.inj (Except.ok.inj later)
      exact within_some (of.build items' bounded')
  | succ n =>
      obtain ⟨rfl, -⟩ := Prod.mk.inj (Except.ok.inj later)
      exact within_none (of.hold len items' _ bounded')

variable {α : Type} {c : PairContainer α} {Ok : α → Prop}

theorem yields_nextName (gives : Gives inner g) (pending : Option Str) :
    Yields (fun r => r.1.isSome = true → r.2 = .initial)
      (Checked.nextName g c pending .initial) := by
  cases pending with
  | some name => exact yields_pure fun _ => rfl
  | none =>
      intro s r rest run
      rw [Checked.nextName] at run
      obtain ⟨⟨out, state⟩, middle, first, later⟩ := bind_eq_ok run
      have settled := gives.settles s _ middle first
      cases out with
      | none =>
          obtain ⟨rfl, -⟩ := Prod.mk.inj (Except.ok.inj later)
          exact fun some' => by cases some'
      | some f =>
          obtain ⟨name, last, -, made⟩ := bind_eq_ok later
          obtain ⟨rfl, -⟩ := Prod.mk.inj (Except.ok.inj made)
          exact fun _ => settled rfl

theorem yields_pairsLoop (gives : Gives inner g) (of : PairsWithin inner room c Ok)
    (remaining : Nat) {items : List (Str × α)} (pending : Option Str)
    (bounded : ∀ e ∈ items, Ok e.2) :
    Yields (fun r => (∀ e ∈ r.1, Ok e.2) ∧ (r.2.1 = 0 → r.2.2.2 = .initial))
      (Checked.pairsLoop g c remaining items pending .initial) := by
  induction remaining generalizing items pending with
  | zero => exact yields_pure ⟨bounded, fun _ => rfl⟩
  | succ remaining ih =>
      intro s r rest run
      rw [Checked.pairsLoop] at run
      obtain ⟨⟨name, state⟩, middle, first, later⟩ := bind_eq_ok run
      have settled := yields_nextName gives pending s _ middle first
      cases name with
      | none =>
          obtain ⟨rfl, -⟩ := Prod.mk.inj (Except.ok.inj later)
          exact ⟨bounded, fun zero => by cases zero⟩
      | some name =>
          obtain rfl : state = .initial := settled rfl
          obtain ⟨⟨out, state⟩, middle', second, later'⟩ := bind_eq_ok later
          have shallow := gives.within middle _ middle' second
          have settled' := gives.settles middle _ middle' second
          cases out with
          | none =>
              obtain ⟨rfl, -⟩ := Prod.mk.inj (Except.ok.inj later')
              exact ⟨bounded, fun zero => by cases zero⟩
          | some f =>
              obtain rfl : state = .initial := settled' rfl
              obtain ⟨v, last, taken, others⟩ := bind_eq_ok later'
              have value : c.value f = .ok v := ofExcept_eq_ok ((follows_lift _).ok _ _ taken)
              refine ih none (fun x member => ?_) last r rest others
              rcases of.added items name v x member with old | new
              · exact bounded x old
              · rw [new]
                exact of.value f v (shallow.1 f rfl) value

theorem yields_continuePairs (gives : Gives inner g) (of : PairsWithin inner room c Ok)
    (len : Nat) {items : List (Str × α)} (remaining : Nat) (pending : Option Str)
    (bounded : ∀ e ∈ items, Ok e.2) :
    Yields (Within room) (Checked.continuePairs g c len items remaining pending .initial) := by
  intro s r rest run
  rw [Checked.continuePairs] at run
  obtain ⟨⟨items', remaining', pending', state⟩, middle, first, later⟩ := bind_eq_ok run
  obtain ⟨bounded', settled⟩ := yields_pairsLoop gives of remaining pending bounded s _ middle first
  cases remaining' with
  | zero =>
      obtain rfl : state = .initial := settled rfl
      obtain ⟨rfl, -⟩ := Prod.mk.inj (Except.ok.inj later)
      exact within_some (of.build items' bounded')
  | succ n =>
      obtain ⟨rfl, -⟩ := Prod.mk.inj (Except.ok.inj later)
      exact within_none (of.hold len items' _ pending' bounded')

variable (less : inner + 1 ≤ room)

include less

theorem itemsWithin_of {c : Container}
    (added : ∀ items f x, x ∈ c.add items f → x ∈ items ∨ x = f)
    (build : ∀ items, nesting (c.build items) = nestingItems items + 1)
    (hold : ∀ len items remaining, (∀ f ∈ items, nesting f + 1 ≤ room) →
      Held room (c.hold len items remaining)) : ItemsWithin inner room c where
  added := added
  build items bounded := by
    have := nestingItems_le.mpr bounded
    rw [build]
    omega
  hold len items remaining bounded := by
    refine hold len items remaining fun f member => ?_
    have := bounded f member
    omega

theorem itemsWithin_array : ItemsWithin inner room arrayContainer :=
  itemsWithin_of less (fun items f x member => by simpa [arrayContainer] using member)
    (fun items => by rw [arrayContainer, nesting]) fun _ _ _ held => held

theorem itemsWithin_push : ItemsWithin inner room pushContainer :=
  itemsWithin_of less (fun items f x member => by simpa [pushContainer] using member)
    (fun items => by rw [pushContainer, nesting]) fun _ _ _ held => held

theorem itemsWithin_set : ItemsWithin inner room setContainer := by
  refine itemsWithin_of less (fun items f x member => ?_)
    (fun items => by rw [setContainer, nesting]) fun _ _ _ held => held
  simp only [setContainer, ZspFrame.hashSetInsert] at member
  split at member
  · exact .inl member
  · simpa using member

theorem pairsWithin_dictionary :
    PairsWithin inner room dictionaryContainer fun v => nesting v ≤ inner where
  value f v shallow made := by
    obtain rfl : f = v := Except.ok.inj made
    exact shallow
  added items k v x member := by
    rcases Assoc.mem_insert member with new | old
    · exact .inr (congrArg Prod.snd new)
    · exact .inl old
  build items bounded := by
    have := nestingEntries_le.mpr bounded
    rw [dictionaryContainer, nesting]
    omega
  hold len items remaining pending bounded e member := by
    have := bounded e member
    omega

omit less

theorem pairsWithin_zset (inner room : Nat) :
    PairsWithin inner room zsetContainer fun _ => True where
  value _ _ _ _ := trivial
  added items k v x member := by
    rcases List.mem_append.mp member with old | new
    · exact .inl old
    · rw [List.mem_singleton.mp new]
      exact .inr rfl
  build items _ := by
    have flat : nesting (.zset items) = 0 := by simp [nesting]
    exact flat.trans_le (Nat.zero_le _)
  hold _ _ _ _ _ := trivial

end

section

open Scan

theorem within_scalar {room : Nat} {r : Decoded} (answer : ScalarAnswer r) :
    Within room r := by
  obtain ⟨_ | f, state⟩ := r
  · obtain ⟨-, len, data, rfl⟩ := answer
    exact within_none trivial
  · obtain ⟨scalar, rfl⟩ := answer
    apply within_some
    cases f <;> first | exact Nat.zero_le _ | cases scalar

variable {alloc : Allocator} {g : CheckedDecoder}

theorem levelsLeft_cons {kind : Kind} {inside : List Kind} (nests : kind.nests = true)
    (entered : byDepth.enters (kind :: inside) = true) :
    levelsLeft (kind :: inside) + 1 ≤ levelsLeft inside := by
  have within : (kind :: inside).countP Kind.nests ≤ maxArrayDepth := of_decide_eq_true entered
  rw [List.countP_cons_of_pos nests] at within
  rw [levelsLeft, levelsLeft, List.countP_cons_of_pos nests]
  omega

theorem yields_reserved {P : Decoded → Prop} {q : CheckedFrames Decoded} (n : Nat)
    (yields : Yields P q) : Yields P (Checked.reserveElements byDepth n >>= fun _ => q) :=
  yields_bind fun _ => yields

theorem yields_empty {room : Nat} {f : ZspFrame} (shallow : nesting f ≤ room) :
    Yields (Within room) (pure (some f, .initial) : CheckedFrames Decoded) :=
  yields_pure (within_some shallow)

/-- What a decoder gives inside any containers. -/
private abbrev GivesInside (g : CheckedDecoder) : Prop :=
  ∀ inside, Gives (levelsLeft inside) (g inside)

theorem yields_parseArray (gives : GivesInside g) (inside : List Kind) :
    Yields (Within (levelsLeft inside)) (Checked.parseArray byDepth g inside 0) := by
  refine yields_check _ fun entered => ?_
  have less := levelsLeft_cons rfl entered
  refine yields_ite (yields_throw _) (yields_bind fun len => yields_ite (yields_empty ?_) ?_)
  · simp only [nesting, nestingItems]
    omega
  · refine yields_ite (yields_reserved _ ?_) (yields_throw _)
    exact yields_continueItems (gives _) (itemsWithin_array less) _ _ (by simp)

theorem yields_parseCounted (gives : GivesInside g) {kind : Kind} {c : Container}
    (nests : kind.nests = true)
    (of : ∀ inner room, inner + 1 ≤ room → ItemsWithin inner room c) (invalid negative : String)
    (inside : List Kind) :
    Yields (Within (levelsLeft inside))
      (Checked.parseCounted byDepth g kind c invalid negative inside) := by
  refine yields_check _ fun entered => ?_
  have within := of _ _ (levelsLeft_cons nests entered)
  refine yields_bind fun len => yields_ite (yields_empty (within.build [] (by simp))) ?_
  refine yields_ite (yields_reserved _ ?_) (yields_throw _)
  exact yields_continueItems (gives _) within _ _ (by simp)

theorem yields_parseDictionary (gives : GivesInside g) (inside : List Kind) :
    Yields (Within (levelsLeft inside)) (Checked.parseDictionary byDepth g inside) := by
  refine yields_check _ fun entered => ?_
  have within := pairsWithin_dictionary (levelsLeft_cons rfl entered)
  refine yields_bind fun len => yields_ite (yields_empty (within.build [] (by simp))) ?_
  refine yields_ite (yields_reserved _ ?_) (yields_throw _)
  exact yields_continuePairs (gives _) within _ _ _ (by simp)

theorem yields_parseZSet (gives : GivesInside g) (inside : List Kind) :
    Yields (Within (levelsLeft inside)) (Checked.parseZSet byDepth g inside) := by
  refine yields_check _ fun _ => ?_
  have within := pairsWithin_zset (levelsLeft (.zset :: inside)) (levelsLeft inside)
  refine yields_bind fun len => yields_ite (yields_empty (within.build [] (by simp))) ?_
  refine yields_ite (yields_reserved _ ?_) (yields_throw _)
  exact yields_continuePairs (gives _) within _ _ _ (by simp)

theorem yields_parseFrame (gives : GivesInside g) (inside : List Kind) (b : UInt8) :
    Yields (Within (levelsLeft inside)) (Checked.parseFrame byDepth alloc g inside b) := by
  cases marker : Kind.ofMarker b with
  | none =>
      rw [parseFrame_eq_lift marker]
      exact yields_lift fun s r rest run => within_scalar (yields_parseScalar b s r rest run)
  | some kind =>
      rcases ofMarker_eq_some marker with ⟨rfl, -⟩ | ⟨rfl, -⟩ | ⟨rfl, -⟩ | ⟨rfl, -⟩ | ⟨rfl, -⟩
      · exact yields_parseArray gives inside
      · exact yields_parseDictionary gives inside
      · exact yields_parseCounted gives rfl (fun _ _ => itemsWithin_set) _ _ inside
      · exact yields_parseCounted gives rfl (fun _ _ => itemsWithin_push) _ _ inside
      · exact yields_parseZSet gives inside

theorem yields_initialDecode (gives : GivesInside g) (inside : List Kind) :
    Yields (Within (levelsLeft inside)) (Checked.initialDecode byDepth alloc g inside) := by
  intro s r rest run
  cases s with
  | nil =>
      obtain ⟨rfl, -⟩ := Prod.mk.inj (Except.ok.inj run)
      exact within_none trivial
  | cons b s =>
      rw [Checked.initialDecode_cons] at run
      exact yields_parseFrame gives inside b s r rest run

theorem gives_decodeWithin (fuel : Nat) :
    GivesInside (Checked.decodeWithin byDepth alloc fuel) := by
  induction fuel with
  | zero =>
      intro inside
      exact ⟨yields_pure (within_none trivial), yields_pure fun some' => by cases some'⟩
  | succ fuel ih =>
      intro inside
      constructor
      · exact yields_check _ fun _ => yields_initialDecode ih inside
      · intro s r rest run
        exact (Checked.settles_checked run).2

theorem yields_decodeStep (gives : GivesInside g) {state : ZspDecodeState}
    (held : Held maxArrayDepth state) :
    Yields (Within maxArrayDepth) (Checked.decodeStep byDepth alloc g [] state) := by
  have less : ∀ kind : Kind, kind.nests = true → levelsLeft [kind] + 1 ≤ maxArrayDepth := by
    intro kind nests
    rw [levelsLeft, List.countP_cons_of_pos nests]
    simp [maxArrayDepth]
  have bounded : ∀ kind : Kind, kind.nests = true → ∀ n, n + 1 ≤ maxArrayDepth →
      n ≤ levelsLeft [kind] := by
    intro kind nests n small
    rw [levelsLeft, List.countP_cons_of_pos nests, List.countP_nil]
    omega
  refine yields_check _ fun _ => ?_
  cases state with
  | initial => exact yields_initialDecode gives []
  | partialBinaryString len data =>
      refine yields_bind fun remaining => yields_bind fun slice => yields_bind fun _ => ?_
      refine yields_bind fun toCopy => yields_bind fun _ => yields_bind fun _ => ?_
      refine yields_ite (yields_bind fun _ => yields_empty (by simp [nesting])) ?_
      exact yields_pure (within_none trivial)
  | partialArray len items remaining =>
      refine yields_continueItems (gives _) (itemsWithin_array (less .array rfl)) _ _ ?_
      exact fun f member => bounded .array rfl _ (held f member)
  | partialDictionary len items remaining pending =>
      refine yields_continuePairs (gives _) (pairsWithin_dictionary (less .dictionary rfl)) _ _ _ ?_
      exact fun e member => bounded .dictionary rfl _ (held e member)
  | partialSet len items remaining =>
      refine yields_continueItems (gives _) (itemsWithin_set (less .set rfl)) _ _ ?_
      exact fun f member => bounded .set rfl _ (held f member)
  | partialPush len items remaining =>
      refine yields_continueItems (gives _) (itemsWithin_push (less .push rfl)) _ _ ?_
      exact fun f member => bounded .push rfl _ (held f member)
  | partialZSet len items pending remaining =>
      exact yields_continuePairs (gives _) (pairsWithin_zset _ _) _ _ _ fun _ _ => trivial

theorem within_decode {state : ZspDecodeState} (held : Held maxArrayDepth state)
    (fits : Fits state) {s : Bytes} (scanned : scanFrom byDepth state s = true) {r : Decoded}
    {rest : Bytes} (run : decode state s = .ok (r, rest)) : Within maxArrayDepth r := by
  have alloc : Allocator := ⟨id, fun _ => le_refl _⟩
  have follows : Follows (Checked.decode byDepth alloc state) _ := Checked.follows_decode state
  have passed : ∀ trap, Checked.decode byDepth alloc state s ≠ .error (.inl trap) :=
    (scanFrom_iff fits s).mpr scanned
  have checked : Checked.decode byDepth alloc state s = .ok (r, rest) := by
    rw [follows.eq_lift passed, lift, run]
    rfl
  exact yields_decodeStep (gives_decodeWithin (s.length + 1)) held s r rest checked

end

section

open Runs
open Scan

/-- A call in which the frames nest as the protocol allows: the decoder is called inside itself no
more often than for its levels, a sorted set and a frame in it, no deeper frame is begun or given,
and the encoder does not refuse what is given for its depth. -/
structure WellNested (state : ZspDecodeState) (s : Bytes) : Prop where
  calls : ∀ (alloc : Allocator) (trap : Checked.Trap),
    Checked.decode byDepth alloc state s ≠ .error (.inl trap)
  frame : ∀ f state' rest, decode state s = .ok ((some f, state'), rest) →
    nesting f ≤ maxArrayDepth
  encodes : ∀ f state' rest, decode state s = .ok ((some f, state'), rest) →
    encode f ≠ .error depthRefusal

/-- A call of a decoder, as a step of a run. -/
def call (state : ZspDecodeState) (s : Bytes) : Option ZspDecodeState := some (next state s)

/-- No container that counts begins inside as many as the protocol allows, and no frame begins
inside two more than that. -/
def Shallow (state : ZspDecodeState) (s : Bytes) : Prop := scanFrom byDepth state s = true

instance (state : ZspDecodeState) (s : Bytes) : Decidable (Shallow state s) :=
  inferInstanceAs (Decidable (_ = true))

/-- What a decoder keeps between well nested calls. -/
private def Kept (state : ZspDecodeState) : Prop := Held maxArrayDepth state ∧ Fits state

theorem kept_next {state : ZspDecodeState} {s : Bytes} (kept : Kept state)
    (shallow : Shallow state s) : Kept (next state s) := by
  refine ⟨?_, fits_next state s⟩
  rw [next]
  cases run : decode state s with
  | error e => trivial
  | ok r =>
      obtain ⟨⟨out, state'⟩, rest⟩ := r
      exact (within_decode kept.1 kept.2 shallow run).2

theorem shallow_iff {state : ZspDecodeState} {s : Bytes} (kept : Kept state) :
    Shallow state s ↔ WellNested state s := by
  constructor
  · intro shallow
    have frame : ∀ f state' rest, decode state s = .ok ((some f, state'), rest) →
        nesting f ≤ maxArrayDepth :=
      fun f state' rest run => (within_decode kept.1 kept.2 shallow run).1 f rfl
    refine ⟨fun alloc => (scanFrom_iff kept.2 s).mpr shallow, frame, fun f state' rest run => ?_⟩
    exact encodeFrame_ne (frame f state' rest run)
  · intro nested
    exact (scanFrom_iff kept.2 s).mp (nested.calls ⟨id, fun _ => le_refl _⟩)

/-- Over any run of a fresh decoder, the calls are well nested exactly if their inputs are. -/
theorem wellNested_iff (calls : List Bytes) :
    Along call WellNested .initial calls ↔ Along call Shallow .initial calls := by
  have keeps : ∀ state s state', Kept state → Shallow state s → call state s = some state' →
      Kept state' := by
    intro state s state' kept shallow stepped
    obtain rfl : next state s = state' := Option.some.inj stepped
    exact kept_next kept shallow
  have start : Kept .initial := ⟨trivial, trivial⟩
  exact (along_congr_of_kept keeps (fun _ _ kept => shallow_iff kept) start).symm

end

section

open Runs

/-- So many arrays inside one another around a null. -/
def tower : Nat → ZspFrame
  | 0 => .null
  | n + 1 => .array [tower n]

theorem nesting_tower (n : Nat) : nesting (tower n) = n := by
  induction n with
  | zero => simp [tower, nesting]
  | succ n ih => simp [tower, nesting, nestingItems, ih]

theorem deliverable_tower (n : Nat) : Deliverable (tower n) := by
  induction n with
  | zero => exact ⟨by decide +kernel, by decide +kernel, by decide +kernel⟩
  | succ n ih =>
      refine Deliverable.array (by simp) fun f member => ?_
      rw [List.mem_singleton.mp member]
      exact ih

theorem decode_tower (n : Nat) :
    decode .initial (wire (tower n)) = .ok ((some (tower n), .initial), []) := by
  have read := decode_wire (deliverable_tower n) []
  rw [List.append_nil] at read
  exact read

theorem wire_tower (n : Nat) :
    wire (tower n) =
      (List.replicate n (bytesOf "*1\x0d\x0a")).flatten ++ bytesOf "_\x0d\x0a" := by
  induction n with
  | zero => rfl
  | succ n ih =>
      have head : line 42 (renderNat [tower n].length) = bytesOf "*1\x0d\x0a" := by
        rw [List.length_singleton]
        decide +kernel
      rw [tower, wire, head, wireItems, wireItems, List.append_nil, ih, List.replicate_succ,
        List.flatten_cons, List.append_assoc]

theorem encodeFrame_tower (n depth : Nat) (high : maxArrayDepth < n + depth) :
    encodeFrame (tower n) depth = .error depthRefusal := by
  by_cases entered : maxArrayDepth < depth
  · rw [encodeFrame.eq_def, if_pos entered]
    rfl
  · induction n generalizing depth with
    | zero => exact absurd high (by omega)
    | succ n ih =>
        have inner : encodeFrame (tower n) (depth + 1) = .error depthRefusal := by
          by_cases last : maxArrayDepth < depth + 1
          · rw [encodeFrame.eq_def, if_pos last]
            rfl
          · exact ih (depth + 1) (by omega) last
        rw [tower, encodeFrame, if_neg entered, encodeItems, inner]
        rfl

/-- Thirty-three arrays inside one another are read without complaint, and cannot be written. -/
theorem not_wellNested_tower :
    let input := (List.replicate 33 (bytesOf "*1\x0d\x0a")).flatten ++ bytesOf "_\x0d\x0a"
    decode .initial input = .ok ((some (tower 33), .initial), []) ∧ nesting (tower 33) = 33 ∧
      encode (tower 33) = .error depthRefusal ∧ ¬ Along call WellNested .initial [input] := by
  intro input
  have read : decode .initial input = .ok ((some (tower 33), .initial), []) := by
    have whole := decode_tower 33
    rwa [wire_tower] at whole
  refine ⟨read, nesting_tower 33, encodeFrame_tower 33 0 (by decide), ?_⟩
  rintro ⟨nested, -⟩
  have shallow := nested.frame (tower 33) .initial [] read
  rw [nesting_tower] at shallow
  exact absurd shallow (by decide)

end

end Zumic.Zsp
