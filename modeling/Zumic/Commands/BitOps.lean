/- The operations on whole bitmaps (`bitmap.rs`): what a bit of the result is, in terms of the bits
that the source keys had. -/

import Zumic.Commands.Failures
import Zumic.Database.Bitmap

namespace Zumic.Commands

open Database.Bitmap Engine Lib Lib.ByteString Lib.Utf8

/-- `GETBIT`: what is no bitmap has no bit set. -/
def getBitCommand (offset : Nat) : KeyCommand := fun old =>
  let bit := match old.bind asBitmap with
    | some b => getBit b offset
    | none => false
  (.ok (.int (if bit then 1 else 0)), .keep)

theorem getD_zipWith (a b : Bytes) (i : Nat) :
    (List.zipWith (fun x y => x &&& y) a b).getD i 0 = a.getD i 0 &&& b.getD i 0 := by
  simp only [List.getD_eq_getElem?_getD, List.getElem?_zipWith]
  cases a[i]? with
  | none => simp
  | some x =>
      cases b[i]? with
      | none => simp
      | some y => rfl

theorem getD_bitZip {f : UInt8 → UInt8 → UInt8} (neutral : f 0 0 = 0) (a b : Bytes) (i : Nat) :
    (bitZip f a b).getD i 0 = f (a.getD i 0) (b.getD i 0) := by
  unfold bitZip
  rw [List.getD_eq_getElem?_getD, List.getElem?_map]
  by_cases inside : i < max a.length b.length
  · rw [List.getElem?_range inside]
    rfl
  · have first : a[i]? = none := List.getElem?_eq_none (by omega)
    have second : b[i]? = none := List.getElem?_eq_none (by omega)
    rw [List.getElem?_eq_none (by simpa using inside)]
    simp [List.getD_eq_getElem?_getD, first, second, neutral]

theorem getBit_bitAnd (a b : Bytes) (i : Nat) :
    getBit (bitAnd a b) i = (getBit a i && getBit b i) := by
  simp only [getBit_eq, bitAnd, getD_zipWith, bit_and]

theorem getBit_bitOr (a b : Bytes) (i : Nat) :
    getBit (bitOr a b) i = (getBit a i || getBit b i) := by
  simp only [getBit_eq, bitOr, getD_bitZip (f := fun x y => x ||| y) rfl, bit_or]

theorem getBit_bitXor (a b : Bytes) (i : Nat) :
    getBit (bitXor a b) i = (getBit a i ^^ getBit b i) := by
  simp only [getBit_eq, bitXor, getD_bitZip (f := fun x y => x ^^^ y) rfl, bit_xor]

theorem getBit_bitNot (a : Bytes) (i : Nat) :
    getBit (bitNot a) i = (decide (i < bitLen a) && !getBit a i) := by
  simp only [getBit_eq, bitNot, bitLen, List.getD_eq_getElem?_getD, List.getElem?_map]
  by_cases inside : i / 8 < a.length
  · have below : i < a.length * 8 := by omega
    rw [List.getElem?_eq_getElem inside]
    simp [bit_not, below]
  · have above : ¬ i < a.length * 8 := by omega
    rw [List.getElem?_eq_none (by omega)]
    simp [above]

@[simp] theorem getBit_nil (i : Nat) : getBit [] i = false := by
  simp [getBit_eq]

/-- What an operator does on single bits, the fold over a list of bitmaps does on each bit. -/
theorem getBit_foldl {op : Bytes → Bytes → Bytes} {f : Bool → Bool → Bool}
    (pointwise : ∀ a b i, getBit (op a b) i = f (getBit a i) (getBit b i)) (first : Bytes)
    (rest : List Bytes) (i : Nat) :
    getBit (rest.foldl op first) i = (rest.map fun b => getBit b i).foldl f (getBit first i) := by
  induction rest generalizing first with
  | nil => rfl
  | cons b rest ih =>
      rw [List.foldl_cons, ih, pointwise]
      rfl

/-- The operators on any number of source keys. -/
inductive Joined where
  | and
  | or
  | xor

def Joined.name : Joined → Str
  | .and => Str.lit "AND"
  | .or => Str.lit "OR"
  | .xor => Str.lit "XOR"

/-- What an operator makes of the bits that the source keys have at one index. -/
def Joined.over : Joined → List Bool → Bool
  | .and, bits => bits.all id
  | .or, bits => bits.any id
  | .xor, bits => bits.foldl (· ^^ ·) false

/-- The operator on two bits. -/
def Joined.on : Joined → Bool → Bool → Bool
  | .and => Bool.and
  | .or => Bool.or
  | .xor => Bool.xor

def Joined.onBytes : Joined → Bytes → Bytes → Bytes
  | .and => bitAnd
  | .or => bitOr
  | .xor => bitXor

theorem Joined.over_cons (op : Joined) (x : Bool) (bits : List Bool) :
    op.over (x :: bits) = bits.foldl op.on x := by
  cases op with
  | and =>
      change (x :: bits).all id = bits.foldl Bool.and x
      induction bits generalizing x with
      | nil => simp
      | cons y bits ih =>
          rw [List.foldl_cons, ← ih]
          simp [Bool.and_assoc]
  | or =>
      change (x :: bits).any id = bits.foldl Bool.or x
      induction bits generalizing x with
      | nil => simp
      | cons y bits ih =>
          rw [List.foldl_cons, ← ih]
          simp [Bool.or_assoc]
  | xor =>
      change (x :: bits).foldl (· ^^ ·) false = bits.foldl Bool.xor x
      rw [List.foldl_cons, Bool.false_xor]

theorem Joined.getBit_onBytes (op : Joined) (a b : Bytes) (i : Nat) :
    getBit (op.onBytes a b) i = op.on (getBit a i) (getBit b i) := by
  cases op with
  | and => exact getBit_bitAnd a b i
  | or => exact getBit_bitOr a b i
  | xor => exact getBit_bitXor a b i

theorem combine_name (op : Joined) (bitmaps : List Bytes) :
    combine op.name bitmaps = some (bitmaps.tail.foldl op.onBytes (bitmaps.headD [])) := by
  cases op with
  | and => rfl
  | or => rfl
  | xor => rfl

/-- Without a bitmap the result is empty, also for `AND`. -/
theorem getBit_joined (op : Joined) (bitmaps : List Bytes) (i : Nat) :
    getBit (bitmaps.tail.foldl op.onBytes (bitmaps.headD [])) i =
      (decide (bitmaps ≠ []) && op.over (bitmaps.map fun b => getBit b i)) := by
  cases bitmaps with
  | nil => simp
  | cons first rest =>
      rw [List.map_cons, op.over_cons]
      simpa using getBit_foldl op.getBit_onBytes first rest i

/-- A request with at least one source key. -/
inductive BitRequest where
  | join (op : Joined) (key : Str) (keys : List Str)
  | not (key : Str)

def BitRequest.keys : BitRequest → List Str
  | .join _ key keys => key :: keys
  | .not key => [key]

def BitRequest.name : BitRequest → Str
  | .join op _ _ => op.name
  | .not _ => Str.lit "NOT"

def BitRequest.command (dest : Str) (request : BitRequest) : Command :=
  .bitOp request.name dest request.keys

section

variable {γ : Type} (geo : GeoIndex γ) (s : InMemoryStore γ)

def bitmapAt (key : Str) : Option Bytes := (Assoc.get s.data key.bytes).bind asBitmap

/-- The bit that `GETBIT` answers. -/
def bitAt (key : Str) (i : Nat) : Bool :=
  match (onKey (InMemoryStore.storage geo) key (getBitCommand i) s).1 with
  | .ok (.int n) => n == 1
  | _ => false

def lengthAt (key : Str) : Nat := ((bitmapAt s key).map bitLen).getD 0

/-- The bit that the result of a request should have. -/
def wanted : BitRequest → Nat → Bool
  | .join op key keys, i => op.over ((key :: keys).map fun k => bitAt geo s k i)
  | .not key, i => decide (i < lengthAt s key) && !bitAt geo s key i

/-- The request succeeds, sets the bits of `dest` as it should, and leaves every other key. -/
def Pointwise (dest : Str) (request : BitRequest) : Prop :=
  ∃ value after, execute (InMemoryStore.storage geo) (request.command dest) s =
      (.ok value, after) ∧
    (∀ i, bitAt geo after dest i = wanted geo s request i) ∧
    ∀ key, key ≠ dest.bytes → Assoc.get after.data key = Assoc.get s.data key

/-- A request for `AND` has a source key without a bitmap, and the bitmaps that the others have, at
least one, have a bit in common. -/
def DropsAbsent : BitRequest → Prop
  | .join .and key keys =>
      (∃ k ∈ key :: keys, bitmapAt s k = none) ∧ (∃ k ∈ key :: keys, bitmapAt s k ≠ none) ∧
        ∃ i, ∀ k ∈ key :: keys, ∀ b, bitmapAt s k = some b → getBit b i = true
  | _ => False

variable {geo s}

theorem bitAt_eq (key : Str) (i : Nat) :
    bitAt geo s key i = ((bitmapAt s key).map fun b => getBit b i).getD false := by
  unfold bitAt bitmapAt
  rw [onKey_eq]
  unfold getBitCommand
  cases (Assoc.get s.data key.bytes).bind asBitmap with
  | none => rfl
  | some b =>
      change ((if getBit b i then (1 : Int64) else 0) == 1) = getBit b i
      cases getBit b i <;> rfl

/-- The bitmaps of the source keys, without the keys that have none. -/
def found (s : InMemoryStore γ) (keys : List Str) : List Bytes := keys.filterMap (bitmapAt s)

theorem bitOp_eq {op : Str} {keys : List Str} {result : Bytes} (dest : Str)
    (combined : combine op (found s keys) = some result) :
    execute (InMemoryStore.storage geo) (.bitOp op dest keys) s =
      (.ok (.int (asI64 (result.length * 8))),
        { s with data := Assoc.insert s.data dest.bytes (.bitmap result) }) := by
  unfold found at combined
  rw [List.filterMap_eq_flatMap_toList] at combined
  rw [execute, bitOp, bitmapsOf_eq]
  dsimp only
  unfold bitmapAt at combined
  rw [combined]
  rfl

theorem pointwise_iff {request : BitRequest} {result : Bytes} (dest : Str)
    (combined : combine request.name (found s request.keys) = some result) :
    Pointwise geo s dest request ↔ ∀ i, getBit result i = wanted geo s request i := by
  have ran := @bitOp_eq _ geo _ _ _ _ dest combined
  have written (i : Nat) : bitAt geo
      { s with data := Assoc.insert s.data dest.bytes (.bitmap result) } dest i =
        getBit result i := by
    rw [bitAt_eq]
    unfold bitmapAt
    dsimp only
    rw [Assoc.get_insert, if_pos rfl]
    rfl
  constructor
  · rintro ⟨value, after, ran', bits, -⟩ i
    have same := congrArg Prod.snd (ran.symm.trans ran')
    dsimp only at same
    rw [← bits i, ← same, written]
  · intro bits
    refine ⟨_, _, ran, ?_, ?_⟩
    · intro i
      rw [written, bits]
    · intro key other
      dsimp only
      rw [Assoc.get_insert, if_neg (Ne.symm other)]

theorem foldl_found {f : Bool → Bool → Bool} (neutral : ∀ x, f x false = x) (keys : List Str)
    (i : Nat) (x : Bool) :
    ((found s keys).map fun b => getBit b i).foldl f x =
      (keys.map fun k => bitAt geo s k i).foldl f x := by
  induction keys generalizing x with
  | nil => rfl
  | cons key keys ih =>
      rw [List.map_cons, List.foldl_cons, bitAt_eq]
      unfold found
      rw [List.filterMap_cons]
      cases bitmapAt s key with
      | none =>
          dsimp only
          rw [Option.map_none, Option.getD_none, neutral]
          exact ih x
      | some b => exact ih (f x (getBit b i))

theorem all_found_iff (keys : List Str) (i : Nat) :
    ((found s keys).map fun b => getBit b i).all id = true ↔
      ∀ k ∈ keys, ∀ b, bitmapAt s k = some b → getBit b i = true := by
  simp only [List.all_map, List.all_eq_true, found, List.mem_filterMap, Function.comp_apply, id_eq]
  constructor
  · intro all k member b read
    exact all b ⟨k, member, read⟩
  · rintro all b ⟨k, member, read⟩
    exact all k member b read

theorem all_bits_iff (keys : List Str) (i : Nat) :
    (keys.map fun k => bitAt geo s k i).all id = true ↔
      ∀ k ∈ keys, ∃ b, bitmapAt s k = some b ∧ getBit b i = true := by
  simp only [List.all_map, List.all_eq_true, Function.comp_apply, id_eq, bitAt_eq]
  refine forall₂_congr fun k _ => ?_
  cases bitmapAt s k <;> simp

theorem found_ne_nil_iff (keys : List Str) :
    found s keys ≠ [] ↔ ∃ k ∈ keys, bitmapAt s k ≠ none := by
  unfold found
  rw [Ne, List.filterMap_eq_nil_iff]
  push Not
  rfl

theorem joined_exact {op : Joined} (neutral : ∀ x, op.on x false = x)
    (folds : ∀ bits, op.over bits = bits.foldl op.on false) (keys : List Str) (i : Nat) :
    (decide (found s keys ≠ []) && op.over ((found s keys).map fun b => getBit b i)) =
      op.over (keys.map fun k => bitAt geo s k i) := by
  rw [folds, folds, ← foldl_found neutral]
  cases found s keys with
  | nil => rfl
  | cons b rest => simp

/-- `AND` gives one where every present bitmap has one, so it has to know that all are present. -/
theorem and_exact_iff (key : Str) (keys : List Str) (i : Nat) :
    (decide (found s (key :: keys) ≠ []) &&
          ((found s (key :: keys)).map fun b => getBit b i).all id) =
        ((key :: keys).map fun k => bitAt geo s k i).all id ↔
      ¬ ((∃ k ∈ key :: keys, bitmapAt s k = none) ∧ (∃ k ∈ key :: keys, bitmapAt s k ≠ none) ∧
        ∀ k ∈ key :: keys, ∀ b, bitmapAt s k = some b → getBit b i = true) := by
  rw [Bool.eq_iff_iff, Bool.and_eq_true, decide_eq_true_iff, found_ne_nil_iff, all_found_iff,
    all_bits_iff]
  constructor
  · rintro same ⟨⟨k, listed, absent⟩, present, shared⟩
    obtain ⟨b, read, -⟩ := same.mp ⟨present, shared⟩ k listed
    rw [absent] at read
    cases read
  · intro complete
    constructor
    · rintro ⟨present, shared⟩ k listed
      cases read : bitmapAt s k with
      | none => exact absurd ⟨⟨k, listed, read⟩, present, shared⟩ complete
      | some b => exact ⟨b, rfl, shared k listed b read⟩
    · intro all
      constructor
      · obtain ⟨b, read, -⟩ := all key List.mem_cons_self
        exact ⟨key, List.mem_cons_self, by simp [read]⟩
      · intro k listed b read
        obtain ⟨b', read', set⟩ := all k listed
        obtain rfl := Option.some.inj (read.symm.trans read')
        exact set

/-- `BITOP` is pointwise, but that an `AND` over a missing key takes it for all ones unless every
source key is missing. -/
theorem bitOp_pointwise_iff (geo : GeoIndex γ) (s : InMemoryStore γ) (dest : Str)
    (request : BitRequest) : Pointwise geo s dest request ↔ ¬ DropsAbsent s request := by
  cases request with
  | join op key keys =>
      have combined := combine_name op (found s (key :: keys))
      rw [@pointwise_iff γ geo s (.join op key keys) _ dest combined]
      simp only [getBit_joined, wanted]
      cases op with
      | and =>
          change (∀ i, (decide (found s (key :: keys) ≠ []) &&
            ((found s (key :: keys)).map fun b => getBit b i).all id) =
              ((key :: keys).map fun k => bitAt geo s k i).all id) ↔ _
          simp only [and_exact_iff, DropsAbsent]
          constructor
          · rintro complete ⟨absent, present, i, shared⟩
            exact complete i ⟨absent, present, shared⟩
          · rintro complete i ⟨absent, present, shared⟩
            exact complete ⟨absent, present, i, shared⟩
      | or =>
          have folds (bits : List Bool) : Joined.or.over bits = bits.foldl Joined.or.on false :=
            Joined.or.over_cons false bits
          have neutral (x : Bool) : Joined.or.on x false = x := Bool.or_false x
          exact ⟨fun _ => id, fun _ => joined_exact neutral folds (key :: keys)⟩
      | xor =>
          have neutral (x : Bool) : Joined.xor.on x false = x := Bool.xor_false x
          exact ⟨fun _ => id, fun _ => joined_exact neutral (fun _ => rfl) (key :: keys)⟩
  | not key =>
      have combined : combine (Str.lit "NOT") (found s [key]) =
          some (bitNot ((found s [key]).headD [])) := rfl
      rw [@pointwise_iff γ geo s (.not key) _ dest combined]
      refine ⟨fun _ => id, fun _ i => ?_⟩
      rw [getBit_bitNot]
      change _ = (decide (i < lengthAt s key) && !bitAt geo s key i)
      rw [bitAt_eq]
      unfold lengthAt found
      rw [List.filterMap_cons, List.filterMap_nil]
      cases bitmapAt s key with
      | none => rfl
      | some b => rfl

/-- An `AND` of a bitmap with a missing key. -/
theorem and_skips_missing : ¬ ∀ (s : InMemoryStore Unit) (dest : Str) (request : BitRequest),
    (∀ key ∈ request.keys, ∀ v, Assoc.get s.data key.bytes = some v → asBitmap v ≠ none) →
      Pointwise GeoIndex.empty s dest request := by
  intro pointwise
  let key : Str := Str.lit "a"
  let missing : Str := Str.lit "b"
  let s : InMemoryStore Unit := ⟨[(key.bytes, .bitmap [0x80])], (), fun _ => 0⟩
  have present : Assoc.get s.data key.bytes = some (.bitmap [0x80]) := rfl
  have absent : Assoc.get s.data missing.bytes = none := rfl
  have exact := pointwise s missing (.join .and key [missing]) ?_
  · refine (bitOp_pointwise_iff _ s missing _).mp exact ⟨?_, ?_, 0, ?_⟩
    · exact ⟨missing, by simp, by rw [bitmapAt, absent]; rfl⟩
    · exact ⟨key, by simp, by rw [bitmapAt, present]; simp [asBitmap]⟩
    · intro k listed b read
      unfold bitmapAt at read
      rcases List.mem_pair.mp listed with rfl | rfl
      · rw [present] at read
        obtain rfl := Option.some.inj read
        decide
      · rw [absent] at read
        cases read
  · intro k listed v read
    rcases List.mem_pair.mp listed with rfl | rfl
    · rw [present] at read
      obtain rfl := Option.some.inj read
      simp [asBitmap]
    · rw [absent] at read
      cases read

end

end Zumic.Commands
