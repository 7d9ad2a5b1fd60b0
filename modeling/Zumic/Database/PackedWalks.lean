/- How a walk over the entries of a list pack reads them: every length is decoded as it was encoded,
up to a byte that looks like the terminator. -/

import Mathlib.Data.List.Forall2
import Zumic.Database.ListPack

namespace Zumic.Database.ListPack

open Lib.Buffer Lib.ByteString Zdb

theorem length_varintBytes_pos (fuel value : Nat) : 0 < (varintBytes (fuel + 1) value).length := by
  rw [varintBytes]
  split
  · exact Nat.one_pos
  · exact Nat.succ_pos _

theorem or_shift {result shift group : Nat} (below : result < 2 ^ shift)
    (fits : group * 2 ^ shift < 2 ^ 64) :
    result ||| group <<< shift % 2 ^ 64 = result + group * 2 ^ shift := by
  have word : group <<< shift % 2 ^ 64 = group * 2 ^ shift := by
    rw [Nat.shiftLeft_eq]
    exact Nat.mod_eq_of_lt fits
  rw [word, Nat.or_comm, Nat.mul_comm, ← Nat.two_pow_add_eq_or_of_lt below, Nat.add_comm]

theorem decodeLoop_last {value shift result : Nat} (i : Nat) (rest : Bytes)
    (small : value < 128) (below : result < 2 ^ shift)
    (fits : result + value * 2 ^ shift < 2 ^ 64) :
    decodeLoop (UInt8.ofNat (value % 128) :: rest) i shift result =
      some (result + value * 2 ^ shift, i + 1) := by
  have same : value % 128 = value := Nat.mod_eq_of_lt small
  have byte : (UInt8.ofNat value).toNat = value := by
    rw [UInt8.toNat_ofNat']
    omega
  simp only [decodeLoop, byte, same, if_pos small]
  rw [or_shift below (by omega)]

theorem decodeLoop_varintBytes {fuel value shift result : Nat} (i : Nat) (rest : Bytes)
    (bits : value < 128 ^ (fuel + 1)) (below : result < 2 ^ shift)
    (fits : result + value * 2 ^ shift < 2 ^ 64) :
    decodeLoop (varintBytes (fuel + 1) value ++ rest) i shift result =
      some (result + value * 2 ^ shift, i + (varintBytes (fuel + 1) value).length) := by
  induction fuel generalizing value shift result i with
  | zero =>
      have small : value < 128 := by simpa using bits
      have last : value / 128 = 0 := by omega
      rw [varintBytes, if_pos last]
      exact decodeLoop_last i rest small below fits
  | succ fuel ih =>
      rw [varintBytes]
      by_cases last : value / 128 = 0
      · rw [if_pos last]
        exact decodeLoop_last i rest (by omega) below fits
      · have byte := toNat_continued value
        have payload : (value % 128 + 128) % 128 = value % 128 := by omega
        have more : ¬ value % 128 + 128 < 128 := by omega
        have split := sevenBits_split value shift
        have bits' : value / 128 < 128 ^ (fuel + 1) := by
          rw [Nat.pow_succ] at bits
          exact Nat.div_lt_of_lt_mul (by omega)
        have next : 2 ^ (shift + 7) = 2 ^ shift * 128 := by rw [Nat.pow_add]
        have below' : result + value % 128 * 2 ^ shift < 2 ^ (shift + 7) := by
          have group : value % 128 * 2 ^ shift ≤ 127 * 2 ^ shift :=
            Nat.mul_le_mul_right _ (by omega)
          omega
        have inside : ¬ 64 < shift + 7 := by
          intro beyond
          have high : 2 ^ 64 ≤ 2 ^ (shift + 7) := Nat.pow_le_pow_right (by decide) (by omega)
          have one : 1 * 2 ^ (shift + 7) ≤ value / 128 * 2 ^ (shift + 7) :=
            Nat.mul_le_mul_right _ (by omega)
          omega
        rw [if_neg last]
        simp only [List.cons_append, decodeLoop, byte, payload, if_neg more, if_neg inside]
        rw [or_shift below (by omega), ih _ bits' below' (by omega), split, Nat.add_assoc,
          List.length_cons]
        simp only [Option.some.injEq, Prod.mk.injEq, true_and]
        omega

theorem decodeVarint_encodeVarint {value : Nat} (short : value < 2 ^ 63) (rest : Bytes) :
    decodeVarint (encodeVarint value ++ rest) = some (value, (encodeVarint value).length) := by
  have bits : value < 128 ^ (9 + 1) := lt_trans short (by decide)
  have read := @decodeLoop_varintBytes 9 value 0 0 0 rest bits (by decide) (by omega)
  rw [Nat.pow_zero, Nat.mul_one, Nat.zero_add, Nat.zero_add] at read
  exact read

/-- Lengths whose encoding begins with the byte of the terminator. -/
def Clashes (value : Nat) : Prop := 128 ≤ value ∧ value % 128 = 127

instance : DecidablePred Clashes := fun value =>
  inferInstanceAs (Decidable (128 ≤ value ∧ value % 128 = 127))

theorem encodeVarint_head (value : Nat) : ∃ first rest, encodeVarint value = first :: rest ∧
    (first = terminator ↔ Clashes value) := by
  rw [encodeVarint, varintBytes]
  split
  · rename_i last
    refine ⟨_, _, rfl, ?_⟩
    have byte : (UInt8.ofNat (value % 128)).toNat = value % 128 := by
      rw [UInt8.toNat_ofNat']
      omega
    constructor
    · intro same
      rw [same] at byte
      have high : terminator.toNat = 255 := rfl
      omega
    · rintro ⟨big, -⟩
      omega
  · rename_i more
    refine ⟨_, _, rfl, ?_⟩
    have byte := toNat_continued value
    constructor
    · intro same
      rw [same] at byte
      have high : terminator.toNat = 255 := rfl
      exact ⟨by omega, by omega⟩
    · rintro ⟨-, low⟩
      rw [low]
      rfl

/-- An entry: the bytes behind their length. -/
def encoded (value : Bytes) : Bytes := encodeVarint value.length ++ value

def packed (l : List Bytes) : Bytes := l.flatMap encoded

@[simp] theorem packed_cons (value : Bytes) (l : List Bytes) :
    packed (value :: l) = encoded value ++ packed l := List.flatMap_cons

@[simp] theorem packed_append (l l' : List Bytes) : packed (l ++ l') = packed l ++ packed l' :=
  List.flatMap_append

theorem length_encoded (value : Bytes) :
    (encoded value).length = (encodeVarint value.length).length + value.length :=
  List.length_append

theorem length_encoded_pos (value : Bytes) : 0 < (encoded value).length := by
  have positive : 0 < (encodeVarint value.length).length := length_varintBytes_pos 9 _
  rw [length_encoded]
  omega

theorem length_le_packed (l : List Bytes) : l.length ≤ (packed l).length := by
  induction l with
  | nil => exact Nat.le_refl 0
  | cons value l ih =>
      have positive := length_encoded_pos value
      rw [packed_cons, List.length_append, List.length_cons]
      omega

/-- Entries that a walk reads to the end. -/
def Readable (l : List Bytes) : Prop := ∀ value ∈ l, value.length < 2 ^ 63 ∧ ¬Clashes value.length

section

variable {lp : ListPack}

/-- The entries from a place on, up to a byte that is or looks like the terminator. -/
structure Ahead (lp : ListPack) (place : Nat) (l : List Bytes) : Prop where
  layout : ∃ front back, lp.data = front ++ (packed l ++ terminator :: back) ∧ place = front.length
  inside : place + (packed l).length < lp.tail
  readable : Readable l

theorem Ahead.lookAt_nil {place : Nat} (ahead : Ahead lp place []) : lp.lookAt place = .ok .stop := by
  obtain ⟨front, back, data, start⟩ := ahead.layout
  have inside : place < lp.tail := ahead.inside
  have read : index lp.data place = .ok terminator := by
    rw [data]
    exact index_middle start
  rw [lookAt, if_pos inside, read]
  rfl

theorem Ahead.lookAt_cons {place : Nat} {value : Bytes} {l : List Bytes}
    (ahead : Ahead lp place (value :: l)) :
    lp.lookAt place = .ok (.entry value.length (encodeVarint value.length).length) := by
  obtain ⟨front, back, data, start⟩ := ahead.layout
  have inside : place < lp.tail := by
    have room := ahead.inside
    omega
  obtain ⟨short, clear⟩ := ahead.readable value List.mem_cons_self
  have rest : sliceFrom lp.data place =
      .ok (encodeVarint value.length ++ (value ++ (packed l ++ terminator :: back))) := by
    rw [data, sliceFrom_right start, packed_cons, encoded]
    simp only [List.append_assoc]
  obtain ⟨first, more, head, clash⟩ := encodeVarint_head value.length
  have byte : index lp.data place = .ok first := by
    rw [data, packed_cons, encoded, head]
    exact index_middle start
  have other : first ≠ terminator := fun same => clear (clash.mp same)
  rw [lookAt, if_pos inside, byte, ok_bind, if_neg other, rest, ok_bind,
    decodeVarint_encodeVarint short]
  rfl

theorem Ahead.next {place : Nat} {value : Bytes} {l : List Bytes}
    (ahead : Ahead lp place (value :: l)) :
    Ahead lp (place + (encodeVarint value.length).length + value.length) l := by
  obtain ⟨front, back, data, start⟩ := ahead.layout
  have room := ahead.inside
  rw [packed_cons, List.length_append, length_encoded] at room
  refine ⟨⟨front ++ encoded value, back, ?_, ?_⟩, ?_, ?_⟩
  · rw [data, packed_cons]
    simp only [List.append_assoc]
  · rw [List.length_append, length_encoded]
    omega
  · omega
  · exact fun v member => ahead.readable v (List.mem_cons_of_mem value member)

theorem Ahead.slice_cons {place : Nat} {value : Bytes} {l : List Bytes}
    (ahead : Ahead lp place (value :: l)) :
    slice lp.data (place + (encodeVarint value.length).length)
      (place + (encodeVarint value.length).length + value.length) = .ok value := by
  obtain ⟨front, back, data, start⟩ := ahead.layout
  have shape : lp.data = (front ++ encodeVarint value.length) ++ value ++
      (packed l ++ terminator :: back) := by
    rw [data, packed_cons, encoded]
    simp only [List.append_assoc]
  rw [shape]
  apply slice_middle
  · rw [List.length_append, start]
  · rfl

theorem exists_fuel {value : Bytes} {l : List Bytes} {fuel : Nat}
    (enough : (value :: l).length ≤ fuel) : ∃ n, fuel = n + 1 ∧ l.length ≤ n := by
  rw [List.length_cons] at enough
  exact ⟨fuel - 1, by omega, by omega⟩

theorem Ahead.iterLoop {place fuel : Nat} {l : List Bytes} (ahead : Ahead lp place l)
    (enough : l.length ≤ fuel) : lp.iterLoop fuel place = .ok l := by
  induction l generalizing place fuel with
  | nil =>
      cases fuel with
      | zero => rfl
      | succ fuel =>
          rw [ListPack.iterLoop, ahead.lookAt_nil]
          rfl
  | cons value l ih =>
      obtain ⟨fuel, rfl, left⟩ := exists_fuel enough
      have rest := ih ahead.next left
      rw [ListPack.iterLoop, ahead.lookAt_cons, ok_bind]
      simp only [ahead.slice_cons, rest, ok_bind]
      rfl

theorem Ahead.getLoop {place fuel curr i : Nat} {l : List Bytes} (ahead : Ahead lp place l)
    (enough : l.length ≤ fuel) (before : curr ≤ i) :
    lp.getLoop i fuel place curr = .ok l[i - curr]? := by
  induction l generalizing place fuel curr with
  | nil =>
      cases fuel with
      | zero => rfl
      | succ fuel =>
          rw [ListPack.getLoop, ahead.lookAt_nil]
          rfl
  | cons value l ih =>
      obtain ⟨fuel, rfl, left⟩ := exists_fuel enough
      rw [ListPack.getLoop, ahead.lookAt_cons, ok_bind]
      simp only []
      split
      · rename_i here
        rw [ahead.slice_cons, here, Nat.sub_self]
        rfl
      · rename_i other
        rw [ih ahead.next left (by omega)]
        have later : i - curr = (i - (curr + 1)) + 1 := by omega
        rw [later, List.getElem?_cons_succ]

/-- Where the bytes of the entries lie. -/
def positions (place : Nat) : List Bytes → List (Nat × Nat)
  | [] => []
  | value :: l =>
      (place + (encodeVarint value.length).length, value.length) ::
        positions (place + (encodeVarint value.length).length + value.length) l

theorem Ahead.positionsLoop {place fuel : Nat} {l : List Bytes} (ahead : Ahead lp place l)
    (enough : l.length ≤ fuel) : lp.positionsLoop fuel place = .ok (positions place l) := by
  induction l generalizing place fuel with
  | nil =>
      cases fuel with
      | zero => rfl
      | succ fuel =>
          rw [ListPack.positionsLoop, ahead.lookAt_nil]
          rfl
  | cons value l ih =>
      obtain ⟨fuel, rfl, left⟩ := exists_fuel enough
      have rest := ih ahead.next left
      rw [ListPack.positionsLoop, ahead.lookAt_cons, ok_bind]
      simp only [rest, ok_bind]
      rfl

theorem Ahead.slices {place : Nat} {l : List Bytes} (ahead : Ahead lp place l) :
    List.Forall₂ (fun p value => slice lp.data p.1 (p.1 + p.2) = .ok value) (positions place l) l := by
  induction l generalizing place with
  | nil => exact List.Forall₂.nil
  | cons value l ih => exact List.Forall₂.cons ahead.slice_cons (ih ahead.next)

theorem Ahead.scanLast {place fuel : Nat} {l : List Bytes} {value : Bytes} {last : Nat × Nat × Nat}
    (ahead : Ahead lp place (l ++ [value])) (enough : (l ++ [value]).length ≤ fuel) :
    lp.scanLast fuel place last = .ok (some (place + (packed l).length, value.length,
      (encodeVarint value.length).length)) := by
  induction l generalizing place fuel last with
  | nil =>
      obtain ⟨fuel, rfl⟩ : ∃ n, fuel = n + 1 := Nat.exists_eq_add_one.mpr enough
      have next := ahead.next
      rw [ListPack.scanLast, ahead.lookAt_cons, ok_bind]
      simp only []
      cases fuel with
      | zero => rfl
      | succ fuel =>
          rw [ListPack.scanLast, next.lookAt_nil]
          rfl
  | cons v l ih =>
      obtain ⟨fuel, rfl, left⟩ := exists_fuel enough
      rw [ListPack.scanLast, ahead.lookAt_cons, ok_bind]
      simp only []
      rw [ih ahead.next left, packed_cons, List.length_append,
        length_encoded]
      simp only [Except.ok.injEq, Option.some.injEq, Prod.mk.injEq, and_true]
      omega

end

end Zumic.Database.ListPack
