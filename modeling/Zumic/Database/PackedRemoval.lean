/- Removal of an entry by its index, and the bytes that a list pack counts. -/

import Zumic.Database.PackedList

namespace Zumic.Database.ListPack

open Lib.Buffer Lib.ByteString

/-- The bytes of the buffer. -/
def capacity (lp : ListPack) : Nat := lp.data.length

def usedBytes (lp : ListPack) : Except Fault Nat := sub lp.tail lp.head

/-- Taken from the number of entries, not from the capacity. -/
def freeBytes (lp : ListPack) : Except Fault Nat := do
  let used ← lp.usedBytes
  sub lp.len used

def findLoop (lp : ListPack) (index : Nat) : Nat → Nat → Nat →
    Except Fault (Option (Nat × Nat × Nat))
  | 0, _, _ => pure none
  | fuel + 1, pos, curr => do
      match ← lp.lookAt pos with
      | .entry len consumed =>
          if curr = index then pure (some (pos, len, consumed))
          else findLoop lp index fuel (pos + consumed + len) (curr + 1)
      | _ => pure none

/-- The place of an entry, its length and the length of its length. -/
def findElementPos (lp : ListPack) (index : Nat) : Except Fault (Option (Nat × Nat × Nat)) :=
  if lp.numEntries ≤ index then pure none
  else lp.findLoop index (lp.tail - lp.head) lp.head 0

/-- In the middle the smaller side is moved. The left side is copied to where the entry ends. -/
def remove (lp : ListPack) (index : Nat) : Except Fault (Bool × ListPack) :=
  if lp.numEntries ≤ index then pure (false, lp)
  else if index = 0 then do
    let (_, lp) ← lp.popFront
    pure (true, lp)
  else do
    match ← lp.findElementPos index with
    | none => pure (false, lp)
    | some (elemStart, elemLen, consumed) => do
        let elemEnd := elemStart + consumed + elemLen
        let lastIndex ← sub lp.numEntries 1
        if index = lastIndex then do
          let data ← write lp.data elemStart [terminator]
          let numEntries ← sub lp.numEntries 1
          pure (true, ⟨data, lp.head, elemStart + 1, numEntries⟩)
        else do
          let leftBytes ← sub elemStart lp.head
          let rightBytes ← sub lp.tail elemEnd
          let gap ← sub elemEnd elemStart
          let numEntries ← sub lp.numEntries 1
          if leftBytes < rightBytes then do
            let data ← copyWithin lp.data lp.head elemStart elemEnd
            pure (true, ⟨data, lp.head + gap, lp.tail, numEntries⟩)
          else do
            let data ← copyWithin lp.data elemEnd lp.tail elemStart
            let tail ← sub lp.tail gap
            pure (true, ⟨data, lp.head, tail, numEntries⟩)

/-- A call that changes the list, the removals among them. -/
inductive Edit where
  | call (c : Call)
  | remove (index : Nat)

def edit (lp : ListPack) : Edit → Except Fault ListPack
  | .call c => (lp.step c).map Prod.snd
  | .remove index => (lp.remove index).map Prod.snd

/-- The bytes of one entry go and all others stay, in their order. -/
def RemovesOne (lp : ListPack) (index : Nat) : Prop :=
  ∀ start len consumed, lp.findElementPos index = .ok (some (start, len, consumed)) →
    ∃ lp' before after, lp.remove index = .ok (true, lp') ∧
      slice lp.data lp.head start = .ok before ∧
      slice lp.data (start + consumed + len) lp.tail = .ok after ∧
      slice lp'.data lp'.head lp'.tail = .ok (before ++ after) ∧
      lp'.numEntries + 1 = lp.numEntries

/-- The bytes before an entry stand once more at its end, and once more behind it. -/
def Repeated (lp : ListPack) (start stop : Nat) : Prop :=
  slice lp.data (stop - (start - lp.head)) stop = slice lp.data lp.head start ∧
    slice lp.data stop (stop + (start - lp.head)) = slice lp.data lp.head start

/-- The entry is the first or the last one, or no fewer bytes lie before it than behind it, or the
bytes before it are repeated where the copy of them is read and where it is written. -/
def Aligned (lp : ListPack) (index : Nat) : Prop :=
  ∀ start len consumed, lp.findElementPos index = .ok (some (start, len, consumed)) →
    index = 0 ∨ index + 1 = lp.numEntries ∨
      lp.tail - (start + consumed + len) ≤ start - lp.head ∨
      Repeated lp start (start + consumed + len)

section

variable {lp : ListPack}

theorem Ahead.findLoop {place fuel curr i : Nat} {l : List Bytes} (ahead : Ahead lp place l)
    (enough : l.length ≤ fuel) (before : curr ≤ i) :
    lp.findLoop i fuel place curr = .ok (l[i - curr]?.map fun value =>
      (place + (packed (l.take (i - curr))).length, value.length,
        (encodeVarint value.length).length)) := by
  induction l generalizing place fuel curr with
  | nil =>
      cases fuel with
      | zero => rfl
      | succ fuel =>
          rw [ListPack.findLoop, ahead.lookAt_nil]
          rfl
  | cons value l ih =>
      obtain ⟨fuel, rfl, left⟩ := exists_fuel enough
      rw [ListPack.findLoop, ahead.lookAt_cons, ok_bind]
      simp only []
      split
      · rename_i here
        rw [here, Nat.sub_self]
        rfl
      · rename_i other
        rw [ih ahead.next left (by omega)]
        have later : i - curr = (i - (curr + 1)) + 1 := by omega
        rw [later, List.getElem?_cons_succ, List.take_succ_cons, packed_cons, List.length_append,
          length_encoded]
        simp only [Nat.add_assoc]

/-- The content of a list pack whose entries may be hidden or counted twice. -/
structure Loose (lp : ListPack) (l : List Bytes) : Prop where
  holds : Holds lp (packed l ++ [terminator])
  count : l.length ≤ lp.numEntries
  short : ∀ value ∈ l, value.length < 2 ^ 63

theorem Loose.holds_at {pre post : List Bytes} {value : Bytes}
    (loose : Loose lp (pre ++ value :: post)) :
    Holds lp (packed pre ++ encoded value ++ (packed post ++ [terminator])) := by
  have holds := loose.holds
  rw [packed_append, packed_cons] at holds
  simpa only [List.append_assoc] using holds

theorem exists_visible {l : List Bytes} (short : ∀ value ∈ l, value.length < 2 ^ 63) :
    ∃ visible hidden rest, l = visible ++ hidden ∧ Readable visible ∧
      packed hidden ++ [terminator] = terminator :: rest := by
  induction l with
  | nil => exact ⟨[], [], [], rfl, fun v none' => absurd none' List.not_mem_nil, rfl⟩
  | cons value l ih =>
      by_cases clash : Clashes value.length
      · obtain ⟨first, more, head, same⟩ := encodeVarint_head value.length
        refine ⟨[], value :: l, more ++ value ++ packed l ++ [terminator], rfl,
          fun v none' => absurd none' List.not_mem_nil, ?_⟩
        rw [packed_cons, encoded, head, same.mpr clash]
        simp only [List.append_assoc, List.cons_append]
      · obtain ⟨visible, hidden, rest, rfl, readable, shape⟩ :=
          ih fun v member => short v (List.mem_cons_of_mem value member)
        refine ⟨value :: visible, hidden, rest, rfl, ?_, shape⟩
        intro v member
        rcases List.mem_cons.mp member with rfl | old
        · exact ⟨short v List.mem_cons_self, clash⟩
        · exact readable v old

theorem Loose.exists_found {l : List Bytes} (loose : Loose lp l) {i start len consumed : Nat}
    (found : lp.findElementPos i = .ok (some (start, len, consumed))) :
    ∃ pre value post, l = pre ++ value :: post ∧ pre.length = i ∧ i < lp.numEntries ∧
      start = lp.head + (packed pre).length ∧ len = value.length ∧
      consumed = (encodeVarint value.length).length := by
  obtain ⟨visible, hidden, rest, rfl, readable, shape⟩ := exists_visible loose.short
  have holds := loose.holds
  rw [packed_append, List.append_assoc, shape] at holds
  rw [findElementPos] at found
  split at found
  · cases found
  · rename_i inside
    rw [(holds.ahead readable).findLoop holds.enough (Nat.zero_le i), Nat.sub_zero] at found
    obtain ⟨value, here, place⟩ := Option.map_eq_some_iff.mp (Except.ok.inj found)
    obtain ⟨rfl, sizes⟩ := Prod.mk.inj place
    obtain ⟨rfl, rfl⟩ := Prod.mk.inj sizes
    obtain ⟨within, rfl⟩ := List.getElem?_eq_some_iff.mp here
    refine ⟨visible.take i, visible[i], visible.drop (i + 1) ++ hidden, ?_, ?_, by omega, rfl,
      rfl, rfl⟩
    · rw [← List.cons_append, ← List.drop_eq_getElem_cons within, ← List.append_assoc,
        List.take_append_drop]
    · rw [List.length_take]
      omega

section

variable {left gap right : Bytes} {numEntries : Nat}

theorem Holds.shiftLeft (holds : Holds lp (left ++ gap ++ right)) :
    ∃ data, copyWithin lp.data (lp.head + left.length + gap.length) lp.tail
        (lp.head + left.length) = .ok data ∧
      Holds ⟨data, lp.head, lp.tail - gap.length, numEntries⟩ (left ++ right) := by
  have read : slice lp.data (lp.head + left.length + gap.length) lp.tail = .ok right := by
    obtain ⟨front, back, between⟩ := holds
    apply @Holds.slice_middle lp (left ++ gap) right []
    · exact ⟨front, back, by rwa [List.append_nil]⟩
    · rw [List.length_append, Nat.add_assoc]
    · rw [between.tail, between.head, List.length_append, List.length_append]
      omega
  obtain ⟨front, back, between⟩ := holds
  obtain ⟨old, rest, split, sized⟩ : ∃ old rest, gap ++ right = old ++ rest ∧
      old.length = right.length := exists_append (by rw [List.length_append]; omega)
  have shape : lp.data = (front ++ left) ++ old ++ (rest ++ back) := by
    rw [between.data, List.append_assoc left, split]
    simp only [List.append_assoc]
  have written : write lp.data (lp.head + left.length) right =
      .ok ((front ++ left) ++ right ++ (rest ++ back)) := by
    rw [shape]
    exact write_middle (by rw [List.length_append, between.head]) sized
  refine ⟨(front ++ left) ++ right ++ (rest ++ back), ?_, front, rest ++ back, ?_, between.head, ?_⟩
  · rw [copyWithin, read, ok_bind, written]
  · simp only [List.append_assoc]
  · rw [between.tail]
    simp only [List.length_append]
    omega

theorem Holds.shiftRight (holds : Holds lp (left ++ gap ++ right))
    (smaller : left.length ≤ right.length) :
    ∃ data, copyWithin lp.data lp.head (lp.head + left.length)
        (lp.head + left.length + gap.length) = .ok data ∧
      Holds ⟨data, lp.head + gap.length, lp.tail, numEntries⟩
        ((left ++ gap).drop gap.length ++ (left ++ right.drop left.length)) := by
  have read : slice lp.data lp.head (lp.head + left.length) = .ok left := by
    rw [List.append_assoc] at holds
    exact holds.slice_front
  obtain ⟨front, back, between⟩ := holds
  have shape : lp.data = (front ++ (left ++ gap)) ++ right.take left.length ++
      (right.drop left.length ++ back) := by
    rw [between.data, List.append_assoc _ (right.take left.length), ← List.append_assoc _ _ back,
      List.take_append_drop]
    simp only [List.append_assoc]
  have written : write lp.data (lp.head + left.length + gap.length) left =
      .ok ((front ++ (left ++ gap)) ++ left ++ (right.drop left.length ++ back)) := by
    rw [shape]
    apply write_middle
    · simp only [List.length_append, between.head, Nat.add_assoc]
    · rw [List.length_take, Nat.min_eq_left smaller]
  -- as many bytes as the gap has are left out in front
  refine ⟨_, by rw [copyWithin, read, ok_bind, written], front ++ (left ++ gap).take gap.length,
    back, ?_, ?_, ?_⟩
  · have whole := List.take_append_drop gap.length (left ++ gap)
    calc front ++ (left ++ gap) ++ left ++ (right.drop left.length ++ back) =
          front ++ ((left ++ gap).take gap.length ++ (left ++ gap).drop gap.length) ++ left ++
            (right.drop left.length ++ back) := by rw [whole]
      _ = front ++ (left ++ gap).take gap.length ++
          ((left ++ gap).drop gap.length ++ (left ++ right.drop left.length)) ++ back := by
        simp only [List.append_assoc]
  · show lp.head + gap.length = _
    rw [between.head, List.length_append, List.length_take, List.length_append]
    omega
  · show lp.tail = _
    rw [between.tail]
    simp only [List.length_append, List.length_take, List.length_drop]
    omega

/-- The copy leaves the right bytes exactly when they stood there before. -/
theorem Holds.repeated_iff (holds : Holds lp (left ++ gap ++ right))
    (smaller : left.length ≤ right.length) :
    Repeated lp (lp.head + left.length) (lp.head + left.length + gap.length) ↔
      (left ++ gap).drop gap.length ++ (left ++ right.drop left.length) = left ++ right := by
  have before : slice lp.data lp.head (lp.head + left.length) = .ok left := by
    rw [List.append_assoc] at holds
    exact holds.slice_front
  have sized : ((left ++ gap).drop gap.length).length = left.length := by
    rw [List.length_drop, List.length_append, Nat.add_sub_cancel]
  have atEnd : slice lp.data (lp.head + left.length + gap.length - left.length)
      (lp.head + left.length + gap.length) = .ok ((left ++ gap).drop gap.length) := by
    have parts : left ++ gap ++ right =
        (left ++ gap).take gap.length ++ (left ++ gap).drop gap.length ++ right := by
      rw [List.take_append_drop]
    have kept : ((left ++ gap).take gap.length).length = gap.length := by
      rw [List.length_take, List.length_append]
      omega
    rw [parts] at holds
    exact holds.slice_middle (by omega) (by omega)
  have behind : slice lp.data (lp.head + left.length + gap.length)
      (lp.head + left.length + gap.length + left.length) = .ok (right.take left.length) := by
    have parts : left ++ gap ++ right =
        left ++ gap ++ right.take left.length ++ right.drop left.length := by
      rw [List.append_assoc _ (right.take _), List.take_append_drop]
    rw [parts] at holds
    apply holds.slice_middle
    · rw [List.length_append, Nat.add_assoc]
    · rw [List.length_take, Nat.min_eq_left smaller]
  rw [Repeated, Nat.add_sub_cancel_left, before, atEnd, behind]
  constructor
  · rintro ⟨first, second⟩
    have taken : right.take left.length = left := Except.ok.inj second
    rw [Except.ok.inj first]
    nth_rewrite 2 [← taken]
    rw [List.take_append_drop]
  · intro same
    obtain ⟨first, second⟩ := List.append_inj same sized
    have taken : right.take left.length = left := by
      rw [← second, List.take_left]
    exact ⟨congrArg Except.ok first, congrArg Except.ok taken⟩

end

theorem aligned_iff {i start len consumed : Nat}
    (found : lp.findElementPos i = .ok (some (start, len, consumed))) :
    Aligned lp i ↔ i = 0 ∨ i + 1 = lp.numEntries ∨
      lp.tail - (start + consumed + len) ≤ start - lp.head ∨
      Repeated lp start (start + consumed + len) := by
  constructor
  · exact fun aligned => aligned start len consumed found
  · intro here start' len' consumed' found'
    obtain ⟨rfl, sizes⟩ := Prod.mk.inj (Option.some.inj (Except.ok.inj (found.symm.trans found')))
    obtain ⟨rfl, rfl⟩ := Prod.mk.inj sizes
    exact here

theorem Loose.remove {pre post : List Bytes} {value : Bytes}
    (loose : Loose lp (pre ++ value :: post))
    (found : lp.findElementPos pre.length = .ok (some (lp.head + (packed pre).length,
      value.length, (encodeVarint value.length).length))) :
    ∃ lp' content, lp.remove pre.length = .ok (true, lp') ∧ Holds lp' content ∧
      lp'.numEntries + 1 = lp.numEntries ∧
      (Aligned lp pre.length ↔ content = packed pre ++ (packed post ++ [terminator])) := by
  have counted : pre.length + (post.length + 1) ≤ lp.numEntries := by
    have count := loose.count
    rwa [List.length_append, List.length_cons] at count
  have holds := loose.holds_at
  obtain ⟨n, count⟩ : ∃ n, lp.numEntries = n + 1 := ⟨lp.numEntries - 1, by omega⟩
  have less : sub lp.numEntries 1 = .ok n := by
    rw [count, sub_of_le (Nat.le_add_left 1 n), Nat.add_sub_cancel]
  have inside : ¬ lp.numEntries ≤ pre.length := by omega
  rw [aligned_iff found, ListPack.remove, if_neg inside]
  by_cases first : pre.length = 0
  · obtain rfl : pre = [] := List.eq_nil_of_length_eq_zero first
    have short := loose.short value List.mem_cons_self
    obtain ⟨lp', popped, holds', less⟩ := holds.popFront short (by simp) (by omega)
    rw [List.length_nil, Nat.zero_add] at counted
    rw [settled_packed (by omega)] at holds'
    rw [if_pos first, popped]
    exact ⟨lp', _, rfl, holds', less, fun _ => rfl, fun _ => .inl first⟩
  · rw [if_neg first, found, ok_bind]
    simp only [less, ok_bind]
    by_cases last : pre.length = n
    · obtain rfl : post = [] := List.eq_nil_of_length_eq_zero (by omega)
      rw [List.append_assoc] at holds
      obtain ⟨data, written, -, shorter⟩ := holds.cut (by simp) n
      rw [if_pos last, written]
      exact ⟨_, _, rfl, shorter, count.symm, fun _ => rfl, fun _ => .inr (.inl (by omega))⟩
    · have stop : lp.head + (packed pre).length + (encodeVarint value.length).length +
          value.length = lp.head + (packed pre).length + (encoded value).length := by
        rw [length_encoded, Nat.add_assoc]
      have tail : lp.tail = lp.head + (packed pre).length + (encoded value).length +
          (packed post ++ [terminator]).length := by
        obtain ⟨front, back, between⟩ := holds
        rw [between.tail, between.head]
        simp only [List.length_append, List.length_singleton]
        omega
      have leftBytes : sub (lp.head + (packed pre).length) lp.head = .ok (packed pre).length := by
        rw [sub_of_le (Nat.le_add_right _ _), Nat.add_sub_cancel_left]
      have rightBytes : sub lp.tail (lp.head + (packed pre).length + (encoded value).length) =
          .ok (packed post ++ [terminator]).length := by
        rw [tail, sub_of_le (Nat.le_add_right _ _), Nat.add_sub_cancel_left]
      have gap : sub (lp.head + (packed pre).length + (encoded value).length)
          (lp.head + (packed pre).length) = .ok (encoded value).length := by
        rw [sub_of_le (Nat.le_add_right _ _), Nat.add_sub_cancel_left]
      have notLast : pre.length + 1 ≠ lp.numEntries := by omega
      have behind : lp.tail - (lp.head + (packed pre).length + (encoded value).length) =
          (packed post ++ [terminator]).length := by
        rw [tail, Nat.add_sub_cancel_left]
      rw [if_neg last, stop]
      simp only [leftBytes, rightBytes, gap, ok_bind, first, notLast, false_or, behind,
        Nat.add_sub_cancel_left]
      split
      · rename_i smaller
        obtain ⟨data, copied, shifted⟩ := @Holds.shiftRight lp _ _ _ n holds smaller.le
        rw [copied]
        refine ⟨_, _, rfl, shifted, count.symm, ?_⟩
        rw [← holds.repeated_iff smaller.le]
        exact or_iff_right (by omega)
      · rename_i larger
        obtain ⟨data, copied, shifted⟩ := @Holds.shiftLeft lp _ _ _ n holds
        have tail' : sub lp.tail (encoded value).length =
            .ok (lp.tail - (encoded value).length) := sub_of_le (by omega)
        rw [copied]
        simp only [tail', ok_bind]
        exact ⟨_, _, rfl, shifted, count.symm, fun _ => rfl, fun _ => .inl (by omega)⟩

/-- One entry is removed exactly when nothing is moved onto a byte that stays. -/
theorem Loose.removesOne_iff {l : List Bytes} (loose : Loose lp l) (i : Nat) :
    RemovesOne lp i ↔ Aligned lp i := by
  by_cases found : ∃ start len consumed, lp.findElementPos i = .ok (some (start, len, consumed))
  · obtain ⟨start, len, consumed, found⟩ := found
    obtain ⟨pre, value, post, rfl, rfl, -, rfl, rfl, rfl⟩ := loose.exists_found found
    obtain ⟨lp', content, removed, holds', less, iff⟩ := loose.remove found
    have holds := loose.holds_at
    have before : slice lp.data lp.head (lp.head + (packed pre).length) = .ok (packed pre) := by
      rw [List.append_assoc] at holds
      exact holds.slice_front
    have after : slice lp.data (lp.head + (packed pre).length +
        (encodeVarint value.length).length + value.length) lp.tail =
          .ok (packed post ++ [terminator]) := by
      have whole := holds
      obtain ⟨front, back, between⟩ := whole
      rw [← List.append_nil (_ ++ _ ++ (packed post ++ [terminator]))] at holds
      apply holds.slice_middle
      · rw [List.length_append, length_encoded]
        omega
      · rw [between.tail, between.head]
        simp only [List.length_append, length_encoded]
        omega
    rw [iff]
    constructor
    · intro one
      obtain ⟨lp₁, a, b, removed₁, before₁, after₁, left, -⟩ := one _ _ _ found
      obtain rfl : lp' = lp₁ := congrArg Prod.snd (Except.ok.inj (removed.symm.trans removed₁))
      obtain rfl := Except.ok.inj (before.symm.trans before₁)
      obtain rfl := Except.ok.inj (after.symm.trans after₁)
      exact Except.ok.inj (holds'.slice_all.symm.trans left)
    · rintro rfl start len consumed found'
      obtain ⟨rfl, sizes⟩ := Prod.mk.inj (Option.some.inj (Except.ok.inj (found.symm.trans found')))
      obtain ⟨rfl, rfl⟩ := Prod.mk.inj sizes
      exact ⟨lp', _, _, removed, before, after, holds'.slice_all, less⟩
  · constructor
    · exact fun _ start len consumed here => absurd ⟨start, len, consumed, here⟩ found
    · exact fun _ start len consumed here => absurd ⟨start, len, consumed, here⟩ found

end

end Zumic.Database.ListPack
