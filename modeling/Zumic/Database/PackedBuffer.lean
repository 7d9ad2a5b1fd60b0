/- The buffer of a list pack under every call: the content stays between `head` and `tail`, wherever
these are moved. -/

import Zumic.Database.PackedWalks

namespace Zumic.Database.ListPack

open Lib.Buffer Lib.ByteString

section

variable {lp : ListPack}

/-- The bytes between `head` and `tail`, with what lies before and after them. -/
structure Between (lp : ListPack) (front content back : Bytes) : Prop where
  data : lp.data = front ++ content ++ back
  head : lp.head = front.length
  tail : lp.tail = front.length + content.length

def Holds (lp : ListPack) (content : Bytes) : Prop := ∃ front back, Between lp front content back

variable {front content back : Bytes}

theorem Between.used (between : Between lp front content back) :
    sub lp.tail lp.head = .ok content.length := by
  rw [sub_of_le (by rw [between.head, between.tail]; omega), between.head, between.tail,
    Nat.add_sub_cancel_left]

theorem Between.length (between : Between lp front content back) :
    lp.data.length = front.length + content.length + back.length := by
  rw [between.data, List.length_append, List.length_append]

theorem Between.slice (between : Between lp front content back) :
    slice lp.data lp.head lp.tail = .ok content := by
  rw [between.data]
  exact slice_middle between.head (by rw [between.tail, between.head])

theorem Holds.slice_middle {left middle right : Bytes} {lo hi : Nat}
    (holds : Holds lp (left ++ middle ++ right)) (low : lo = lp.head + left.length)
    (high : hi = lo + middle.length) : Lib.Buffer.slice lp.data lo hi = .ok middle := by
  obtain ⟨front, back, between⟩ := holds
  have shape : lp.data = (front ++ left) ++ middle ++ (right ++ back) := by
    rw [between.data]
    simp only [List.append_assoc]
  rw [shape]
  apply Lib.Buffer.slice_middle
  · rw [low, List.length_append, between.head]
  · exact high

theorem Holds.slice_front {left right : Bytes} (holds : Holds lp (left ++ right)) :
    Lib.Buffer.slice lp.data lp.head (lp.head + left.length) = .ok left :=
  @Holds.slice_middle lp [] left right lp.head (lp.head + left.length) holds rfl rfl

theorem Holds.slice_all (holds : Holds lp content) :
    Lib.Buffer.slice lp.data lp.head lp.tail = .ok content := by
  obtain ⟨front, back, between⟩ := holds
  exact between.slice

theorem growAndCenter_spec (holds : Holds lp content) (extra : Nat) :
    ∃ lp' front back, lp.growAndCenter extra = .ok lp' ∧ Between lp' front content back ∧
      extra ≤ front.length ∧ extra ≤ back.length ∧ lp'.numEntries = lp.numEntries := by
  obtain ⟨front, back, between⟩ := holds
  have after : sub lp.data.length lp.tail = .ok back.length := by
    have size := between.length
    rw [sub_of_le (by rw [between.tail]; omega), between.tail, size, Nat.add_sub_cancel_left]
  rw [growAndCenter, between.used, ok_bind, after, ok_bind]
  by_cases room : extra ≤ lp.head ∧ extra ≤ back.length
  · rw [if_pos room]
    exact ⟨lp, front, back, rfl, between, between.head ▸ room.1, room.2, rfl⟩
  · rw [if_neg room]
    -- the new buffer has room for the content and `extra` bytes on each side of it
    generalize capacity : max (max lp.data.length 1 * 3 / 2) ((content.length + extra) * 2) = newCap
    have large : (content.length + extra) * 2 ≤ newCap := capacity ▸ Nat.le_max_right _ _
    have zeros : List.replicate newCap (0 : UInt8) =
        List.replicate ((newCap - content.length) / 2) 0 ++ List.replicate content.length 0 ++
          List.replicate (newCap - (newCap - content.length) / 2 - content.length) 0 := by
      rw [List.replicate_append_replicate, List.replicate_append_replicate]
      congr 1
      omega
    have written : write (List.replicate newCap (0 : UInt8)) ((newCap - content.length) / 2)
        content = .ok (List.replicate ((newCap - content.length) / 2) 0 ++ content ++
          List.replicate (newCap - (newCap - content.length) / 2 - content.length) 0) := by
      rw [zeros]
      exact write_middle (by rw [List.length_replicate]) (by rw [List.length_replicate])
    have free : sub newCap content.length = .ok (newCap - content.length) :=
      sub_of_le (by omega)
    simp only [free, between.slice, written, ok_bind]
    refine ⟨_, _, _, rfl, ⟨rfl, ?_, ?_⟩, ?_, ?_, rfl⟩
    · rw [List.length_replicate]
    · rw [List.length_replicate]
    · rw [List.length_replicate]
      omega
    · rw [List.length_replicate]
      omega

theorem holds_written {data : Bytes} {place numEntries : Nat}
    (inside : place + content.length ≤ data.length) :
    Holds ⟨data.take place ++ content ++ data.drop (place + content.length), place,
      place + content.length, numEntries⟩ content := by
  have sized : (data.take place).length = place := by
    rw [List.length_take]
    omega
  exact ⟨_, _, rfl, sized.symm, by rw [sized]⟩

theorem reset_spec (some' : 0 < lp.data.length) :
    ∃ lp', lp.reset = .ok lp' ∧ Holds lp' [terminator] ∧ lp'.numEntries = lp.numEntries := by
  have inside : lp.data.length / 2 + [terminator].length ≤ lp.data.length := by
    rw [List.length_singleton]
    omega
  rw [reset, write_of_le inside, ok_bind]
  exact ⟨_, rfl, holds_written inside, rfl⟩

theorem Holds.length_pos (holds : Holds lp content) (some' : content ≠ []) :
    0 < lp.data.length := by
  obtain ⟨front, back, between⟩ := holds
  have positive := List.length_pos_of_ne_nil some'
  rw [between.length]
  omega

theorem recenter_spec (holds : Holds lp content) (some' : content ≠ []) :
    ∃ lp', lp.recenter = .ok lp' ∧ Holds lp' content ∧ lp'.numEntries = lp.numEntries := by
  have whole := holds
  obtain ⟨front, back, between⟩ := holds
  have size := between.length
  have used : content.length ≠ 0 := fun none' => some' (List.eq_nil_of_length_eq_zero none')
  have free : sub lp.data.length content.length = .ok (lp.data.length - content.length) :=
    sub_of_le (by omega)
  rw [recenter, between.used, ok_bind, if_neg used, free, ok_bind]
  by_cases same : (lp.data.length - content.length) / 2 = lp.head
  · simp only [if_pos same]
    exact ⟨lp, rfl, whole, rfl⟩
  · have inside : (lp.data.length - content.length) / 2 + content.length ≤ lp.data.length := by
      omega
    have moved : copyWithin lp.data lp.head lp.tail ((lp.data.length - content.length) / 2) =
        .ok (lp.data.take ((lp.data.length - content.length) / 2) ++ content ++
          lp.data.drop ((lp.data.length - content.length) / 2 + content.length)) := by
      rw [copyWithin, between.slice, ok_bind, write_of_le inside]
    simp only [if_neg same]
    split
    · simp only [moved, ok_bind]
      exact ⟨_, rfl, holds_written inside, rfl⟩
    · have ended : lp.tail = lp.head + content.length := by rw [between.tail, between.head]
      rw [copyRight_eq (by omega) inside, ← ended, moved, ok_bind]
      exact ⟨_, rfl, holds_written inside, rfl⟩

/-- The list that a list pack stands for. -/
structure Packs (lp : ListPack) (l : List Bytes) : Prop where
  holds : Holds lp (packed l ++ [terminator])
  count : lp.numEntries = l.length

theorem exists_append {l : List UInt8} {n : Nat} (enough : n ≤ l.length) :
    ∃ a b, l = a ++ b ∧ a.length = n :=
  ⟨l.take n, l.drop n, (List.take_append_drop n l).symm, by rw [List.length_take]; omega⟩

theorem exists_append_right {l : List UInt8} {n : Nat} (enough : n ≤ l.length) :
    ∃ a b, l = a ++ b ∧ b.length = n := by
  obtain ⟨a, b, split, sized⟩ := exists_append (Nat.sub_le l.length n)
  refine ⟨a, b, split, ?_⟩
  have total := congrArg List.length split
  rw [List.length_append] at total
  omega

theorem Holds.pushFront (holds : Holds lp content) (value : Bytes) :
    ∃ lp', lp.pushFront value = .ok lp' ∧ Holds lp' (encoded value ++ content) ∧
      lp'.numEntries = lp.numEntries + 1 := by
  obtain ⟨grown, front, back, grow, between, room, -, count⟩ :=
    growAndCenter_spec holds ((encodeVarint value.length).length + value.length)
  obtain ⟨front, area, rfl, sized⟩ := exists_append_right room
  obtain ⟨first, second, rfl, sized'⟩ :=
    exists_append (show (encodeVarint value.length).length ≤ area.length by omega)
  rw [List.length_append] at sized
  have head : sub grown.head ((encodeVarint value.length).length + value.length) =
      .ok front.length := by
    have place := between.head
    simp only [List.length_append] at place
    rw [sub_of_le (by omega)]
    congr 1
    omega
  have data : grown.data = front ++ (first ++ second) ++ (content ++ back) := by
    rw [between.data]
    simp only [List.append_assoc]
  obtain ⟨write₁, write₂⟩ := write_then front (encodeVarint value.length) value
    (content ++ back) rfl rfl sized' (show second.length = value.length by omega)
  rw [← data] at write₁
  simp only [ListPack.pushFront, grow, head, write₁, write₂, ok_bind]
  refine ⟨_, rfl, ⟨front, back, ?_, rfl, ?_⟩, ?_⟩
  · simp only [encoded, List.append_assoc]
  · have place := between.tail
    simp only [List.length_append] at place
    simp only [encoded, List.length_append]
    omega
  · rw [count]

theorem Packs.pushFront {l : List Bytes} (packs : Packs lp l) (value : Bytes) :
    ∃ lp', lp.pushFront value = .ok lp' ∧ Packs lp' (value :: l) := by
  obtain ⟨lp', pushed, holds, count⟩ := packs.holds.pushFront value
  refine ⟨lp', pushed, ?_, ?_⟩
  · rwa [packed_cons, List.append_assoc]
  · rw [count, packs.count, List.length_cons]

theorem Holds.pushBack (holds : Holds lp (content ++ [terminator])) (value : Bytes) :
    ∃ lp', lp.pushBack value = .ok lp' ∧ Holds lp' (content ++ encoded value ++ [terminator]) ∧
      lp'.numEntries = lp.numEntries + 1 := by
  obtain ⟨grown, front, back, grow, between, -, room, count⟩ :=
    growAndCenter_spec holds ((encodeVarint value.length).length + value.length)
  -- the old terminator and the bytes behind it make room for the entry and the new terminator
  obtain ⟨area, back, rfl, sized⟩ := exists_append room
  obtain ⟨first, rest, split, sized'⟩ := exists_append
    (show (encodeVarint value.length).length ≤ (terminator :: area).length by
      rw [List.length_cons]
      omega)
  have total := congrArg List.length split
  simp only [List.length_append, List.length_cons] at total
  obtain ⟨second, third, rfl, sized''⟩ :=
    exists_append (show value.length ≤ rest.length by omega)
  rw [List.length_append] at total
  have place := between.tail
  simp only [List.length_append, List.length_singleton] at place
  have tail : sub grown.tail 1 = .ok (front ++ content).length := by
    rw [sub_of_le (by omega), List.length_append]
    congr 1
    omega
  have data : grown.data = (front ++ content) ++ (first ++ second) ++ (third ++ back) := by
    have shape : content ++ [terminator] ++ (area ++ back) =
        content ++ (first ++ (second ++ third)) ++ back := by
      rw [← split]
      simp
    rw [between.data, List.append_assoc front, shape]
    simp only [List.append_assoc]
  obtain ⟨write₁, write₂⟩ := write_then (front ++ content) (encodeVarint value.length) value
    (third ++ back) rfl rfl sized' sized''
  rw [← data] at write₁
  have write₃ : write (front ++ content ++ (encodeVarint value.length ++ value) ++ (third ++ back))
      ((front ++ content).length + (encodeVarint value.length).length + value.length)
      [terminator] =
        .ok (front ++ content ++ (encodeVarint value.length ++ value) ++ [terminator] ++ back) := by
    rw [← List.append_assoc _ third]
    apply write_middle
    · simp only [List.length_append]
      omega
    · rw [List.length_singleton]
      omega
  simp only [ListPack.pushBack, grow, tail, write₁, write₂, write₃, ok_bind]
  refine ⟨_, rfl, ⟨front, back, ?_, between.head, ?_⟩, ?_⟩
  · simp only [encoded, List.append_assoc]
  · simp only [encoded, List.length_append, List.length_singleton]
    omega
  · rw [count]

theorem Packs.pushBack {l : List Bytes} (packs : Packs lp l) (value : Bytes) :
    ∃ lp', lp.pushBack value = .ok lp' ∧ Packs lp' (l ++ [value]) := by
  obtain ⟨lp', pushed, holds, count⟩ := packs.holds.pushBack value
  refine ⟨lp', pushed, ?_, ?_⟩
  · rwa [packed_append, packed_cons, show packed [] = [] from rfl, List.append_nil]
  · rw [count, packs.count, List.length_append, List.length_singleton]

theorem Packs.length_pos {l : List Bytes} (packs : Packs lp l) : 0 < lp.data.length :=
  packs.holds.length_pos (by simp)

theorem Packs.clear {l : List Bytes} (packs : Packs lp l) :
    ∃ lp', lp.clear = .ok lp' ∧ Packs lp' [] := by
  obtain ⟨lp', reset, holds, -⟩ := reset_spec packs.length_pos
  obtain ⟨front, back, between⟩ := holds
  rw [ListPack.clear, reset, ok_bind]
  exact ⟨_, rfl, ⟨front, back, between.data, between.head, between.tail⟩, rfl⟩

theorem Packs.popFront_nil (packs : Packs lp []) : lp.popFront = .ok (none, lp) := by
  have none' : lp.numEntries = 0 := packs.count
  rw [popFront, if_pos none']
  rfl

/-- What a list pack with so many entries holds after a removal: without any it starts again. -/
def settled (numEntries : Nat) (content : Bytes) : Bytes :=
  if numEntries = 0 then [terminator] else content

theorem settled_reset (some' : 0 < lp.data.length) (emptied : lp.numEntries = 0)
    (content : Bytes) :
    ∃ lp', lp.reset = .ok lp' ∧ Holds lp' (settled lp'.numEntries content) ∧
      lp'.numEntries = 0 := by
  obtain ⟨lp', reset, holds', same⟩ := reset_spec some'
  have none' : lp'.numEntries = 0 := same.trans emptied
  refine ⟨lp', reset, ?_, none'⟩
  rwa [settled, if_pos none']

theorem Holds.popFront {value : Bytes} (holds : Holds lp (encoded value ++ content))
    (short : value.length < 2 ^ 63) (some' : content ≠ []) (counted : lp.numEntries ≠ 0) :
    ∃ lp', lp.popFront = .ok (some value, lp') ∧ Holds lp' (settled lp'.numEntries content) ∧
      lp'.numEntries + 1 = lp.numEntries := by
  have element : Lib.Buffer.slice lp.data (lp.head + (encodeVarint value.length).length)
      (lp.head + (encodeVarint value.length).length + value.length) = .ok value :=
    Holds.slice_middle holds rfl rfl
  obtain ⟨front, back, between⟩ := holds
  obtain ⟨n, count⟩ : ∃ n, lp.numEntries = n + 1 := Nat.exists_eq_succ_of_ne_zero counted
  have less : sub lp.numEntries 1 = .ok n := by
    rw [count, sub_of_le (Nat.le_add_left 1 n), Nat.add_sub_cancel]
  have rest : sliceFrom lp.data lp.head =
      .ok (encodeVarint value.length ++ (value ++ (content ++ back))) := by
    rw [between.data, List.append_assoc, sliceFrom_right between.head, encoded]
    simp only [List.append_assoc]
  rw [ListPack.popFront, if_neg counted, rest, ok_bind, decodeVarint_encodeVarint short]
  simp only [element, less, ok_bind]
  have shifted : Holds { lp with
      head := lp.head + (encodeVarint value.length).length + value.length
      numEntries := n } content := by
    refine ⟨front ++ encoded value, back, ?_, ?_, ?_⟩
    · simp only [between.data, List.append_assoc]
    · simp only [between.head, List.length_append, length_encoded]
      omega
    · simp only [between.tail, List.length_append, length_encoded]
      omega
  split
  · rename_i emptied
    obtain ⟨lp', reset, holds', none'⟩ :=
      settled_reset (shifted.length_pos some') emptied content
    rw [reset, ok_bind]
    refine ⟨lp', rfl, holds', ?_⟩
    rw [none', count, emptied]
  · rename_i left
    split
    · obtain ⟨lp', moved, holds', same⟩ := recenter_spec shifted some'
      have less' : lp'.numEntries = n := same
      rw [moved, ok_bind]
      refine ⟨lp', rfl, ?_, ?_⟩
      · rwa [settled, if_neg (less' ▸ left)]
      · rw [less', count]
    · refine ⟨_, rfl, ?_, count.symm⟩
      rwa [settled, if_neg left]

theorem settled_packed {n : Nat} {l : List Bytes} (count : l.length ≤ n) :
    settled n (packed l ++ [terminator]) = packed l ++ [terminator] := by
  rw [settled]
  split
  · rename_i emptied
    obtain rfl : l = [] := List.eq_nil_of_length_eq_zero (by omega)
    rfl
  · rfl

theorem Packs.popFront_cons {l : List Bytes} {value : Bytes} (packs : Packs lp (value :: l))
    (short : value.length < 2 ^ 63) :
    ∃ lp', lp.popFront = .ok (some value, lp') ∧ Packs lp' l := by
  have holds := packs.holds
  have count := packs.count
  rw [packed_cons, List.append_assoc] at holds
  rw [List.length_cons] at count
  obtain ⟨lp', popped, holds', less⟩ := holds.popFront short (by simp) (by omega)
  have count' : lp'.numEntries = l.length := by omega
  rw [settled_packed count'.ge] at holds'
  exact ⟨lp', popped, holds', count'⟩

theorem Packs.popBack_nil (packs : Packs lp []) : lp.popBack = .ok (none, lp) := by
  have none' : lp.numEntries = 0 := packs.count
  rw [popBack, if_pos none']
  rfl

/-- The entries at the head lie ahead of it up to a byte that is or looks like the terminator. -/
theorem Holds.ahead {l : List Bytes} {rest : Bytes}
    (holds : Holds lp (packed l ++ terminator :: rest)) (readable : Readable l) :
    Ahead lp lp.head l := by
  obtain ⟨front, back, between⟩ := holds
  refine ⟨⟨front, rest ++ back, ?_, between.head⟩, ?_, readable⟩
  · rw [between.data]
    simp only [List.append_assoc, List.cons_append]
  · rw [between.head, between.tail, List.length_append, List.length_cons]
    omega

/-- The entries of a list lie ahead of its head, up to the first length that clashes. -/
theorem Packs.ahead {l l' : List Bytes} (packs : Packs lp (l ++ l')) (readable : Readable l)
    (ended : ∃ rest, packed l' ++ [terminator] = terminator :: rest) : Ahead lp lp.head l := by
  have holds := packs.holds
  obtain ⟨rest, shape⟩ := ended
  rw [packed_append, List.append_assoc, shape] at holds
  exact holds.ahead readable

theorem Packs.ahead_all {l : List Bytes} (packs : Packs lp l) (readable : Readable l) :
    Ahead lp lp.head l :=
  packs.holds.ahead readable

theorem Holds.enough {l : List Bytes} {rest : Bytes} (holds : Holds lp (packed l ++ rest)) :
    l.length ≤ lp.tail - lp.head := by
  obtain ⟨front, back, between⟩ := holds
  have count := length_le_packed l
  rw [between.tail, between.head, List.length_append]
  omega

theorem Packs.enough {l : List Bytes} (packs : Packs lp l) : l.length ≤ lp.tail - lp.head :=
  packs.holds.enough

theorem Holds.cut {kept gone : Bytes} (holds : Holds lp (kept ++ gone)) (some' : gone ≠ [])
    (n : Nat) :
    ∃ data, write lp.data (lp.head + kept.length) [terminator] = .ok data ∧
      data.length = lp.data.length ∧
      Holds ⟨data, lp.head, lp.head + kept.length + 1, n⟩ (kept ++ [terminator]) := by
  obtain ⟨front, back, between⟩ := holds
  obtain ⟨first, more, rfl⟩ := List.exists_cons_of_ne_nil some'
  have place : lp.head + kept.length = (front ++ kept).length := by
    rw [List.length_append, between.head]
  have shape : lp.data = (front ++ kept) ++ [first] ++ (more ++ back) := by
    rw [between.data]
    simp only [List.append_assoc, List.cons_append, List.nil_append]
  refine ⟨(front ++ kept) ++ [terminator] ++ (more ++ back), ?_, ?_, front, more ++ back, ?_,
    between.head, ?_⟩
  · rw [shape]
    exact write_middle place rfl
  · rw [shape]
    simp only [List.length_append, List.length_singleton]
  · simp only [List.append_assoc]
  · rw [place, List.length_append, List.length_append, List.length_singleton, Nat.add_assoc]

theorem Holds.popBack {kept gone element : Bytes} {len consumed : Nat}
    (holds : Holds lp (kept ++ gone)) (some' : gone ≠ []) (counted : lp.numEntries ≠ 0)
    (scanned : lp.scanLast (lp.tail - lp.head) lp.head (lp.head, 0, 0) =
      .ok (some (lp.head + kept.length, len, consumed)))
    (read : Lib.Buffer.slice lp.data (lp.head + kept.length + consumed)
      (lp.head + kept.length + consumed + len) = .ok element) :
    ∃ lp', lp.popBack = .ok (some element, lp') ∧
      Holds lp' (settled lp'.numEntries (kept ++ [terminator])) ∧
      lp'.numEntries + 1 = lp.numEntries := by
  obtain ⟨n, count⟩ : ∃ n, lp.numEntries = n + 1 := Nat.exists_eq_succ_of_ne_zero counted
  have less : sub lp.numEntries 1 = .ok n := by
    rw [count, sub_of_le (Nat.le_add_left 1 n), Nat.add_sub_cancel]
  rw [ListPack.popBack, if_neg counted, scanned, ok_bind]
  simp only [read, less, ok_bind]
  split
  · rename_i emptied
    have room : 0 < lp.data.length := holds.length_pos (by simp [some'])
    obtain ⟨lp', reset, holds', none'⟩ := @settled_reset { lp with
      tail := lp.head + kept.length, numEntries := n } room emptied (kept ++ [terminator])
    rw [reset, ok_bind]
    refine ⟨lp', rfl, holds', ?_⟩
    rw [none', count, emptied]
  · rename_i left
    obtain ⟨data, written, -, shorter⟩ := holds.cut some' n
    simp only [written, ok_bind]
    split
    · obtain ⟨lp', moved, holds', same⟩ := recenter_spec shorter (by simp)
      have less' : lp'.numEntries = n := same
      rw [moved, ok_bind]
      refine ⟨lp', rfl, ?_, ?_⟩
      · rwa [settled, if_neg (less' ▸ left)]
      · rw [less', count]
    · refine ⟨_, rfl, ?_, count.symm⟩
      rwa [settled, if_neg left]

/-- The last entry that a walk reads goes, with all that it does not read. -/
theorem Holds.popBack_append {l : List Bytes} {value rest : Bytes}
    (holds : Holds lp (packed (l ++ [value]) ++ terminator :: rest))
    (readable : Readable (l ++ [value])) (counted : lp.numEntries ≠ 0) :
    ∃ lp', lp.popBack = .ok (some value, lp') ∧
      Holds lp' (settled lp'.numEntries (packed l ++ [terminator])) ∧
      lp'.numEntries + 1 = lp.numEntries := by
  have ahead := holds.ahead readable
  have scanned := @Ahead.scanLast lp lp.head _ l value (lp.head, 0, 0) ahead holds.enough
  have parts : packed (l ++ [value]) ++ terminator :: rest =
      packed l ++ (encoded value ++ terminator :: rest) := by
    rw [packed_append, packed_cons, show packed [] = [] from rfl, List.append_nil,
      List.append_assoc]
  have shape : packed l ++ (encoded value ++ terminator :: rest) =
      (packed l ++ encodeVarint value.length) ++ value ++ terminator :: rest := by
    simp only [encoded, List.append_assoc]
  rw [parts] at holds
  have read := Holds.slice_middle (shape ▸ holds) (by rw [List.length_append, ← Nat.add_assoc]) rfl
  exact holds.popBack (by simp) counted scanned read

theorem Packs.popBack_append {l : List Bytes} {value : Bytes} (packs : Packs lp (l ++ [value]))
    (readable : Readable (l ++ [value])) :
    ∃ lp', lp.popBack = .ok (some value, lp') ∧ Packs lp' l := by
  have count := packs.count
  rw [List.length_append, List.length_singleton] at count
  obtain ⟨lp', popped, holds, less⟩ := packs.holds.popBack_append readable (by omega)
  have count' : lp'.numEntries = l.length := by omega
  rw [settled_packed count'.ge] at holds
  exact ⟨lp', popped, holds, count'⟩

theorem Readable.append_left {l l' : List Bytes} (readable : Readable (l ++ l')) : Readable l :=
  fun value member => readable value (List.mem_append_left l' member)

theorem Packs.truncateLoop {l : List Bytes} {len fuel : Nat} (packs : Packs lp l)
    (readable : Readable l) (enough : l.length ≤ len + fuel) :
    ∃ lp', truncateLoop len fuel lp = .ok lp' ∧ Packs lp' (l.take len) := by
  induction fuel generalizing lp l with
  | zero =>
      have short : ¬ len < lp.numEntries := by
        rw [packs.count]
        omega
      rw [ListPack.truncateLoop, if_neg short, List.take_of_length_le (by omega)]
      exact ⟨lp, rfl, packs⟩
  | succ fuel ih =>
      rw [ListPack.truncateLoop]
      split
      · rename_i long
        rw [packs.count] at long
        obtain ⟨front, value, rfl⟩ : ∃ front value, l = front ++ [value] := by
          rcases List.eq_nil_or_concat l with rfl | ⟨front, value, rfl⟩
          · exact absurd long (Nat.not_lt_zero len)
          · exact ⟨front, value, by rw [List.concat_eq_append]⟩
        rw [List.length_append, List.length_singleton] at long enough
        obtain ⟨lp₁, popped, packs₁⟩ := packs.popBack_append readable
        obtain ⟨lp₂, looped, packs₂⟩ := ih packs₁ readable.append_left (by omega)
        rw [popped, ok_bind, List.take_append_of_le_length (by omega)]
        exact ⟨lp₂, looped, packs₂⟩
      · rename_i short
        rw [packs.count] at short
        rw [List.take_of_length_le (by omega)]
        exact ⟨lp, rfl, packs⟩

theorem Packs.truncate {l : List Bytes} (packs : Packs lp l) (readable : Readable l) (len : Nat) :
    ∃ lp', lp.truncate len = .ok lp' ∧ Packs lp' (l.take len) := by
  rw [ListPack.truncate]
  split
  · rename_i short
    rw [packs.count] at short
    rw [List.take_of_length_le short]
    exact ⟨lp, rfl, packs⟩
  · refine packs.truncateLoop readable ?_
    rw [packs.count]
    omega

theorem Packs.pushBackTimes {l : List Bytes} (packs : Packs lp l) (fill : Bytes) (n : Nat) :
    ∃ lp', pushBackTimes fill n lp = .ok lp' ∧ Packs lp' (l ++ List.replicate n fill) := by
  induction n generalizing lp l with
  | zero => exact ⟨lp, rfl, by rwa [List.replicate_zero, List.append_nil]⟩
  | succ n ih =>
      obtain ⟨lp₁, pushed, packs₁⟩ := packs.pushBack fill
      obtain ⟨lp₂, more, packs₂⟩ := ih packs₁
      rw [ListPack.pushBackTimes, pushed, ok_bind]
      refine ⟨lp₂, more, ?_⟩
      rwa [List.replicate_succ, ← List.singleton_append, ← List.append_assoc]

end

end Zumic.Database.ListPack
