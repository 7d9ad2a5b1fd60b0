/- Removals in the runs of a list pack, when each of them takes one entry out, and the layout of the
buffer in every state of a run. -/

import Zumic.Database.PackedRemoval

namespace Zumic.Database.ListPack

open Lib.Buffer Lib.ByteString

/-- Every removal of a run is made in a state and at an index with a property. -/
def AtRemovals (P : ListPack → Nat → Prop) : ListPack → List Edit → Prop
  | _, [] => True
  | lp, e :: es =>
      (∀ index, e = .remove index → P lp index) ∧
        ∀ lp', lp.edit e = .ok lp' → AtRemovals P lp' es

section

variable {lp lp' : ListPack} {l : List Bytes}

theorem lt_of_decodeLoop {data : Bytes} {i shift result value consumed : Nat}
    (read : decodeLoop data i shift result = some (value, consumed)) : i < consumed := by
  induction data generalizing i shift result with
  | nil => cases read
  | cons byte rest ih =>
      simp only [decodeLoop] at read
      split at read
      · obtain ⟨-, rfl⟩ := Prod.mk.inj (Option.some.inj read)
        exact Nat.lt_succ_self i
      · split at read
        · cases read
        · exact Nat.lt_of_succ_lt (ih read)

theorem two_le_of_decodeVarint {rest : Bytes} {value consumed : Nat}
    (read : decodeVarint (terminator :: rest) = some (value, consumed)) : 2 ≤ consumed :=
  lt_of_decodeLoop (i := 1) (show decodeLoop rest 1 7 _ = some (value, consumed) from read)

theorem reset_ok (done : lp.reset = .ok lp') :
    Holds lp' [terminator] ∧ lp'.numEntries = lp.numEntries := by
  rw [reset] at done
  obtain ⟨data, written, last⟩ := bind_eq_ok done
  obtain ⟨inside, rfl⟩ := write_eq_ok written
  obtain rfl := Except.ok.inj last
  exact ⟨holds_written inside, rfl⟩

theorem loose_nil (holds : Holds lp [terminator]) : Loose lp [] :=
  ⟨holds, Nat.zero_le _, fun _ none' => absurd none' List.not_mem_nil⟩

/-- The head lies past the tail when an entry is read from behind the terminator. -/
def Crossed (lp : ListPack) : Prop := lp.tail < lp.head

def Sane (lp : ListPack) : Prop := (∃ l, Loose lp l) ∨ Crossed lp

theorem Crossed.used (crossed : Crossed lp) : sub lp.tail lp.head = .error .underflow :=
  if_neg (Nat.not_le_of_lt crossed)

theorem Crossed.pushFront (crossed : Crossed lp) (value : Bytes) :
    lp.pushFront value = .error .underflow := by
  rw [ListPack.pushFront, growAndCenter, crossed.used]
  rfl

theorem Crossed.pushBack (crossed : Crossed lp) (value : Bytes) :
    lp.pushBack value = .error .underflow := by
  rw [ListPack.pushBack, growAndCenter, crossed.used]
  rfl

theorem Crossed.recenter (crossed : Crossed lp) : lp.recenter = .error .underflow := by
  rw [ListPack.recenter, crossed.used]
  rfl

theorem Crossed.findElementPos (crossed : Crossed lp) (index : Nat) :
    lp.findElementPos index = .ok none := by
  have nothing : lp.tail - lp.head = 0 := Nat.sub_eq_zero_of_le crossed.le
  rw [ListPack.findElementPos, nothing]
  split
  · rfl
  · rfl

theorem Sane.popFront_past {result : Option Bytes} (sane : Sane lp)
    (past : ∀ len consumed, decodeVarint (lp.data.drop lp.head) = some (len, consumed) →
      lp.tail < lp.head + consumed + len)
    (done : lp.popFront = .ok (result, lp')) : Sane lp' := by
  rw [popFront] at done
  split at done
  · obtain ⟨-, rfl⟩ := Prod.mk.inj (Except.ok.inj done)
    exact sane
  · obtain ⟨rest, read, done⟩ := bind_eq_ok done
    obtain rfl : lp.data.drop lp.head = rest := by
      rw [sliceFrom] at read
      split at read
      · exact Except.ok.inj read
      · cases read
    split at done
    · obtain ⟨-, rfl⟩ := Prod.mk.inj (Except.ok.inj done)
      exact sane
    · rename_i len consumed decoded
      obtain ⟨element, -, done⟩ := bind_eq_ok done
      obtain ⟨numEntries, -, done⟩ := bind_eq_ok done
      have crossed : Crossed { lp with
        head := lp.head + consumed + len, numEntries := numEntries } := past len consumed decoded
      simp only [] at done
      split at done
      · obtain ⟨lp₁, reset, done⟩ := bind_eq_ok done
        obtain ⟨-, rfl⟩ := Prod.mk.inj (Except.ok.inj done)
        exact .inl ⟨[], loose_nil (reset_ok reset).1⟩
      · split at done
        · rw [crossed.recenter] at done
          cases done
        · obtain ⟨-, rfl⟩ := Prod.mk.inj (Except.ok.inj done)
          exact .inr crossed

theorem Loose.popFront_cons {value : Bytes} (loose : Loose lp (value :: l)) :
    ∃ lp', lp.popFront = .ok (some value, lp') ∧ Loose lp' l := by
  have holds := loose.holds
  have count := loose.count
  rw [packed_cons, List.append_assoc] at holds
  rw [List.length_cons] at count
  obtain ⟨lp', popped, holds', less⟩ :=
    holds.popFront (loose.short value List.mem_cons_self) (by simp) (by omega)
  rw [settled_packed (by omega)] at holds'
  refine ⟨lp', popped, holds', by omega, ?_⟩
  exact fun v member => loose.short v (List.mem_cons_of_mem value member)

theorem Loose.popFront_nil {result : Option Bytes} (loose : Loose lp [])
    (done : lp.popFront = .ok (result, lp')) : Sane lp' := by
  refine Sane.popFront_past (.inl ⟨[], loose⟩) ?_ done
  intro len consumed decoded
  obtain ⟨front, back, between⟩ := loose.holds
  have shape : lp.data.drop lp.head = terminator :: back := by
    rw [between.data, between.head, List.append_assoc, List.drop_left]
    rfl
  rw [shape] at decoded
  have two := two_le_of_decodeVarint decoded
  have one : (packed [] ++ [terminator]).length = 1 := rfl
  rw [between.tail, between.head, one]
  omega

theorem Sane.popFront {result : Option Bytes} (sane : Sane lp)
    (done : lp.popFront = .ok (result, lp')) : Sane lp' := by
  rcases sane with ⟨l, loose⟩ | crossed
  · cases l with
    | nil => exact loose.popFront_nil done
    | cons value l =>
        obtain ⟨lp₁, popped, loose₁⟩ := loose.popFront_cons
        obtain rfl : lp₁ = lp' := congrArg Prod.snd (Except.ok.inj (popped.symm.trans done))
        exact .inl ⟨l, loose₁⟩
  · refine Sane.popFront_past (.inr crossed) ?_ done
    intro len consumed _
    have behind : lp.tail < lp.head := crossed
    omega

theorem Ahead.scanLast_nil {place fuel : Nat} {last : Nat × Nat × Nat} (ahead : Ahead lp place []) :
    lp.scanLast fuel place last = .ok (some last) := by
  cases fuel with
  | zero => rfl
  | succ fuel =>
      rw [ListPack.scanLast, ahead.lookAt_nil]
      rfl

theorem Loose.popBack (loose : Loose lp l) :
    ∃ result lp' l', lp.popBack = .ok (result, lp') ∧ Loose lp' l' := by
  by_cases counted : lp.numEntries = 0
  · refine ⟨none, lp, l, ?_, loose⟩
    rw [ListPack.popBack, if_pos counted]
    rfl
  obtain ⟨visible, hidden, rest, rfl, readable, shape⟩ := exists_visible loose.short
  have holds := loose.holds
  have count := loose.count
  rw [packed_append, List.append_assoc, shape] at holds
  rcases List.eq_nil_or_concat visible with rfl | ⟨front, value, rfl⟩
  · have read : slice lp.data (lp.head + ([] : Bytes).length + 0)
        (lp.head + ([] : Bytes).length + 0 + 0) = .ok [] :=
      @Holds.slice_middle lp [] [] (terminator :: rest) _ _ holds rfl rfl
    obtain ⟨lp', popped, holds', -⟩ := @Holds.popBack lp [] (terminator :: rest) [] 0 0 holds
      (by simp) counted (holds.ahead readable).scanLast_nil read
    refine ⟨some [], lp', [], popped, loose_nil ?_⟩
    rwa [List.nil_append, settled, ite_self] at holds'
  · rw [List.concat_eq_append] at holds readable count
    obtain ⟨lp', popped, holds', less⟩ := holds.popBack_append readable counted
    simp only [List.length_append, List.length_singleton] at count
    rw [settled_packed (by omega)] at holds'
    refine ⟨some value, lp', front, popped, holds', by omega, ?_⟩
    exact fun v member => (readable v (List.mem_append_left _ member)).1

theorem Sane.popBack {result : Option Bytes} (sane : Sane lp)
    (done : lp.popBack = .ok (result, lp')) : Sane lp' := by
  rcases sane with ⟨l, loose⟩ | crossed
  · obtain ⟨_, lp₁, l', popped, loose₁⟩ := loose.popBack
    obtain rfl : lp₁ = lp' := congrArg Prod.snd (Except.ok.inj (popped.symm.trans done))
    exact .inl ⟨l', loose₁⟩
  · have nothing : lp.tail - lp.head = 0 :=
      Nat.sub_eq_zero_of_le (Nat.le_of_lt crossed)
    have scanned : lp.scanLast 0 lp.head (lp.head, 0, 0) = .ok (some (lp.head, 0, 0)) := rfl
    rw [ListPack.popBack, nothing, scanned, ok_bind] at done
    split at done
    · obtain ⟨-, rfl⟩ := Prod.mk.inj (Except.ok.inj done)
      exact .inr crossed
    · obtain ⟨element, -, done⟩ := bind_eq_ok done
      obtain ⟨numEntries, -, done⟩ := bind_eq_ok done
      simp only [] at done
      split at done
      · obtain ⟨lp₁, reset, done⟩ := bind_eq_ok done
        obtain ⟨-, rfl⟩ := Prod.mk.inj (Except.ok.inj done)
        exact .inl ⟨[], loose_nil (reset_ok reset).1⟩
      · obtain ⟨data, written, done⟩ := bind_eq_ok done
        obtain ⟨inside, rfl⟩ := write_eq_ok written
        have holds := @holds_written [terminator] lp.data lp.head numEntries inside
        split at done
        · obtain ⟨lp₁, moved, done⟩ := bind_eq_ok done
          obtain ⟨-, rfl⟩ := Prod.mk.inj (Except.ok.inj done)
          obtain ⟨lp₂, moved₂, holds₂, -⟩ := recenter_spec holds (by simp)
          obtain rfl := Except.ok.inj (moved₂.symm.trans moved)
          exact .inl ⟨[], loose_nil holds₂⟩
        · obtain ⟨-, rfl⟩ := Prod.mk.inj (Except.ok.inj done)
          exact .inl ⟨[], loose_nil holds⟩

theorem Sane.pushFront {value : Bytes} (sane : Sane lp) (short : value.length < 2 ^ 63)
    (done : lp.pushFront value = .ok lp') : Sane lp' := by
  rcases sane with ⟨l, loose⟩ | crossed
  · obtain ⟨lp₁, pushed, holds, count⟩ := loose.holds.pushFront value
    obtain rfl := Except.ok.inj (pushed.symm.trans done)
    refine .inl ⟨value :: l, ?_, ?_, List.forall_mem_cons.mpr ⟨short, loose.short⟩⟩
    · rwa [packed_cons, List.append_assoc]
    · rw [count]
      exact Nat.succ_le_succ loose.count
  · rw [crossed.pushFront] at done
    cases done

theorem Sane.pushBack {value : Bytes} (sane : Sane lp) (short : value.length < 2 ^ 63)
    (done : lp.pushBack value = .ok lp') : Sane lp' := by
  rcases sane with ⟨l, loose⟩ | crossed
  · obtain ⟨lp₁, pushed, holds, count⟩ := loose.holds.pushBack value
    obtain rfl := Except.ok.inj (pushed.symm.trans done)
    refine .inl ⟨l ++ [value], ?_, ?_, ?_⟩
    · rwa [packed_append, packed_cons, show packed [] = [] from rfl, List.append_nil]
    · rw [count, List.length_append]
      exact Nat.succ_le_succ loose.count
    · exact List.forall_mem_append.mpr ⟨loose.short, List.forall_mem_singleton.mpr short⟩
  · rw [crossed.pushBack] at done
    cases done

theorem Sane.pushBackTimes {fill : Bytes} {n : Nat} (sane : Sane lp) (short : fill.length < 2 ^ 63)
    (done : pushBackTimes fill n lp = .ok lp') : Sane lp' := by
  induction n generalizing lp with
  | zero =>
      obtain rfl := Except.ok.inj done
      exact sane
  | succ n ih =>
      obtain ⟨lp₁, pushed, done⟩ := bind_eq_ok done
      exact ih (sane.pushBack short pushed) done

theorem Sane.truncateLoop {len fuel : Nat} (sane : Sane lp)
    (done : truncateLoop len fuel lp = .ok lp') : Sane lp' := by
  induction fuel generalizing lp with
  | zero =>
      rw [ListPack.truncateLoop] at done
      split at done
      · cases done
      · obtain rfl := Except.ok.inj done
        exact sane
  | succ fuel ih =>
      rw [ListPack.truncateLoop] at done
      split at done
      · obtain ⟨⟨result, lp₁⟩, popped, done⟩ := bind_eq_ok done
        exact ih (sane.popBack popped) done
      · obtain rfl := Except.ok.inj done
        exact sane

theorem Sane.truncate {len : Nat} (sane : Sane lp) (done : lp.truncate len = .ok lp') :
    Sane lp' := by
  rw [ListPack.truncate] at done
  split at done
  · obtain rfl := Except.ok.inj done
    exact sane
  · exact sane.truncateLoop done

theorem Sane.resize {newLen : Nat} {fill : Bytes} (sane : Sane lp) (short : fill.length < 2 ^ 63)
    (done : lp.resize newLen fill = .ok lp') : Sane lp' := by
  rw [ListPack.resize] at done
  split at done
  · exact sane.pushBackTimes short done
  · split at done
    · exact sane.truncate done
    · obtain rfl := Except.ok.inj done
      exact sane

theorem Sane.clear (done : lp.clear = .ok lp') : Sane lp' := by
  rw [ListPack.clear] at done
  obtain ⟨lp₁, reset, done⟩ := bind_eq_ok done
  obtain rfl := Except.ok.inj done
  obtain ⟨front, back, between⟩ := (reset_ok reset).1
  exact .inl ⟨[], loose_nil ⟨front, back, between.data, between.head, between.tail⟩⟩

theorem Sane.step {c : Call} {result : Option Bytes} (sane : Sane lp)
    (done : lp.step c = .ok (result, lp')) : Sane lp' := by
  cases c with
  | pushFront value =>
      obtain ⟨lp₁, pushed, same⟩ := map_eq_ok done
      obtain ⟨-, rfl⟩ := Prod.mk.inj same
      exact sane.pushFront value.short pushed
  | pushBack value =>
      obtain ⟨lp₁, pushed, same⟩ := map_eq_ok done
      obtain ⟨-, rfl⟩ := Prod.mk.inj same
      exact sane.pushBack value.short pushed
  | popFront => exact sane.popFront done
  | popBack => exact sane.popBack done
  | truncate len =>
      obtain ⟨lp₁, cut, same⟩ := map_eq_ok done
      obtain ⟨-, rfl⟩ := Prod.mk.inj same
      exact sane.truncate cut
  | resize newLen fill =>
      obtain ⟨lp₁, resized, same⟩ := map_eq_ok done
      obtain ⟨-, rfl⟩ := Prod.mk.inj same
      exact sane.resize fill.short resized
  | clear =>
      obtain ⟨lp₁, cleared, same⟩ := map_eq_ok done
      obtain ⟨-, rfl⟩ := Prod.mk.inj same
      exact Sane.clear cleared

theorem Loose.remove_found {i : Nat} {place : Nat × Nat × Nat} (loose : Loose lp l)
    (found : lp.findElementPos i = .ok (some place)) (aligned : Aligned lp i) :
    ∃ lp', lp.remove i = .ok (true, lp') ∧ Loose lp' (l.eraseIdx i) ∧
      lp'.numEntries + 1 = lp.numEntries := by
  obtain ⟨start, len, consumed⟩ := place
  obtain ⟨pre, value, post, rfl, rfl, -, rfl, rfl, rfl⟩ := loose.exists_found found
  obtain ⟨lp', content, removed, holds, less, iff⟩ := loose.remove found
  obtain rfl := iff.mp aligned
  have left : (pre ++ value :: post).eraseIdx pre.length = pre ++ post := by
    rw [List.eraseIdx_append_of_length_le (Nat.le_refl _), Nat.sub_self, List.eraseIdx_cons_zero]
  have count := loose.count
  rw [List.length_append, List.length_cons] at count
  rw [left]
  refine ⟨lp', removed, ⟨?_, ?_, ?_⟩, less⟩
  · rwa [packed_append, List.append_assoc]
  · rw [List.length_append]
    omega
  · intro v member
    rcases List.mem_append.mp member with before | behind
    · exact loose.short v (List.mem_append_left _ before)
    · exact loose.short v (List.mem_append_right _ (List.mem_cons_of_mem value behind))

theorem remove_cases {i : Nat} {result : Bool} (done : lp.remove i = .ok (result, lp')) :
    lp' = lp ∨ (∃ first, lp.popFront = .ok (first, lp')) ∨
      ∃ place, lp.findElementPos i = .ok (some place) := by
  rw [ListPack.remove] at done
  split at done
  · exact .inl (congrArg Prod.snd (Except.ok.inj done)).symm
  · split at done
    · obtain ⟨⟨first, lp₁⟩, popped, done⟩ := bind_eq_ok done
      obtain ⟨-, rfl⟩ := Prod.mk.inj (Except.ok.inj done)
      exact .inr (.inl ⟨first, popped⟩)
    · obtain ⟨place, found, done⟩ := bind_eq_ok done
      cases place with
      | none => exact .inl (congrArg Prod.snd (Except.ok.inj done)).symm
      | some place => exact .inr (.inr ⟨place, found⟩)

theorem Sane.remove {i : Nat} {result : Bool} (sane : Sane lp) (aligned : Aligned lp i)
    (done : lp.remove i = .ok (result, lp')) : Sane lp' := by
  rcases remove_cases done with rfl | ⟨first, popped⟩ | ⟨place, found⟩
  · exact sane
  · exact sane.popFront popped
  · rcases sane with ⟨l, loose⟩ | crossed
    · obtain ⟨lp₁, removed, loose₁, -⟩ := loose.remove_found found aligned
      obtain rfl : lp₁ = lp' := congrArg Prod.snd (Except.ok.inj (removed.symm.trans done))
      exact .inl ⟨_, loose₁⟩
    · rw [crossed.findElementPos] at found
      cases found

theorem Sane.edit {e : Edit} (sane : Sane lp) (aligned : ∀ index, e = .remove index →
    Aligned lp index) (done : lp.edit e = .ok lp') : Sane lp' := by
  cases e with
  | call c =>
      obtain ⟨⟨result, lp₁⟩, stepped, rfl⟩ := map_eq_ok done
      exact sane.step stepped
  | remove index =>
      obtain ⟨⟨result, lp₁⟩, removed, rfl⟩ := map_eq_ok done
      exact sane.remove (aligned index rfl) removed

theorem Sane.removesOne_iff (sane : Sane lp) (index : Nat) :
    RemovesOne lp index ↔ Aligned lp index := by
  rcases sane with ⟨l, loose⟩ | crossed
  · exact loose.removesOne_iff index
  · have nothing := crossed.findElementPos index
    constructor
    · intro _ start len consumed found
      rw [nothing] at found
      cases found
    · intro _ start len consumed found
      rw [nothing] at found
      cases found

theorem Sane.run {es : List Edit} (sane : Sane lp) (aligned : AtRemovals Aligned lp es)
    (ran : es.foldlM ListPack.edit lp = .ok lp') : Sane lp' := by
  induction es generalizing lp with
  | nil =>
      obtain rfl := Except.ok.inj ran
      exact sane
  | cons e es ih =>
      rw [List.foldlM_cons] at ran
      obtain ⟨lp₁, edited, ran⟩ := bind_eq_ok ran
      exact ih (sane.edit aligned.1 edited) (aligned.2 lp₁ edited) ran

theorem Sane.atRemovals_iff {es : List Edit} (sane : Sane lp) :
    AtRemovals RemovesOne lp es ↔ AtRemovals Aligned lp es := by
  induction es generalizing lp with
  | nil => exact Iff.rfl
  | cons e es ih =>
      have here : (∀ index, e = .remove index → RemovesOne lp index) ↔
          ∀ index, e = .remove index → Aligned lp index :=
        forall₂_congr fun index _ => sane.removesOne_iff index
      rw [AtRemovals, AtRemovals, here]
      refine and_congr_right fun aligned => forall₂_congr fun lp₁ edited => ?_
      exact ih (sane.edit aligned edited)

end

theorem sane_new : Sane new := .inl ⟨[], loose_nil packs_new.holds⟩

/-- In a run every removal takes one entry out exactly when every removal is aligned. -/
theorem allRemoveOne_iff_aligned (es : List Edit) :
    AtRemovals RemovesOne new es ↔ AtRemovals Aligned new es := sane_new.atRemovals_iff

/-- Where all removals so far were aligned, the next one takes one entry out, at whatever index,
exactly when it is aligned too. -/
theorem removesOne_iff_aligned (es : List Edit) (aligned : AtRemovals Aligned new es)
    (lp : ListPack) (ran : es.foldlM edit new = .ok lp) (index : Nat) :
    RemovesOne lp index ↔ Aligned lp index :=
  (sane_new.run aligned ran).removesOne_iff index

def shortElement (byte : UInt8) : Slice := ⟨[byte], by rw [List.length_singleton]; decide⟩

/-- Three entries of one byte. -/
def threeEntries : List Edit :=
  [.call (.pushBack (shortElement 1)), .call (.pushBack (shortElement 2)),
    .call (.pushBack (shortElement 3))]

theorem threeEntries_run :
    ∃ lp, threeEntries.foldlM edit new = .ok lp ∧ lp.numEntries = 3 := by
  have done : ((threeEntries.foldlM edit new).map fun lp => lp.numEntries) = .ok 3 := by
    decide +kernel
  exact map_eq_ok done

theorem removesOne_iff_aligned_last :
    ∃ lp, threeEntries.foldlM edit new = .ok lp ∧ RemovesOne lp 2 := by
  obtain ⟨lp, ran, count⟩ := threeEntries_run
  have last : Aligned lp 2 := fun _ _ _ _ => .inr (.inl count.symm)
  have aligned : AtRemovals Aligned new threeEntries := by
    refine ⟨?_, fun _ _ => ⟨?_, fun _ _ => ⟨?_, fun _ _ => trivial⟩⟩⟩
    · exact fun index removal => by cases removal
    · exact fun index removal => by cases removal
    · exact fun index removal => by cases removal
  exact ⟨lp, ran, (removesOne_iff_aligned threeEntries aligned lp ran 2).mpr last⟩

set_option synthInstance.maxSize 512 in
/-- The left side is copied over the entry behind the one that goes: of 1, 2 and 3 the removal of 2
leaves 2 and 1. -/
theorem remove_middle_corrupts : ∃ lp lp', threeEntries.foldlM edit new = .ok lp ∧
    lp.remove 1 = .ok (true, lp') ∧ lp'.iter = .ok [[2], [1]] ∧ ¬RemovesOne lp 1 := by
  have facts : (threeEntries.foldlM edit new >>= fun lp => do
      let place ← lp.findElementPos 1
      let (removed, lp') ← lp.remove 1
      let left ← lp'.iter
      let content ← slice lp'.data lp'.head lp'.tail
      let before ← slice lp.data lp.head 514
      let after ← slice lp.data 516 lp.tail
      pure (place, removed, left, content, before, after)) =
        .ok (some (514, 1, 1), true, [[2], [1]], [1, 2, 1, 1, 255], [1, 1], [1, 3, 255]) := by
    decide +kernel
  obtain ⟨lp, ran, facts⟩ := bind_eq_ok facts
  obtain ⟨place, found, facts⟩ := bind_eq_ok facts
  obtain ⟨⟨result, lp'⟩, removed, facts⟩ := bind_eq_ok facts
  obtain ⟨left, iter, facts⟩ := bind_eq_ok facts
  obtain ⟨content, whole, facts⟩ := bind_eq_ok facts
  obtain ⟨before, first, facts⟩ := bind_eq_ok facts
  obtain ⟨after, second, facts⟩ := bind_eq_ok facts
  simp only [pure, Except.pure, Except.ok.injEq, Prod.mk.injEq] at facts
  obtain ⟨rfl, rfl, rfl, rfl, rfl, rfl⟩ := facts
  refine ⟨lp, lp', ran, removed, iter, ?_⟩
  intro one
  obtain ⟨lp₁, before, after, removed₁, before', after', whole', -⟩ := one 514 1 1 found
  obtain rfl : lp' = lp₁ := congrArg Prod.snd (Except.ok.inj (removed.symm.trans removed₁))
  obtain rfl := Except.ok.inj (first.symm.trans before')
  obtain rfl := Except.ok.inj (second.symm.trans after')
  exact absurd (whole.symm.trans whole') (by decide)

/-- The entries lie between `head` and the terminator, as many as are counted. -/
structure Laid (lp : ListPack) (l : List Bytes) : Prop where
  order : lp.head < lp.tail
  inside : lp.tail ≤ lp.data.length
  ended : index lp.data (lp.tail - 1) = .ok terminator
  region : slice lp.data lp.head (lp.tail - 1) = .ok (packed l)
  count : l.length = lp.numEntries

/-- The used and the free bytes make up the capacity. -/
def Accounted (lp : ListPack) : Prop :=
  ∃ used free, lp.usedBytes = .ok used ∧ lp.freeBytes = .ok free ∧ used + free = lp.capacity

/-- No element of 127 bytes or more is written. -/
def Edit.Short : Edit → Prop
  | .call (.pushFront value) => value.bytes.length < 127
  | .call (.pushBack value) => value.bytes.length < 127
  | .call (.resize _ fill) => fill.bytes.length < 127
  | _ => True

section

variable {lp : ListPack} {l : List Bytes}

theorem Packs.laid (packs : Packs lp l) : Laid lp l := by
  obtain ⟨front, back, between⟩ := packs.holds
  have tail := between.tail
  have size := between.length
  rw [List.length_append, List.length_singleton] at tail size
  have head := between.head
  refine ⟨by omega, by omega, ?_, ?_, packs.count.symm⟩
  · have shape : lp.data = (front ++ packed l) ++ terminator :: back := by
      rw [between.data]
      simp only [List.append_assoc, List.cons_append, List.nil_append]
    rw [shape]
    apply index_middle
    rw [List.length_append]
    omega
  · have stop : lp.tail - 1 = lp.head + (packed l).length := by omega
    rw [stop]
    exact packs.holds.slice_front

/-- Every entry takes a byte and the terminator one more, so there are more used bytes than
entries. -/
theorem Laid.freeBytes (laid : Laid lp l) : lp.freeBytes = .error .underflow := by
  have order := laid.order
  have size := length_of_slice laid.region
  have entries := length_le_packed l
  have count := laid.count
  have short : ¬ lp.tail - lp.head ≤ lp.numEntries := by omega
  rw [ListPack.freeBytes, usedBytes, sub_of_le order.le, ok_bind, len, sub, if_neg short]

theorem Laid.not_accounted (laid : Laid lp l) : ¬Accounted lp := by
  rintro ⟨used, free, -, taken, -⟩
  rw [laid.freeBytes] at taken
  cases taken

theorem not_clashes {n : Nat} (short : n < 127) : ¬Clashes n := fun clash =>
  absurd clash.1 (Nat.not_le_of_lt (Nat.lt_succ_of_lt short))

theorem Edit.Short.harmless {c : Call} (short : (Edit.call c).Short) : Harmless l c := by
  cases c with
  | pushFront value => exact not_clashes short
  | pushBack value => exact not_clashes short
  | resize newLen fill => exact fun _ => not_clashes short
  | popFront => trivial
  | popBack => trivial
  | truncate len => trivial
  | clear => trivial

theorem Packs.loose (packs : Packs lp l) (readable : Readable l) : Loose lp l :=
  ⟨packs.holds, packs.count.ge, fun value member => (readable value member).1⟩

theorem Packs.remove (packs : Packs lp l) (readable : Readable l) {i : Nat}
    (aligned : Aligned lp i) :
    ∃ result lp', lp.remove i = .ok (result, lp') ∧ Packs lp' (l.eraseIdx i) := by
  by_cases inside : i < l.length
  · have found : ∃ place, lp.findElementPos i = .ok (some place) := by
      have within : ¬ lp.numEntries ≤ i := by
        rw [packs.count]
        omega
      rw [findElementPos, if_neg within, (packs.ahead_all readable).findLoop packs.enough
        (Nat.zero_le i), Nat.sub_zero, List.getElem?_eq_getElem inside]
      exact ⟨_, rfl⟩
    obtain ⟨place, found⟩ := found
    obtain ⟨lp', removed, loose, less⟩ := (packs.loose readable).remove_found found aligned
    have count := packs.count
    refine ⟨true, lp', removed, loose.holds, ?_⟩
    rw [List.length_eraseIdx, if_pos inside]
    omega
  · have beyond : lp.numEntries ≤ i := by
      rw [packs.count]
      omega
    refine ⟨false, lp, ?_, ?_⟩
    · rw [ListPack.remove, if_pos beyond]
      rfl
    · rwa [List.eraseIdx_of_length_le (by omega)]

theorem Packs.edit (packs : Packs lp l) (readable : Readable l) {e : Edit} (short : e.Short)
    (aligned : ∀ index, e = .remove index → Aligned lp index) :
    ∃ lp' l', lp.edit e = .ok lp' ∧ Packs lp' l' ∧ Readable l' := by
  cases e with
  | call c =>
      obtain ⟨lp', stepped, packs', readable'⟩ := packs.step readable (short.harmless)
      refine ⟨lp', _, ?_, packs', readable'⟩
      rw [ListPack.edit, stepped]
      rfl
  | remove index =>
      obtain ⟨result, lp', removed, packs'⟩ := packs.remove readable (aligned index rfl)
      refine ⟨lp', _, ?_, packs', readable.sublist (List.eraseIdx_sublist l index)⟩
      rw [ListPack.edit, removed]
      rfl

theorem Packs.edits {es : List Edit} (packs : Packs lp l) (readable : Readable l)
    (short : ∀ e ∈ es, e.Short) (aligned : AtRemovals Aligned lp es) :
    ∃ lp' l', es.foldlM ListPack.edit lp = .ok lp' ∧ Packs lp' l' ∧ Readable l' := by
  induction es generalizing lp l with
  | nil => exact ⟨lp, l, rfl, packs, readable⟩
  | cons e es ih =>
      obtain ⟨lp₁, l₁, edited, packs₁, readable₁⟩ :=
        packs.edit readable (short e List.mem_cons_self) aligned.1
      rw [List.foldlM_cons, edited, ok_bind]
      exact ih packs₁ readable₁ (fun e' member => short e' (List.mem_cons_of_mem e member))
        (aligned.2 lp₁ edited)

end

/-- In no state do the used and the free bytes make up the capacity, since the free ones are taken
from the number of entries. The rest of the layout is kept in a run of short elements whose removals
are aligned. -/
theorem layout_without_free (es : List Edit) :
    (¬∃ lp, es.foldlM edit new = .ok lp ∧ (∃ l, Laid lp l) ∧ Accounted lp) ∧
      ((∀ e ∈ es, e.Short) → AtRemovals Aligned new es →
        ∃ lp l, es.foldlM edit new = .ok lp ∧ Laid lp l ∧ Shows lp l ∧
          lp.freeBytes = .error .underflow) := by
  constructor
  · rintro ⟨lp, -, ⟨l, laid⟩, accounted⟩
    exact laid.not_accounted accounted
  · intro short aligned
    obtain ⟨lp, l, ran, packs, readable⟩ := packs_new.edits
      (fun v none' => absurd none' List.not_mem_nil) short aligned
    exact ⟨lp, l, ran, packs.laid, packs.shows readable, packs.laid.freeBytes⟩

/-- The empty list pack: one byte is used, and the free ones would be fewer than none. -/
theorem new_not_accounted :
    new.capacity = 1024 ∧ new.usedBytes = .ok 1 ∧ new.freeBytes = .error .underflow ∧
      ¬((∃ l, Laid new l) ∧ Accounted new) := by
  refine ⟨List.length_set.trans List.length_replicate, rfl, rfl, ?_⟩
  rintro ⟨-, used, free, -, taken, -⟩
  cases taken

end Zumic.Database.ListPack
