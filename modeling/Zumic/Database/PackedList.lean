/- A list pack is a list of byte strings as long as no length begins with the terminator. -/

import Zumic.Database.PackedBuffer

namespace Zumic.Database.ListPack

open Lib.Buffer Lib.ByteString

/-- The same calls on a plain list. -/
def plainStep (l : List Bytes) : Call → Option Bytes × List Bytes
  | .pushFront value => (none, value.bytes :: l)
  | .pushBack value => (none, l ++ [value.bytes])
  | .popFront => (l.head?, l.tail)
  | .popBack => (l.getLast?, l.dropLast)
  | .truncate len => (none, l.take len)
  | .resize newLen fill =>
      (none, l.take newLen ++ List.replicate (newLen - l.length) fill.bytes)
  | .clear => (none, [])

def plainRun : List Bytes → List Call → List (Option Bytes) × List Bytes
  | l, [] => ([], l)
  | l, c :: calls =>
      let (result, l) := plainStep l c
      let (results, l) := plainRun l calls
      (result :: results, l)

/-- All that a list pack shows of its content. -/
structure Shows (lp : ListPack) (l : List Bytes) : Prop where
  len : lp.len = l.length
  get : ∀ i, lp.get i = .ok l[i]?
  iter : lp.iter = .ok l
  iterRev : lp.iterRev = .ok l.reverse

/-- A sequence of calls on an empty list pack returns what it returns on a list and leaves a pack
that shows this list. -/
def Faithful (calls : List Call) : Prop :=
  ∃ lp, run new calls = .ok ((plainRun [] calls).1, lp) ∧ Shows lp (plainRun [] calls).2

/-- No call writes an element whose length clashes with the terminator. -/
def Harmless (l : List Bytes) : Call → Prop
  | .pushFront value => ¬Clashes value.bytes.length
  | .pushBack value => ¬Clashes value.bytes.length
  | .resize newLen fill => l.length < newLen → ¬Clashes fill.bytes.length
  | _ => True

instance (l : List Bytes) : DecidablePred (Harmless l)
  | .pushFront value => inferInstanceAs (Decidable ¬Clashes value.bytes.length)
  | .pushBack value => inferInstanceAs (Decidable ¬Clashes value.bytes.length)
  | .resize newLen fill =>
      inferInstanceAs (Decidable (l.length < newLen → ¬Clashes fill.bytes.length))
  | .popFront => isTrue trivial
  | .popBack => isTrue trivial
  | .truncate _ => isTrue trivial
  | .clear => isTrue trivial

def AllHarmless : List Bytes → List Call → Prop
  | _, [] => True
  | l, c :: calls => Harmless l c ∧ AllHarmless (plainStep l c).2 calls

theorem mapM_of_forall₂ {α β : Type} {f : α → Except Fault β} {l : List α} {l' : List β}
    (each : List.Forall₂ (fun a b => f a = .ok b) l l') : l.mapM f = .ok l' := by
  induction each with
  | nil => rfl
  | cons first _ ih =>
      rw [List.mapM_cons, first, ih]
      rfl

theorem packs_new : Packs new [] := by
  refine ⟨⟨List.replicate 512 0, List.replicate 511 0, ?_, ?_, ?_⟩, rfl⟩
  · have inside : 512 < (List.replicate 1024 (0 : UInt8)).length := by
      rw [List.length_replicate]
      decide
    rw [new, List.set_eq_take_append_cons_drop, if_pos inside, List.take_replicate,
      List.drop_replicate]
    simp only [packed, List.flatMap_nil, List.nil_append, List.append_assoc,
      List.singleton_append, Nat.reduceLeDiff, inf_of_le_left, Nat.reduceAdd, Nat.reduceSub]
  · exact (List.length_replicate).symm
  · rw [List.length_replicate]
    rfl

theorem Packs.shows {lp : ListPack} {l : List Bytes} (packs : Packs lp l) (readable : Readable l) :
    Shows lp l := by
  have ahead := packs.ahead_all readable
  refine ⟨packs.count, ?_, ahead.iterLoop packs.enough, ?_⟩
  · intro i
    rw [ListPack.get]
    split
    · rename_i beyond
      rw [packs.count] at beyond
      rw [List.getElem?_eq_none beyond]
      rfl
    · exact ahead.getLoop packs.enough (Nat.zero_le i)
  · rw [ListPack.iterRev, collectElementPositions, ahead.positionsLoop packs.enough, ok_bind]
    exact mapM_of_forall₂ (List.forall₂_reverse_iff.mpr ahead.slices)

section

variable {lp : ListPack} {l : List Bytes}

theorem Packs.resize (packs : Packs lp l) (readable : Readable l) (newLen : Nat) (fill : Bytes) :
    ∃ lp', lp.resize newLen fill = .ok lp' ∧
      Packs lp' (l.take newLen ++ List.replicate (newLen - l.length) fill) := by
  rw [ListPack.resize, packs.count]
  split
  · rename_i longer
    rw [List.take_of_length_le (by omega)]
    exact packs.pushBackTimes fill (newLen - l.length)
  · rename_i short
    have nothing : newLen - l.length = 0 := by omega
    rw [nothing, List.replicate_zero, List.append_nil]
    split
    · exact packs.truncate readable newLen
    · rw [List.take_of_length_le (by omega)]
      exact ⟨lp, rfl, packs⟩

theorem Readable.sublist {l' : List Bytes} (readable : Readable l) (sublist : l'.Sublist l) :
    Readable l' :=
  fun value member => readable value (sublist.subset member)

theorem Readable.cons (readable : Readable l) {value : Slice}
    (clear : ¬Clashes value.bytes.length) : Readable (value.bytes :: l) := by
  intro v member
  rcases List.mem_cons.mp member with rfl | old
  · exact ⟨value.short, clear⟩
  · exact readable v old

theorem Readable.append {l' : List Bytes} (readable : Readable l) (more : Readable l') :
    Readable (l ++ l') := by
  intro v member
  rcases List.mem_append.mp member with old | new
  · exact readable v old
  · exact more v new

theorem Packs.step (packs : Packs lp l) (readable : Readable l) {c : Call} (harmless : Harmless l c) :
    ∃ lp', lp.step c = .ok ((plainStep l c).1, lp') ∧ Packs lp' (plainStep l c).2 ∧
      Readable (plainStep l c).2 := by
  cases c with
  | pushFront value =>
      obtain ⟨lp', pushed, packs'⟩ := packs.pushFront value.bytes
      refine ⟨lp', ?_, packs', readable.cons harmless⟩
      rw [ListPack.step, pushed]
      rfl
  | pushBack value =>
      obtain ⟨lp', pushed, packs'⟩ := packs.pushBack value.bytes
      refine ⟨lp', ?_, packs', readable.append ?_⟩
      · rw [ListPack.step, pushed]
        rfl
      · exact Readable.cons (fun v none' => absurd none' List.not_mem_nil) harmless
  | popFront =>
      cases l with
      | nil => exact ⟨lp, packs.popFront_nil, packs, readable⟩
      | cons value l =>
          obtain ⟨lp', popped, packs'⟩ :=
            packs.popFront_cons (readable value List.mem_cons_self).1
          exact ⟨lp', popped, packs', readable.sublist (List.sublist_cons_self value l)⟩
  | popBack =>
      rcases List.eq_nil_or_concat l with rfl | ⟨front, value, rfl⟩
      · exact ⟨lp, packs.popBack_nil, packs, readable⟩
      · rw [List.concat_eq_append] at packs readable ⊢
        obtain ⟨lp', popped, packs'⟩ := packs.popBack_append readable
        refine ⟨lp', ?_, ?_, ?_⟩
        · rw [ListPack.step, popped, plainStep, List.getLast?_concat]
        · rw [plainStep, List.dropLast_concat]
          exact packs'
        · rw [plainStep, List.dropLast_concat]
          exact readable.append_left
  | truncate len =>
      obtain ⟨lp', cut, packs'⟩ := packs.truncate readable len
      refine ⟨lp', ?_, packs', readable.sublist (List.take_sublist len l)⟩
      rw [ListPack.step, cut]
      rfl
  | resize newLen fill =>
      obtain ⟨lp', resized, packs'⟩ := packs.resize readable newLen fill.bytes
      refine ⟨lp', ?_, packs', (readable.sublist (List.take_sublist newLen l)).append ?_⟩
      · rw [ListPack.step, resized]
        rfl
      · intro v member
        obtain ⟨some', rfl⟩ := List.mem_replicate.mp member
        exact ⟨fill.short, harmless (by omega)⟩
  | clear =>
      obtain ⟨lp', cleared, packs'⟩ := packs.clear
      refine ⟨lp', ?_, packs', fun v none' => absurd none' List.not_mem_nil⟩
      rw [ListPack.step, cleared]
      rfl

/-- An element whose length clashes hides itself and all that follows it. -/
theorem Packs.iter_clash {l' : List Bytes} {value : Bytes} (packs : Packs lp (l ++ value :: l'))
    (readable : Readable l) (clash : Clashes value.length) : lp.iter = .ok l := by
  obtain ⟨first, rest, head, same⟩ := encodeVarint_head value.length
  have ended : packed (value :: l') ++ [terminator] =
      terminator :: (rest ++ value ++ packed l' ++ [terminator]) := by
    rw [packed_cons, encoded, head, same.mpr clash]
    simp only [List.append_assoc, List.cons_append]
  have enough := packs.enough
  rw [List.length_append] at enough
  exact (packs.ahead readable ⟨_, ended⟩).iterLoop (by omega)

theorem Packs.not_shows (packs : Packs lp l) (readable : Readable l) {c : Call}
    (harmful : ¬Harmless l c) {lp' : ListPack} {result : Option Bytes}
    (stepped : lp.step c = .ok (result, lp')) : ¬Shows lp' (plainStep l c).2 := by
  intro shows
  have iter := shows.iter
  cases c with
  | pushFront value =>
      have clash : Clashes value.bytes.length := not_not.mp harmful
      obtain ⟨lp₁, pushed, packs₁⟩ := packs.pushFront value.bytes
      rw [ListPack.step, pushed] at stepped
      obtain rfl : lp₁ = lp' := congrArg Prod.snd (Except.ok.inj stepped)
      have hidden := Packs.iter_clash (l := []) packs₁
        (fun v none' => absurd none' List.not_mem_nil) clash
      rw [hidden] at iter
      exact List.cons_ne_nil _ _ (Except.ok.inj iter).symm
  | pushBack value =>
      have clash : Clashes value.bytes.length := not_not.mp harmful
      obtain ⟨lp₁, pushed, packs₁⟩ := packs.pushBack value.bytes
      rw [ListPack.step, pushed] at stepped
      obtain rfl : lp₁ = lp' := congrArg Prod.snd (Except.ok.inj stepped)
      rw [packs₁.iter_clash readable clash] at iter
      have size := congrArg List.length (Except.ok.inj iter)
      simp [plainStep] at size
  | resize newLen fill =>
      obtain ⟨longer, clear⟩ := Classical.not_imp.mp harmful
      have clash : Clashes fill.bytes.length := not_not.mp clear
      obtain ⟨lp₁, resized, packs₁⟩ := packs.resize readable newLen fill.bytes
      rw [ListPack.step, resized] at stepped
      obtain rfl : lp₁ = lp' := congrArg Prod.snd (Except.ok.inj stepped)
      obtain ⟨n, more⟩ : ∃ n, newLen - l.length = n + 1 := ⟨newLen - l.length - 1, by omega⟩
      rw [plainStep] at iter
      rw [List.take_of_length_le (by omega), more, List.replicate_succ] at packs₁ iter
      rw [packs₁.iter_clash readable clash] at iter
      have size := congrArg List.length (Except.ok.inj iter)
      simp at size
  | popFront => exact harmful trivial
  | popBack => exact harmful trivial
  | truncate len => exact harmful trivial
  | clear => exact harmful trivial

theorem run_cons {c : Call} {calls : List Call} {result : Option Bytes} {lp' : ListPack}
    (stepped : lp.step c = .ok (result, lp')) :
    run lp (c :: calls) = (run lp' calls).map fun r => (result :: r.1, r.2) := by
  rw [run, stepped, ok_bind]
  simp only []
  cases run lp' calls with
  | error e => rfl
  | ok r => rfl

/-- The same from any state. -/
def FaithfulFrom (lp : ListPack) (l : List Bytes) (calls : List Call) : Prop :=
  ∃ lp', run lp calls = .ok ((plainRun l calls).1, lp') ∧ Shows lp' (plainRun l calls).2

theorem faithfulFrom_cons {c : Call} {calls : List Call} {lp' : ListPack}
    (stepped : lp.step c = .ok ((plainStep l c).1, lp')) :
    FaithfulFrom lp l (c :: calls) ↔ FaithfulFrom lp' (plainStep l c).2 calls := by
  rw [FaithfulFrom, run_cons stepped]
  constructor
  · rintro ⟨lp₂, ran, shows⟩
    cases rest : run lp' calls with
    | error e =>
        rw [rest] at ran
        cases ran
    | ok r =>
        rw [rest] at ran
        have same : ((plainStep l c).1 :: r.1, r.2) =
            ((plainStep l c).1 :: (plainRun (plainStep l c).2 calls).1, lp₂) :=
          Except.ok.inj ran
        obtain ⟨results, last⟩ := Prod.mk.inj same
        refine ⟨r.2, ?_, last ▸ shows⟩
        rw [rest, ← (List.cons.inj results).2]
  · rintro ⟨lp₂, ran, shows⟩
    refine ⟨lp₂, ?_, shows⟩
    rw [ran]
    rfl

theorem faithfulFrom_iff (packs : Packs lp l) (readable : Readable l) (calls : List Call) :
    (∀ n, FaithfulFrom lp l (calls.take n)) ↔ AllHarmless l calls := by
  induction calls generalizing lp l with
  | nil =>
      have shown : FaithfulFrom lp l [] := ⟨lp, rfl, packs.shows readable⟩
      exact ⟨fun _ => trivial, fun _ n => by rwa [List.take_nil]⟩
  | cons c calls ih =>
      by_cases harmless : Harmless l c
      · obtain ⟨lp', stepped, packs', readable'⟩ := packs.step readable harmless
        rw [AllHarmless, ← ih packs' readable']
        constructor
        · exact fun each => ⟨harmless, fun n => (faithfulFrom_cons stepped).mp (each (n + 1))⟩
        · rintro ⟨-, each⟩ n
          cases n with
          | zero => exact ⟨lp, rfl, packs.shows readable⟩
          | succ n => exact (faithfulFrom_cons stepped).mpr (each n)
      · constructor
        · intro each
          obtain ⟨lp', ran, shows⟩ := each 1
          cases stepped : lp.step c with
          | error e =>
              rw [List.take_succ_cons, run, stepped] at ran
              cases ran
          | ok r =>
              rw [List.take_succ_cons, run_cons stepped] at ran
              have same : r.2 = lp' := congrArg Prod.snd (Except.ok.inj ran)
              exact absurd (same ▸ shows) (packs.not_shows readable harmless stepped)
        · exact fun all => absurd all.1 harmless

end

/-- A list pack is a list of byte strings, in every state of a sequence of calls, exactly when no
call of it writes an element whose length clashes with the terminator. -/
theorem faithful_iff_harmless (calls : List Call) :
    (∀ n, Faithful (calls.take n)) ↔ AllHarmless [] calls :=
  faithfulFrom_iff packs_new (fun _ none' => absurd none' List.not_mem_nil) calls

/-- An element of 255 bytes. -/
def longElement : Slice := ⟨List.replicate 255 7, by rw [List.length_replicate]; decide⟩

/-- It is counted and cannot be read, and the next `pop_back` gives an empty string for it. -/
theorem longElement_hidden :
    ((run new [.pushBack longElement]).bind fun r => r.2.iter) = .ok [] ∧
      ((run new [.pushBack longElement]).bind fun r => r.2.get 0) = .ok none ∧
      ((run new [.pushBack longElement, .popBack]).map fun r => r.1) = .ok [none, some []] ∧
      ¬Faithful [.pushBack longElement] := by
  have hidden : ((run new [.pushBack longElement]).bind fun r => r.2.iter) = .ok [] := by
    decide +kernel
  refine ⟨hidden, by decide +kernel, by decide +kernel, ?_⟩
  rintro ⟨lp, ran, shows⟩
  rw [ran] at hidden
  have iter : lp.iter = .ok [] := hidden
  rw [shows.iter] at iter
  exact List.cons_ne_nil _ _ (Except.ok.inj iter)

end Zumic.Database.ListPack
