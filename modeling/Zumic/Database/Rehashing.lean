/- The dictionary keeps its entries at every point of a rehash. -/

import Zumic.Database.Buckets

namespace Zumic.Database.Dict

open Lib Lib.Buffer HashTable

variable {K V : Type} (hash : K → UInt64)

/-- The buckets before an index are empty. -/
def Below (idx : Nat) (t : HashTable K V) : Prop :=
  ∀ i < idx, ∀ chain, t.buckets[i]? = some chain → chain = []

/-- Between two buckets of a rehash: both tables are in order, and those of the first one up to the
cursor are empty. -/
structure Moving (d : Dict K V) (idx : Nat) (m : List (K × V)) : Prop where
  first : d.ht0.Good hash
  second : d.ht1.Good hash
  room : d.ht1.buckets ≠ []
  below : Below idx d.ht0
  shown : (d.ht0.items ++ d.ht1.items).Perm m

/-- The entries of a dictionary, in any order: each key is in one of the tables, and there once. -/
structure Holds (d : Dict K V) (m : List (K × V)) : Prop where
  first : d.ht0.Good hash
  second : d.ht1.Good hash
  idle : d.rehashIdx = none → d.ht1.buckets = []
  busy : ∀ idx, d.rehashIdx = some idx → d.ht1.buckets ≠ [] ∧ Below idx d.ht0
  shown : (d.ht0.items ++ d.ht1.items).Perm m
  distinct : (Assoc.keys m).Nodup

variable {hash} {d : Dict K V} {m : List (K × V)} {idx : Nat}

theorem Holds.moving (holds : d.Holds hash m) (cursor : d.rehashIdx = some idx) :
    d.Moving hash idx m where
  first := holds.first
  second := holds.second
  room := (holds.busy idx cursor).1
  below := (holds.busy idx cursor).2
  shown := holds.shown

theorem Moving.paused (moving : d.Moving hash idx m) (distinct : (Assoc.keys m).Nodup) :
    Holds hash { d with rehashIdx := some idx } m where
  first := moving.first
  second := moving.second
  idle rest := by cases rest
  busy idx' cursor := by
    cases cursor
    exact ⟨moving.room, moving.below⟩
  shown := moving.shown
  distinct := distinct

theorem Moving.promote (moving : d.Moving hash idx m) (past : d.ht0.capacity ≤ idx)
    (distinct : (Assoc.keys m).Nodup) : d.promote.Holds hash m := by
  have emptied : d.ht0.items = [] := by
    refine List.flatten_eq_nil_iff.mpr fun chain member => ?_
    obtain ⟨i, bound, here⟩ := List.mem_iff_getElem.mp member
    exact moving.below i (Nat.lt_of_lt_of_le bound past) chain
      (here ▸ List.getElem?_eq_getElem bound)
  refine ⟨moving.second, good_empty, fun _ => rfl, fun idx' cursor => ?_, ?_, distinct⟩
  · cases cursor
  · have shown := moving.shown
    rw [emptied, List.nil_append] at shown
    show (d.ht1.items ++ []).Perm m
    rwa [List.append_nil]

theorem Moving.moveBucket (moving : d.Moving hash idx m) {chain : List (K × V)}
    (there : d.ht0.buckets[idx]? = some chain) :
    ∃ d', moveBucket hash idx chain d = .ok d' ∧ d'.Moving hash (idx + 1) m ∧
      d'.ht0.capacity = d.ht0.capacity := by
  obtain ⟨rest, listed, -, change⟩ := moving.first.focus there
  have total : d.ht0.used = chain.length + rest.length := by
    rw [moving.first.counted, listed.length_eq, List.length_append]
  have enough : chain.length ≤ d.ht0.used := by omega
  have left : d.ht0.used - chain.length = ([] ++ rest).length := by
    rw [List.nil_append]
    omega
  obtain ⟨good, listed'⟩ := change [] _ (fun e member => by cases member) left
  obtain ⟨t, moved, second, shown, room⟩ := @moveChain_ok K V hash chain
    { d with ht0 := { d.ht0 with buckets := d.ht0.buckets.set idx [] } }
    moving.second moving.room enough
  refine ⟨_, moved, ⟨good, second, room, ?_, ?_⟩, List.length_set⟩
  · intro i bound c at'
    by_cases same : idx = i
    · subst same
      rw [List.getElem?_set_self (List.getElem?_eq_some_iff.mp there).1] at at'
      exact (Option.some.inj at').symm
    · rw [List.getElem?_set_ne same] at at'
      exact moving.below i (by omega) c at'
  · have moved' : (rest ++ (chain ++ d.ht1.items)).Perm ((chain ++ rest) ++ d.ht1.items) := by
      rw [← List.append_assoc]
      exact List.perm_append_comm.append_right _
    exact ((listed'.append shown).trans moved').trans
      ((listed.symm.append_right _).trans moving.shown)

theorem Moving.skip (moving : d.Moving hash idx m) (there : d.ht0.buckets[idx]? = some []) :
    d.Moving hash (idx + 1) m where
  first := moving.first
  second := moving.second
  room := moving.room
  below i bound chain at' := by
    by_cases same : i = idx
    · subst same
      exact (Option.some.inj (there.symm.trans at')).symm
    · exact moving.below i (by omega) chain at'
  shown := moving.shown

/-- New keys have a bucket to go to. -/
def Ready (d : Dict K V) : Prop := (d.table d.isRehashing).buckets ≠ []

theorem Moving.rehashLoop {fuel moved visits : Nat} (moving : d.Moving hash idx m)
    (distinct : (Assoc.keys m).Nodup) (enough : d.ht0.capacity - idx < fuel) :
    ∃ d', rehashLoop hash fuel idx moved visits d = .ok d' ∧ d'.Holds hash m ∧ d'.Ready := by
  induction fuel generalizing d idx moved visits with
  | zero => exact absurd enough (Nat.not_lt_zero _)
  | succ fuel ih =>
      have later : ¬d.ht0.capacity ≤ idx → d.ht0.capacity - (idx + 1) < fuel := by
        intro inside
        omega
      rw [Dict.rehashLoop]
      split
      · split
        · rename_i past
          exact ⟨d.promote, rfl, moving.promote past distinct, moving.room⟩
        · rename_i inside
          obtain ⟨chain, there, read⟩ := bucket_of_lt (Nat.lt_of_not_le inside)
          rw [read, ok_bind]
          split
          · rename_i empty
            rw [List.isEmpty_iff.mp empty] at there
            split
            · exact ⟨_, rfl, (moving.skip there).paused distinct, moving.room⟩
            · exact ih (moving.skip there) (later inside)
          · obtain ⟨d', moved', moving', size⟩ := moving.moveBucket there
            rw [moved', ok_bind]
            exact ih moving' (size ▸ later inside)
      · exact ⟨_, rfl, moving.paused distinct, moving.room⟩

theorem Holds.rehashStep (holds : d.Holds hash m) :
    ∃ d', d.rehashStep hash = .ok d' ∧ d'.Holds hash m ∧ (d.Ready → d'.Ready) := by
  cases cursor : d.rehashIdx with
  | none =>
      refine ⟨d, ?_, holds, id⟩
      rw [Dict.rehashStep, cursor]
  | some idx =>
      obtain ⟨d', stepped, holds', ready⟩ := @Moving.rehashLoop _ _ _ _ _ _ (d.ht0.capacity + 1) 0 0
        (holds.moving cursor) holds.distinct (by omega)
      refine ⟨d', ?_, holds', fun _ => ready⟩
      rw [Dict.rehashStep, cursor]
      exact stepped

theorem Moving.finishLoop {n : Nat} (moving : d.Moving hash idx m)
    (whole : idx + n = d.ht0.capacity) :
    ∃ d', finishLoop hash (List.range' idx n) d = .ok d' ∧
      d'.Moving hash d'.ht0.capacity m := by
  induction n generalizing d idx with
  | zero =>
      rw [Nat.add_zero] at whole
      exact ⟨d, rfl, whole ▸ moving⟩
  | succ n ih =>
      have inside : idx < d.ht0.capacity := by omega
      obtain ⟨chain, there, read⟩ := bucket_of_lt inside
      obtain ⟨d', moved, moving', size⟩ := moving.moveBucket there
      obtain ⟨d'', finished, moving''⟩ := ih moving' (by rw [size, ← whole]; omega)
      refine ⟨d'', ?_, moving''⟩
      rw [List.range'_succ, Dict.finishLoop, read, ok_bind, moved, ok_bind, finished]

theorem Holds.finishRehash (holds : d.Holds hash m) :
    ∃ d', d.finishRehash hash = .ok d' ∧ d'.Holds hash m ∧ d'.rehashIdx = none := by
  cases cursor : d.rehashIdx with
  | none =>
      refine ⟨d, ?_, holds, cursor⟩
      rw [Dict.finishRehash, cursor]
  | some idx =>
      have moving := holds.moving cursor
      by_cases past : d.ht0.capacity ≤ idx
      · refine ⟨d.promote, ?_, moving.promote past holds.distinct, rfl⟩
        rw [Dict.finishRehash, cursor]
        show (Dict.finishLoop hash (List.range' idx (d.ht0.capacity - idx)) d >>= _) = _
        rw [Nat.sub_eq_zero_of_le past]
        rfl
      · obtain ⟨d', finished, moving'⟩ := @Moving.finishLoop _ _ _ _ _ _ (d.ht0.capacity - idx)
          moving (by omega)
        refine ⟨d'.promote, ?_, moving'.promote (Nat.le_refl _) holds.distinct, rfl⟩
        rw [Dict.finishRehash, cursor]
        show (Dict.finishLoop hash (List.range' idx (d.ht0.capacity - idx)) d >>= _) = _
        rw [finished]
        rfl

theorem Holds.first_shown (holds : d.Holds hash m) (rest : d.rehashIdx = none) :
    d.ht0.items.Perm m := by
  have shown := holds.shown
  rwa [items_eq_nil (holds.idle rest), List.append_nil] at shown

theorem Holds.rebuild (holds : d.Holds hash m) (rest : d.rehashIdx = none) {newCap : Nat}
    (room : Allocatable newCap) (fits : newCap = 0 → m = []) :
    ∃ d', rebuild hash newCap d = .ok d' ∧ d'.Holds hash m := by
  by_cases same : d.ht0.capacity = newCap
  · exact ⟨d, by rw [Dict.rebuild, if_pos same], holds⟩
  · obtain ⟨table, created, fresh, none', filled⟩ := withCapacity_ok (V := V) room hash
    have built : ∃ t, transfer hash (if newCap = 0 then [] else d.ht0.buckets.flatten) table =
        .ok t ∧ t.Good hash ∧ t.items.Perm m := by
      by_cases zero : newCap = 0
      · rw [if_pos zero, fits zero]
        exact ⟨table, rfl, fresh, none' ▸ List.Perm.refl _⟩
      · rw [if_neg zero]
        obtain ⟨t, moved, good, listed⟩ : ∃ t, transfer hash d.ht0.buckets.flatten table = .ok t ∧
            t.Good hash ∧ t.items.Perm (d.ht0.items ++ table.items) :=
          transfer_ok fresh (filled zero)
        rw [none', List.append_nil] at listed
        exact ⟨t, moved, good, listed.trans (holds.first_shown rest)⟩
    obtain ⟨t, moved, good, listed⟩ := built
    refine ⟨{ ht0 := t, ht1 := d.ht1.clear, rehashIdx := none }, ?_, good, good_empty, fun _ => rfl,
      fun idx cursor => ?_, ?_, holds.distinct⟩
    · rw [Dict.rebuild, if_neg same, created, ok_bind, moved]
      rfl
    · cases cursor
    · show (t.items ++ []).Perm m
      rw [List.append_nil]
      exact listed

/-- A number of buckets that a target is rounded to is one that it stays at. -/
theorem allocatable_rounded {n : Nat} (room : Allocatable n) :
    Allocatable (if n = 0 then 0 else max (nextPowerOfTwo n) initialSize) := by
  split
  · exact Or.inl (Nat.zero_le _)
  · exact Or.inl ((size_le_iff n).mpr room)

theorem rounded_eq_zero {n : Nat}
    (none' : (if n = 0 then 0 else max (nextPowerOfTwo n) initialSize) = 0) : n = 0 := by
  by_contra some'
  rw [if_neg some'] at none'
  have large : initialSize ≤ max (nextPowerOfTwo n) initialSize := Nat.le_max_right _ _
  rw [none'] at large
  exact absurd large (by decide)

theorem Holds.forceRehashTo (holds : d.Holds hash m) {targetCap : Nat}
    (room : Allocatable targetCap) (fits : targetCap = 0 → m = []) :
    ∃ d', d.forceRehashTo hash targetCap = .ok d' ∧ d'.Holds hash m := by
  obtain ⟨d', finished, holds', rest⟩ := holds.finishRehash
  obtain ⟨d'', built, holds''⟩ := holds'.rebuild rest (allocatable_rounded room)
    fun none' => fits (rounded_eq_zero none')
  refine ⟨d'', ?_, holds''⟩
  rw [Dict.forceRehashTo, finished, ok_bind, built]

theorem Holds.len (holds : d.Holds hash m) : d.len = m.length := by
  rw [Dict.len, holds.first.counted, holds.second.counted, ← List.length_append,
    holds.shown.length_eq]

/-- A table that is too large is too large after its size was rounded to a power of two. -/
theorem Holds.forceRehashTo_overflow (holds : d.Holds hash m) {targetCap : Nat}
    (large : ¬Allocatable targetCap) :
    d.forceRehashTo hash targetCap = .error .capacityOverflow := by
  obtain ⟨d', finished, holds', -⟩ := holds.finishRehash
  have bound := holds'.first.capacity_le
  have positive : targetCap ≠ 0 := by
    rintro rfl
    exact large (Or.inl (Nat.zero_le _))
  have rounded := mt (size_le_iff targetCap).mp large
  have refused : ¬Allocatable (max (nextPowerOfTwo targetCap) initialSize) := by
    have word := size_le_word targetCap
    rw [Allocatable]
    omega
  have other : ¬d'.ht0.capacity = max (nextPowerOfTwo targetCap) initialSize := by omega
  rw [Dict.forceRehashTo, finished, ok_bind, if_neg positive, Dict.rebuild, if_neg other,
    withCapacity_overflow refused]
  rfl

theorem Holds.reserve (holds : d.Holds hash m) (additional : Nat) :
    (∃ d', d.reserve hash additional = .ok d' ∧ d'.Holds hash m) ∨
      d.reserve hash additional = .error .capacityOverflow ∧
        ¬Allocatable ((m.length + additional) % 2 ^ 64) := by
  rw [Dict.reserve, holds.len]
  generalize (m.length + additional) % 2 ^ 64 = needed
  by_cases roomy : needed ≤ d.ht0.capacity
  · exact Or.inl ⟨d, if_pos roomy, holds⟩
  · have positive : needed = 0 → m = [] := by
      intro zero
      exact absurd (zero ▸ Nat.zero_le d.ht0.capacity) roomy
    simp only [if_neg roomy]
    by_cases room : Allocatable needed
    · exact Or.inl (holds.forceRehashTo room positive)
    · exact Or.inr ⟨holds.forceRehashTo_overflow room, room⟩

theorem Holds.shrinkToFit (holds : d.Holds hash m) :
    (∃ d', d.shrinkToFit hash = .ok d' ∧ d'.Holds hash m) ∨
      d.shrinkToFit hash = .error .capacityOverflow ∧ ¬m.length ≤ 2 ^ 59 := by
  have few : m.length ≤ 2 ^ 59 →
      Allocatable (if d.len = 0 then 0 else max (nextPowerOfTwo d.len) initialSize) := by
    intro few
    exact allocatable_rounded (Or.inl (holds.len ▸ few))
  rw [Dict.shrinkToFit]
  have fits : (if d.len = 0 then 0 else max (nextPowerOfTwo d.len) initialSize) = 0 → m = [] := by
    intro none'
    exact List.length_eq_zero_iff.mp (holds.len ▸ rounded_eq_zero none')
  generalize (if d.len = 0 then 0 else max (nextPowerOfTwo d.len) initialSize) = target
    at few fits ⊢
  by_cases optimal : d.ht0.capacity ≤ target ∧ d.isRehashing = false
  · exact Or.inl ⟨d, if_pos optimal, holds⟩
  · simp only [if_neg optimal]
    by_cases room : Allocatable target
    · exact Or.inl (holds.forceRehashTo room fits)
    · exact Or.inr ⟨holds.forceRehashTo_overflow room, mt few room⟩

theorem holds_withHasher : (withHasher : Dict K V).Holds hash [] where
  first := good_empty
  second := good_empty
  idle _ := rfl
  busy idx cursor := by cases cursor
  shown := List.Perm.refl _
  distinct := List.nodup_nil

theorem Holds.clear (_ : d.Holds hash m) : d.clear.Holds hash [] := holds_withHasher

theorem holds_withCapacity {cap : Nat} (fits : Allocatable cap) (hash : K → UInt64) :
    ∃ d : Dict K V, withCapacity cap = .ok d ∧ d.Holds hash [] := by
  obtain ⟨t, created, good, none', -⟩ := withCapacity_ok (V := V) fits hash
  refine ⟨⟨t, .empty, none⟩, ?_, good, good_empty, fun _ => rfl, fun idx cursor => ?_, ?_,
    List.nodup_nil⟩
  · rw [withCapacity, created]
    rfl
  · cases cursor
  · show (t.items ++ []).Perm []
    rw [none']
    exact List.Perm.refl _

/-- A rehash begins with a second table that is empty. -/
theorem Holds.begin (holds : d.Holds hash m) (rest : d.rehashIdx = none) {t : HashTable K V}
    (good : t.Good hash) (none' : t.items = []) (filled : t.buckets ≠ []) :
    Holds hash { d with ht1 := t, rehashIdx := some 0 } m where
  first := holds.first
  second := good
  idle rest := by cases rest
  busy idx cursor := by
    cases cursor
    exact ⟨filled, fun i bound => absurd bound (Nat.not_lt_zero i)⟩
  shown := by
    show (d.ht0.items ++ t.items).Perm m
    rw [none', List.append_nil]
    exact holds.first_shown rest
  distinct := holds.distinct

theorem rehashIdx_of_resting (rest : ¬d.isRehashing = true) : d.rehashIdx = none := by
  rwa [isRehashing, Bool.not_eq_true, Option.isSome_eq_false_iff, Option.isNone_iff_eq_none] at rest

/-- A full table of the largest size cannot be doubled, and holds as many nodes as it has buckets. -/
theorem Holds.expandIfNeeded (holds : d.Holds hash m) :
    (∃ d', d.expandIfNeeded = .ok d' ∧ d'.Holds hash m ∧ d'.Ready) ∨
      d.expandIfNeeded = .error .capacityOverflow ∧ ¬m.length < 2 ^ 59 := by
  rw [Dict.expandIfNeeded]
  split
  · rename_i rehashing
    obtain ⟨idx, cursor⟩ := Option.isSome_iff_exists.mp rehashing
    refine Or.inl ⟨d, rfl, holds, ?_⟩
    rw [Ready, rehashing]
    exact (holds.busy idx cursor).1
  · rename_i resting
    have rest := rehashIdx_of_resting resting
    have listed := holds.first_shown rest
    have ready : ∀ t : HashTable K V, t.buckets ≠ [] → Ready { d with ht0 := t } := by
      intro t filled
      rw [Ready, isRehashing, rest]
      exact filled
    split
    · rename_i none'
      rw [items_eq_nil (List.length_eq_zero_iff.mp none')] at listed
      obtain rfl : m = [] := List.nil_perm.mp listed
      obtain ⟨t, created, good, empty', filled⟩ :=
        withCapacity_ok (V := V) (show Allocatable initialSize by decide) hash
      refine Or.inl ⟨{ d with ht0 := t }, bind_of_ok created _, ⟨good, holds.second, holds.idle,
        fun idx cursor => ?_, ?_, holds.distinct⟩, ready t (filled (by decide))⟩
      · cases rest.symm.trans cursor
      · show (t.items ++ d.ht1.items).Perm []
        rw [empty', items_eq_nil (holds.idle rest)]
        exact List.Perm.refl _
    · rename_i some'
      split
      · rename_i full
        have count : d.ht0.used = m.length := holds.first.counted.trans listed.length_eq
        by_cases room : Allocatable (d.ht0.capacity * 2)
        · obtain ⟨t, created, good, empty', filled⟩ := withCapacity_ok (V := V) room hash
          exact Or.inl ⟨_, bind_of_ok created _, holds.begin rest good empty' (filled (by omega)),
            filled (by omega)⟩
        · refine Or.inr ⟨?_, fun few => room (Or.inl (holds.first.double_le (by omega)))⟩
          rw [withCapacity_overflow room]
          rfl
      · exact Or.inl ⟨d, rfl, holds, ready d.ht0 fun none' => some' (congrArg List.length none')⟩

/-- What insertions and entries begin with: room for one more key, and a step of the rehash. -/
def Begun (hash : K → UInt64) (d : Dict K V) (m : List (K × V)) : Prop :=
  ∃ d₀ d', d.expandIfNeeded = .ok d₀ ∧ d₀.rehashStep hash = .ok d' ∧ d'.Holds hash m ∧ d'.Ready

theorem Holds.begun (holds : d.Holds hash m) :
    d.Begun hash m ∨ d.expandIfNeeded = .error .capacityOverflow ∧ ¬m.length < 2 ^ 59 := by
  rcases holds.expandIfNeeded with ⟨d₀, expanded, holds₀, ready⟩ | refused
  · obtain ⟨d', stepped, holds', ready'⟩ := holds₀.rehashStep
    exact Or.inl ⟨d₀, d', expanded, stepped, holds', ready' ready⟩
  · exact Or.inr refused

/-- A table is only ever shrunk to one that is smaller. -/
theorem Holds.shrinkIfNeeded (holds : d.Holds hash m) :
    ∃ d', d.shrinkIfNeeded = .ok d' ∧ d'.Holds hash m := by
  rw [Dict.shrinkIfNeeded]
  split
  · exact ⟨d, rfl, holds⟩
  · rename_i resting
    split
    · exact ⟨d, rfl, holds⟩
    · split
      · have minimum : initialSize = 4 := rfl
        have bound := holds.first.capacity_le
        have room : Allocatable (max (d.ht0.capacity / 2) initialSize) := Or.inl (by omega)
        obtain ⟨t, created, good, none', filled⟩ := withCapacity_ok (V := V) room hash
        exact ⟨_, bind_of_ok created _,
          holds.begin (rehashIdx_of_resting resting) good none' (filled (by omega))⟩
      · exact ⟨d, rfl, holds⟩

end Zumic.Database.Dict
