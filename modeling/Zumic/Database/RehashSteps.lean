/- How far one step of a rehash goes (`rehash_step` in `dict_base.rs`). -/

import Zumic.Database.DictMap

namespace Zumic.Database.Dict

open Lib.Buffer HashTable

/-- The chains that the loop goes over, by their lengths: it ends with the table or with the last of
64 empty buckets in a row, once an entry was moved. -/
def went : Nat → Nat → List Nat → List Nat
  | _, _, [] => []
  | moved, visits, c :: l =>
      if c = 0 then
        if rehashMaxEmptyVisits ≤ visits + 1 ∧ 0 < moved then [0]
        else 0 :: went moved (visits + 1) l
      else c :: went (moved + c) 0 l

/-- Few empty buckets are passed, and every bucket is met before eight entries were moved. -/
structure Small (chains : List Nat) : Prop where
  skips : chains.count 0 ≤ rehashMaxEmptyVisits
  stops : ∀ a c b, chains = a ++ c :: b → a.sum < rehashMinEntries

/-- What the buckets that are left have to be like for a small step: no more of them than one step
may go over, or a few full ones followed by as many empty ones as the loop tolerates. -/
def Bounded (l : List Nat) : Prop :=
  (l.count 0 ≤ rehashMaxEmptyVisits ∧ l.dropLast.sum < rehashMinEntries) ∨
    ∃ front rest, l = front ++ List.replicate rehashMaxEmptyVisits 0 ++ rest ∧
      front ≠ [] ∧ 0 ∉ front ∧ front.sum < rehashMinEntries

theorem went_isPrefix (moved visits : Nat) (l : List Nat) : went moved visits l <+: l := by
  induction l generalizing moved visits with
  | nil => exact List.prefix_refl []
  | cons c l ih =>
      rw [went]
      split
      · rename_i empty
        subst empty
        split
        · exact List.cons_prefix_cons.mpr ⟨rfl, List.nil_prefix⟩
        · exact List.cons_prefix_cons.mpr ⟨rfl, ih moved (visits + 1)⟩
      · exact List.cons_prefix_cons.mpr ⟨rfl, ih (moved + c) 0⟩

theorem length_went_pos (moved visits c : Nat) (l : List Nat) :
    0 < (went moved visits (c :: l)).length := by
  rw [went]
  split
  · split
    · exact Nat.zero_lt_one
    · exact Nat.succ_pos _
  · exact Nat.succ_pos _

theorem went_full {front : List Nat} (full : 0 ∉ front) (filled : front ≠ []) (moved visits : Nat)
    (l : List Nat) :
    went moved visits (front ++ l) = front ++ went (moved + front.sum) 0 l := by
  induction front generalizing moved visits with
  | nil => exact absurd rfl filled
  | cons c front ih =>
      rw [List.mem_cons, not_or] at full
      rw [List.cons_append, went, if_neg (Ne.symm full.1), List.cons_append, List.sum_cons,
        ← Nat.add_assoc]
      by_cases last : front = []
      · subst last
        rfl
      · rw [ih full.2 last]

theorem went_empty {moved visits n : Nat} (some' : 0 < moved) (l : List Nat)
    (sum : visits + (n + 1) = rehashMaxEmptyVisits) :
    went moved visits (List.replicate (n + 1) 0 ++ l) = List.replicate (n + 1) 0 := by
  induction n generalizing visits with
  | zero =>
      rw [List.replicate_one, List.singleton_append, went, if_pos rfl,
        if_pos ⟨by omega, some'⟩]
  | succ n ih =>
      rw [List.replicate_succ, List.cons_append, went, if_pos rfl, if_neg (by omega),
        ih (by omega)]

/-- A loop that ends before the table has just passed its row of empty buckets. -/
theorem went_ne {moved visits : Nat} {l : List Nat} (room : moved = 0 ∨ visits < 64)
    (short : went moved visits l ≠ l) :
    ∃ a, List.replicate visits 0 ++ went moved visits l = a ++ List.replicate 64 0 ∧
      0 < moved + a.sum := by
  induction l generalizing moved visits with
  | nil => exact absurd rfl short
  | cons c l ih =>
      rw [went] at short ⊢
      split at short
      · rename_i empty
        subst empty
        rw [if_pos rfl]
        split at short
        · rename_i stops
          have row : visits = 63 := by
            have limit : 64 ≤ visits + 1 := stops.1
            omega
          rw [if_pos stops, row]
          exact ⟨[], rfl, by omega⟩
        · rename_i goes
          have room' : moved = 0 ∨ visits + 1 < 64 := by
            have limit : ¬(64 ≤ visits + 1 ∧ 0 < moved) := goes
            omega
          obtain ⟨a, row, some'⟩ := ih room' fun whole => short (congrArg (List.cons 0) whole)
          refine ⟨a, ?_, some'⟩
          rw [if_neg goes, ← row, List.replicate_succ', List.append_assoc]
          rfl
      · rename_i full
        obtain ⟨a, row, some'⟩ := ih (Or.inr (by omega)) fun whole =>
          short (congrArg (List.cons c) whole)
        refine ⟨List.replicate visits 0 ++ c :: a, ?_, ?_⟩
        · rw [if_neg full, List.append_assoc, List.cons_append, ← row]
          rfl
        · rw [List.sum_append, List.sum_cons]
          omega

theorem small_of_prefix {l v : List Nat} (isPrefix : v <+: l)
    (few : l.count 0 ≤ rehashMaxEmptyVisits) (light : l.dropLast.sum < rehashMinEntries) :
    Small v where
  skips := Nat.le_trans (isPrefix.sublist.count_le 0) few
  stops a c b parts := by
    obtain ⟨rest, rfl⟩ := isPrefix
    subst parts
    rw [List.append_assoc, List.cons_append, List.dropLast_append_cons, List.sum_append] at light
    exact Nat.lt_of_le_of_lt (Nat.le_add_right _ _) light

/-- Exactly where little is left, or a row of empty buckets stops the loop in time, a step is
small. -/
theorem small_went_iff (l : List Nat) : Small (went 0 0 l) ↔ Bounded l := by
  constructor
  · intro small
    by_cases whole : went 0 0 l = l
    · left
      rw [whole] at small
      refine ⟨small.skips, ?_⟩
      rcases List.eq_nil_or_concat l with rfl | ⟨l, c, rfl⟩
      · decide
      · rw [List.concat_eq_append] at small ⊢
        rw [List.dropLast_concat]
        exact small.stops l c [] rfl
    · right
      obtain ⟨front, row, some'⟩ := went_ne (Or.inl rfl) whole
      rw [List.replicate_zero, List.nil_append] at row
      obtain ⟨rest, parts⟩ := went_isPrefix 0 0 l
      rw [row] at small parts
      refine ⟨front, rest, parts.symm, ?_, ?_, small.stops front 0 (List.replicate 63 0) rfl⟩
      · rintro rfl
        exact absurd some' (by decide)
      · have few := small.skips
        rw [List.count_append, List.count_replicate_self] at few
        have limit : rehashMaxEmptyVisits = 64 := rfl
        exact List.count_eq_zero.mp (by omega)
  · rintro (⟨few, light⟩ | ⟨front, rest, rfl, filled, full, light⟩)
    · exact small_of_prefix (went_isPrefix 0 0 l) few light
    · have some' : 0 < front.sum := by
        cases front with
        | nil => exact absurd rfl filled
        | cons c front =>
            rw [List.mem_cons, not_or] at full
            rw [List.sum_cons]
            omega
      have row : went front.sum 0 (List.replicate rehashMaxEmptyVisits 0 ++ rest) =
          List.replicate rehashMaxEmptyVisits 0 := went_empty (n := 63) some' rest rfl
      rw [List.append_assoc, went_full full filled, Nat.zero_add, row]
      refine small_of_prefix (List.prefix_refl _) ?_ ?_
      · rw [List.count_append, List.count_replicate_self, List.count_eq_zero.mpr full]
        exact Nat.le_refl 64
      · rw [List.dropLast_append_of_ne_nil (by simp [rehashMaxEmptyVisits]), List.sum_append,
          List.dropLast_replicate, List.sum_replicate_nat, Nat.mul_zero, Nat.add_zero]
        exact light

variable {K V : Type}

/-- The lengths of the chains from a bucket of the old table on. -/
def left (d : Dict K V) (idx : Nat) : List Nat := (d.ht0.buckets.drop idx).map List.length

/-- The chains that a step went over, as the cursors before and after it show. -/
def visited (d d' : Dict K V) : List Nat :=
  match d.rehashIdx, d'.rehashIdx with
  | some idx, some idx' => (d.left idx).take (idx' - idx)
  | some idx, none => d.left idx
  | none, _ => []

/-- The cursor has advanced, or the rehash is over. -/
def Advanced (d d' : Dict K V) : Prop :=
  ∀ idx idx', d.rehashIdx = some idx → d'.rehashIdx = some idx' → idx < idx'

/-- What one step of a rehash is to be: small, with progress, and nothing gained or lost. -/
structure Incremental (d d' : Dict K V) : Prop where
  small : Small (visited d d')
  advanced : Advanced d d'
  len : d'.len = d.len
  contents : (d'.ht0.items ++ d'.ht1.items).Perm (d.ht0.items ++ d.ht1.items)

variable {hash : K → UInt64} {d : Dict K V} {m : List (K × V)} {idx : Nat}

theorem buckets_moveChain {chain : List (K × V)} {d' : Dict K V}
    (moved : moveChain hash chain d = .ok d') : d'.ht0.buckets = d.ht0.buckets := by
  induction chain generalizing d with
  | nil =>
      obtain rfl := Except.ok.inj moved
      rfl
  | cons e chain ih =>
      rw [moveChain] at moved
      cases put : d.ht1.prepend (hash e.1) e with
      | error fault =>
          rw [put] at moved
          cases moved
      | ok t =>
          cases counted : sub d.ht0.used 1 with
          | error fault =>
              rw [put, ok_bind, counted] at moved
              cases moved
          | ok used =>
              rw [put, ok_bind, counted, ok_bind] at moved
              have kept := ih moved
              exact kept

theorem left_moveBucket {chain : List (K × V)} {d' : Dict K V}
    (moved : moveBucket hash idx chain d = .ok d') : d'.left (idx + 1) = d.left (idx + 1) := by
  have same := buckets_moveChain moved
  rw [left, left, same]
  dsimp only
  rw [List.drop_set, if_pos (Nat.lt_succ_self idx)]

theorem left_eq_cons {chain : List (K × V)} (there : d.ht0.buckets[idx]? = some chain) :
    d.left idx = chain.length :: d.left (idx + 1) := by
  obtain ⟨bound, here⟩ := List.getElem?_eq_some_iff.mp there
  rw [left, left, List.drop_eq_getElem_cons bound, here, List.map_cons]

theorem Moving.rehashLoop_went {fuel moved visits : Nat} (moving : d.Moving hash idx m)
    (room : moved = 0 ∨ visits < 64) {d' : Dict K V}
    (looped : Dict.rehashLoop hash fuel idx moved visits d = .ok d') :
    match d'.rehashIdx with
    | none => went moved visits (d.left idx) = d.left idx
    | some idx' => idx' = idx + (went moved visits (d.left idx)).length := by
  induction fuel generalizing d idx moved visits with
  | zero => cases looped
  | succ fuel ih =>
      have limits : moved < rehashMinEntries ∨ visits < rehashMaxEmptyVisits := by
        have first : rehashMinEntries = 8 := rfl
        have second : rehashMaxEmptyVisits = 64 := rfl
        omega
      rw [Dict.rehashLoop, if_pos limits] at looped
      split at looped
      · rename_i past
        obtain rfl := Except.ok.inj looped
        have none' : d.left idx = [] := by
          rw [left, List.drop_eq_nil_of_le past]
          rfl
        rw [none']
        rfl
      · rename_i inside
        obtain ⟨chain, there, read⟩ := bucket_of_lt (Nat.lt_of_not_le inside)
        rw [read, ok_bind] at looped
        rw [left_eq_cons there, went]
        split at looped
        · rename_i empty
          rw [List.isEmpty_iff.mp empty] at there ⊢
          rw [if_pos List.length_nil]
          split at looped
          · rename_i stops
            obtain rfl := Except.ok.inj looped
            rw [if_pos stops]
            rfl
          · rename_i goes
            have room' : moved = 0 ∨ visits + 1 < 64 := by
              have limit : ¬(64 ≤ visits + 1 ∧ 0 < moved) := goes
              omega
            have rest := ih (moving.skip there) room' looped
            rw [if_neg goes]
            split at rest
            · exact congrArg (List.cons 0) rest
            · rw [List.length_cons]
              omega
        · rename_i full
          have full' : chain.length ≠ 0 := by
            intro none'
            exact full (by rw [List.length_eq_zero_iff.mp none']; rfl)
          obtain ⟨d₁, moved', moving', size⟩ := moving.moveBucket there
          rw [moved', ok_bind] at looped
          have rest := ih moving' (Or.inr (by omega)) looped
          rw [left_moveBucket moved'] at rest
          rw [if_neg full']
          split at rest
          · exact congrArg (List.cons _) rest
          · rw [List.length_cons]
            omega

/-- A step goes over few chains exactly where the buckets that are left allow it; it advances and
keeps the entries in any case. -/
theorem rehashStep_incremental_iff (holds : d.Holds hash m) (cursor : d.rehashIdx = some idx) :
    ∃ d', d.rehashStep hash = .ok d' ∧ Advanced d d' ∧ d'.len = d.len ∧
      (d'.ht0.items ++ d'.ht1.items).Perm (d.ht0.items ++ d.ht1.items) ∧
      (Incremental d d' ↔ Bounded (d.left idx)) := by
  obtain ⟨d', stepped, holds', -⟩ := holds.rehashStep
  have looped := stepped
  rw [Dict.rehashStep, cursor] at looped
  have gone := (holds.moving cursor).rehashLoop_went (Or.inl rfl) looped
  have len' : d'.len = d.len := holds'.len.trans holds.len.symm
  have contents := holds'.shown.trans holds.shown.symm
  have seen : visited d d' = went 0 0 (d.left idx) := by
    rw [visited, cursor]
    split at gone
    · rename_i rest
      rw [rest]
      exact gone.symm
    · rename_i idx' rest
      rw [rest, gone]
      dsimp only
      rw [Nat.add_sub_cancel_left]
      exact List.prefix_iff_eq_take.mp (went_isPrefix 0 0 _) |>.symm
  have advanced : Advanced d d' := by
    intro first last before after
    obtain rfl := Option.some.inj (before.symm.trans cursor)
    rw [after] at gone
    by_cases past : d.ht0.capacity ≤ first
    · dsimp only at looped
      rw [Dict.rehashLoop, if_pos (Or.inl (by decide)), if_pos past] at looped
      obtain rfl := Except.ok.inj looped
      cases after
    · obtain ⟨chain, there, -⟩ := bucket_of_lt (Nat.lt_of_not_le past)
      rw [left_eq_cons there] at gone
      have some' := length_went_pos 0 0 chain.length (d.left (first + 1))
      exact gone ▸ Nat.lt_add_of_pos_right some'
  refine ⟨d', stepped, advanced, len', contents, ?_⟩
  rw [← small_went_iff, ← seen]
  exact ⟨Incremental.small, fun small => ⟨small, advanced, len', contents⟩⟩

/-- Eight keys, each in a bucket of its own, are moved to a table of sixteen buckets in one step. -/
theorem rehashStep_incremental_eight : ∃ replies d d₀ d',
    history UInt64.ofNat 8 ((List.range 8).map fun k => .insert k k) = .ok (replies, d) ∧
    d.expandIfNeeded = .ok d₀ ∧ d₀.left 0 = List.replicate 8 1 ∧
    d₀.rehashStep UInt64.ofNat = .ok d' ∧ Incremental d₀ d' := by
  have inserted : ∃ replies, history UInt64.ofNat 8 ((List.range 8).map fun k => .insert k k) =
      .ok (replies, ⟨⟨(List.range 8).map fun k => [(k, k)], 7, 8⟩, .empty, none⟩) :=
    ⟨List.replicate 8 (.flag true), rfl⟩
  obtain ⟨replies, inserted⟩ := inserted
  rcases holds_history UInt64.ofNat 8 ((List.range 8).map fun k => .insert k k) with
    ⟨d, ran, holds⟩ | ⟨refused, -⟩
  · obtain rfl := (Prod.mk.inj (Except.ok.inj (inserted.symm.trans ran))).2
    rcases holds.expandIfNeeded with ⟨d₀, expanded, holds₀, -⟩ | ⟨-, many⟩
    · obtain rfl : (⟨⟨(List.range 8).map fun k => [(k, k)], 7, 8⟩,
          ⟨List.replicate 16 [], 15, 0⟩, some 0⟩ : Dict Nat Nat) = d₀ := Except.ok.inj expanded
      obtain ⟨d', stepped, -, -, -, exactly⟩ := rehashStep_incremental_iff holds₀ rfl
      exact ⟨replies, _, _, d', inserted, expanded, rfl, stepped,
        exactly.mpr (Or.inl (by decide))⟩
    · exact absurd (by decide) many
  · cases inserted.symm.trans refused

/-- Sixteen keys, each in a bucket of its own. -/
def crowded : Dict Nat Nat :=
  ⟨⟨(List.range 16).map fun k => [(k, k)], 15, 16⟩, ⟨[], 0, 0⟩, none⟩

/-- The rehash that a seventeenth key starts moves all sixteen entries in its first step. -/
theorem rehashStep_not_incremental :
    (∃ replies, history UInt64.ofNat 16 ((List.range 16).map fun k => .insert k k) =
      .ok (replies, crowded)) ∧
    ∃ d d', crowded.expandIfNeeded = .ok d ∧ d.isRehashing = true ∧
      d.rehashStep UInt64.ofNat = .ok d' ∧ (visited d d').sum = 16 ∧ ¬ Incremental d d' := by
  refine ⟨⟨List.replicate 16 (.flag true), rfl⟩, { crowded with
    ht1 := ⟨List.replicate 32 [], 31, 0⟩, rehashIdx := some 0 },
    ⟨⟨(List.range 16).map (fun k => [(k, k)]) ++ List.replicate 16 [], 31, 16⟩, ⟨[], 0, 0⟩, none⟩,
    rfl, rfl, by decide +kernel, by decide +kernel, fun incremental => ?_⟩
  have early := incremental.small.stops (List.replicate 8 1) 1 (List.replicate 7 1)
    (by decide +kernel)
  exact absurd early (by decide)

end Zumic.Database.Dict
