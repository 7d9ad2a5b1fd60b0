/- One table of the dictionary: every node is in the bucket of its hash and is counted. -/

import Mathlib.Data.Nat.Bitwise
import Zumic.Database.Dict

namespace Zumic.Database

open Lib Lib.Buffer

variable {K V : Type}

theorem nextPowerOfTwo_eq {cap : Nat} (large : 1 < cap) :
    ∃ e, nextPowerOfTwo cap = 2 ^ (e + 1) % 2 ^ 64 ∧ 2 ^ e < cap ∧ cap ≤ 2 ^ (e + 1) := by
  have positive : cap - 1 ≠ 0 := by omega
  refine ⟨Nat.log2 (cap - 1), if_neg (by omega), ?_, ?_⟩
  · have below := Nat.log2_self_le positive
    omega
  · have above := Nat.lt_log2_self (n := cap - 1)
    omega

theorem isPowerOfTwo_size (cap : Nat) : ∃ k, max (nextPowerOfTwo cap) initialSize = 2 ^ k := by
  have small : ∀ n, n ≤ 4 → max n initialSize = 2 ^ 2 := fun n bound => Nat.max_eq_right bound
  by_cases one : cap ≤ 1
  · rw [nextPowerOfTwo, if_pos one]
    exact ⟨2, small 1 (by decide)⟩
  · obtain ⟨e, next, -, -⟩ := nextPowerOfTwo_eq (Nat.lt_of_not_le one)
    rw [next]
    by_cases fits : e + 1 < 64
    · rw [Nat.mod_eq_of_lt (Nat.pow_lt_pow_right (by omega) fits)]
      by_cases large : 2 ≤ e + 1
      · exact ⟨e + 1,
          Nat.max_eq_left (show 2 ^ 2 ≤ 2 ^ (e + 1) from Nat.pow_le_pow_right (by omega) large)⟩
      · exact ⟨2, small _ (show 2 ^ (e + 1) ≤ 2 ^ 2 from Nat.pow_le_pow_right (by omega) (by omega))⟩
    · have wrapped : 2 ^ (e + 1) % 2 ^ 64 = 0 :=
        Nat.mod_eq_zero_of_dvd (pow_dvd_pow 2 (Nat.le_of_not_lt fits))
      rw [wrapped]
      exact ⟨2, small 0 (by decide)⟩

/-- No power of two between 2^63 and 2^64 is a word. -/
theorem size_le_word (cap : Nat) : max (nextPowerOfTwo cap) initialSize ≤ 2 ^ 63 := by
  have word : max (nextPowerOfTwo cap) initialSize < 2 ^ 64 := by
    refine Nat.max_lt.mpr ⟨?_, by decide⟩
    rw [nextPowerOfTwo]
    split
    · decide
    · exact Nat.mod_lt _ (by decide)
  obtain ⟨k, power⟩ := isPowerOfTwo_size cap
  rw [power] at word ⊢
  have exponent : k < 64 := (Nat.pow_lt_pow_iff_right (by decide)).mp word
  exact Nat.pow_le_pow_right (by decide) (Nat.le_of_lt_succ exponent)

namespace HashTable

variable (hash : K → UInt64) {t : HashTable K V}

/-- The nodes of a table, bucket by bucket. -/
def items (t : HashTable K V) : List (K × V) := t.buckets.flatten

/-- The capacities whose table is allocated: up to 2^59 buckets, and past the largest power of two,
where the size wraps. -/
def Allocatable (cap : Nat) : Prop := cap ≤ 2 ^ 59 ∨ 2 ^ 63 < cap

instance (cap : Nat) : Decidable (Allocatable cap) := inferInstanceAs (Decidable (_ ∨ _))

/-- A table in order. -/
structure Good (t : HashTable K V) : Prop where
  sized : t.buckets = [] ∨ ∃ k ≤ 59, t.buckets.length = 2 ^ k ∧ t.sizeMask = 2 ^ k - 1
  placed : ∀ (i : Nat) (chain : List (K × V)), t.buckets[i]? = some chain →
    ∀ e ∈ chain, t.slot (hash e.1) = i
  counted : t.used = t.items.length

variable {hash}

theorem items_eq_nil {t : HashTable K V} (none' : t.buckets = []) : t.items = [] := by
  rw [items, none']
  rfl

theorem good_empty : Good hash (empty : HashTable K V) where
  sized := Or.inl rfl
  placed i chain there := by simp [empty] at there
  counted := rfl

theorem size_le_iff (cap : Nat) :
    max (nextPowerOfTwo cap) initialSize ≤ 2 ^ 59 ↔ Allocatable cap := by
  have minimum : initialSize = 4 := rfl
  rw [Allocatable]
  by_cases one : cap ≤ 1
  · rw [nextPowerOfTwo, if_pos one]
    omega
  · obtain ⟨e, next, below, above⟩ := nextPowerOfTwo_eq (Nat.lt_of_not_le one)
    rw [next]
    by_cases small : e + 1 ≤ 59
    · have bound : 2 ^ (e + 1) ≤ 2 ^ 59 := Nat.pow_le_pow_right (by decide) small
      rw [Nat.mod_eq_of_lt (by omega)]
      omega
    · have least : 2 ^ 59 ≤ 2 ^ e := Nat.pow_le_pow_right (by decide) (by omega)
      by_cases fits : e + 1 < 64
      · have bound : 2 ^ (e + 1) ≤ 2 ^ 63 := Nat.pow_le_pow_right (by decide) (by omega)
        rw [Nat.mod_eq_of_lt (by omega), Nat.pow_succ]
        omega
      · have most : 2 ^ 63 ≤ 2 ^ e := Nat.pow_le_pow_right (by decide) (by omega)
        rw [Nat.mod_eq_zero_of_dvd (pow_dvd_pow 2 (Nat.le_of_not_lt fits))]
        omega

theorem withCapacity_eq {cap : Nat} (positive : cap ≠ 0) :
    (withCapacity cap : Except Fault (HashTable K V)) = (do
      let buckets ← allocate 8 (max (nextPowerOfTwo cap) initialSize)
      pure ⟨buckets ++ List.replicate (max (nextPowerOfTwo cap) initialSize) [],
        max (nextPowerOfTwo cap) initialSize - 1, 0⟩) := if_neg positive

theorem withCapacity_ok {cap : Nat} (fits : Allocatable cap) (hash : K → UInt64) :
    ∃ t : HashTable K V, withCapacity cap = .ok t ∧ t.Good hash ∧ t.items = [] ∧
      (cap ≠ 0 → t.buckets ≠ []) := by
  by_cases zero : cap = 0
  · exact ⟨empty, if_pos zero, good_empty, rfl, fun positive => absurd zero positive⟩
  · obtain ⟨k, power⟩ := isPowerOfTwo_size cap
    have bound := (size_le_iff cap).mpr fits
    have room : Fits 8 (max (nextPowerOfTwo cap) initialSize) := by
      rw [Fits]
      omega
    rw [power] at bound
    have exponent : k ≤ 59 := (Nat.pow_le_pow_iff_right (by decide)).mp bound
    have none' : (List.replicate (2 ^ k) ([] : List (K × V))).flatten = [] :=
      List.flatten_eq_nil_iff.mpr fun chain member => (List.mem_replicate.mp member).2
    refine ⟨⟨List.replicate (2 ^ k) [], 2 ^ k - 1, 0⟩, ?_, ⟨?_, ?_, ?_⟩, none', fun _ filled => ?_⟩
    · rw [withCapacity_eq zero, allocate_of_fits room, power]
      rfl
    · exact Or.inr ⟨k, exponent, List.length_replicate, rfl⟩
    · intro i chain there e member
      rw [List.getElem?_replicate] at there
      split at there
      · cases there
        cases member
      · cases there
    · exact (congrArg List.length none').symm
    · have count := congrArg List.length filled
      rw [List.length_replicate] at count
      exact absurd count (Nat.pow_pos (by decide)).ne'

theorem withCapacity_overflow {cap : Nat} (large : ¬Allocatable cap) :
    (withCapacity cap : Except Fault (HashTable K V)) = .error .capacityOverflow := by
  have positive : cap ≠ 0 := fun zero => large (by rw [zero]; exact Or.inl (Nat.zero_le _))
  have bound := mt (size_le_iff cap).mp large
  obtain ⟨k, power⟩ := isPowerOfTwo_size cap
  have least : 60 ≤ k := by
    by_contra small
    rw [power] at bound
    exact bound (Nat.pow_le_pow_right (by decide) (by omega))
  have most : 2 ^ 60 ≤ 2 ^ k := Nat.pow_le_pow_right (by decide) least
  have refused : ¬Fits 8 (max (nextPowerOfTwo cap) initialSize) := by
    rw [Fits, power]
    omega
  rw [withCapacity_eq positive, allocate, if_neg refused]
  rfl

theorem Good.capacity_le (good : t.Good hash) : t.capacity ≤ 2 ^ 59 := by
  rcases good.sized with none' | ⟨k, bound, length, -⟩
  · rw [capacity, none']
    exact Nat.zero_le _
  · rw [capacity, length]
    exact Nat.pow_le_pow_right (by decide) bound

/-- A capacity below the largest one can be doubled. -/
theorem Good.double_le (good : t.Good hash) (small : t.capacity < 2 ^ 59) :
    t.capacity * 2 ≤ 2 ^ 59 := by
  rcases good.sized with none' | ⟨k, -, length, -⟩
  · rw [capacity, none']
    exact Nat.zero_le _
  · rw [capacity, length] at small ⊢
    have exponent : k < 59 := (Nat.pow_lt_pow_iff_right (by decide)).mp small
    rw [← Nat.pow_succ]
    exact Nat.pow_le_pow_right (by decide) exponent

theorem Good.slot_lt (good : t.Good hash) (filled : t.buckets ≠ []) (h : UInt64) :
    t.slot h < t.buckets.length := by
  obtain ⟨k, -, length, mask⟩ := good.sized.resolve_left filled
  rw [slot, mask, length, Nat.and_two_pow_sub_one_eq_mod]
  exact Nat.mod_lt _ (Nat.pow_pos (by decide))

theorem bucket_of_lt {i : Nat} (bound : i < t.capacity) :
    ∃ chain, t.buckets[i]? = some chain ∧ index t.buckets i = .ok chain := by
  have there : t.buckets[i]? = some (t.buckets.get ⟨i, bound⟩) := List.getElem?_eq_getElem bound
  refine ⟨t.buckets.get ⟨i, bound⟩, there, ?_⟩
  rw [index, there]

theorem Good.bucket (good : t.Good hash) (filled : t.buckets ≠ []) (h : UInt64) :
    ∃ chain, t.buckets[t.slot h]? = some chain ∧ index t.buckets (t.slot h) = .ok chain :=
  bucket_of_lt (good.slot_lt filled h)

/-- The nodes of all buckets, with those of a changed bucket first. -/
theorem flatten_set_perm {α : Type} {l : List (List α)} {i : Nat} (bound : i < l.length)
    (c : List α) :
    (l.set i c).flatten.Perm (c ++ ((l.take i).flatten ++ (l.drop (i + 1)).flatten)) := by
  rw [List.set_eq_take_append_cons_drop, if_pos bound, List.flatten_append, List.flatten_cons,
    ← List.append_assoc, ← List.append_assoc]
  exact List.perm_append_comm.append_right _

/-- One bucket and the nodes of all others: another chain in its place leaves these alone. -/
theorem Good.focus (good : t.Good hash) {i : Nat} {chain : List (K × V)}
    (there : t.buckets[i]? = some chain) :
    ∃ rest, t.items.Perm (chain ++ rest) ∧ (∀ e ∈ rest, t.slot (hash e.1) ≠ i) ∧
      ∀ (chain' : List (K × V)) (used : Nat), (∀ e ∈ chain', t.slot (hash e.1) = i) →
        used = (chain' ++ rest).length →
        Good hash { t with buckets := t.buckets.set i chain', used := used } ∧
        (HashTable.items { t with buckets := t.buckets.set i chain', used := used }).Perm
          (chain' ++ rest) := by
  obtain ⟨bound, here⟩ := List.getElem?_eq_some_iff.mp there
  refine ⟨(t.buckets.take i).flatten ++ (t.buckets.drop (i + 1)).flatten, ?_, ?_, ?_⟩
  · have listed : t.items = (t.buckets.set i chain).flatten := by
      rw [← here, List.set_getElem_self]
      rfl
    rw [listed]
    exact flatten_set_perm bound chain
  · intro e member
    rcases List.mem_append.mp member with front | back
    · obtain ⟨c, inFront, inChain⟩ := List.mem_flatten.mp front
      obtain ⟨j, bound', at'⟩ := List.mem_iff_getElem.mp inFront
      have lower : j < i := by
        rw [List.length_take] at bound'
        omega
      have place := good.placed j c (by
        rw [← at', List.getElem_take, ← List.getElem?_eq_getElem]) e inChain
      omega
    · obtain ⟨c, inBack, inChain⟩ := List.mem_flatten.mp back
      obtain ⟨j, at'⟩ := List.mem_iff_getElem?.mp inBack
      rw [List.getElem?_drop] at at'
      have place := good.placed (i + 1 + j) c at' e inChain
      omega
  · intro chain' used placed count
    refine ⟨⟨?_, ?_, ?_⟩, ?_⟩
    · rcases good.sized with none' | ⟨k, most, length, mask⟩
      · rw [none'] at bound
        exact absurd bound (Nat.not_lt_zero i)
      · exact Or.inr ⟨k, most, by rw [List.length_set, length], mask⟩
    · intro j c at'
      by_cases same : i = j
      · subst same
        rw [List.getElem?_set_self bound] at at'
        cases at'
        exact placed
      · rw [List.getElem?_set_ne same] at at'
        exact good.placed j c at'
    · show used = (t.buckets.set i chain').flatten.length
      rw [count, (flatten_set_perm bound chain').length_eq]
    · exact flatten_set_perm bound chain'

theorem Good.prepend (good : t.Good hash) (filled : t.buckets ≠ []) (e : K × V) :
    ∃ t', t.prepend (hash e.1) e = .ok t' ∧ t'.Good hash ∧ t'.items.Perm (e :: t.items) ∧
      t'.buckets.length = t.buckets.length := by
  obtain ⟨chain, there, read⟩ := good.bucket filled (hash e.1)
  obtain ⟨rest, listed, -, change⟩ := good.focus there
  have placed : ∀ e' ∈ e :: chain, t.slot (hash e'.1) = t.slot (hash e.1) := by
    intro e' member
    rcases List.mem_cons.mp member with rfl | old
    · rfl
    · exact good.placed _ chain there e' old
  have count : t.used + 1 = (e :: chain ++ rest).length := by
    rw [good.counted, listed.length_eq, List.cons_append, List.length_cons]
  obtain ⟨good', listed'⟩ := change (e :: chain) (t.used + 1) placed count
  refine ⟨_, ?_, good', listed'.trans ((listed.cons e).symm), ?_⟩
  · rw [HashTable.prepend, read]
    rfl
  · exact List.length_set

theorem ne_nil_of_length_eq {α β : Type} {a : List α} {b : List β} (same : a.length = b.length)
    (filled : b ≠ []) : a ≠ [] := by
  intro none'
  rw [none'] at same
  exact filled (List.length_eq_zero_iff.mp same.symm)

end HashTable

namespace Dict

variable {hash : K → UInt64}

open HashTable

theorem moveChain_ok {chain : List (K × V)} {d : Dict K V} (good : d.ht1.Good hash)
    (filled : d.ht1.buckets ≠ []) (enough : chain.length ≤ d.ht0.used) :
    ∃ t, moveChain hash chain d =
        .ok { d with ht0 := { d.ht0 with used := d.ht0.used - chain.length }, ht1 := t } ∧
      t.Good hash ∧ t.items.Perm (chain ++ d.ht1.items) ∧ t.buckets ≠ [] := by
  induction chain generalizing d with
  | nil => exact ⟨d.ht1, rfl, good, List.Perm.refl _, filled⟩
  | cons e chain ih =>
      obtain ⟨t, put, good', listed, length⟩ := good.prepend filled e
      have filled' := ne_nil_of_length_eq length filled
      have some' : 1 ≤ d.ht0.used := Nat.le_trans (Nat.succ_pos _) enough
      have enough' : chain.length ≤ d.ht0.used - 1 := Nat.le_sub_of_add_le enough
      obtain ⟨t', moved, good'', listed', filled''⟩ :=
        @ih { d with ht0 := { d.ht0 with used := d.ht0.used - 1 }, ht1 := t } good' filled' enough'
      refine ⟨t', ?_, good'', ?_, filled''⟩
      · rw [moveChain, put, ok_bind, sub_of_le some', ok_bind, moved]
        rw [List.length_cons, Nat.add_comm, Nat.sub_sub]
      · exact (listed'.trans (listed.append_left chain)).trans List.perm_middle

theorem transfer_ok {nodes : List (K × V)} {t : HashTable K V} (good : t.Good hash)
    (filled : t.buckets ≠ []) :
    ∃ t', transfer hash nodes t = .ok t' ∧ t'.Good hash ∧ t'.items.Perm (nodes ++ t.items) := by
  induction nodes generalizing t with
  | nil => exact ⟨t, rfl, good, List.Perm.refl _⟩
  | cons e nodes ih =>
      obtain ⟨t', put, good', listed, length⟩ := good.prepend filled e
      obtain ⟨t'', moved, good'', listed'⟩ := ih good' (ne_nil_of_length_eq length filled)
      refine ⟨t'', ?_, good'', ?_⟩
      · rw [transfer, put, ok_bind, moved]
      · exact (listed'.trans (listed.append_left nodes)).trans List.perm_middle

section

variable [DecidableEq K]

theorem findEntrySlot_eq_none {chain : List (K × V)} {key : K}
    (missing : findEntrySlot chain key = none) : key ∉ Assoc.keys chain := by
  induction chain with
  | nil => exact List.not_mem_nil
  | cons e chain ih =>
      rw [findEntrySlot] at missing
      split at missing
      · cases missing
      · rename_i other
        rw [Option.map_eq_none_iff] at missing
        rw [Assoc.keys_cons, List.mem_cons, not_or]
        exact ⟨Ne.symm other, ih missing⟩

theorem findEntrySlot_eq_some {chain : List (K × V)} {key : K} {s : Slot K V}
    (found : findEntrySlot chain key = some s) : chain = s.before ++ (key, s.val) :: s.next := by
  induction chain generalizing s with
  | nil => cases found
  | cons e chain ih =>
      rw [findEntrySlot] at found
      split at found
      · rename_i here
        subst here
        cases found
        rfl
      · obtain ⟨s', found', rfl⟩ := Option.map_eq_some_iff.mp found
        rw [List.cons_append, ← ih found']

end

end Dict

end Zumic.Database
