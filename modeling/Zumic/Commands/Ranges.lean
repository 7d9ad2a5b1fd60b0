/- The commands that read a range (`list.rs`, `string.rs`): which positions they should return, and
which they do. -/

import Zumic.Commands.Counters
import Zumic.Database.Deque

namespace Zumic.Commands

open Database Lib.Buffer Lib.ByteString Lib.Decimal Lib.Utf8

section

variable {α : Type}

/-- The position that an index stands for; negative ones count from the end. -/
def position (n : Nat) (i : Int64) : Int := if i.toInt < 0 then n + i.toInt else i.toInt

/-- The elements at the positions from `lo` up to and without `hi`. -/
def between (l : List α) (lo hi : Int) : List α :=
  ((List.range l.length).filter fun p : Nat => decide (lo ≤ p ∧ (p : Int) < hi)).filterMap
    fun p => l[p]?

theorem filter_range (n a b : Nat) :
    (List.range n).filter (fun p => decide (a ≤ p ∧ p < b)) = List.range' a (min b n - a) := by
  induction n with
  | zero => simp
  | succ n ih =>
      rw [List.range_succ, List.filter_append, ih]
      by_cases inside : a ≤ n ∧ n < b
      · have more : min b (n + 1) - a = min b n - a + 1 := by omega
        rw [more, List.range'_concat]
        simp only [List.filter_singleton, inside, decide_true, and_self, cond_true]
        congr 2
        omega
      · have same : min b (n + 1) - a = min b n - a := by omega
        simp only [List.filter_singleton, inside, decide_false, cond_false, List.append_nil, same]

theorem filterMap_range' (l : List α) (s k : Nat) :
    (List.range' s k).filterMap (fun i => l[i]?) = (l.drop s).take k := by
  induction k generalizing s with
  | zero => simp
  | succ k ih =>
      rw [List.range'_succ, List.filterMap_cons, ih]
      cases here : l[s]? with
      | none =>
          have beyond : l.length ≤ s := List.getElem?_eq_none_iff.mp here
          rw [List.drop_eq_nil_of_le beyond, List.drop_eq_nil_of_le (by omega)]
          simp
      | some x =>
          obtain ⟨inside, rfl⟩ := List.getElem?_eq_some_iff.mp here
          rw [List.drop_eq_getElem_cons inside, List.take_succ_cons]

theorem between_eq (l : List α) {lo hi : Int} (low : 0 ≤ lo) :
    between l lo hi = (l.drop lo.toNat).take (hi - lo).toNat := by
  have natural : ∀ p : Nat, (lo ≤ p ∧ (p : Int) < hi) ↔ (lo.toNat ≤ p ∧ p < hi.toNat) := by
    intro p
    omega
  unfold between
  simp only [natural]
  rw [filter_range, filterMap_range', List.take_eq_take_iff, List.length_drop]
  omega

end

/-- What stops the command: an overflow of `i64`, or a fault of the list. -/
inductive Stop where
  | overflow
  | fault (f : Fault)

def addI64 (a b : Int64) : Except Stop Int64 :=
  match checkedAdd a b with
  | some sum => .ok sum
  | none => .error .overflow

def subI64 (a b : Int64) : Except Stop Int64 :=
  match checkedSub a b with
  | some difference => .ok difference
  | none => .error .overflow

def maxI64 (a b : Int64) : Int64 := if a.toInt < b.toInt then b else a

def minI64 (a b : Int64) : Int64 := if b.toInt < a.toInt then b else a

/-- The first position, cast to `usize`. -/
def lowEnd (len start : Int64) : Except Stop Nat :=
  if start.toInt < 0 then do
    let i ← addI64 len start
    pure (asUsize (maxI64 i 0).toInt)
  else pure (asUsize (minI64 start len).toInt)

/-- The last position; what lies below the list is raised to its first element. -/
def highEnd (len stop : Int64) : Except Stop Nat :=
  if stop.toInt < 0 then do
    let i ← addI64 len stop
    pure (asUsize (maxI64 i 0).toInt)
  else do
    let last ← subI64 len 1
    pure (asUsize (minI64 stop last).toInt)

/-- The loop over the positions; an access may move the cache of the list. -/
def collect : List Nat → QuickList Sds → Except Stop (List Sds)
  | [], _ => .ok []
  | idx :: rest, list =>
      match list.get idx with
      | .error f => .error (.fault f)
      | .ok (elem, list) => do
          let others ← collect rest list
          pure (elem.toList ++ others)

def pack (vec : List Sds) : Except Stop (QuickList Sds) :=
  match QuickList.fromIter sdsSize vec 64 with
  | .ok out => .ok out
  | .error f => .error (.fault f)

/-- `LRANGE` on the list in its segments. -/
def lRangeList (list : QuickList Sds) (start stop : Int64) : Except Stop (QuickList Sds) := do
  let s ← lowEnd (asI64 list.len) start
  let e ← highEnd (asI64 list.len) stop
  let last := min e (list.len - 1)
  let vec ← collect (List.range' s (last + 1 - s)) list
  pack vec

/-- A list as it is stored; no allocation has more elements than an `i64` counts. -/
structure StoredList where
  list : QuickList Sds
  sound : list.Sound
  counted : list.len < 2 ^ 63

/-- What `LRANGE` should return. -/
def rangeOf (items : List Sds) (start stop : Int64) : List Sds :=
  between items (max (position items.length start) 0)
    (min (position items.length stop) (items.length - 1) + 1)

/-- The end lies before the first element, and the start is not behind it. -/
def StopsBelow (n : Nat) (start stop : Int64) : Prop :=
  0 < n ∧ position n stop < 0 ∧ position n start ≤ 0

instance (n : Nat) (start stop : Int64) : Decidable (StopsBelow n start stop) :=
  inferInstanceAs (Decidable (_ ∧ _ ∧ _))

section

variable {n : Nat}

theorem toInt_asI64 (small : n < 2 ^ 63) : (asI64 n).toInt = n := Int64.toInt_ofNat_of_lt small

theorem addI64_of_fits {a b : Int64} (fits : FitsI64 (a.toInt + b.toInt)) :
    ∃ sum, addI64 a b = .ok sum ∧ sum.toInt = a.toInt + b.toInt := by
  obtain ⟨sum, added, exact⟩ := toI64_of_fits fits
  refine ⟨sum, ?_, exact⟩
  rw [addI64, checkedAdd_eq, added]

theorem subI64_of_fits {a b : Int64} (fits : FitsI64 (a.toInt - b.toInt)) :
    ∃ difference, subI64 a b = .ok difference ∧ difference.toInt = a.toInt - b.toInt := by
  obtain ⟨difference, subtracted, exact⟩ := toI64_of_fits fits
  refine ⟨difference, ?_, exact⟩
  rw [subI64, checkedSub_eq, subtracted]

theorem toInt_maxI64 (a b : Int64) : (maxI64 a b).toInt = max a.toInt b.toInt := by
  unfold maxI64
  split <;> omega

theorem toInt_minI64 (a b : Int64) : (minI64 a b).toInt = min a.toInt b.toInt := by
  unfold minI64
  split <;> omega

theorem asUsize_of_nonneg {i : Int} (low : 0 ≤ i) (high : i < 2 ^ 63) : asUsize i = i.toNat := by
  unfold asUsize
  rw [Int.emod_eq_of_lt low (by omega)]

theorem lowEnd_eq (small : n < 2 ^ 63) (start : Int64) :
    lowEnd (asI64 n) start = .ok (min (max (position n start) 0) n).toNat := by
  have len := toInt_asI64 small
  have bounds := fitsI64_toInt start
  unfold FitsI64 at bounds
  unfold lowEnd position
  split
  · have fits : FitsI64 ((asI64 n).toInt + start.toInt) := by
      rw [len]
      unfold FitsI64
      omega
    obtain ⟨i, added, exact⟩ := addI64_of_fits fits
    rw [added]
    change Except.ok (asUsize (maxI64 i 0).toInt) = _
    rw [toInt_maxI64, exact, len]
    change Except.ok (asUsize (max (n + start.toInt) 0)) = _
    rw [asUsize_of_nonneg (by omega) (by omega)]
    congr 1
    omega
  · change Except.ok (asUsize (minI64 start (asI64 n)).toInt) = _
    rw [toInt_minI64, len, asUsize_of_nonneg (by omega) (by omega)]
    congr 1
    omega

/-- The last position of an empty list is a cast of minus one. -/
theorem highEnd_eq (small : n < 2 ^ 63) (stop : Int64) : ∃ e,
    highEnd (asI64 n) stop = .ok e ∧
      min e (n - 1) = (min (max (position n stop) 0) (n - 1 : Nat)).toNat := by
  have len := toInt_asI64 small
  have bounds := fitsI64_toInt stop
  unfold FitsI64 at bounds
  unfold highEnd position
  split
  · have fits : FitsI64 ((asI64 n).toInt + stop.toInt) := by
      rw [len]
      unfold FitsI64
      omega
    obtain ⟨i, added, exact⟩ := addI64_of_fits fits
    rw [added]
    refine ⟨asUsize (maxI64 i 0).toInt, rfl, ?_⟩
    rw [toInt_maxI64, exact, len]
    change min (asUsize (max (n + stop.toInt) 0)) (n - 1) = _
    rw [asUsize_of_nonneg (by omega) (by omega)]
    omega
  · have fits : FitsI64 ((asI64 n).toInt - (1 : Int64).toInt) := by
      rw [len]
      change FitsI64 (n - 1)
      unfold FitsI64
      omega
    obtain ⟨last, subtracted, exact⟩ := subI64_of_fits fits
    rw [subtracted]
    refine ⟨asUsize (minI64 stop last).toInt, rfl, ?_⟩
    rw [toInt_minI64, exact, len]
    change min (asUsize (min stop.toInt (n - 1))) (n - 1) = _
    by_cases filled : 0 < n
    · rw [asUsize_of_nonneg (by omega) (by omega)]
      omega
    · omega

end

/-- What the two ends leave of the items. -/
def readRange (items : List Sds) (start stop : Int64) : List Sds :=
  let n := items.length
  let s := (min (max (position n start) 0) n).toNat
  let last := (min (max (position n stop) 0) (n - 1 : Nat)).toNat
  (items.drop s).take (last + 1 - s)

theorem collect_eq {list : QuickList Sds} (sound : list.Sound) (idxs : List Nat) :
    collect idxs list = .ok (idxs.filterMap fun idx => list.iter[idx]?) := by
  induction idxs generalizing list with
  | nil => rfl
  | cons idx rest ih =>
      obtain ⟨list', read, sound', -, same⟩ := sound.get idx
      unfold collect
      rw [read]
      dsimp only
      rw [ih sound', same, List.filterMap_cons]
      cases list.iter[idx]? with
      | none => rfl
      | some elem => rfl

theorem pack_sound (vec : List Sds) : ∃ out, pack vec = .ok out ∧ out.Sound ∧ out.iter = vec := by
  have fits : Fits sdsSize 64 := by decide
  obtain ⟨out, built, fitting, shown⟩ :=
    QuickList.fromIter_fitting (by decide : 0 < 64) fits vec
  refine ⟨out, ?_, fitting.toSound, shown⟩
  rw [pack, built]

theorem lRangeList_eq (stored : StoredList) (start stop : Int64) : ∃ out,
    lRangeList stored.list start stop = .ok out ∧ out.Sound ∧
      out.iter = readRange stored.list.iter start stop := by
  obtain ⟨e, high, clamped⟩ := highEnd_eq stored.counted stop
  have length : stored.list.iter.length = stored.list.len := stored.sound.counted.symm
  obtain ⟨out, packed, sound, shown⟩ := pack_sound (readRange stored.list.iter start stop)
  refine ⟨out, ?_, sound, shown⟩
  unfold lRangeList
  rw [lowEnd_eq stored.counted, high]
  change (collect _ stored.list >>= pack) = _
  rw [collect_eq stored.sound, clamped, filterMap_range', ← length]
  exact packed

theorem lRange_eq {items : List Sds} (small : items.length < 2 ^ 63) (start stop : Int64) :
    lRange start stop (some (.list items)) =
      (.ok (.list (readRange items start stop)), .keep) := by
  have startBounds := fitsI64_toInt start
  have stopBounds := fitsI64_toInt stop
  unfold FitsI64 at startBounds stopBounds
  have low : asUsize (if start.toInt < 0 then max (items.length + start.toInt) 0
      else min start.toInt items.length) =
        (min (max (position items.length start) 0) items.length).toNat := by
    unfold position
    split
    · rw [asUsize_of_nonneg (by omega) (by omega)]
      omega
    · rw [asUsize_of_nonneg (by omega) (by omega)]
      omega
  have high : min (asUsize (if stop.toInt < 0 then max (items.length + stop.toInt) 0
      else min stop.toInt (items.length - 1))) (items.length - 1) =
        (min (max (position items.length stop) 0) (items.length - 1 : Nat)).toNat := by
    unfold position
    split
    · rw [asUsize_of_nonneg (by omega) (by omega)]
      omega
    · by_cases filled : 0 < items.length
      · rw [asUsize_of_nonneg (by omega) (by omega)]
        omega
      · omega
  unfold lRange typed asList
  dsimp only
  rw [low, high, filterMap_range']
  rfl

theorem readRange_eq_rangeOf_iff (items : List Sds) (start stop : Int64) :
    readRange items start stop = rangeOf items start stop ↔
      ¬ StopsBelow items.length start stop := by
  unfold readRange rangeOf StopsBelow
  rw [between_eq _ (by omega)]
  dsimp only
  generalize position items.length start = lo
  generalize position items.length stop = hi
  constructor
  · rintro same ⟨filled, below, first⟩
    have lengths := congrArg List.length same
    simp only [List.length_take, List.length_drop] at lengths
    omega
  · intro inside
    by_cases within : lo ≤ items.length
    · have starts : (min (max lo 0) items.length).toNat = (max lo 0).toNat := by omega
      rw [starts, List.take_eq_take_iff, List.length_drop]
      omega
    · rw [List.drop_eq_nil_of_le (by omega), List.drop_eq_nil_of_le (by omega)]
      simp

/-- The command returns on every stored list, without an overflow; what it returns is the range
exactly when the end does not lie below the list while the start is at its first element. -/
theorem lRange_exact_iff (stored : StoredList) (start stop : Int64) : ∃ out,
    lRangeList stored.list start stop = .ok out ∧
      lRange start stop (some (.list stored.list.iter)) = (.ok (.list out.iter), .keep) ∧
      (out.iter = rangeOf stored.list.iter start stop ↔
        ¬ StopsBelow stored.list.iter.length start stop) := by
  obtain ⟨out, ran, -, shown⟩ := lRangeList_eq stored start stop
  have small : stored.list.iter.length < 2 ^ 63 := by
    rw [QuickList.iter, ← stored.sound.counted]
    exact stored.counted
  refine ⟨out, ran, ?_, ?_⟩
  · rw [lRange_eq small, shown]
  · rw [shown, readRange_eq_rangeOf_iff]

/-- The range of a list of two elements from its first to the fifth from behind. -/
theorem lRange_below_list : ¬ ∀ (stored : StoredList) (start stop : Int64), ∃ out,
    lRangeList stored.list start stop = .ok out ∧
      out.iter = rangeOf stored.list.iter start stop := by
  intro exactly
  obtain ⟨list, packed, sound, shown⟩ := pack_sound [[97], [98]]
  have counted : list.len = 2 := by
    rw [sound.counted]
    exact congrArg List.length shown
  obtain ⟨out, ran, same⟩ := exactly ⟨list, sound, by omega⟩ 0 (-5)
  obtain ⟨out', ran', -, shown'⟩ := lRangeList_eq ⟨list, sound, by omega⟩ 0 (-5)
  obtain rfl := Except.ok.inj (ran.symm.trans ran')
  rw [shown', readRange_eq_rangeOf_iff] at same
  refine same ?_
  change StopsBelow list.iter.length 0 (-5)
  rw [shown]
  decide

/-- The first byte that `GETRANGE` should return, and the end behind the last one. -/
def rangeStart (n : Nat) (start : Int64) : Nat := (min (max (position n start) 0) n).toNat

def rangeEnd (n : Nat) (start stop : Int64) : Nat :=
  (min (max (position n stop) (rangeStart n start)) n).toNat

theorem rangeStart_le (n : Nat) (start : Int64) : rangeStart n start ≤ n := by
  unfold rangeStart
  omega

theorem getRange_eq (b : Bytes) (start stop : Int64) :
    getRange start stop (some (.str b)) =
      match Str.fromUtf8 b with
      | none => (.err .invalidType, .keep)
      | some s => (slice s (rangeStart b.length start) (rangeEnd b.length start stop), .keep) := by
  unfold getRange typed asStr
  dsimp only
  cases text : Str.fromUtf8 b with
  | none => rfl
  | some s =>
      have bytes := Str.bytes_of_fromUtf8 text
      have last : (min (max (position b.length stop)
          (min (max (position b.length start) 0) b.length)) b.length).toNat =
            rangeEnd b.length start stop := by
        unfold rangeEnd rangeStart
        omega
      dsimp only
      rw [bytes, ← last]
      rfl

theorem between_take_drop (b : Bytes) {start stop : Nat} (ordered : start ≤ stop) :
    between b start stop = (b.take stop).drop start := by
  rw [between_eq b (by omega), List.drop_take]
  congr 1
  omega

/-- The command returns the bytes of the range exactly when they are text and the range cuts no
character; it fails on what is no text, and otherwise panics. -/
theorem getRange_exact_iff (b : Bytes) (start stop : Int64) :
    getRange start stop (some (.str b)) =
        (.ok (.str (between b (rangeStart b.length start) (rangeEnd b.length start stop))), .keep) ↔
      validUtf8 b = true ∧ isCharBoundary b (rangeStart b.length start) = true ∧
        isCharBoundary b (rangeEnd b.length start stop) = true := by
  have low := rangeStart_le b.length start
  have ordered : rangeStart b.length start ≤ rangeEnd b.length start stop := by
    unfold rangeEnd
    omega
  rw [getRange_eq, between_take_drop b ordered]
  cases text : Str.fromUtf8 b with
  | none =>
      have invalid : validUtf8 b ≠ true := by
        intro valid
        unfold Str.fromUtf8 at text
        rw [dif_pos valid] at text
        cases text
      constructor
      · intro same
        cases same
      · rintro ⟨valid, -⟩
        exact absurd valid invalid
  | some s =>
      have bytes := Str.bytes_of_fromUtf8 text
      have valid : validUtf8 b = true := bytes ▸ s.valid
      dsimp only
      unfold slice
      rw [bytes]
      cases first : isCharBoundary b (rangeStart b.length start) with
      | false => simp
      | true =>
          cases last : isCharBoundary b (rangeEnd b.length start stop) with
          | false => simp
          | true => simp [valid]

/-- The first byte of a character of two bytes. -/
theorem getRange_cuts_character : ¬ ∀ (b : Bytes) (start stop : Int64),
    getRange start stop (some (.str b)) =
      (.ok (.str (between b (rangeStart b.length start) (rangeEnd b.length start stop))),
        .keep) := by
  intro exactly
  obtain ⟨-, -, boundary⟩ := (getRange_exact_iff _ _ _).mp (exactly [0xC3, 0xA9] 0 1)
  revert boundary
  decide

end Zumic.Commands
