/- The segments of a quick list and its index of their starts: what every operation keeps. -/

import Mathlib.Data.List.Induction
import Zumic.Database.QuickList

namespace Zumic.Database.QuickList

open Lib.Buffer

variable {α : Type}

/-- How many elements come before each segment, and how many there are in all. -/
def prefixSums (segments : List (List α)) : List Nat :=
  (List.range (segments.length + 1)).map fun i => (segments.take i).flatten.length

theorem length_prefixSums (segments : List (List α)) :
    (prefixSums segments).length = segments.length + 1 := by
  rw [prefixSums, List.length_map, List.length_range]

theorem getElem?_prefixSums {segments : List (List α)} {i : Nat} (within : i ≤ segments.length) :
    (prefixSums segments)[i]? = some (segments.take i).flatten.length := by
  rw [prefixSums, List.getElem?_map, List.getElem?_range (by omega)]
  rfl

theorem length_take_succ {segments : List (List α)} {i : Nat} {segment : List α}
    (here : segments[i]? = some segment) :
    (segments.take (i + 1)).flatten.length = (segments.take i).flatten.length + segment.length := by
  rw [List.take_add_one, here]
  simp

theorem prefixSums_append (segments : List (List α)) (segment : List α) :
    prefixSums (segments ++ [segment]) =
      prefixSums segments ++ [segments.flatten.length + segment.length] := by
  rw [prefixSums, List.length_append, List.length_singleton, List.range_succ, List.map_append]
  congr 1
  · apply List.map_congr_left
    intro i member
    have within : i ≤ segments.length := by
      have bound := List.mem_range.mp member
      omega
    rw [List.take_append_of_le_length within]
  · have whole : (segments ++ [segment]).take (segments.length + 1) = segments ++ [segment] :=
      List.take_of_length_le (by simp)
    rw [List.map_singleton, whole]
    simp

theorem prefixSums_sorted {segments : List (List α)} (filled : ∀ s ∈ segments, s ≠ []) :
    (prefixSums segments).Pairwise (· < ·) := by
  induction segments using List.reverseRecOn with
  | nil => exact List.pairwise_singleton _ _
  | append_singleton segments segment ih =>
      rw [prefixSums_append, List.pairwise_append]
      refine ⟨ih fun s member => filled s (List.mem_append_left _ member),
        List.pairwise_singleton _ _, ?_⟩
      intro a member b last
      rw [List.mem_singleton.mp last]
      obtain ⟨i, -, rfl⟩ := List.mem_map.mp member
      have part : (segments.take i).flatten.length ≤ segments.flatten.length := by
        conv_rhs => rw [← List.take_append_drop i segments, List.flatten_append, List.length_append]
        omega
      have positive : 0 < segment.length :=
        List.length_pos_of_ne_nil (filled segment (List.mem_append_right _ (List.mem_singleton_self _)))
      omega

theorem foldl_starts (segments : List (List α)) :
    segments.foldl (fun (p : List Nat × Nat) segment =>
      (p.1 ++ [p.2 + segment.length], p.2 + segment.length)) ([0], 0) =
        (prefixSums segments, segments.flatten.length) := by
  induction segments using List.reverseRecOn with
  | nil => rfl
  | append_singleton segments segment ih =>
      rw [List.foldl_append, ih, prefixSums_append]
      simp

theorem rebuildSegmentStarts_eq (ql : QuickList α) : ql.rebuildSegmentStarts =
    { ql with segmentStarts := prefixSums ql.segments, indexDirty := false, lastAccessed := none } := by
  rw [rebuildSegmentStarts, foldl_starts]

/-- Sums that are right up to a segment are right everywhere after the loop from it on. -/
theorem updateLoop_eq {segments : List (List α)} {starts : List Nat} {i n : Nat}
    (sized : starts.length = segments.length + 1) (rest : i + n = segments.length)
    (right : ∀ j ≤ i, starts[j]? = (prefixSums segments)[j]?) :
    updateLoop segments (List.range' i n) starts = .ok (prefixSums segments) := by
  induction n generalizing i starts with
  | zero =>
      apply congrArg Except.ok
      apply List.ext_getElem?
      intro j
      by_cases within : j ≤ i
      · exact right j within
      · rw [List.getElem?_eq_none (by omega), List.getElem?_eq_none (by
          rw [length_prefixSums]
          omega)]
  | succ n ih =>
      have inside : i < segments.length := by omega
      have here : segments[i]? = some segments[i] := List.getElem?_eq_getElem inside
      have before : starts[i]? = some (segments.take i).flatten.length :=
        (right i (Nat.le_refl i)).trans (getElem?_prefixSums (by omega))
      have previous : prevStart starts i = .ok (segments.take i).flatten.length := by
        rw [prevStart]
        split
        · rename_i zero
          subst zero
          rfl
        · rw [index, before]
      have segment : index segments i = .ok segments[i] := by rw [index, here]
      have room : i + 1 < starts.length := by omega
      rw [List.range'_succ, updateLoop, previous, ok_bind, segment, ok_bind]
      simp only [if_pos room]
      apply ih
      · rw [List.length_set]
        exact sized
      · omega
      · intro j within
        by_cases last : j = i + 1
        · subst last
          rw [List.getElem?_set_self room, getElem?_prefixSums (by omega), length_take_succ here]
        · rw [List.getElem?_set_ne (Ne.symm last)]
          exact right j (by omega)

/-- What holds of a list between two calls. -/
structure Sound (ql : QuickList α) : Prop where
  positive : 0 < ql.maxSegmentSize
  filled : ∀ s ∈ ql.segments, s ≠ [] ∧ s.length ≤ ql.maxSegmentSize
  counted : ql.len = ql.segments.flatten.length
  sized : ql.segmentStarts.length = ql.segments.length + 1
  indexed : ql.indexDirty = false → ql.segmentStarts = prefixSums ql.segments

theorem length_markIndexDirty (ql : QuickList α) :
    ql.markIndexDirty.segmentStarts.length = ql.segments.length + 1 := by
  simp only [markIndexDirty, List.length_append, List.length_take, List.length_replicate]
  omega

theorem sound_withOptimizeThreshold {maxSegmentSize : Nat} (positive : 0 < maxSegmentSize)
    (threshold : Nat) : (withOptimizeThreshold maxSegmentSize threshold : QuickList α).Sound where
  positive := positive
  filled _ member := absurd member List.not_mem_nil
  counted := rfl
  sized := rfl
  indexed _ := rfl

theorem Sound.clear {ql : QuickList α} (sound : ql.Sound) : ql.clear.Sound where
  positive := sound.positive
  filled _ member := absurd member List.not_mem_nil
  counted := rfl
  sized := rfl
  indexed _ := rfl

theorem refill_kept (maxSegmentSize : Nat) (filled : List (List α) × List α) (item : α) :
    (refill maxSegmentSize filled item).1.flatten ++ (refill maxSegmentSize filled item).2 =
      filled.1.flatten ++ filled.2 ++ [item] := by
  rw [refill]
  split
  · simp
  · simp

theorem foldl_refill_kept (maxSegmentSize : Nat) (items : List α)
    (filled : List (List α) × List α) :
    (items.foldl (refill maxSegmentSize) filled).1.flatten ++
      (items.foldl (refill maxSegmentSize) filled).2 = filled.1.flatten ++ filled.2 ++ items := by
  induction items generalizing filled with
  | nil => simp
  | cons item items ih =>
      rw [List.foldl_cons, ih, refill_kept]
      simp

/-- The segments that an optimization puts the elements into. -/
def refilled (ql : QuickList α) : List (List α) :=
  let filled := ql.iter.foldl (refill ql.maxSegmentSize) ([], [])
  if filled.2.isEmpty then filled.1 else filled.1 ++ [filled.2]

theorem flatten_refilled (ql : QuickList α) : ql.refilled.flatten = ql.iter := by
  have kept := foldl_refill_kept ql.maxSegmentSize ql.iter ([], [])
  simp only [List.flatten_nil, List.nil_append] at kept
  rw [refilled]
  generalize ql.iter.foldl (refill ql.maxSegmentSize) ([], []) = filled at kept
  rw [← kept]
  cases filled.2 with
  | nil => simp
  | cons item items => simp

section

variable {itemSize : Nat} {ql ql' : QuickList α}

theorem optimize_of_fits (fits : Fits itemSize ql.maxSegmentSize) :
    ql.optimize itemSize = .ok
      { ql with
        segments := ql.refilled
        segmentStarts := prefixSums ql.refilled
        indexDirty := false
        lastAccessed := none
        opsSinceOptimize := 0 } := by
  have nested : ql.segments.foldl
      (fun filled segment => segment.foldl (refill ql.maxSegmentSize) filled) ([], []) =
        ql.iter.foldl (refill ql.maxSegmentSize) ([], []) := List.foldl_flatten.symm
  rw [QuickList.optimize, allocate_of_fits fits, ok_bind, nested]
  simp only [rebuildSegmentStarts_eq]
  rfl

theorem optimize_eq_ok (done : ql.optimize itemSize = .ok ql') :
    ql' = { ql with
      segments := ql.refilled
      segmentStarts := prefixSums ql.refilled
      indexDirty := false
      lastAccessed := none
      opsSinceOptimize := 0 } := by
  by_cases fits : Fits itemSize ql.maxSegmentSize
  · exact Except.ok.inj (done.symm.trans (optimize_of_fits fits))
  · rw [QuickList.optimize, allocate, if_neg fits] at done
    cases done

end

/-- Full segments and one that is being filled. -/
structure Filling (maxSegmentSize : Nat) (filled : List (List α) × List α) : Prop where
  done : ∀ s ∈ filled.1, s ≠ [] ∧ s.length ≤ maxSegmentSize
  current : filled.2.length ≤ maxSegmentSize

theorem Filling.refill {maxSegmentSize : Nat} (positive : 0 < maxSegmentSize)
    {filled : List (List α) × List α} (filling : Filling maxSegmentSize filled) (item : α) :
    Filling maxSegmentSize (refill maxSegmentSize filled item) := by
  rw [QuickList.refill]
  split
  · rename_i large
    refine ⟨?_, positive⟩
    intro s member
    rcases List.mem_append.mp member with old | new
    · exact filling.done s old
    · rw [List.mem_singleton.mp new]
      refine ⟨?_, filling.current⟩
      intro none'
      rw [none', List.length_nil] at large
      omega
  · rename_i room
    refine ⟨filling.done, ?_⟩
    rw [List.length_append, List.length_singleton]
    omega

theorem Filling.foldl {maxSegmentSize : Nat} (positive : 0 < maxSegmentSize) (items : List α)
    {filled : List (List α) × List α} (filling : Filling maxSegmentSize filled) :
    Filling maxSegmentSize (items.foldl (QuickList.refill maxSegmentSize) filled) := by
  induction items generalizing filled with
  | nil => exact filling
  | cons item items ih => exact ih (filling.refill positive item)

theorem Sound.optimize {itemSize : Nat} {ql ql' : QuickList α} (sound : ql.Sound)
    (done : ql.optimize itemSize = .ok ql') : ql'.Sound := by
  have empty : Filling ql.maxSegmentSize (([], []) : List (List α) × List α) :=
    ⟨fun s member => absurd member List.not_mem_nil, Nat.zero_le _⟩
  have filling := empty.foldl sound.positive ql.iter
  have same := flatten_refilled ql
  obtain rfl := optimize_eq_ok done
  refine ⟨sound.positive, fun s member => ?_, ?_, length_prefixSums _, fun _ => rfl⟩
  · dsimp only [refilled] at member
    split at member
    · exact filling.done s member
    · rename_i some'
      rcases List.mem_append.mp member with old | new
      · exact filling.done s old
      · rw [List.mem_singleton.mp new]
        exact ⟨fun none' => some' (by rw [none']; rfl), filling.current⟩
  · exact sound.counted.trans (congrArg List.length same.symm)

theorem autoOptimize_cases {itemSize : Nat} {ql ql' : QuickList α}
    (done : ql.autoOptimize itemSize = .ok ql') :
    ∃ n, ql' = { ql with opsSinceOptimize := n } ∨
      optimize itemSize { ql with opsSinceOptimize := n } = .ok ql' := by
  simp only [QuickList.autoOptimize] at done
  split at done
  · exact ⟨_, Or.inl (Except.ok.inj done).symm⟩
  · split at done
    · exact ⟨0, Or.inr done⟩
    · exact ⟨0, Or.inl (Except.ok.inj done).symm⟩

/-- A sound list whose segments can be allocated. -/
structure Fitting (itemSize : Nat) (ql : QuickList α) : Prop extends ql.Sound where
  fits : Fits itemSize ql.maxSegmentSize

theorem Fitting.optimize {itemSize : Nat} {ql : QuickList α} (fitting : ql.Fitting itemSize) :
    ∃ ql', ql.optimize itemSize = .ok ql' ∧ ql'.Fitting itemSize ∧ ql'.iter = ql.iter := by
  have done := optimize_of_fits fitting.fits
  exact ⟨_, done, ⟨fitting.toSound.optimize done, fitting.fits⟩, flatten_refilled ql⟩

theorem Fitting.autoOptimize {itemSize : Nat} {ql : QuickList α} (fitting : ql.Fitting itemSize) :
    ∃ ql', ql.autoOptimize itemSize = .ok ql' ∧ ql'.Fitting itemSize ∧ ql'.iter = ql.iter := by
  have counted : ∀ n, Fitting itemSize { ql with opsSinceOptimize := n } := fun n =>
    ⟨⟨fitting.positive, fitting.filled, fitting.counted, fitting.sized, fitting.indexed⟩,
      fitting.fits⟩
  simp only [QuickList.autoOptimize]
  split
  · exact ⟨_, rfl, counted _, rfl⟩
  · split
    · exact (counted 0).optimize
    · exact ⟨_, rfl, counted 0, rfl⟩

end Zumic.Database.QuickList
