/- A quick list is a sequence: every call does on the segments what it does on a plain list. -/

import Zumic.Database.Segments

namespace Zumic.Database.QuickList

open Lib.BinarySearch Lib.Buffer

variable {α : Type} {ql : QuickList α} {itemSize : Nat}

/-- Sums that were right stay right up to the first segment that has changed. -/
theorem starts_right {starts : List Nat} {old segments : List (List α)} {i : Nat}
    (right : starts = prefixSums old) (sized : i ≤ old.length) (inside : i < segments.length)
    (same : old.take i = segments.take i) :
    i < segments.length ∧ ∀ j ≤ i, starts[j]? = (prefixSums segments)[j]? := by
  refine ⟨inside, fun j within => ?_⟩
  have before : old.take j = segments.take j := by
    have cut := congrArg (List.take j) same
    rwa [List.take_take, List.take_take, Nat.min_eq_left within] at cut
  rw [right, getElem?_prefixSums (within.trans sized),
    getElem?_prefixSums (within.trans inside.le), before]

/-- The length and the index of a list are right, whatever the sizes of its segments. -/
structure Counted (ql : QuickList α) : Prop where
  counted : ql.len = ql.segments.flatten.length
  sized : ql.segmentStarts.length = ql.segments.length + 1
  indexed : ql.indexDirty = false → ql.segmentStarts = prefixSums ql.segments

/-- A list whose sums are right up to the segment that was changed. -/
structure Behind (ql : QuickList α) (i : Nat) : Prop where
  counted : ql.len = ql.segments.flatten.length
  sized : ql.segmentStarts.length = ql.segments.length + 1
  right : ql.indexDirty = false → i < ql.segments.length ∧
    ∀ j ≤ i, ql.segmentStarts[j]? = (prefixSums ql.segments)[j]?

theorem Behind.refreshFrom {i : Nat} (behind : Behind ql i) :
    ∃ ql', ql.refreshFrom i = .ok ql' ∧ ql'.Counted ∧ ql'.segments = ql.segments ∧
      ql'.maxSegmentSize = ql.maxSegmentSize := by
  rw [QuickList.refreshFrom]
  cases dirty : ql.indexDirty with
  | true =>
      refine ⟨ql, rfl, ⟨behind.counted, behind.sized, ?_⟩, rfl, rfl⟩
      intro clean
      rw [dirty] at clean
      cases clean
  | false =>
      obtain ⟨inside, right⟩ := behind.right dirty
      have updated := updateLoop_eq behind.sized (Nat.add_sub_of_le inside.le) right
      have below : ¬ ql.segments.length ≤ i := Nat.not_le.mpr inside
      simp only [Bool.false_eq_true, if_false, updateSegmentStartsFrom, if_neg below, updated,
        ok_bind]
      exact ⟨_, rfl, ⟨behind.counted, length_prefixSums _, fun _ => rfl⟩, rfl, rfl⟩

/-- The same with segments within their bounds. -/
structure Stale (itemSize : Nat) (ql : QuickList α) (i : Nat) : Prop where
  fits : Fits itemSize ql.maxSegmentSize
  positive : 0 < ql.maxSegmentSize
  filled : ∀ s ∈ ql.segments, s ≠ [] ∧ s.length ≤ ql.maxSegmentSize
  counted : ql.len = ql.segments.flatten.length
  sized : ql.segmentStarts.length = ql.segments.length + 1
  right : ql.indexDirty = false → i < ql.segments.length ∧
    ∀ j ≤ i, ql.segmentStarts[j]? = (prefixSums ql.segments)[j]?

theorem Stale.refreshFrom {i : Nat} (stale : Stale itemSize ql i) :
    ∃ ql', ql.refreshFrom i = .ok ql' ∧ ql'.Fitting itemSize ∧ ql'.iter = ql.iter := by
  have behind : Behind ql i := ⟨stale.counted, stale.sized, stale.right⟩
  obtain ⟨ql', refreshed, counted, segments, size⟩ := behind.refreshFrom
  refine ⟨ql', refreshed, ⟨⟨?_, ?_, counted.counted, counted.sized, counted.indexed⟩, ?_⟩,
    congrArg List.flatten segments⟩
  · rw [size]
    exact stale.positive
  · rw [segments, size]
    exact stale.filled
  · rw [size]
    exact stale.fits

/-- The end of every push and pop. -/
theorem Stale.finish {i : Nat} (stale : Stale itemSize ql i) :
    ∃ ql₁ ql', ql.refreshFrom i = .ok ql₁ ∧ ql₁.autoOptimize itemSize = .ok ql' ∧
      ql'.Fitting itemSize ∧ ql'.iter = ql.iter := by
  obtain ⟨ql₁, refreshed, fitting, same⟩ := stale.refreshFrom
  obtain ⟨ql', optimized, fitting', same'⟩ := fitting.autoOptimize
  exact ⟨ql₁, ql', refreshed, optimized, fitting', same'.trans same⟩

/-- A segment with room, between others that are filled. -/
structure Roomy (itemSize : Nat) (ql : QuickList α) (before : List (List α)) (segment : List α)
    (after : List (List α)) : Prop where
  fits : Fits itemSize ql.maxSegmentSize
  shape : ql.segments = before ++ segment :: after
  positive : 0 < ql.maxSegmentSize
  room : segment.length < ql.maxSegmentSize
  filled : ∀ s ∈ before ++ after, s ≠ [] ∧ s.length ≤ ql.maxSegmentSize
  counted : ql.len = ql.segments.flatten.length
  sized : ql.segmentStarts.length = ql.segments.length + 1
  indexed : ql.indexDirty = false → ql.segmentStarts = prefixSums ql.segments

theorem Fitting.roomy (fitting : ql.Fitting itemSize) {before after : List (List α)}
    {segment : List α} (shape : ql.segments = before ++ segment :: after)
    (room : segment.length < ql.maxSegmentSize) : Roomy itemSize ql before segment after where
  fits := fitting.fits
  shape := shape
  positive := fitting.positive
  room := room
  filled s member := by
    apply fitting.filled
    rw [shape]
    rcases List.mem_append.mp member with front | back
    · exact List.mem_append_left _ front
    · exact List.mem_append_right _ (List.mem_cons_of_mem _ back)
  counted := fitting.counted
  sized := fitting.sized
  indexed := fitting.indexed

theorem Fitting.roomy_new (fitting : ql.Fitting itemSize) {before after : List (List α)}
    (shape : ql.segments = before ++ after) :
    Roomy itemSize (markIndexDirty { ql with segments := before ++ [] :: after }) before []
      after where
  fits := fitting.fits
  shape := rfl
  positive := fitting.positive
  room := fitting.positive
  filled s member := fitting.filled s (shape ▸ member)
  counted := by
    have same : (before ++ [] :: after).flatten = ql.segments.flatten := by
      rw [shape]
      simp
    exact fitting.counted.trans (congrArg List.length same.symm)
  sized := length_markIndexDirty _
  indexed clean := absurd clean Bool.noConfusion

theorem modify_middle {before after : List (List α)} {segment : List α} (f : List α → List α) :
    (before ++ segment :: after).modify before.length f = before ++ f segment :: after := by
  induction before with
  | nil => rfl
  | cons s before ih => exact congrArg (List.cons s) ih

theorem Roomy.pushInto {before after : List (List α)} {segment : List α}
    (roomy : Roomy itemSize ql before segment after) (put : List α → List α)
    (grows : (put segment).length = segment.length + 1) :
    ∃ ql', ql.pushInto itemSize before.length put = .ok ql' ∧ ql'.Fitting itemSize ∧
      ql'.iter = before.flatten ++ put segment ++ after.flatten := by
  have inside : before.length < ql.segments.length := by
    rw [roomy.shape, List.length_append, List.length_cons]
    omega
  have modified : ql.modifySegment before.length put =
      .ok { ql with segments := before ++ put segment :: after } := by
    rw [modifySegment, if_pos inside, roomy.shape, modify_middle]
  have stale : Stale itemSize { ql with
      segments := before ++ put segment :: after, len := ql.len + 1 } before.length := by
    refine ⟨roomy.fits, roomy.positive, ?_, ?_, ?_, ?_⟩
    · intro s member
      rcases List.mem_append.mp member with front | back
      · exact roomy.filled s (List.mem_append_left _ front)
      · rcases List.mem_cons.mp back with rfl | back
        · refine ⟨fun none' => ?_, ?_⟩
          · rw [none', List.length_nil] at grows
            omega
          · rw [grows]
            exact roomy.room
        · exact roomy.filled s (List.mem_append_right _ back)
    · simp only [roomy.counted, roomy.shape, List.flatten_append, List.flatten_cons,
        List.length_append, grows]
      omega
    · rw [roomy.sized, roomy.shape]
      simp only [List.length_append, List.length_cons]
    · intro clean
      refine starts_right (roomy.indexed clean) inside.le (by simp) ?_
      rw [roomy.shape, List.take_left, List.take_left]
  obtain ⟨ql₁, ql', refreshed, optimized, fitting, same⟩ := stale.finish
  rw [QuickList.pushInto, modified, ok_bind]
  refine ⟨ql', (bind_of_ok refreshed _).trans optimized, fitting, ?_⟩
  rw [same, iter]
  simp

theorem Fitting.pushFront (fitting : ql.Fitting itemSize) (item : α) :
    ∃ ql', ql.pushFront itemSize item = .ok ql' ∧ ql'.Fitting itemSize ∧
      ql'.iter = item :: ql.iter := by
  rw [QuickList.pushFront]
  by_cases needed : ql.full ql.segments.head? = true
  · have roomy : Roomy itemSize (markIndexDirty { ql with segments := [] :: ql.segments }) [] []
      ql.segments := fitting.roomy_new (List.nil_append ql.segments).symm
    obtain ⟨ql', pushed, fitting', same⟩ := roomy.pushInto (fun s => item :: s) rfl
    rw [if_pos needed, allocate_of_fits fitting.fits, ok_bind]
    exact ⟨ql', pushed, fitting', same⟩
  · cases shape : ql.segments with
    | nil =>
        rw [shape] at needed
        exact absurd rfl needed
    | cons segment segments =>
        have room : segment.length < ql.maxSegmentSize := by
          rw [shape] at needed
          simpa [full] using needed
        have roomy : Roomy itemSize ql [] segment segments := fitting.roomy shape room
        obtain ⟨ql', pushed, fitting', same⟩ := roomy.pushInto (fun s => item :: s) rfl
        rw [← shape, if_neg needed]
        refine ⟨ql', pushed, fitting', ?_⟩
        rw [same, iter, shape]
        simp

theorem Fitting.pushBack (fitting : ql.Fitting itemSize) (item : α) :
    ∃ ql', ql.pushBack itemSize item = .ok ql' ∧ ql'.Fitting itemSize ∧
      ql'.iter = ql.iter ++ [item] := by
  rw [QuickList.pushBack]
  by_cases needed : ql.full ql.segments.getLast? = true
  · have roomy : Roomy itemSize (markIndexDirty { ql with segments := ql.segments ++ [[]] })
      ql.segments [] [] := fitting.roomy_new (List.append_nil _).symm
    have last : sub (markIndexDirty { ql with segments := ql.segments ++ [[]] }).segments.length 1 =
        .ok ql.segments.length := by
      rw [roomy.shape, List.length_append, List.length_singleton, sub_of_le (by omega),
        Nat.add_sub_cancel]
    obtain ⟨ql', pushed, fitting', same⟩ := roomy.pushInto (fun s => s ++ [item]) (by simp)
    simp only [if_pos needed, allocate_of_fits fitting.fits, last, ok_bind]
    refine ⟨ql', pushed, fitting', ?_⟩
    rw [same, iter]
    simp
  · rcases List.eq_nil_or_concat ql.segments with none' | ⟨segments, segment, shape⟩
    · rw [none'] at needed
      exact absurd rfl needed
    · rw [List.concat_eq_append] at shape
      have room : segment.length < ql.maxSegmentSize := by
        rw [shape, List.getLast?_concat] at needed
        simpa [full] using needed
      have roomy : Roomy itemSize ql segments segment [] := fitting.roomy shape room
      have last : sub ql.segments.length 1 = .ok segments.length := by
        rw [shape, List.length_append, List.length_singleton, sub_of_le (by omega),
          Nat.add_sub_cancel]
      obtain ⟨ql', pushed, fitting', same⟩ := roomy.pushInto (fun s => s ++ [item]) (by simp)
      simp only [if_neg needed, last, ok_bind]
      refine ⟨ql', pushed, fitting', ?_⟩
      rw [same, iter, shape]
      simp

/-- The segments that are left when one has been emptied. -/
theorem Fitting.dropSegment (fitting : ql.Fitting itemSize) {segments : List (List α)} {l : List α}
    (filled : ∀ s ∈ segments, s ≠ [] ∧ s.length ≤ ql.maxSegmentSize)
    (rest : segments.flatten = l) :
    ∃ ql', (markIndexDirty { ql with segments := segments, len := l.length }).autoOptimize itemSize =
      .ok ql' ∧ ql'.Fitting itemSize ∧ ql'.iter = l := by
  have dropped :
      Fitting itemSize (markIndexDirty { ql with segments := segments, len := l.length }) :=
    ⟨⟨fitting.positive, filled, congrArg List.length rest.symm, length_markIndexDirty _,
      fun clean => absurd clean Bool.noConfusion⟩, fitting.fits⟩
  obtain ⟨ql', optimized, fitting', same⟩ := dropped.autoOptimize
  exact ⟨ql', optimized, fitting', same.trans rest⟩

theorem Sound.segments_nil (sound : ql.Sound) (none' : ql.iter = []) : ql.segments = [] := by
  cases shape : ql.segments with
  | nil => rfl
  | cons segment segments =>
      have some' := (sound.filled segment (shape ▸ List.mem_cons_self)).1
      rw [iter, shape, List.flatten_cons] at none'
      exact absurd (List.append_eq_nil_iff.mp none').1 some'

theorem Sound.sub_len (sound : ql.Sound) {l : List α} (size : ql.iter.length = l.length + 1) :
    sub ql.len 1 = .ok l.length := by
  have count : ql.len = l.length + 1 := sound.counted.trans size
  rw [count, sub_of_le (by omega), Nat.add_sub_cancel]

theorem Sound.popFront_nil (sound : ql.Sound) (none' : ql.iter = []) :
    ql.popFront itemSize = .ok (none, ql) := by
  rw [popFront, sound.segments_nil none']

theorem Fitting.popFront_cons (fitting : ql.Fitting itemSize) {item : α} {l : List α}
    (some' : ql.iter = item :: l) :
    ∃ ql', ql.popFront itemSize = .ok (some item, ql') ∧ ql'.Fitting itemSize ∧ ql'.iter = l := by
  have sound := fitting.toSound
  have fewer : sub ql.len 1 = .ok l.length := sound.sub_len (congrArg List.length some')
  rw [popFront]
  rcases shape : ql.segments with _ | ⟨_ | ⟨first, segment⟩, segments⟩
  · rw [iter, shape] at some'
    cases some'
  · exact absurd rfl (sound.filled [] (shape ▸ List.mem_cons_self)).1
  · have split : first = item ∧ segment ++ segments.flatten = l := by
      rw [iter, shape, List.flatten_cons, List.cons_append] at some'
      exact List.cons.inj some'
    obtain ⟨rfl, rest⟩ := split
    have filled : ∀ s ∈ segments, s ≠ [] ∧ s.length ≤ ql.maxSegmentSize := fun s member =>
      sound.filled s (shape ▸ List.mem_cons_of_mem _ member)
    simp only [fewer, ok_bind]
    cases segment with
    | nil =>
        obtain ⟨ql', optimized, fitting', same⟩ := fitting.dropSegment filled rest
        refine ⟨ql', ?_, fitting', same⟩
        simp only [List.isEmpty_nil, if_true, optimized, ok_bind]
        rfl
    | cons next segment =>
        have stale : Stale itemSize { ql with
            segments := (next :: segment) :: segments, len := l.length } 0 := by
          refine ⟨fitting.fits, sound.positive, ?_, congrArg List.length rest.symm, ?_, ?_⟩
          · intro s member
            rcases List.mem_cons.mp member with rfl | old
            · have whole := (sound.filled _ (shape ▸ List.mem_cons_self)).2
              exact ⟨List.cons_ne_nil _ _, Nat.le_of_succ_le whole⟩
            · exact filled s old
          · rw [sound.sized, shape]
            rfl
          · intro clean
            exact starts_right (sound.indexed clean) (Nat.zero_le _) (Nat.succ_pos _) rfl
        obtain ⟨ql₁, ql', refreshed, optimized, fitting', same⟩ := stale.finish
        refine ⟨ql', ?_, fitting', same.trans rest⟩
        exact (bind_of_ok refreshed _).trans (bind_of_ok optimized _)

theorem Sound.popBack_nil (sound : ql.Sound) (none' : ql.iter = []) :
    ql.popBack itemSize = .ok (none, ql) := by
  rw [popBack, sound.segments_nil none']
  rfl

theorem Fitting.popBack_append (fitting : ql.Fitting itemSize) {item : α} {l : List α}
    (some' : ql.iter = l ++ [item]) :
    ∃ ql', ql.popBack itemSize = .ok (some item, ql') ∧ ql'.Fitting itemSize ∧ ql'.iter = l := by
  have sound := fitting.toSound
  have fewer : sub ql.len 1 = .ok l.length :=
    sound.sub_len ((congrArg List.length some').trans (by simp))
  rcases List.eq_nil_or_concat ql.segments with empty | ⟨segments, segment, shape⟩
  · rw [iter, empty] at some'
    exact absurd some'.symm (by simp)
  rw [List.concat_eq_append] at shape
  have bounds := sound.filled segment (by rw [shape]; simp)
  rcases List.eq_nil_or_concat segment with empty | ⟨front, last, whole⟩
  · exact absurd empty bounds.1
  rw [List.concat_eq_append] at whole
  subst whole
  have split : segments.flatten ++ front = l ∧ last = item := by
    rw [iter, shape, List.flatten_append, List.flatten_singleton, ← List.append_assoc] at some'
    obtain ⟨rest, ended⟩ := List.append_inj' some' rfl
    exact ⟨rest, List.singleton_inj.mp ended⟩
  obtain ⟨rest, rfl⟩ := split
  have filled : ∀ s ∈ segments, s ≠ [] ∧ s.length ≤ ql.maxSegmentSize := fun s member =>
    sound.filled s (by rw [shape]; exact List.mem_append_left _ member)
  have lastIdx : sub (segments ++ [front ++ [last]]).length 1 = .ok segments.length := by
    rw [List.length_append, List.length_singleton, sub_of_le (by omega), Nat.add_sub_cancel]
  rw [popBack, shape, List.getLast?_concat]
  simp only [List.getLast?_concat, List.dropLast_concat, fewer, lastIdx, ok_bind]
  cases front with
  | nil =>
      rw [List.append_nil] at rest
      obtain ⟨ql', optimized, fitting', same⟩ := fitting.dropSegment filled rest
      refine ⟨ql', ?_, fitting', same⟩
      simp only [List.isEmpty_nil, if_true, optimized, ok_bind]
      rfl
  | cons first front =>
      have stale : Stale itemSize { ql with
          segments := segments ++ [first :: front], len := l.length } segments.length := by
        refine ⟨fitting.fits, sound.positive, ?_, ?_, ?_, ?_⟩
        · intro s member
          rcases List.mem_append.mp member with old | new
          · exact filled s old
          · rw [List.mem_singleton.mp new]
            have whole := bounds.2
            rw [List.length_append, List.length_singleton] at whole
            exact ⟨List.cons_ne_nil _ _, Nat.le_of_succ_le whole⟩
        · rw [← rest]
          simp
        · rw [sound.sized, shape]
          simp
        · intro clean
          refine starts_right (sound.indexed clean) (by simp [shape]) (by simp) ?_
          rw [shape, List.take_left, List.take_left]
      obtain ⟨ql₁, ql', refreshed, optimized, fitting', same⟩ := stale.finish
      refine ⟨ql', (bind_of_ok refreshed _).trans (bind_of_ok optimized _), fitting',
        same.trans ?_⟩
      rw [← rest, iter]
      simp

/-- An index lies in a segment at an offset. -/
def Located (segments : List (List α)) (i segIdx offset : Nat) : Prop :=
  ∃ before segment after, segments = before ++ segment :: after ∧ before.length = segIdx ∧
    i = before.flatten.length + offset ∧ offset < segment.length

theorem located_of_start {segments : List (List α)} {i segIdx : Nat} {segment : List α}
    (here : segments[segIdx]? = some segment)
    (start : (segments.take segIdx).flatten.length ≤ i)
    (ended : i < (segments.take segIdx).flatten.length + segment.length) :
    Located segments i segIdx (i - (segments.take segIdx).flatten.length) := by
  obtain ⟨inside, value⟩ := List.getElem?_eq_some_iff.mp here
  refine ⟨segments.take segIdx, segment, segments.drop (segIdx + 1), ?_, ?_, by omega, by omega⟩
  · rw [← value, List.getElem_cons_drop, List.take_append_drop]
  · rw [List.length_take]
    omega

theorem Located.getElem? {segments : List (List α)} {i segIdx offset : Nat}
    (located : Located segments i segIdx offset) :
    ∃ segment, segments[segIdx]? = some segment ∧ segment[offset]? = segments.flatten[i]? := by
  obtain ⟨before, segment, after, rfl, rfl, rfl, inside⟩ := located
  refine ⟨segment, by simp, ?_⟩
  rw [List.flatten_append, List.flatten_cons, List.getElem?_append_right (by omega),
    Nat.add_sub_cancel_left, List.getElem?_append_left inside]

theorem modify_append {l l' : List α} {n : Nat} (f : α → α) :
    (l ++ l').modify (l.length + n) f = l ++ l'.modify n f := by
  induction l with
  | nil => simp
  | cons x l ih =>
      rw [List.cons_append, List.length_cons, Nat.add_right_comm, List.modify_succ_cons, ih]
      rfl

theorem modify_append_left {l l' : List α} {n : Nat} (inside : n < l.length) (f : α → α) :
    (l ++ l').modify n f = l.modify n f ++ l' := by
  induction l generalizing n with
  | nil => exact absurd inside (Nat.not_lt_zero n)
  | cons x l ih =>
      cases n with
      | zero => rfl
      | succ n =>
          have rest : (l ++ l').modify n f = l.modify n f ++ l' := ih (Nat.lt_of_succ_lt_succ inside)
          rw [List.cons_append, List.modify_succ_cons, rest]
          rfl

theorem Located.modify {segments : List (List α)} {i segIdx offset : Nat}
    (located : Located segments i segIdx offset) (change : α → α) :
    (segments.modify segIdx fun s => s.modify offset change).flatten =
      segments.flatten.modify i change := by
  obtain ⟨before, segment, after, rfl, rfl, rfl, inside⟩ := located
  rw [modify_middle, List.flatten_append, List.flatten_cons, List.flatten_append, List.flatten_cons,
    modify_append, modify_append_left inside]

theorem Sound.cached (sound : ql.Sound) (cache : Option (Nat × Nat)) :
    Sound { ql with lastAccessed := cache } :=
  ⟨sound.positive, sound.filled, sound.counted, sound.sized, sound.indexed⟩

theorem Sound.rebuilt (sound : ql.Sound) : ql.rebuildSegmentStarts.Sound := by
  rw [rebuildSegmentStarts_eq]
  exact ⟨sound.positive, sound.filled, sound.counted, length_prefixSums _, fun _ => rfl⟩

/-- The place that is found, in a list that differs in its index only. -/
def Finds (ql : QuickList α) (i : Nat)
    (result : Except Fault (Option (Nat × Nat) × QuickList α)) : Prop :=
  ∃ segIdx offset ql', result = .ok (some (segIdx, offset), ql') ∧ ql'.Sound ∧
    ql'.maxSegmentSize = ql.maxSegmentSize ∧ ql'.segments = ql.segments ∧
      Located ql.segments i segIdx offset

theorem Sound.searchSegment (sound : ql.Sound) (clean : ql.indexDirty = false) {i : Nat}
    (within : i < ql.len) : Finds ql i (ql.searchSegment i) := by
  have starts := sound.indexed clean
  have sorted : ql.segmentStarts.Pairwise (· < ·) := by
    rw [starts]
    exact prefixSums_sorted fun s member => (sound.filled s member).1
  have first : ∃ y, ql.segmentStarts[0]? = some y ∧ y ≤ i := by
    rw [starts]
    exact ⟨0, getElem?_prefixSums (Nat.zero_le _), Nat.zero_le i⟩
  obtain ⟨segIdx, start, read, below, above, found⟩ := binarySearch_spec sorted first
  have bound : segIdx ≤ ql.segments.length := by
    have inside := (List.getElem?_eq_some_iff.mp read).1
    rw [sound.sized] at inside
    omega
  have value : start = (ql.segments.take segIdx).flatten.length := by
    rw [starts, getElem?_prefixSums bound] at read
    exact (Option.some.inj read).symm
  have inside : segIdx < ql.segments.length := by
    rcases Nat.lt_or_eq_of_le bound with less | last
    · exact less
    · rw [last, List.take_length, ← sound.counted] at value
      omega
  have here : ql.segments[segIdx]? = some ql.segments[segIdx] := List.getElem?_eq_getElem inside
  have next : i < start + ql.segments[segIdx].length := by
    apply above (segIdx + 1) _ (Nat.lt_succ_self _)
    rw [starts, getElem?_prefixSums (by omega), length_take_succ here, value]
  have located : Located ql.segments i segIdx (i - start) := by
    rw [value] at below next ⊢
    exact located_of_start here below next
  rw [QuickList.searchSegment, found]
  by_cases exact' : start = i
  · simp only [if_pos exact']
    refine ⟨segIdx, 0, _, rfl, sound.cached _, rfl, rfl, ?_⟩
    rwa [exact', Nat.sub_self] at located
  · have inner : ¬(segIdx + 1 = 0 ∨ ql.segments.length < segIdx + 1) := by omega
    have read' : index ql.segmentStarts (segIdx + 1 - 1) = .ok start := by
      rw [index, Nat.add_sub_cancel, read]
    simp only [if_neg exact', if_neg inner, read', sub_of_le below, ok_bind]
    exact ⟨segIdx, i - start, _, rfl, sound.cached _, rfl, rfl, located⟩

theorem Sound.lookupSegment (sound : ql.Sound) (clean : ql.indexDirty = false) {i : Nat}
    (within : i < ql.len) : Finds ql i (ql.lookupSegment i) := by
  have search := sound.searchSegment clean within
  rw [QuickList.lookupSegment]
  split
  · exact search
  · rename_i cached last _
    split
    · rename_i inside
      have here : ql.segments[cached]? = some ql.segments[cached] := List.getElem?_eq_getElem inside
      have start : index ql.segmentStarts cached =
          .ok (ql.segments.take cached).flatten.length := by
        rw [index, sound.indexed clean, getElem?_prefixSums inside.le]
      have segment : index ql.segments cached = .ok ql.segments[cached] := by rw [index, here]
      rw [start, ok_bind, segment, ok_bind]
      split
      · rename_i hit
        exact ⟨cached, _, _, rfl, sound.cached _, rfl, rfl, located_of_start here hit.1 hit.2⟩
      · exact search
    · exact search

theorem Sound.findSegment (sound : ql.Sound) {i : Nat} (within : i < ql.len) :
    Finds ql i (ql.findSegment i) := by
  rw [QuickList.findSegment, if_neg (Nat.not_le.mpr within)]
  split
  · have rebuilt := sound.rebuilt
    rw [rebuildSegmentStarts_eq] at rebuilt ⊢
    exact rebuilt.lookupSegment rfl within
  · rename_i fresh
    have clean : ql.indexDirty = false := Bool.eq_false_iff.mpr fun dirty => fresh (Or.inl dirty)
    exact sound.lookupSegment clean within

theorem Sound.get (sound : ql.Sound) (i : Nat) :
    ∃ ql', ql.get i = .ok (ql.iter[i]?, ql') ∧ ql'.Sound ∧
      ql'.maxSegmentSize = ql.maxSegmentSize ∧ ql'.iter = ql.iter := by
  rw [QuickList.get]
  by_cases within : i < ql.len
  · obtain ⟨segIdx, offset, ql', found, sound', size, same, located⟩ := sound.findSegment within
    obtain ⟨segment, here, value⟩ := located.getElem?
    have read : index ql'.segments segIdx = .ok segment := by rw [index, same, here]
    simp only [found, read, ok_bind]
    refine ⟨ql', ?_, sound', size, congrArg List.flatten same⟩
    rw [value]
    rfl
  · have beyond : ql.findSegment i = .ok (none, ql) := by
      rw [QuickList.findSegment, if_pos (Nat.not_lt.mp within)]
    have none' : ql.iter[i]? = none := by
      rw [List.getElem?_eq_none]
      rw [iter, ← sound.counted]
      omega
    rw [beyond, ok_bind, none']
    exact ⟨ql, rfl, sound, rfl, rfl⟩

theorem length_take_flatten (segments : List (List α)) (i : Nat) :
    (segments.take i).flatten.length = ((segments.map List.length).take i).sum := by
  rw [List.length_flatten, List.map_take]

theorem length_of_lengths {a b : List (List α)} (lengths : a.map List.length = b.map List.length) :
    a.length = b.length := by
  have size := congrArg List.length lengths
  rwa [List.length_map, List.length_map] at size

theorem prefixSums_of_lengths {a b : List (List α)}
    (lengths : a.map List.length = b.map List.length) : prefixSums a = prefixSums b := by
  rw [prefixSums, prefixSums, length_of_lengths lengths]
  apply List.map_congr_left
  intro i _
  rw [length_take_flatten, length_take_flatten, lengths]

theorem Sound.reshaped (sound : ql.Sound) {segments : List (List α)}
    (lengths : segments.map List.length = ql.segments.map List.length) :
    Sound { ql with segments := segments } := by
  have count := length_of_lengths lengths
  have sums := prefixSums_of_lengths lengths
  refine ⟨sound.positive, ?_, ?_, ?_, ?_⟩
  · intro s member
    have listed : s.length ∈ ql.segments.map List.length :=
      lengths ▸ List.mem_map_of_mem member
    obtain ⟨old, among, same⟩ := List.mem_map.mp listed
    obtain ⟨some', bounded⟩ := sound.filled old among
    refine ⟨fun none' => some' (List.eq_nil_of_length_eq_zero ?_), same ▸ bounded⟩
    rw [same, none', List.length_nil]
  · show ql.len = segments.flatten.length
    rw [sound.counted, List.length_flatten, List.length_flatten, lengths]
  · show ql.segmentStarts.length = segments.length + 1
    rw [sound.sized, count]
  · intro clean
    show ql.segmentStarts = prefixSums segments
    rw [sums]
    exact sound.indexed clean

theorem lengths_modify (segments : List (List α)) (segIdx offset : Nat) (change : α → α) :
    (segments.modify segIdx fun s => s.modify offset change).map List.length =
      segments.map List.length := by
  apply List.ext_getElem?
  intro j
  rw [List.getElem?_map, List.getElem?_map, List.getElem?_modify]
  cases segments[j]? with
  | none => rfl
  | some s =>
      split
      · exact congrArg some (List.length_modify ..)
      · rfl

theorem Sound.getMut (sound : ql.Sound) (i : Nat) (change : α → α) :
    ∃ ql', ql.getMut i change = .ok (ql.iter[i]?, ql') ∧ ql'.Sound ∧
      ql'.maxSegmentSize = ql.maxSegmentSize ∧ ql'.iter = ql.iter.modify i change := by
  rw [QuickList.getMut]
  by_cases within : i < ql.len
  · obtain ⟨segIdx, offset, ql', found, sound', size, same, located⟩ := sound.findSegment within
    obtain ⟨segment, here, value⟩ := located.getElem?
    have read : ql'.segments[segIdx]? = some segment := by rw [same, here]
    have changed := located.modify change
    rw [← same] at changed
    simp only [found, read, ok_bind]
    have whole : ql'.iter = ql.iter := congrArg List.flatten same
    rw [value]
    refine ⟨_, rfl, sound'.reshaped (lengths_modify _ _ _ _), size, ?_⟩
    exact changed.trans (congrArg (fun l => l.modify i change) whole)
  · have beyond : ql.findSegment i = .ok (none, ql) := by
      rw [QuickList.findSegment, if_pos (Nat.not_lt.mp within)]
    have large : ql.iter.length ≤ i := by
      rw [iter, ← sound.counted]
      omega
    rw [beyond, ok_bind, List.getElem?_eq_none large]
    refine ⟨ql, rfl, sound, rfl, ?_⟩
    rw [List.modify_eq_self large]

theorem intoVecdeque_eq (itemSize : Nat) (ql : QuickList α) : ql.intoVecdeque itemSize =
    if Fits itemSize ql.len then .ok ql.iter else .error .capacityOverflow := by
  have fold : ∀ (segments : List (List α)) (l : List α),
      segments.foldl (fun result segment => result ++ segment) l = l ++ segments.flatten := by
    intro segments
    induction segments with
    | nil => exact fun l => (List.append_nil l).symm
    | cons segment segments ih =>
        intro l
        rw [List.foldl_cons, ih, List.flatten_cons, List.append_assoc]
  rw [intoVecdeque, allocate]
  split
  · rw [ok_bind, fold]
    rfl
  · rfl

theorem Fitting.pushAll (fitting : ql.Fitting itemSize) (items : List α) :
    ∃ ql', pushAll itemSize items ql = .ok ql' ∧ ql'.Fitting itemSize ∧
      ql'.iter = ql.iter ++ items := by
  induction items generalizing ql with
  | nil => exact ⟨ql, rfl, fitting, (List.append_nil _).symm⟩
  | cons item items ih =>
      obtain ⟨ql₁, pushed, fitting₁, same₁⟩ := fitting.pushBack item
      obtain ⟨ql₂, rest, fitting₂, same₂⟩ := ih fitting₁
      rw [QuickList.pushAll, pushed, ok_bind]
      refine ⟨ql₂, rest, fitting₂, ?_⟩
      rw [same₂, same₁, List.append_assoc, List.singleton_append]

theorem fromIter_fitting {maxSegmentSize : Nat} (positive : 0 < maxSegmentSize)
    (fits : Fits itemSize maxSegmentSize) (items : List α) :
    ∃ ql, fromIter itemSize items maxSegmentSize = .ok ql ∧ ql.Fitting itemSize ∧
      ql.iter = items :=
  Fitting.pushAll ⟨sound_withOptimizeThreshold positive 1000, fits⟩ items

/-- The first element asks for a segment. -/
theorem pushFront_overflow (none' : ql.segments = []) (large : ¬Fits itemSize ql.maxSegmentSize)
    (item : α) : ql.pushFront itemSize item = .error .capacityOverflow := by
  have needed : ql.full ql.segments.head? = true := by
    rw [none']
    rfl
  rw [QuickList.pushFront, if_pos needed, allocate, if_neg large]
  rfl

theorem pushBack_overflow (none' : ql.segments = []) (large : ¬Fits itemSize ql.maxSegmentSize)
    (item : α) : ql.pushBack itemSize item = .error .capacityOverflow := by
  have needed : ql.full ql.segments.getLast? = true := by
    rw [none']
    rfl
  rw [QuickList.pushBack, if_pos needed, allocate, if_neg large]
  rfl

theorem fromIter_overflow {maxSegmentSize : Nat} (large : ¬Fits itemSize maxSegmentSize)
    {items : List α} (some' : items ≠ []) :
    fromIter itemSize items maxSegmentSize = .error .capacityOverflow := by
  cases items with
  | nil => exact absurd rfl some'
  | cons item items =>
      have refused : (new maxSegmentSize).pushBack itemSize item = .error .capacityOverflow :=
        pushBack_overflow rfl large item
      rw [fromIter, QuickList.pushAll, refused]
      rfl

/-- A sound list of some elements; a list whose segments cannot be allocated has none. -/
structure Usable (itemSize maxSegmentSize : Nat) (ql : QuickList α) (l : List α) : Prop where
  sound : ql.Sound
  shown : ql.iter = l
  alike : Fits itemSize ql.maxSegmentSize ↔ Fits itemSize maxSegmentSize
  idle : Fits itemSize maxSegmentSize ∨ l = []

theorem Fitting.usable {l : List α} {maxSegmentSize : Nat} (fitting : ql.Fitting itemSize)
    (shown : ql.iter = l) (fits : Fits itemSize maxSegmentSize) :
    ql.Usable itemSize maxSegmentSize l :=
  ⟨fitting.toSound, shown, iff_of_true fitting.fits fits, Or.inl fits⟩

theorem Sound.usable_nil (sound : ql.Sound) (none' : ql.iter = []) {maxSegmentSize : Nat}
    (alike : Fits itemSize ql.maxSegmentSize ↔ Fits itemSize maxSegmentSize) :
    ql.Usable itemSize maxSegmentSize [] := ⟨sound, none', alike, Or.inr rfl⟩

theorem fromIter_usable {maxSegmentSize : Nat} (positive : 0 < maxSegmentSize) {items : List α}
    (room : items = [] ∨ Fits itemSize maxSegmentSize) :
    ∃ ql, fromIter itemSize items maxSegmentSize = .ok ql ∧
      ql.Usable itemSize maxSegmentSize items := by
  rcases room with rfl | fits
  · exact ⟨_, rfl, (sound_withOptimizeThreshold positive 1000).usable_nil rfl Iff.rfl⟩
  · obtain ⟨ql, built, fitting, shown⟩ := fromIter_fitting positive fits items
    exact ⟨ql, built, fitting.usable shown fits⟩

/-- The same calls on a plain sequence. -/
def plainStep (l : List α) : Call α → Reply α × List α
  | .pushFront item => (.done, item :: l)
  | .pushBack item => (.done, l ++ [item])
  | .popFront => (.item l.head?, l.tail)
  | .popBack => (.item l.getLast?, l.dropLast)
  | .get i => (.item l[i]?, l)
  | .getMut i change => (.item l[i]?, l.modify i change)
  | .optimize => (.done, l)
  | .autoOptimize => (.done, l)
  | .clear => (.done, [])
  | .rebuild _ _ => (.items l, l)

def plainRun : List α → List (Call α) → List (Reply α) × List α
  | l, [] => ([], l)
  | l, c :: calls =>
      ((plainStep l c).1 :: (plainRun (plainStep l c).2 calls).1,
        (plainRun (plainStep l c).2 calls).2)

/-- Room for a call: a segment for what is pushed or put together, and one allocation for all elements
of a list that is taken apart. -/
def Call.HasRoom (itemSize maxSegmentSize : Nat) (l : List α) : Call α → Prop
  | .pushFront _ => Fits itemSize maxSegmentSize
  | .pushBack _ => Fits itemSize maxSegmentSize
  | .optimize => Fits itemSize maxSegmentSize
  | .rebuild maxSegmentSize' _ => Fits itemSize l.length ∧ (l = [] ∨ Fits itemSize maxSegmentSize')
  | _ => True

def Call.segmentSize (maxSegmentSize : Nat) : Call α → Nat
  | .rebuild maxSegmentSize' _ => maxSegmentSize'
  | _ => maxSegmentSize

/-- Every call of a run has room. -/
def Modest (itemSize : Nat) : Nat → List α → List (Call α) → Prop
  | _, _, [] => True
  | maxSegmentSize, l, c :: calls => c.HasRoom itemSize maxSegmentSize l ∧
      Modest itemSize (c.segmentSize maxSegmentSize) (plainStep l c).2 calls

variable {maxSegmentSize : Nat} {l : List α}

theorem rebuild_cases {maxSegmentSize' : Nat} (positive : 0 < maxSegmentSize') (sound : ql.Sound)
    (shown : ql.iter = l) :
    (∃ ql', ql.step itemSize (.rebuild maxSegmentSize' positive) = .ok (.items l, ql') ∧
        ql'.Usable itemSize maxSegmentSize' l ∧
        Fits itemSize l.length ∧ (l = [] ∨ Fits itemSize maxSegmentSize')) ∨
      ql.step itemSize (.rebuild maxSegmentSize' positive) = .error .capacityOverflow ∧
        ¬(Fits itemSize l.length ∧ (l = [] ∨ Fits itemSize maxSegmentSize')) := by
  have len : ql.len = l.length := sound.counted.trans (congrArg List.length shown)
  rw [QuickList.step, intoVecdeque_eq, len, shown]
  by_cases whole : Fits itemSize l.length
  · rw [if_pos whole, ok_bind]
    by_cases room : l = [] ∨ Fits itemSize maxSegmentSize'
    · obtain ⟨ql', built, usable⟩ := fromIter_usable positive room
      refine Or.inl ⟨ql', ?_, usable, whole, room⟩
      show (fromIter itemSize l maxSegmentSize').map _ = _
      rw [built]
      rfl
    · rw [not_or] at room
      refine Or.inr ⟨?_, fun has => has.2.elim room.1 room.2⟩
      show (fromIter itemSize l maxSegmentSize').map _ = _
      rw [fromIter_overflow room.2 room.1]
      rfl
  · rw [if_neg whole]
    exact Or.inr ⟨rfl, fun has => whole has.1⟩

/-- One call on a list whose segments can be allocated is the call on the sequence of its elements. -/
theorem Fitting.step (fitting : ql.Fitting itemSize) {c : Call α}
    (kept : ∀ n positive, c ≠ .rebuild n positive) :
    ∃ ql', ql.step itemSize c = .ok ((plainStep ql.iter c).1, ql') ∧ ql'.Fitting itemSize ∧
      ql'.iter = (plainStep ql.iter c).2 := by
  have sound := fitting.toSound
  cases c with
  | pushFront item =>
      obtain ⟨ql', pushed, fitting', same⟩ := fitting.pushFront item
      refine ⟨ql', ?_, fitting', same⟩
      rw [QuickList.step, pushed]
      rfl
  | pushBack item =>
      obtain ⟨ql', pushed, fitting', same⟩ := fitting.pushBack item
      refine ⟨ql', ?_, fitting', same⟩
      rw [QuickList.step, pushed]
      rfl
  | popFront =>
      cases items : ql.iter with
      | nil =>
          refine ⟨ql, ?_, fitting, items⟩
          rw [QuickList.step, sound.popFront_nil items]
          rfl
      | cons item l =>
          obtain ⟨ql', popped, fitting', same⟩ := fitting.popFront_cons items
          refine ⟨ql', ?_, fitting', same⟩
          rw [QuickList.step, popped]
          rfl
  | popBack =>
      rcases List.eq_nil_or_concat ql.iter with items | ⟨l, item, items⟩
      · refine ⟨ql, ?_, fitting, ?_⟩
        · rw [QuickList.step, sound.popBack_nil items, items]
          rfl
        · rw [items]
          rfl
      · rw [List.concat_eq_append] at items
        obtain ⟨ql', popped, fitting', same⟩ := fitting.popBack_append items
        refine ⟨ql', ?_, fitting', ?_⟩
        · rw [QuickList.step, popped, items, plainStep, List.getLast?_concat]
          rfl
        · rw [same, items, plainStep, List.dropLast_concat]
  | get i =>
      obtain ⟨ql', read, sound', size, same⟩ := sound.get i
      refine ⟨ql', ?_, ⟨sound', size ▸ fitting.fits⟩, same⟩
      rw [QuickList.step, read]
      rfl
  | getMut i change =>
      obtain ⟨ql', changed, sound', size, same⟩ := sound.getMut i change
      refine ⟨ql', ?_, ⟨sound', size ▸ fitting.fits⟩, same⟩
      rw [QuickList.step, changed]
      rfl
  | optimize =>
      obtain ⟨ql', optimized, fitting', same⟩ := fitting.optimize
      refine ⟨ql', ?_, fitting', same⟩
      rw [QuickList.step, optimized]
      rfl
  | autoOptimize =>
      obtain ⟨ql', optimized, fitting', same⟩ := fitting.autoOptimize
      refine ⟨ql', ?_, fitting', same⟩
      rw [QuickList.step, optimized]
      rfl
  | clear => exact ⟨ql.clear, rfl, ⟨sound.clear, fitting.fits⟩, rfl⟩
  | rebuild n positive => exact absurd rfl (kept n positive)

/-- A list whose segments cannot be allocated stays empty: what asks for one is refused. -/
theorem Sound.step_nil (sound : ql.Sound) (none' : ql.iter = [])
    (alike : Fits itemSize ql.maxSegmentSize ↔ Fits itemSize maxSegmentSize)
    (large : ¬Fits itemSize maxSegmentSize) {c : Call α}
    (kept : ∀ n positive, c ≠ .rebuild n positive) :
    (∃ ql', ql.step itemSize c = .ok ((plainStep [] c).1, ql') ∧
        ql'.Usable itemSize maxSegmentSize (plainStep [] c).2 ∧
        c.HasRoom itemSize maxSegmentSize []) ∨
      ql.step itemSize c = .error .capacityOverflow ∧ ¬c.HasRoom itemSize maxSegmentSize [] := by
  have empty := sound.segments_nil none'
  have large' := mt alike.mp large
  cases c with
  | pushFront item =>
      refine Or.inr ⟨?_, large⟩
      rw [QuickList.step, pushFront_overflow empty large']
      rfl
  | pushBack item =>
      refine Or.inr ⟨?_, large⟩
      rw [QuickList.step, pushBack_overflow empty large']
      rfl
  | popFront =>
      refine Or.inl ⟨ql, ?_, sound.usable_nil none' alike, trivial⟩
      rw [QuickList.step, sound.popFront_nil none']
      rfl
  | popBack =>
      refine Or.inl ⟨ql, ?_, sound.usable_nil none' alike, trivial⟩
      rw [QuickList.step, sound.popBack_nil none']
      rfl
  | get i =>
      obtain ⟨ql', read, sound', size, same⟩ := sound.get i
      refine Or.inl ⟨ql', ?_, sound'.usable_nil (same.trans none') (size ▸ alike), trivial⟩
      rw [QuickList.step, read, none']
      rfl
  | getMut i change =>
      obtain ⟨ql', changed, sound', size, same⟩ := sound.getMut i change
      rw [none', List.modify_nil] at same
      refine Or.inl ⟨ql', ?_, ?_, trivial⟩
      · rw [QuickList.step, changed, none']
        rfl
      · rw [plainStep, List.modify_nil]
        exact sound'.usable_nil same (size ▸ alike)
  | optimize =>
      refine Or.inr ⟨?_, large⟩
      rw [QuickList.step, QuickList.optimize, allocate, if_neg large']
      rfl
  | autoOptimize =>
      have counted : ∀ n, Usable itemSize maxSegmentSize { ql with opsSinceOptimize := n } [] :=
        fun n => ⟨⟨sound.positive, sound.filled, sound.counted, sound.sized, sound.indexed⟩, none',
          alike, Or.inr rfl⟩
      rw [QuickList.step, QuickList.autoOptimize, empty]
      dsimp only
      split
      · exact Or.inl ⟨_, rfl, empty ▸ counted _, trivial⟩
      · exact Or.inl ⟨_, rfl, empty ▸ counted _, trivial⟩
  | clear => exact Or.inl ⟨ql.clear, rfl, sound.clear.usable_nil rfl alike, trivial⟩
  | rebuild n positive => exact absurd rfl (kept n positive)

/-- A call does on a list what it does on the sequence of its elements, or has no room. -/
theorem Usable.step (usable : ql.Usable itemSize maxSegmentSize l) (c : Call α) :
    (∃ ql', ql.step itemSize c = .ok ((plainStep l c).1, ql') ∧
        ql'.Usable itemSize (c.segmentSize maxSegmentSize) (plainStep l c).2 ∧
        c.HasRoom itemSize maxSegmentSize l) ∨
      ql.step itemSize c = .error .capacityOverflow ∧ ¬c.HasRoom itemSize maxSegmentSize l := by
  obtain ⟨sound, shown, alike, idle⟩ := usable
  by_cases rebuilds : ∃ n positive, c = .rebuild n positive
  · obtain ⟨n, positive, rfl⟩ := rebuilds
    exact rebuild_cases positive sound shown
  · have kept : ∀ n positive, c ≠ .rebuild n positive := fun n positive same =>
      rebuilds ⟨n, positive, same⟩
    have size : c.segmentSize maxSegmentSize = maxSegmentSize := by
      cases c with
      | rebuild n positive => exact absurd rfl (kept n positive)
      | _ => rfl
    rw [size]
    by_cases fits : Fits itemSize maxSegmentSize
    · obtain ⟨ql', stepped, fitting, same⟩ := Fitting.step ⟨sound, alike.mpr fits⟩ kept
      rw [shown] at stepped same
      refine Or.inl ⟨ql', stepped, fitting.usable same fits, ?_⟩
      cases c with
      | rebuild n positive => exact absurd rfl (kept n positive)
      | _ => first | exact fits | trivial
    · obtain rfl := idle.resolve_left fits
      exact sound.step_nil shown alike fits kept

theorem Usable.run (usable : ql.Usable itemSize maxSegmentSize l) (calls : List (Call α)) :
    (∃ ql' n, ql.run itemSize calls = .ok ((plainRun l calls).1, ql') ∧
        ql'.Usable itemSize n (plainRun l calls).2 ∧ Modest itemSize maxSegmentSize l calls) ∨
      ql.run itemSize calls = .error .capacityOverflow ∧
        ¬Modest itemSize maxSegmentSize l calls := by
  induction calls generalizing ql maxSegmentSize l with
  | nil => exact Or.inl ⟨ql, maxSegmentSize, rfl, usable, trivial⟩
  | cons c calls ih =>
      rw [QuickList.run]
      rcases usable.step c with ⟨ql₁, stepped, usable₁, room⟩ | ⟨refused, large⟩
      · rw [stepped, ok_bind]
        rcases ih usable₁ with ⟨ql₂, n, ran, usable₂, modest⟩ | ⟨refused, large⟩
        · refine Or.inl ⟨ql₂, n, ?_, usable₂, room, modest⟩
          simp only [ran, ok_bind]
          rfl
        · refine Or.inr ⟨?_, fun modest => large modest.2⟩
          simp only [refused]
          rfl
      · refine Or.inr ⟨?_, fun modest => large modest.1⟩
        rw [refused]
        rfl

/-- A list is in order when it shows the elements of a sequence, its segments are within their
bounds and a clean index is right; whatever segment the cache names, every element is found. -/
structure InOrder (itemSize : Nat) (ql : QuickList α) (l : List α) : Prop where
  len : ql.len = l.length
  iter : ql.iter = l
  intoVecdeque : Fits itemSize l.length → ql.intoVecdeque itemSize = .ok l
  bounded : ∀ s ∈ ql.segments, s ≠ [] ∧ s.length ≤ ql.maxSegmentSize
  indexed : ql.indexDirty = false → ql.segmentStarts = prefixSums ql.segments
  get : ∀ (cache : Option (Nat × Nat)) (i : Nat),
    ∃ ql', QuickList.get { ql with lastAccessed := cache } i = .ok (l[i]?, ql')

theorem Sound.inOrder (sound : ql.Sound) (itemSize : Nat) : ql.InOrder itemSize ql.iter where
  len := sound.counted
  iter := rfl
  intoVecdeque whole := by
    have len : ql.len = ql.iter.length := sound.counted
    rw [intoVecdeque_eq, len, if_pos whole]
  bounded := sound.filled
  indexed := sound.indexed
  get cache i := by
    obtain ⟨ql', read, -⟩ := (sound.cached cache).get i
    exact ⟨ql', read⟩

/-- The lists that a sequence of calls can begin with. -/
inductive Initial (itemSize : Nat) : QuickList α → List α → Prop
  | empty (maxSegmentSize threshold : Nat) (positive : 0 < maxSegmentSize) :
      Initial itemSize (withOptimizeThreshold maxSegmentSize threshold) []
  | filled (items : List α) (maxSegmentSize : Nat) (positive : 0 < maxSegmentSize) {ql : QuickList α}
      (built : fromIter itemSize items maxSegmentSize = .ok ql) : Initial itemSize ql items

theorem Initial.usable (initial : Initial itemSize ql l) :
    ql.Usable itemSize ql.maxSegmentSize l := by
  cases initial with
  | empty maxSegmentSize threshold positive =>
      exact (sound_withOptimizeThreshold positive threshold).usable_nil rfl Iff.rfl
  | filled items maxSegmentSize positive built =>
      by_cases room : l = [] ∨ Fits itemSize maxSegmentSize
      · obtain ⟨ql', again, usable⟩ := fromIter_usable positive room
        obtain rfl : ql = ql' := Except.ok.inj (built.symm.trans again)
        exact ⟨usable.sound, usable.shown, Iff.rfl, usable.idle.imp_left usable.alike.mpr⟩
      · rw [not_or] at room
        cases built.symm.trans (fromIter_overflow room.2 room.1)

/-- Every sequence of calls returns what it returns on a plain sequence, without a fault, and
leaves a list in order, exactly where its segments and its elements can be allocated. -/
theorem inOrder_run (initial : Initial itemSize ql l) (calls : List (Call α)) :
    (Modest itemSize ql.maxSegmentSize l calls →
      ∃ ql', ql.run itemSize calls = .ok ((plainRun l calls).1, ql') ∧
        ql'.InOrder itemSize (plainRun l calls).2) ∧
    (¬Modest itemSize ql.maxSegmentSize l calls →
      ql.run itemSize calls = .error .capacityOverflow) := by
  rcases initial.usable.run calls with ⟨ql', n, ran, usable, modest⟩ | ⟨refused, large⟩
  · refine ⟨fun _ => ⟨ql', ran, ?_⟩, fun large => absurd modest large⟩
    exact usable.shown ▸ usable.sound.inOrder itemSize
  · exact ⟨fun modest => absurd modest large, fun _ => refused⟩

/-- Small segments, an early check for optimization, and accesses between changes at both ends; then
the list is cut into larger segments. -/
theorem inOrder_run_example : ∃ ql',
    (withOptimizeThreshold 2 3 : QuickList Nat).run 8 [.pushBack 1, .pushBack 2, .pushFront 3, .get 1,
        .pushBack 4, .popFront, .get 2, .getMut 0 (· + 6), .popBack, .rebuild 64 (by decide)] =
      .ok ([.done, .done, .done, .item (some 1), .done, .item (some 3), .item (some 4),
        .item (some 1), .item (some 4), .items [7, 2]], ql') ∧ ql'.InOrder 8 [7, 2] := by
  refine (inOrder_run (Initial.empty 2 3 (by decide)) [.pushBack 1, .pushBack 2, .pushFront 3, .get 1,
    .pushBack 4, .popFront, .get 2, .getMut 0 (· + 6), .popBack, .rebuild 64 (by decide)]).1 ?_
  simp only [Modest, Call.HasRoom, Call.segmentSize, withOptimizeThreshold]
  decide

/-- The first push asks for a segment of the largest size. -/
theorem inOrder_run_overflow :
    (withOptimizeThreshold (2 ^ 64 - 1) 1000 : QuickList Nat).run 8 [.pushBack 1] =
      .error .capacityOverflow := by
  rw [QuickList.run, QuickList.step, pushBack_overflow rfl (by decide)]
  rfl

end Zumic.Database.QuickList
