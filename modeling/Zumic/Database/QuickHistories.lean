/- Histories of a quick list with segments of any size: its length and its index stay right. -/

import Zumic.Database.Deque

namespace Zumic.Database.QuickList

open Lib.Buffer

variable {α : Type} {ql ql' : QuickList α} {itemSize : Nat}

def setOptimizeThreshold (ql : QuickList α) (threshold : Nat) : QuickList α :=
  { ql with optimizeThreshold := threshold }

/-- The length is taken from the segments, and the index is built anew. -/
def ensureValidState (ql : QuickList α) : QuickList α :=
  let calculatedLen := (ql.segments.map List.length).sum
  let ql : QuickList α := if ql.len ≠ calculatedLen then { ql with len := calculatedLen } else ql
  let ql : QuickList α := { ql.markIndexDirty.rebuildSegmentStarts with opsSinceOptimize := 0 }
  if ql.optimizeThreshold = 0 then { ql with optimizeThreshold := 1000 } else ql

/-- The list that is read back from what was written of a list; the caches are not written. -/
def deserialize (written : QuickList α) : QuickList α :=
  ensureValidState
    { written with
      lastAccessed := none
      indexDirty := false
      opsSinceOptimize := 0
      optimizeThreshold := 1000 }

/-- A step of a history: a call, another threshold, a new list from the elements, or the list
written and read back. -/
inductive Change (α : Type) where
  | call (c : Call α)
  | setOptimizeThreshold (threshold : Nat)
  | fromVecdeque (maxSegmentSize : Nat)
  | deserialize

def change (itemSize : Nat) (ql : QuickList α) : Change α → Except Fault (QuickList α)
  | .call c => (ql.step itemSize c).map Prod.snd
  | .setOptimizeThreshold threshold => .ok (ql.setOptimizeThreshold threshold)
  | .fromVecdeque maxSegmentSize => do
      let items ← ql.intoVecdeque itemSize
      fromIter itemSize items maxSegmentSize
  | .deserialize => .ok ql.deserialize

/-- A list that some history leaves. -/
def Reachable (itemSize : Nat) (ql : QuickList α) : Prop :=
  ∃ maxSegmentSize threshold changes,
    List.foldlM (change itemSize) (withOptimizeThreshold maxSegmentSize threshold) changes = .ok ql

theorem counted_withOptimizeThreshold (maxSegmentSize threshold : Nat) :
    (withOptimizeThreshold maxSegmentSize threshold : QuickList α).Counted :=
  ⟨rfl, rfl, fun _ => rfl⟩

theorem counted_markIndexDirty (counted : ql.len = ql.segments.flatten.length) :
    ql.markIndexDirty.Counted :=
  ⟨counted, length_markIndexDirty ql, fun clean => absurd clean Bool.noConfusion⟩

theorem counted_rebuildSegmentStarts (counted : ql.len = ql.segments.flatten.length) :
    ql.rebuildSegmentStarts.Counted := by
  rw [rebuildSegmentStarts_eq]
  exact ⟨counted, length_prefixSums _, fun _ => rfl⟩

theorem Counted.optimize (counted : ql.Counted) (done : ql.optimize itemSize = .ok ql') :
    ql'.Counted := by
  obtain rfl := optimize_eq_ok done
  exact ⟨counted.counted.trans (congrArg List.length (flatten_refilled ql).symm),
    length_prefixSums _, fun _ => rfl⟩

theorem Counted.autoOptimize (counted : ql.Counted) (done : ql.autoOptimize itemSize = .ok ql') :
    ql'.Counted := by
  have passed : ∀ n, Counted { ql with opsSinceOptimize := n } := fun n =>
    ⟨counted.counted, counted.sized, counted.indexed⟩
  obtain ⟨n, rfl | optimized⟩ := autoOptimize_cases done
  · exact passed n
  · exact (passed n).optimize optimized

theorem Behind.finish {ql₁ : QuickList α} {i : Nat} (behind : Behind ql i)
    (refreshed : ql.refreshFrom i = .ok ql₁) (done : ql₁.autoOptimize itemSize = .ok ql') :
    ql'.Counted := by
  obtain ⟨ql₂, again, counted, -⟩ := behind.refreshFrom
  obtain rfl := Except.ok.inj (again.symm.trans refreshed)
  exact counted.autoOptimize done

theorem Counted.pushInto {i : Nat} {put : List α → List α} (counted : ql.Counted)
    (grows : ∀ s, (put s).length = s.length + 1) (done : ql.pushInto itemSize i put = .ok ql') :
    ql'.Counted := by
  rw [QuickList.pushInto, modifySegment] at done
  split at done
  · rename_i inside
    rw [ok_bind] at done
    obtain ⟨ql₁, refreshed, optimized⟩ := bind_eq_ok done
    refine Behind.finish ⟨?_, ?_, ?_⟩ refreshed optimized
    · have parts : ql.segments =
          ql.segments.take i ++ ql.segments[i] :: ql.segments.drop (i + 1) := by
        rw [List.getElem_cons_drop, List.take_append_drop]
      have place : (ql.segments.take i).length = i := List.length_take_of_le inside.le
      have modified : ql.segments.modify i put =
          ql.segments.take i ++ put ql.segments[i] :: ql.segments.drop (i + 1) := by
        have middle := @modify_middle α (ql.segments.take i) (ql.segments.drop (i + 1))
          ql.segments[i] put
        rwa [← parts, place] at middle
      have before := congrArg (fun l => l.flatten.length) parts
      simp only [List.flatten_append, List.flatten_cons, List.length_append] at before
      simp only [modified, List.flatten_append, List.flatten_cons, List.length_append, grows,
        counted.counted]
      omega
    · simp only [List.length_modify]
      exact counted.sized
    · intro clean
      have inside' : i < (ql.segments.modify i put).length := by
        rwa [List.length_modify]
      refine starts_right (counted.indexed clean) inside.le inside' ?_
      rw [List.take_modify, List.modify_eq_self]
      rw [List.length_take]
      omega
  · cases done

theorem allocate_eq_ok {size n : Nat} {items : List α} (done : allocate size n = .ok items) :
    items = [] := by
  rw [allocate] at done
  split at done
  · exact (Except.ok.inj done).symm
  · cases done

theorem Counted.pushFront {item : α} (counted : ql.Counted)
    (done : ql.pushFront itemSize item = .ok ql') : ql'.Counted := by
  rw [QuickList.pushFront] at done
  have grows : ∀ s : List α, (item :: s).length = s.length + 1 := fun s => rfl
  split at done
  · obtain ⟨segment, created, pushed⟩ := bind_eq_ok done
    obtain rfl := allocate_eq_ok created
    have marked := @counted_markIndexDirty α { ql with segments := [] :: ql.segments }
      counted.counted
    exact marked.pushInto grows pushed
  · exact counted.pushInto grows done

theorem Counted.pushBack {item : α} (counted : ql.Counted)
    (done : ql.pushBack itemSize item = .ok ql') : ql'.Counted := by
  rw [QuickList.pushBack] at done
  have grows : ∀ s : List α, (s ++ [item]).length = s.length + 1 := fun s =>
    List.length_append
  have grown : (ql.segments ++ [[]]).flatten.length = ql.segments.flatten.length := by simp
  split at done
  · obtain ⟨segment, created, done⟩ := bind_eq_ok done
    obtain rfl := allocate_eq_ok created
    obtain ⟨last, -, pushed⟩ := bind_eq_ok done
    have marked := @counted_markIndexDirty α { ql with segments := ql.segments ++ [[]] }
      (counted.counted.trans grown.symm)
    exact marked.pushInto grows pushed
  · obtain ⟨last, -, pushed⟩ := bind_eq_ok done
    exact counted.pushInto grows pushed

theorem Counted.popFront {item : Option α} (counted : ql.Counted)
    (done : ql.popFront itemSize = .ok (item, ql')) : ql'.Counted := by
  rw [QuickList.popFront] at done
  split at done
  · obtain ⟨-, rfl⟩ := Prod.mk.inj (Except.ok.inj done)
    exact counted
  · obtain ⟨-, rfl⟩ := Prod.mk.inj (Except.ok.inj done)
    exact counted
  · rename_i first segment segments shape
    obtain ⟨len, less, popped⟩ := bind_eq_ok done
    obtain ⟨-, rfl⟩ := sub_eq_ok less
    have total := counted.counted
    rw [shape, List.flatten_cons, List.length_append, List.length_cons] at total
    split at popped
    · rename_i emptied
      obtain rfl : segment = [] := List.isEmpty_iff.mp emptied
      obtain ⟨ql₁, optimized, last⟩ := bind_eq_ok popped
      obtain ⟨-, rfl⟩ := Prod.mk.inj (Except.ok.inj last)
      refine (counted_markIndexDirty ?_).autoOptimize optimized
      show ql.len - 1 = segments.flatten.length
      rw [total, List.length_nil]
      omega
    · obtain ⟨ql₁, refreshed, popped⟩ := bind_eq_ok popped
      obtain ⟨ql₂, optimized, last⟩ := bind_eq_ok popped
      obtain ⟨-, rfl⟩ := Prod.mk.inj (Except.ok.inj last)
      refine Behind.finish ⟨?_, ?_, ?_⟩ refreshed optimized
      · show ql.len - 1 = (segment :: segments).flatten.length
        rw [total, List.flatten_cons, List.length_append]
        omega
      · have sized := counted.sized
        rwa [shape] at sized
      · intro clean
        exact starts_right (counted.indexed clean) (Nat.zero_le _) (Nat.succ_pos _) rfl

theorem Counted.popBack {item : Option α} (counted : ql.Counted)
    (done : ql.popBack itemSize = .ok (item, ql')) : ql'.Counted := by
  rw [QuickList.popBack] at done
  split at done
  · obtain ⟨-, rfl⟩ := Prod.mk.inj (Except.ok.inj done)
    exact counted
  · rename_i last ends
    obtain ⟨front, shape⟩ := List.getLast?_eq_some_iff.mp ends
    split at done
    · obtain ⟨-, rfl⟩ := Prod.mk.inj (Except.ok.inj done)
      exact counted
    · rename_i x ends'
      obtain ⟨items, shape'⟩ := List.getLast?_eq_some_iff.mp ends'
      obtain ⟨len, less, counting⟩ := bind_eq_ok done
      obtain ⟨-, rfl⟩ := sub_eq_ok less
      obtain ⟨lastIdx, less', popped⟩ := bind_eq_ok counting
      obtain ⟨-, rfl⟩ := sub_eq_ok less'
      have total := counted.counted
      subst shape'
      rw [shape, List.flatten_append, List.length_append, List.flatten_singleton,
        List.length_append, List.length_singleton] at total
      rw [shape, List.dropLast_concat, List.dropLast_concat] at popped
      split at popped
      · rename_i emptied
        obtain rfl : items = [] := List.isEmpty_iff.mp emptied
        obtain ⟨ql₁, optimized, last⟩ := bind_eq_ok popped
        obtain ⟨-, rfl⟩ := Prod.mk.inj (Except.ok.inj last)
        refine (counted_markIndexDirty ?_).autoOptimize optimized
        show ql.len - 1 = front.flatten.length
        rw [total, List.length_nil]
        omega
      · obtain ⟨ql₁, refreshed, popped⟩ := bind_eq_ok popped
        obtain ⟨ql₂, optimized, last⟩ := bind_eq_ok popped
        obtain ⟨-, rfl⟩ := Prod.mk.inj (Except.ok.inj last)
        refine Behind.finish ⟨?_, ?_, ?_⟩ refreshed optimized
        · show ql.len - 1 = (front ++ [items]).flatten.length
          rw [total, List.flatten_append, List.length_append, List.flatten_singleton]
          omega
        · have sized := counted.sized
          rw [shape] at sized
          simpa only [List.length_append, List.length_singleton] using sized
        · intro clean
          rw [List.length_append, List.length_singleton, Nat.add_sub_cancel]
          refine starts_right (counted.indexed clean) (by simp [shape]) (by simp) ?_
          rw [shape, List.take_left, List.take_left]

theorem searchSegment_cache {i : Nat} {found : Option (Nat × Nat)}
    (done : ql.searchSegment i = .ok (found, ql')) :
    ∃ cache, ql' = { ql with lastAccessed := cache } := by
  rw [QuickList.searchSegment] at done
  split at done
  · obtain ⟨-, rfl⟩ := Prod.mk.inj (Except.ok.inj done)
    exact ⟨_, rfl⟩
  · split at done
    · obtain ⟨-, rfl⟩ := Prod.mk.inj (Except.ok.inj done)
      exact ⟨_, rfl⟩
    · obtain ⟨start, -, done⟩ := bind_eq_ok done
      obtain ⟨offset, -, done⟩ := bind_eq_ok done
      obtain ⟨-, rfl⟩ := Prod.mk.inj (Except.ok.inj done)
      exact ⟨_, rfl⟩

theorem lookupSegment_cache {i : Nat} {found : Option (Nat × Nat)}
    (done : ql.lookupSegment i = .ok (found, ql')) :
    ∃ cache, ql' = { ql with lastAccessed := cache } := by
  rw [QuickList.lookupSegment] at done
  split at done
  · exact searchSegment_cache done
  · split at done
    · obtain ⟨start, -, done⟩ := bind_eq_ok done
      obtain ⟨segment, -, done⟩ := bind_eq_ok done
      split at done
      · obtain ⟨-, rfl⟩ := Prod.mk.inj (Except.ok.inj done)
        exact ⟨_, rfl⟩
      · exact searchSegment_cache done
    · exact searchSegment_cache done

theorem Counted.cached (counted : ql.Counted) (cache : Option (Nat × Nat)) :
    Counted { ql with lastAccessed := cache } :=
  ⟨counted.counted, counted.sized, counted.indexed⟩

theorem Counted.findSegment {i : Nat} {found : Option (Nat × Nat)} (counted : ql.Counted)
    (done : ql.findSegment i = .ok (found, ql')) : ql'.Counted := by
  rw [QuickList.findSegment] at done
  split at done
  · obtain ⟨-, rfl⟩ := Prod.mk.inj (Except.ok.inj done)
    exact counted
  · split at done
    · obtain ⟨cache, rfl⟩ := lookupSegment_cache done
      exact (counted_rebuildSegmentStarts counted.counted).cached cache
    · obtain ⟨cache, rfl⟩ := lookupSegment_cache done
      exact counted.cached cache

theorem Counted.get {i : Nat} {item : Option α} (counted : ql.Counted)
    (done : ql.get i = .ok (item, ql')) : ql'.Counted := by
  rw [QuickList.get] at done
  obtain ⟨⟨found, ql₁⟩, located, done⟩ := bind_eq_ok done
  have counted₁ := counted.findSegment located
  cases found with
  | none =>
      obtain ⟨-, rfl⟩ := Prod.mk.inj (Except.ok.inj done)
      exact counted₁
  | some place =>
      obtain ⟨segment, -, done⟩ := bind_eq_ok done
      obtain ⟨-, rfl⟩ := Prod.mk.inj (Except.ok.inj done)
      exact counted₁

theorem Counted.reshaped (counted : ql.Counted) {segments : List (List α)}
    (lengths : segments.map List.length = ql.segments.map List.length) :
    Counted { ql with segments := segments } := by
  refine ⟨?_, ?_, ?_⟩
  · show ql.len = segments.flatten.length
    rw [counted.counted, List.length_flatten, List.length_flatten, lengths]
  · show ql.segmentStarts.length = segments.length + 1
    rw [counted.sized, length_of_lengths lengths]
  · intro clean
    show ql.segmentStarts = prefixSums segments
    rw [prefixSums_of_lengths lengths]
    exact counted.indexed clean

theorem Counted.getMut {i : Nat} {change : α → α} {item : Option α} (counted : ql.Counted)
    (done : ql.getMut i change = .ok (item, ql')) : ql'.Counted := by
  rw [QuickList.getMut] at done
  obtain ⟨⟨found, ql₁⟩, located, done⟩ := bind_eq_ok done
  have counted₁ := counted.findSegment located
  cases found with
  | none =>
      obtain ⟨-, rfl⟩ := Prod.mk.inj (Except.ok.inj done)
      exact counted₁
  | some place =>
      simp only [] at done
      split at done
      · obtain ⟨-, rfl⟩ := Prod.mk.inj (Except.ok.inj done)
        exact counted₁
      · obtain ⟨-, rfl⟩ := Prod.mk.inj (Except.ok.inj done)
        exact counted₁.reshaped (lengths_modify _ _ _ _)

theorem Counted.pushAll {items : List α} (counted : ql.Counted)
    (done : pushAll itemSize items ql = .ok ql') : ql'.Counted := by
  induction items generalizing ql with
  | nil =>
      obtain rfl := Except.ok.inj done
      exact counted
  | cons item items ih =>
      obtain ⟨ql₁, pushed, done⟩ := bind_eq_ok done
      exact ih (counted.pushBack pushed) done

theorem counted_fromIter {items : List α} {maxSegmentSize : Nat}
    (done : fromIter itemSize items maxSegmentSize = .ok ql) : ql.Counted :=
  (counted_withOptimizeThreshold maxSegmentSize 1000).pushAll done

theorem counted_ensureValidState (ql : QuickList α) : ql.ensureValidState.Counted := by
  have total : (ql.segments.map List.length).sum = ql.segments.flatten.length :=
    List.length_flatten.symm
  rw [ensureValidState]
  dsimp only
  generalize corrected : (if ql.len ≠ (ql.segments.map List.length).sum then
    { ql with len := (ql.segments.map List.length).sum } else ql) = ql₁
  have right : ql₁.len = ql₁.segments.flatten.length := by
    rw [← corrected]
    split
    · exact total
    · rename_i same
      exact (not_not.mp same).trans total
  have rebuilt := @counted_rebuildSegmentStarts α ql₁.markIndexDirty right
  split
  · exact ⟨rebuilt.counted, rebuilt.sized, rebuilt.indexed⟩
  · exact ⟨rebuilt.counted, rebuilt.sized, rebuilt.indexed⟩

theorem Counted.step {c : Call α} {reply : Reply α} (counted : ql.Counted)
    (done : ql.step itemSize c = .ok (reply, ql')) : ql'.Counted := by
  cases c with
  | pushFront item =>
      obtain ⟨ql₁, pushed, same⟩ := map_eq_ok done
      obtain ⟨-, rfl⟩ := Prod.mk.inj same
      exact counted.pushFront pushed
  | pushBack item =>
      obtain ⟨ql₁, pushed, same⟩ := map_eq_ok done
      obtain ⟨-, rfl⟩ := Prod.mk.inj same
      exact counted.pushBack pushed
  | popFront =>
      obtain ⟨⟨item, ql₁⟩, popped, same⟩ := map_eq_ok done
      obtain ⟨-, rfl⟩ := Prod.mk.inj same
      exact counted.popFront popped
  | popBack =>
      obtain ⟨⟨item, ql₁⟩, popped, same⟩ := map_eq_ok done
      obtain ⟨-, rfl⟩ := Prod.mk.inj same
      exact counted.popBack popped
  | get i =>
      obtain ⟨⟨item, ql₁⟩, read, same⟩ := map_eq_ok done
      obtain ⟨-, rfl⟩ := Prod.mk.inj same
      exact counted.get read
  | getMut i change =>
      obtain ⟨⟨item, ql₁⟩, changed, same⟩ := map_eq_ok done
      obtain ⟨-, rfl⟩ := Prod.mk.inj same
      exact counted.getMut changed
  | optimize =>
      obtain ⟨ql₁, optimized, same⟩ := map_eq_ok done
      obtain ⟨-, rfl⟩ := Prod.mk.inj same
      exact counted.optimize optimized
  | autoOptimize =>
      obtain ⟨ql₁, optimized, same⟩ := map_eq_ok done
      obtain ⟨-, rfl⟩ := Prod.mk.inj same
      exact counted.autoOptimize optimized
  | clear =>
      obtain ⟨-, rfl⟩ := Prod.mk.inj (Except.ok.inj done)
      exact ⟨rfl, rfl, fun _ => rfl⟩
  | rebuild maxSegmentSize positive =>
      obtain ⟨items, -, rest⟩ := bind_eq_ok done
      obtain ⟨ql₁, built, same⟩ := map_eq_ok rest
      obtain ⟨-, rfl⟩ := Prod.mk.inj same
      exact counted_fromIter built

theorem Counted.change {c : Change α} (counted : ql.Counted)
    (done : ql.change itemSize c = .ok ql') : ql'.Counted := by
  cases c with
  | call c =>
      obtain ⟨⟨reply, ql₁⟩, stepped, rfl⟩ := map_eq_ok done
      exact counted.step stepped
  | setOptimizeThreshold threshold =>
      obtain rfl := Except.ok.inj done
      exact ⟨counted.counted, counted.sized, counted.indexed⟩
  | fromVecdeque maxSegmentSize =>
      obtain ⟨items, -, built⟩ := bind_eq_ok done
      exact counted_fromIter built
  | deserialize =>
      obtain rfl := Except.ok.inj done
      exact counted_ensureValidState _

theorem Counted.changes {changes : List (Change α)} (counted : ql.Counted)
    (ran : changes.foldlM (QuickList.change itemSize) ql = .ok ql') : ql'.Counted := by
  induction changes generalizing ql with
  | nil =>
      obtain rfl := Except.ok.inj ran
      exact counted
  | cons c changes ih =>
      rw [List.foldlM_cons] at ran
      obtain ⟨ql₁, changed, ran⟩ := bind_eq_ok ran
      exact ih (counted.change changed) ran

theorem Reachable.counted (reachable : ql.Reachable itemSize) : ql.Counted := by
  obtain ⟨maxSegmentSize, threshold, changes, ran⟩ := reachable
  exact (counted_withOptimizeThreshold maxSegmentSize threshold).changes ran

end Zumic.Database.QuickList
