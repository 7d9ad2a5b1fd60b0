/- The derived equality of lists and hashes, which compares caches, counters and representations
beside the content. -/

import Zumic.Database.QuickHistories
import Zumic.Database.SmartHash

namespace Zumic.Database

open Lib Lib.Buffer

section

variable {α : Type} [DecidableEq α]

/-- The derived equality, field by field. -/
def QuickList.eq (a b : QuickList α) : Bool :=
  a.segments == b.segments && a.segmentStarts == b.segmentStarts &&
    a.maxSegmentSize == b.maxSegmentSize && a.len == b.len && a.lastAccessed == b.lastAccessed &&
    a.indexDirty == b.indexDirty && a.opsSinceOptimize == b.opsSinceOptimize &&
    a.optimizeThreshold == b.optimizeThreshold

/-- Two lists are cut, bounded, cached and counted in the same way. -/
structure QuickList.Alike (a b : QuickList α) : Prop where
  cut : a.segments.map List.length = b.segments.map List.length
  maxSegmentSize : a.maxSegmentSize = b.maxSegmentSize
  lastAccessed : a.lastAccessed = b.lastAccessed
  indexDirty : a.indexDirty = b.indexDirty
  stale : a.indexDirty = true → a.segmentStarts = b.segmentStarts
  opsSinceOptimize : a.opsSinceOptimize = b.opsSinceOptimize
  optimizeThreshold : a.optimizeThreshold = b.optimizeThreshold

theorem QuickList.eq_iff {a b : QuickList α} : a.eq b = true ↔ a = b := by
  obtain ⟨_, _, _, _, _, _, _, _⟩ := a
  obtain ⟨_, _, _, _, _, _, _, _⟩ := b
  simp only [QuickList.eq, Bool.and_eq_true, beq_iff_eq, QuickList.mk.injEq, and_assoc]

theorem QuickList.Counted.eq_iff_alike {a b : QuickList α} (counted : a.Counted)
    (counted' : b.Counted) (same : a.iter = b.iter) : a.eq b = true ↔ a.Alike b := by
  rw [QuickList.eq_iff]
  constructor
  · rintro rfl
    exact ⟨rfl, rfl, rfl, rfl, fun _ => rfl, rfl, rfl⟩
  · intro alike
    have segments : a.segments = b.segments := List.eq_iff_flatten_eq.mpr ⟨same, alike.cut⟩
    have starts : a.segmentStarts = b.segmentStarts := by
      cases dirty : a.indexDirty with
      | true => exact alike.stale dirty
      | false =>
          rw [counted.indexed dirty, counted'.indexed (alike.indexDirty ▸ dirty), segments]
    have len : a.len = b.len := by rw [counted.counted, counted'.counted, segments]
    obtain ⟨_, _, _, _, _, _, _, _⟩ := a
    obtain ⟨_, _, _, _, _, _, _, _⟩ := b
    rw [QuickList.mk.injEq]
    exact ⟨segments, starts, alike.maxSegmentSize, len, alike.lastAccessed, alike.indexDirty,
      alike.opsSinceOptimize, alike.optimizeThreshold⟩

/-- An access leaves the list equal when it finds nothing, or when the index was clean and the cache
names the same access as before. -/
theorem QuickList.Counted.eq_get_iff {ql ql' : QuickList α} {i : Nat} {item : Option α}
    (counted : ql.Counted) (done : ql.get i = .ok (item, ql')) :
    ql.eq ql' = true ↔ ql.len ≤ i ∨ ql.indexDirty = false ∧ ql.lastAccessed = ql'.lastAccessed := by
  have located : ∃ found, ql.findSegment i = .ok (found, ql') := by
    rw [QuickList.get] at done
    obtain ⟨⟨found, ql₁⟩, located, done⟩ := bind_eq_ok done
    cases found with
    | none =>
        obtain ⟨-, rfl⟩ := Prod.mk.inj (Except.ok.inj done)
        exact ⟨none, located⟩
    | some place =>
        obtain ⟨segment, -, done⟩ := bind_eq_ok done
        obtain ⟨-, rfl⟩ := Prod.mk.inj (Except.ok.inj done)
        exact ⟨some place, located⟩
  obtain ⟨found, located⟩ := located
  rw [QuickList.eq_iff]
  rw [QuickList.findSegment] at located
  split at located
  · rename_i beyond
    obtain ⟨-, rfl⟩ := Prod.mk.inj (Except.ok.inj located)
    exact ⟨fun _ => .inl beyond, fun _ => rfl⟩
  · rename_i within
    split at located
    · rename_i dirty
      have dirty : ql.indexDirty = true := dirty.resolve_right fun other => other counted.sized
      obtain ⟨cache, rfl⟩ := QuickList.lookupSegment_cache located
      constructor
      · intro same
        rw [same, QuickList.rebuildSegmentStarts_eq] at dirty
        cases dirty
      · rintro (beyond | ⟨clean, -⟩)
        · exact absurd beyond within
        · rw [dirty] at clean
          cases clean
    · rename_i fresh
      have clean : ql.indexDirty = false := Bool.eq_false_iff.mpr fun dirty => fresh (.inl dirty)
      obtain ⟨cache, rfl⟩ := QuickList.lookupSegment_cache located
      constructor
      · exact fun same => .inr ⟨clean, congrArg QuickList.lastAccessed same⟩
      · rintro (beyond | ⟨-, same⟩)
        · exact absurd beyond within
        · have cached : ql.lastAccessed = cache := same
          rw [← cached]

end

namespace SmartHash

def Repr.eq : Repr → Repr → Bool
  | .zip vec, .zip vec' => vec == vec'
  | .map table, .map table' => table.eq table'
  | _, _ => false

/-- The derived equality. -/
def eq (a b : SmartHash) : Bool := a.repr.eq b.repr && a.pendingDowngrade == b.pendingDowngrade

/-- Two vectors with their keys in the same order, or two tables with the same downgrade pending. -/
def Alike (a b : SmartHash) : Prop :=
  match a.repr, b.repr with
  | .zip vec, .zip vec' => Assoc.keys vec = Assoc.keys vec'
  | .map _, .map _ => a.pendingDowngrade = b.pendingDowngrade
  | _, _ => False

variable (hasher : HashMap.Hasher Sds Sds)

/-- The hash that is read back from what was written of a hash; a pending downgrade is not
written. -/
def deserialize (written : SmartHash) : SmartHash :=
  match written.repr with
  | .zip vec => ⟨.zip vec, false⟩
  | .map table => ⟨.map (HashMap.fill hasher table.entries), false⟩

/-- A step of a history, with the hasher that orders the table after it. -/
inductive Change where
  | call (hasher : HashMap.Hasher Sds Sds) (c : Call)
  | deserialize (hasher : HashMap.Hasher Sds Sds)

def change (sh : SmartHash) : Change → SmartHash
  | .call hasher c => (sh.step hasher c).2
  | .deserialize hasher => sh.deserialize hasher

/-- A hash that some history leaves. -/
def Reachable (sh : SmartHash) : Prop := ∃ changes, List.foldl change new changes = sh

variable {sh : SmartHash} {m : List (Sds × Sds)}

theorem Holds.deserialize (holds : sh.Holds m) : (sh.deserialize hasher).Holds m := by
  have shown := holds.shown
  rw [SmartHash.deserialize]
  rw [entries] at shown
  split
  · rename_i vec zip
    rw [zip] at shown
    obtain ⟨distinct, short⟩ := holds.sound.zip vec zip
    exact holds_zip distinct short shown
  · rename_i table map
    rw [map] at shown
    exact holds_map ((HashMap.entries_fill_perm table.distinct).trans shown)

theorem Reachable.holds (reachable : sh.Reachable) : ∃ m, sh.Holds m := by
  obtain ⟨changes, rfl⟩ := reachable
  have kept : ∀ (changes : List Change) (sh : SmartHash) (m : List (Sds × Sds)), sh.Holds m →
      ∃ m', (changes.foldl change sh).Holds m' := by
    intro changes
    induction changes with
    | nil => exact fun sh m holds => ⟨m, holds⟩
    | cons c changes ih =>
        intro sh m holds
        cases c with
        | call hasher c => exact ih _ _ (holds.step hasher c).2
        | deserialize hasher => exact ih _ _ (holds.deserialize hasher)
  exact kept changes new [] holds_new

theorem Holds.quiet (holds : sh.Holds m) {vec : List (Sds × Sds)} (zip : sh.repr = .zip vec) :
    sh.pendingDowngrade = false := by
  apply Bool.eq_false_iff.mpr
  intro pending
  obtain ⟨table, map, -⟩ := holds.sound.pending pending
  rw [zip] at map
  cases map

theorem Holds.eq_iff_alike {a b : SmartHash} {m m' : List (Sds × Sds)} (holds : a.Holds m)
    (holds' : b.Holds m') (same : ∀ key, a.get key = b.get key) :
    a.eq b = true ↔ a.Alike b := by
  have perm : m.Perm m' := by
    refine Assoc.perm_of_get holds.distinct holds'.distinct fun key => ?_
    rw [← holds.get, ← holds'.get, same]
  have listed : a.entries.Perm b.entries := holds.shown.trans (perm.trans holds'.shown.symm)
  obtain ⟨repr, pending⟩ := a
  obtain ⟨repr', pending'⟩ := b
  cases repr with
  | zip vec =>
      obtain rfl : pending = false := holds.quiet rfl
      cases repr' with
      | zip vec' =>
          obtain rfl : pending' = false := holds'.quiet rfl
          have decided : SmartHash.eq ⟨.zip vec, false⟩ ⟨.zip vec', false⟩ = true ↔ vec = vec' := by
            rw [SmartHash.eq, Repr.eq, beq_self_eq_true, Bool.and_true, beq_iff_eq]
          rw [decided]
          constructor
          · rintro rfl
            exact rfl
          · intro ordered
            refine Assoc.eq_of_keys (holds.sound.zip vec rfl).1 ordered fun key => ?_
            rw [← Assoc.map_find?_key, ← Assoc.map_find?_key]
            exact same key
      | map table' =>
          constructor
          · intro equal
            cases equal
          · exact False.elim
  | map table =>
      cases repr' with
      | zip vec' =>
          constructor
          · intro equal
            cases equal
          · exact False.elim
      | map table' =>
          have tables : table.eq table' = true := HashMap.eq_of_perm listed
          rw [SmartHash.eq, Repr.eq, tables, Bool.true_and, beq_iff_eq]
          rfl

theorem Holds.eq_iter_iff (holds : sh.Holds m) :
    sh.eq sh.iter.2 = true ↔ sh.pendingDowngrade = false := by
  rw [iter, SmartHash.downgraded]
  cases pending : sh.pendingDowngrade with
  | false =>
      refine ⟨fun _ => rfl, fun _ => ?_⟩
      have alike : sh.Alike sh := by
        rw [Alike]
        split
        · rename_i vec vec' zip zip'
          rw [Repr.zip.inj (zip.symm.trans zip')]
        · rfl
        · rename_i other other'
          cases repr : sh.repr with
          | zip vec => exact other vec vec repr repr
          | map table => exact other' table table repr repr
      exact (holds.eq_iff_alike holds fun _ => rfl).mpr alike
  | true =>
      obtain ⟨table, map, -⟩ := holds.sound.pending pending
      rw [if_pos rfl, doDowngrade, map]
      refine ⟨fun equal => ?_, fun never => by cases never⟩
      rw [SmartHash.eq, map] at equal
      have never : (false && (sh.pendingDowngrade == false)) = true := equal
      rw [Bool.false_and] at never
      cases never

end SmartHash

/-- Of two lists with the same elements and of two hashes with the same values, each left by a
history of its own, the representation decides whether they are equal. -/
theorem equality_iff_alike {α : Type} [DecidableEq α] (itemSize : Nat) :
    (∀ a b : QuickList α, a.Reachable itemSize → b.Reachable itemSize → a.iter = b.iter →
      (a.eq b = true ↔ a.Alike b)) ∧
    ∀ a b : SmartHash, a.Reachable → b.Reachable → (∀ key, a.get key = b.get key) →
      (a.eq b = true ↔ a.Alike b) := by
  constructor
  · intro a b reachable reachable' same
    exact reachable.counted.eq_iff_alike reachable'.counted same
  · intro a b reachable reachable' same
    obtain ⟨m, holds⟩ := reachable.holds
    obtain ⟨m', holds'⟩ := reachable'.holds
    exact holds.eq_iff_alike holds' same

/-- A list after an access to its element, and a hash whose keys came in another order. -/
theorem equality_by_history :
    (∃ a b : QuickList Sds,
      List.foldlM (QuickList.change sdsSize) (QuickList.new 512) [.call (.pushBack [1])] = .ok a ∧
      List.foldlM (QuickList.change sdsSize) (QuickList.new 512)
        [.call (.pushBack [1]), .call (.get 0)] = .ok b ∧ a.iter = b.iter ∧ a.eq b = false) ∧
    ∃ a b : SmartHash,
      List.foldl SmartHash.change SmartHash.new
        [.call (.id Sds Sds) (.insert [1] [2]), .call (.id Sds Sds) (.insert [3] [4])] = a ∧
      List.foldl SmartHash.change SmartHash.new
        [.call (.id Sds Sds) (.insert [3] [4]), .call (.id Sds Sds) (.insert [1] [2])] = b ∧
      a.entries.Perm b.entries ∧ a.eq b = false := by
  refine ⟨⟨_, _, rfl, rfl, rfl, rfl⟩, _, _, rfl, rfl, ?_, rfl⟩
  exact List.Perm.swap _ _ _

end Zumic.Database
