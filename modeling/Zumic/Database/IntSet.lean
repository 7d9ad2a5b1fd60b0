/- Sets of integers in a sorted vector of the narrowest width that fits (`intset_base.rs`). -/

import Zumic.Lib.Buffer
import Zumic.Lib.BinarySearch
import Mathlib.Data.Finset.Basic

namespace Zumic.Database

open Lib Lib.Buffer Lib.BinarySearch Lib.SortedVec

instance linearOrderInt16 : LinearOrder Int16 where
  le_refl := Int16.le_refl
  le_trans _ _ _ := Int16.le_trans
  le_antisymm _ _ := Int16.le_antisymm
  le_total := Int16.le_total
  lt_iff_le_not_ge a b := by
    rw [Int16.lt_iff_toInt_lt, Int16.le_iff_toInt_le, Int16.le_iff_toInt_le]
    omega
  toDecidableLE := inferInstance
  toDecidableLT := inferInstance
  toDecidableEq := inferInstance

instance linearOrderInt32 : LinearOrder Int32 where
  le_refl := Int32.le_refl
  le_trans _ _ _ := Int32.le_trans
  le_antisymm _ _ := Int32.le_antisymm
  le_total := Int32.le_total
  lt_iff_le_not_ge a b := by
    rw [Int32.lt_iff_toInt_lt, Int32.le_iff_toInt_le, Int32.le_iff_toInt_le]
    omega
  toDecidableLE := inferInstance
  toDecidableLT := inferInstance
  toDecidableEq := inferInstance

instance linearOrderInt64 : LinearOrder Int64 where
  le_refl := Int64.le_refl
  le_trans _ _ _ := Int64.le_trans
  le_antisymm _ _ := Int64.le_antisymm
  le_total := Int64.le_total
  lt_iff_le_not_ge a b := by
    rw [Int64.lt_iff_toInt_lt, Int64.le_iff_toInt_le, Int64.le_iff_toInt_le]
    omega
  toDecidableLE := inferInstance
  toDecidableLT := inferInstance
  toDecidableEq := inferInstance

/-- A width of the elements: its bounds, and the casts from and to the widest one. -/
structure Width (α : Type) where
  min : Int64
  max : Int64
  narrow : Int64 → α
  widen : α → Int64

namespace Width

def i16 : Width Int16 := ⟨-32768, 32767, Int64.toInt16, Int16.toInt64⟩

def i32 : Width Int32 := ⟨-2147483648, 2147483647, Int64.toInt32, Int32.toInt64⟩

variable {α : Type} (w : Width α)

def outside (v : Int64) : Bool := v < w.min || w.max < v

variable [LinearOrder α] (data : List α)

def contains (v : Int64) : Bool :=
  if w.outside v then false else found (binarySearch data (w.narrow v))

def remove (v : Int64) : Bool × List α :=
  if w.outside v then (false, data) else SortedVec.remove data (w.narrow v)

def findRangeStart (start : Int64) : Nat :=
  if start < w.min then 0
  else if w.max < start then data.length
  else placeOf (binarySearch data (w.narrow start))

def findRangeEnd (stop : Int64) : Nat :=
  if stop < w.min then 0
  else if w.max < stop then data.length
  else placeAfter (binarySearch data (w.narrow stop))

end Width

inductive Encoding where
  | int16
  | int32
  | int64
  deriving DecidableEq

def Encoding.code : Encoding → UInt8
  | .int16 => 0
  | .int32 => 1
  | .int64 => 2

structure IntSet where
  enc : Encoding
  data16 : List Int16
  data32 : List Int32
  data64 : List Int64

namespace IntSet

def new : IntSet := ⟨.int16, [], [], []⟩

variable (s : IntSet)

def len : Nat :=
  match s.enc with
  | .int16 => s.data16.length
  | .int32 => s.data32.length
  | .int64 => s.data64.length

def isEmpty : Bool := s.len == 0

def contains (v : Int64) : Bool :=
  match s.enc with
  | .int16 => Width.i16.contains s.data16 v
  | .int32 => Width.i32.contains s.data32 v
  | .int64 => found (binarySearch s.data64 v)

/-- The narrowest encoding of a value. -/
def needed (v : Int64) : Encoding :=
  if Width.i16.min ≤ v ∧ v ≤ Width.i16.max then .int16
  else if Width.i32.min ≤ v ∧ v ≤ Width.i32.max then .int32
  else .int64

def upgrade (newEnc : Encoding) : IntSet :=
  match s.enc, newEnc with
  | .int16, .int32 =>
      { s with enc := newEnc, data32 := s.data16.map Int16.toInt32, data16 := [] }
  | .int16, .int64 =>
      { s with enc := newEnc, data64 := s.data16.map Int16.toInt64, data16 := [] }
  | .int32, .int64 =>
      { s with enc := newEnc, data64 := s.data32.map Int32.toInt64, data32 := [] }
  | _, _ => { s with enc := newEnc }

/-- The set after the upgrade that a value asks for. -/
def upgradedFor (v : Int64) : IntSet :=
  if s.enc.code < (needed v).code then s.upgrade (needed v) else s

def insert (v : Int64) : Bool × IntSet :=
  let s := s.upgradedFor v
  match s.enc with
  | .int16 =>
      let (added, data) := SortedVec.insert s.data16 v.toInt16
      (added, { s with data16 := data })
  | .int32 =>
      let (added, data) := SortedVec.insert s.data32 v.toInt32
      (added, { s with data32 := data })
  | .int64 =>
      let (added, data) := SortedVec.insert s.data64 v
      (added, { s with data64 := data })

def remove (v : Int64) : Bool × IntSet :=
  match s.enc with
  | .int16 =>
      let (removed, data) := Width.i16.remove s.data16 v
      (removed, { s with data16 := data })
  | .int32 =>
      let (removed, data) := Width.i32.remove s.data32 v
      (removed, { s with data32 := data })
  | .int64 =>
      let (removed, data) := SortedVec.remove s.data64 v
      (removed, { s with data64 := data })

def iter : List Int64 :=
  match s.enc with
  | .int16 => s.data16.map Int16.toInt64
  | .int32 => s.data32.map Int32.toInt64
  | .int64 => s.data64

def revIter : List Int64 := s.iter.reverse

def findRangeStartI16 (start : Int64) : Nat := Width.i16.findRangeStart s.data16 start

def findRangeEndI16 (stop : Int64) : Nat := Width.i16.findRangeEnd s.data16 stop

def findRangeStartI32 (start : Int64) : Nat := Width.i32.findRangeStart s.data32 start

def findRangeEndI32 (stop : Int64) : Nat := Width.i32.findRangeEnd s.data32 stop

/-- No value is outside of the widest encoding. -/
def findRangeStartI64 (start : Int64) : Nat := placeOf (binarySearch s.data64 start)

def findRangeEndI64 (stop : Int64) : Nat := placeAfter (binarySearch s.data64 stop)

def iterRange (start stop : Int64) : Except Fault (List Int64) :=
  if stop < start then .ok []
  else
    match s.enc with
    | .int16 =>
        if s.findRangeEndI16 stop ≤ s.findRangeStartI16 start then .ok []
        else do
          let items ← Buffer.slice s.data16 (s.findRangeStartI16 start) (s.findRangeEndI16 stop)
          pure (items.map Int16.toInt64)
    | .int32 =>
        if s.findRangeEndI32 stop ≤ s.findRangeStartI32 start then .ok []
        else do
          let items ← Buffer.slice s.data32 (s.findRangeStartI32 start) (s.findRangeEndI32 stop)
          pure (items.map Int32.toInt64)
    | .int64 =>
        if s.findRangeEndI64 stop ≤ s.findRangeStartI64 start then .ok []
        else Buffer.slice s.data64 (s.findRangeStartI64 start) (s.findRangeEndI64 stop)

end IntSet

namespace Width

/-- Values survive the casts to a width that they are not outside of, and keep their order. -/
structure Lawful {α : Type} [LinearOrder α] (w : Width α) : Prop where
  lt_iff : ∀ x y, w.widen x < w.widen y ↔ x < y
  widen_narrow : ∀ v, w.outside v = false → w.widen (w.narrow v) = v
  within : ∀ x, w.outside (w.widen x) = false

theorem inside_iff {α : Type} {w : Width α} {v : Int64} :
    w.outside v = false ↔ w.min.toInt ≤ v.toInt ∧ v.toInt ≤ w.max.toInt := by
  rw [outside, Bool.or_eq_false_iff, decide_eq_false_iff_not, decide_eq_false_iff_not, not_lt,
    not_lt, Int64.le_iff_toInt_le, Int64.le_iff_toInt_le]

theorem lawful_i16 : i16.Lawful where
  lt_iff x y := by
    rw [Int64.lt_iff_toInt_lt, Int16.lt_iff_toInt_lt]
    change x.toInt64.toInt < y.toInt64.toInt ↔ _
    rw [Int16.toInt_toInt64, Int16.toInt_toInt64]
  widen_narrow v inside := by
    obtain ⟨low, high⟩ := inside_iff.mp inside
    have low' : -32768 ≤ v.toInt := low
    have high' : v.toInt ≤ 32767 := high
    apply Int64.toInt_inj.mp
    change v.toInt16.toInt64.toInt = v.toInt
    rw [Int16.toInt_toInt64, Int64.toInt_toInt16]
    exact Int.bmod_eq_of_le (by omega) (by omega)
  within x := by
    have low := Int16.le_toInt x
    have high := Int16.toInt_lt x
    have same := Int16.toInt_toInt64 x
    refine inside_iff.mpr ⟨?_, ?_⟩
    · change -32768 ≤ x.toInt64.toInt
      omega
    · change x.toInt64.toInt ≤ 32767
      omega

theorem lawful_i32 : i32.Lawful where
  lt_iff x y := by
    rw [Int64.lt_iff_toInt_lt, Int32.lt_iff_toInt_lt]
    change x.toInt64.toInt < y.toInt64.toInt ↔ _
    rw [Int32.toInt_toInt64, Int32.toInt_toInt64]
  widen_narrow v inside := by
    obtain ⟨low, high⟩ := inside_iff.mp inside
    have low' : -2147483648 ≤ v.toInt := low
    have high' : v.toInt ≤ 2147483647 := high
    apply Int64.toInt_inj.mp
    change v.toInt32.toInt64.toInt = v.toInt
    rw [Int32.toInt_toInt64, Int64.toInt_toInt32]
    exact Int.bmod_eq_of_le (by omega) (by omega)
  within x := by
    have low := Int32.le_toInt x
    have high := Int32.toInt_lt x
    have same := Int32.toInt_toInt64 x
    refine inside_iff.mpr ⟨?_, ?_⟩
    · change -2147483648 ≤ x.toInt64.toInt
      omega
    · change x.toInt64.toInt ≤ 2147483647
      omega

variable {α : Type} [LinearOrder α] {w : Width α} {data : List α}

theorem Lawful.inj (lawful : w.Lawful) {x y : α} (same : w.widen x = w.widen y) : x = y := by
  rcases lt_trichotomy x y with less | equal | more
  · exact absurd ((lawful.lt_iff x y).mpr less) (same ▸ lt_irrefl _)
  · exact equal
  · exact absurd ((lawful.lt_iff y x).mpr more) (same ▸ lt_irrefl _)

theorem Lawful.narrow_widen (lawful : w.Lawful) (x : α) : w.narrow (w.widen x) = x :=
  lawful.inj (lawful.widen_narrow _ (lawful.within x))

theorem Lawful.lt_narrow (lawful : w.Lawful) {v : Int64} (inside : w.outside v = false) (x : α) :
    x < w.narrow v ↔ w.widen x < v := by
  rw [← lawful.lt_iff, lawful.widen_narrow v inside]

theorem Lawful.le_narrow (lawful : w.Lawful) {v : Int64} (inside : w.outside v = false) (x : α) :
    x ≤ w.narrow v ↔ w.widen x ≤ v := by
  rw [← not_lt, ← lawful.lt_iff, lawful.widen_narrow v inside, not_lt]

theorem Lawful.bounds (lawful : w.Lawful) (x : α) : w.min ≤ w.widen x ∧ w.widen x ≤ w.max := by
  have within := lawful.within x
  rw [outside, Bool.or_eq_false_iff, decide_eq_false_iff_not, decide_eq_false_iff_not, not_lt,
    not_lt] at within
  exact within

theorem Lawful.mem_iff (lawful : w.Lawful) {v : Int64} (inside : w.outside v = false) :
    v ∈ data.map w.widen ↔ w.narrow v ∈ data := by
  constructor
  · intro member
    obtain ⟨x, listed, rfl⟩ := List.mem_map.mp member
    rwa [lawful.narrow_widen]
  · intro member
    exact List.mem_map.mpr ⟨_, member, lawful.widen_narrow v inside⟩

theorem Lawful.not_mem (lawful : w.Lawful) {v : Int64} (outside : w.outside v = true) :
    v ∉ data.map w.widen := by
  intro member
  obtain ⟨x, _, rfl⟩ := List.mem_map.mp member
  rw [lawful.within x] at outside
  cases outside

theorem Lawful.pairwise_iff (lawful : w.Lawful) :
    (data.map w.widen).Pairwise (· < ·) ↔ data.Pairwise (· < ·) := by
  rw [List.pairwise_map]
  constructor
  · exact fun sorted => sorted.imp fun less => (lawful.lt_iff _ _).mp less
  · exact fun sorted => sorted.imp fun less => (lawful.lt_iff _ _).mpr less

theorem Lawful.contains_eq (lawful : w.Lawful) (sorted : data.Pairwise (· < ·)) (v : Int64) :
    w.contains data v = decide (v ∈ data.map w.widen) := by
  rw [contains]
  cases side : w.outside v with
  | true => rw [if_pos rfl, decide_eq_false (lawful.not_mem side)]
  | false =>
      rw [if_neg (by simp), found_binarySearch sorted, decide_eq_decide]
      exact (lawful.mem_iff side).symm

theorem Lawful.insert_spec (lawful : w.Lawful) (sorted : data.Pairwise (· < ·)) {v : Int64}
    (inside : w.outside v = false) :
    (SortedVec.insert data (w.narrow v)).1 = decide (v ∉ data.map w.widen) ∧
      (SortedVec.insert data (w.narrow v)).2.Pairwise (· < ·) ∧
      ∀ u, u ∈ (SortedVec.insert data (w.narrow v)).2.map w.widen ↔
        u = v ∨ u ∈ data.map w.widen := by
  obtain ⟨flag, sorted', members⟩ := SortedVec.insert_spec sorted (w.narrow v)
  refine ⟨?_, sorted', fun u => ?_⟩
  · rw [flag, decide_eq_decide, lawful.mem_iff inside]
  · simp only [List.mem_map, members]
    constructor
    · rintro ⟨x, rfl | old, rfl⟩
      · exact Or.inl (lawful.widen_narrow v inside)
      · exact Or.inr ⟨x, old, rfl⟩
    · rintro (rfl | ⟨x, old, rfl⟩)
      · exact ⟨_, Or.inl rfl, lawful.widen_narrow u inside⟩
      · exact ⟨x, Or.inr old, rfl⟩

theorem Lawful.remove_spec (lawful : w.Lawful) (sorted : data.Pairwise (· < ·)) (v : Int64) :
    (w.remove data v).1 = decide (v ∈ data.map w.widen) ∧
      (w.remove data v).2.Pairwise (· < ·) ∧
      ∀ u, u ∈ (w.remove data v).2.map w.widen ↔ u ≠ v ∧ u ∈ data.map w.widen := by
  rw [remove]
  cases side : w.outside v with
  | true =>
      have absent : v ∉ data.map w.widen := lawful.not_mem side
      rw [if_pos rfl]
      refine ⟨(decide_eq_false absent).symm, sorted, fun u => ⟨?_, And.right⟩⟩
      rintro member
      refine ⟨?_, member⟩
      rintro rfl
      exact absent member
  | false =>
      obtain ⟨flag, sorted', members⟩ := SortedVec.remove_spec sorted (w.narrow v)
      rw [if_neg (by simp)]
      refine ⟨?_, sorted', fun u => ?_⟩
      · rw [flag, decide_eq_decide, lawful.mem_iff side]
      · simp only [List.mem_map, members]
        constructor
        · rintro ⟨x, ⟨other, old⟩, rfl⟩
          refine ⟨?_, x, old, rfl⟩
          rintro rfl
          exact other (lawful.narrow_widen x).symm
        · rintro ⟨other, x, old, rfl⟩
          refine ⟨x, ⟨?_, old⟩, rfl⟩
          rintro rfl
          exact other (lawful.widen_narrow v side)

/-- All items of a width are on the same side of a value outside of it. -/
theorem Lawful.findRangeStart_eq (lawful : w.Lawful) (sorted : data.Pairwise (· < ·))
    (start : Int64) :
    w.findRangeStart data start = ((data.map w.widen).filter (· < start)).length := by
  rw [findRangeStart, List.filter_map, List.length_map]
  split
  · rename_i low
    rw [List.filter_eq_nil_iff.mpr, List.length_nil]
    intro x _
    have above := lt_of_lt_of_le low (lawful.bounds x).1
    simpa using le_of_lt above
  · rename_i low
    split
    · rename_i high
      rw [List.filter_eq_self.mpr]
      intro x _
      exact decide_eq_true (lt_of_le_of_lt (lawful.bounds x).2 high)
    · rename_i high
      have within : w.outside start = false := by simp [outside, low, high]
      rw [placeOf_binarySearch sorted]
      refine congrArg List.length (List.filter_congr fun x _ => ?_)
      exact decide_eq_decide.mpr (lawful.lt_narrow within x)

theorem Lawful.findRangeEnd_eq (lawful : w.Lawful) (sorted : data.Pairwise (· < ·))
    (stop : Int64) :
    w.findRangeEnd data stop = ((data.map w.widen).filter (· ≤ stop)).length := by
  rw [findRangeEnd, List.filter_map, List.length_map]
  split
  · rename_i low
    rw [List.filter_eq_nil_iff.mpr, List.length_nil]
    intro x _
    have above := lt_of_lt_of_le low (lawful.bounds x).1
    simpa using above
  · rename_i low
    split
    · rename_i high
      rw [List.filter_eq_self.mpr]
      intro x _
      exact decide_eq_true (le_trans (lawful.bounds x).2 (le_of_lt high))
    · rename_i high
      have within : w.outside stop = false := by simp [outside, low, high]
      rw [placeAfter_binarySearch sorted]
      refine congrArg List.length (List.filter_congr fun x _ => ?_)
      exact decide_eq_decide.mpr (lawful.le_narrow within x)

end Width

namespace IntSet

/-- The value is one of the encoding. -/
def Fits : Encoding → Int64 → Prop
  | .int16, v => Width.i16.outside v = false
  | .int32, v => Width.i32.outside v = false
  | .int64, _ => True

theorem fits_of_needed {v : Int64} {e : Encoding} (wide : ¬ e.code < (needed v).code) :
    Fits e v := by
  have i16 : Width.i16.min ≤ v ∧ v ≤ Width.i16.max → Width.i16.outside v = false := by
    rintro ⟨low, high⟩
    simp [Width.outside, not_lt.mpr low, not_lt.mpr high]
  have i32 : Width.i32.min ≤ v ∧ v ≤ Width.i32.max → Width.i32.outside v = false := by
    rintro ⟨low, high⟩
    simp [Width.outside, not_lt.mpr low, not_lt.mpr high]
  have wider : Width.i16.min ≤ v ∧ v ≤ Width.i16.max → Width.i32.min ≤ v ∧ v ≤ Width.i32.max := by
    rintro ⟨low, high⟩
    exact ⟨le_trans (by decide) low, le_trans high (by decide)⟩
  rw [needed] at wide
  cases e with
  | int64 => trivial
  | int16 =>
      split at wide
      · rename_i small
        exact i16 small
      · split at wide
        · exact absurd (by decide) wide
        · exact absurd (by decide) wide
  | int32 =>
      split at wide
      · rename_i small
        exact i32 (wider small)
      · split at wide
        · rename_i middle
          exact i32 middle
        · exact absurd (by decide) wide

/-- Every vector is in order, and only that of the encoding has items. -/
structure Sound (s : IntSet) : Prop where
  sorted16 : s.data16.Pairwise (· < ·)
  sorted32 : s.data32.Pairwise (· < ·)
  sorted64 : s.data64.Pairwise (· < ·)
  only16 : s.enc ≠ .int16 → s.data16 = []
  only32 : s.enc ≠ .int32 → s.data32 = []
  only64 : s.enc ≠ .int64 → s.data64 = []

variable {s : IntSet}

theorem sound16 {data : List Int16} (sorted : data.Pairwise (· < ·)) :
    Sound ⟨.int16, data, [], []⟩ :=
  ⟨sorted, List.Pairwise.nil, List.Pairwise.nil, fun other => absurd rfl other, fun _ => rfl,
    fun _ => rfl⟩

theorem sound32 {data : List Int32} (sorted : data.Pairwise (· < ·)) :
    Sound ⟨.int32, [], data, []⟩ :=
  ⟨List.Pairwise.nil, sorted, List.Pairwise.nil, fun _ => rfl, fun other => absurd rfl other,
    fun _ => rfl⟩

theorem sound64 {data : List Int64} (sorted : data.Pairwise (· < ·)) :
    Sound ⟨.int64, [], [], data⟩ :=
  ⟨List.Pairwise.nil, List.Pairwise.nil, sorted, fun _ => rfl, fun _ => rfl,
    fun other => absurd rfl other⟩

/-- The three forms of a set. -/
inductive Form : IntSet → Prop
  | narrow (data : List Int16) (sorted : data.Pairwise (· < ·)) : Form ⟨.int16, data, [], []⟩
  | middle (data : List Int32) (sorted : data.Pairwise (· < ·)) : Form ⟨.int32, [], data, []⟩
  | wide (data : List Int64) (sorted : data.Pairwise (· < ·)) : Form ⟨.int64, [], [], data⟩

theorem Sound.form (sound : s.Sound) : Form s := by
  obtain ⟨enc, data16, data32, data64⟩ := s
  obtain ⟨sorted16, sorted32, sorted64, only16, only32, only64⟩ := sound
  cases enc with
  | int16 =>
      obtain rfl : data32 = [] := only32 nofun
      obtain rfl : data64 = [] := only64 nofun
      exact .narrow data16 sorted16
  | int32 =>
      obtain rfl : data16 = [] := only16 nofun
      obtain rfl : data64 = [] := only64 nofun
      exact .middle data32 sorted32
  | int64 =>
      obtain rfl : data16 = [] := only16 nofun
      obtain rfl : data32 = [] := only32 nofun
      exact .wide data64 sorted64

theorem Sound.iter_sorted (sound : s.Sound) : s.iter.Pairwise (· < ·) := by
  cases sound.form with
  | narrow data sorted => exact Width.lawful_i16.pairwise_iff.mpr sorted
  | middle data sorted => exact Width.lawful_i32.pairwise_iff.mpr sorted
  | wide data sorted => exact sorted

theorem Sound.contains (sound : s.Sound) (v : Int64) : s.contains v = decide (v ∈ s.iter) := by
  cases sound.form with
  | narrow data sorted => exact Width.lawful_i16.contains_eq sorted v
  | middle data sorted => exact Width.lawful_i32.contains_eq sorted v
  | wide data sorted => exact found_binarySearch sorted v

theorem Sound.upgrade (sound : s.Sound) {newEnc : Encoding} (wider : s.enc.code < newEnc.code) :
    (s.upgrade newEnc).Sound ∧ (s.upgrade newEnc).iter = s.iter ∧
      (s.upgrade newEnc).enc = newEnc := by
  have narrow32 : ∀ data : List Int16,
      (data.map Int16.toInt32).map Int32.toInt64 = data.map Int16.toInt64 := by
    intro data
    rw [List.map_map]
    exact List.map_congr_left fun x _ => Int16.toInt64_toInt32 x
  have wider' : ∀ {e : Encoding}, s.enc = e → e.code < newEnc.code := fun same => same ▸ wider
  cases sound.form with
  | narrow data sorted =>
      have above := wider' (e := .int16) rfl
      have widened := Width.lawful_i16.pairwise_iff.mpr sorted
      cases newEnc with
      | int16 => exact absurd above (by decide)
      | int32 =>
          refine ⟨sound32 (Width.lawful_i32.pairwise_iff.mp ?_), narrow32 data, rfl⟩
          exact (narrow32 data).symm ▸ widened
      | int64 => exact ⟨sound64 widened, rfl, rfl⟩
  | middle data sorted =>
      have above := wider' (e := .int32) rfl
      cases newEnc with
      | int16 => exact absurd above (by decide)
      | int32 => exact absurd above (by decide)
      | int64 => exact ⟨sound64 (Width.lawful_i32.pairwise_iff.mpr sorted), rfl, rfl⟩
  | wide data sorted =>
      have above := wider' (e := .int64) rfl
      cases newEnc <;> exact absurd above (by decide)

theorem Sound.upgradedFor (sound : s.Sound) (v : Int64) :
    (s.upgradedFor v).Sound ∧ (s.upgradedFor v).iter = s.iter ∧ Fits (s.upgradedFor v).enc v := by
  rw [IntSet.upgradedFor]
  split
  · rename_i wider
    obtain ⟨sound', same, enc⟩ := sound.upgrade wider
    refine ⟨sound', same, ?_⟩
    rw [enc]
    exact fits_of_needed (UInt8.lt_irrefl _)
  · rename_i wide
    exact ⟨sound, rfl, fits_of_needed wide⟩

theorem Sound.insert (sound : s.Sound) (v : Int64) :
    (s.insert v).1 = decide (v ∉ s.iter) ∧ (s.insert v).2.Sound ∧
      ∀ u, u ∈ (s.insert v).2.iter ↔ u = v ∨ u ∈ s.iter := by
  obtain ⟨sound', same, fits⟩ := sound.upgradedFor v
  rw [IntSet.insert, ← same]
  generalize s.upgradedFor v = s' at sound' fits
  cases sound'.form with
  | narrow data sorted =>
      obtain ⟨flag, sorted', members⟩ := Width.lawful_i16.insert_spec sorted fits
      exact ⟨flag, sound16 sorted', members⟩
  | middle data sorted =>
      obtain ⟨flag, sorted', members⟩ := Width.lawful_i32.insert_spec sorted fits
      exact ⟨flag, sound32 sorted', members⟩
  | wide data sorted =>
      obtain ⟨flag, sorted', members⟩ := SortedVec.insert_spec sorted v
      exact ⟨flag, sound64 sorted', members⟩

theorem Sound.remove (sound : s.Sound) (v : Int64) :
    (s.remove v).1 = decide (v ∈ s.iter) ∧ (s.remove v).2.Sound ∧
      ∀ u, u ∈ (s.remove v).2.iter ↔ u ≠ v ∧ u ∈ s.iter := by
  cases sound.form with
  | narrow data sorted =>
      obtain ⟨flag, sorted', members⟩ := Width.lawful_i16.remove_spec sorted v
      exact ⟨flag, sound16 sorted', members⟩
  | middle data sorted =>
      obtain ⟨flag, sorted', members⟩ := Width.lawful_i32.remove_spec sorted v
      exact ⟨flag, sound32 sorted', members⟩
  | wide data sorted =>
      obtain ⟨flag, sorted', members⟩ := SortedVec.remove_spec sorted v
      exact ⟨flag, sound64 sorted', members⟩

theorem window_slice {α : Type} (f : α → Int64) {data : List α} {start stop : Int64}
    (sorted : (data.map f).Pairwise (· < ·)) (order : start ≤ stop) {i j : Nat}
    (first : i = ((data.map f).filter (· < start)).length)
    (last : j = ((data.map f).filter (· ≤ stop)).length) :
    (if j ≤ i then .ok [] else do
      let items ← Buffer.slice data i j
      pure (items.map f)) =
      (Except.ok ((data.map f).filter fun y => start ≤ y && y ≤ stop) : Except Fault _) := by
  rw [← window_eq_filter sorted order, ← first, ← last]
  split
  · rename_i none'
    rw [Nat.sub_eq_zero_of_le none', List.take_zero]
  · rename_i some'
    have within : j ≤ data.length := by
      rw [last]
      have most := List.length_filter_le (· ≤ stop) (data.map f)
      rwa [List.length_map] at most
    rw [Buffer.slice, if_pos ⟨by omega, within⟩, ok_bind, List.map_take, List.map_drop]
    rfl

theorem Sound.iterRange (sound : s.Sound) (start stop : Int64) :
    s.iterRange start stop = .ok (s.iter.filter fun y => start ≤ y && y ≤ stop) := by
  rw [IntSet.iterRange]
  split
  · rename_i inverted
    refine congrArg Except.ok (List.filter_eq_nil_iff.mpr fun y _ => ?_).symm
    intro both
    rw [Bool.and_eq_true, decide_eq_true_iff, decide_eq_true_iff] at both
    exact not_le.mpr inverted (le_trans both.1 both.2)
  · rename_i order
    rw [not_lt] at order
    cases sound.form with
    | narrow data sorted =>
        exact window_slice Int16.toInt64 (Width.lawful_i16.pairwise_iff.mpr sorted) order
          (Width.lawful_i16.findRangeStart_eq sorted start)
          (Width.lawful_i16.findRangeEnd_eq sorted stop)
    | middle data sorted =>
        exact window_slice Int32.toInt64 (Width.lawful_i32.pairwise_iff.mpr sorted) order
          (Width.lawful_i32.findRangeStart_eq sorted start)
          (Width.lawful_i32.findRangeEnd_eq sorted stop)
    | wide data sorted =>
        have same : data.map id = data := List.map_id data
        have window := window_slice id (same.symm ▸ sorted) order
          (same.symm ▸ placeOf_binarySearch sorted start)
          (same.symm ▸ placeAfter_binarySearch sorted stop)
        simp only [same, List.map_id, bind_pure] at window
        exact window

/-- A change of a set. -/
inductive Call where
  | insert (v : Int64)
  | remove (v : Int64)

def step (s : IntSet) : Call → Bool × IntSet
  | .insert v => s.insert v
  | .remove v => s.remove v

def run : IntSet → List Call → List Bool × IntSet
  | s, [] => ([], s)
  | s, call :: calls =>
      ((s.step call).1 :: (run (s.step call).2 calls).1, (run (s.step call).2 calls).2)

/-- The same change of a finite set. -/
def setStep (members : Finset Int64) : Call → Bool × Finset Int64
  | .insert v => (decide (v ∉ members), Insert.insert v members)
  | .remove v => (decide (v ∈ members), members.erase v)

def setRun : Finset Int64 → List Call → List Bool × Finset Int64
  | members, [] => ([], members)
  | members, call :: calls =>
      ((setStep members call).1 :: (setRun (setStep members call).2 calls).1,
        (setRun (setStep members call).2 calls).2)

/-- What a set of integers shows of its members. -/
structure Shows (s : IntSet) (members : Finset Int64) : Prop where
  contains : ∀ v, s.contains v = decide (v ∈ members)
  listed : ∀ v, v ∈ s.iter ↔ v ∈ members
  increasing : s.iter.Pairwise (· < ·)
  reversed : s.revIter = s.iter.reverse
  range : ∀ start stop, s.iterRange start stop =
    .ok (s.iter.filter fun v => start ≤ v && v ≤ stop)
  only16 : s.enc ≠ .int16 → s.data16 = []
  only32 : s.enc ≠ .int32 → s.data32 = []
  only64 : s.enc ≠ .int64 → s.data64 = []

theorem Sound.run (sound : s.Sound) {members : Finset Int64}
    (listed : ∀ v, v ∈ s.iter ↔ v ∈ members) (calls : List Call) :
    (s.run calls).1 = (setRun members calls).1 ∧ (s.run calls).2.Sound ∧
      ∀ v, v ∈ (s.run calls).2.iter ↔ v ∈ (setRun members calls).2 := by
  induction calls generalizing s members with
  | nil => exact ⟨rfl, sound, listed⟩
  | cons call calls ih =>
      have stepped : (s.step call).1 = (setStep members call).1 ∧ (s.step call).2.Sound ∧
          ∀ v, v ∈ (s.step call).2.iter ↔ v ∈ (setStep members call).2 := by
        cases call with
        | insert v =>
            obtain ⟨flag, sound', members'⟩ := sound.insert v
            refine ⟨?_, sound', fun u => ?_⟩
            · exact flag.trans (decide_eq_decide.mpr (not_congr (listed v)))
            · rw [setStep, Finset.mem_insert, ← listed u]
              exact members' u
        | remove v =>
            obtain ⟨flag, sound', members'⟩ := sound.remove v
            refine ⟨flag.trans (decide_eq_decide.mpr (listed v)), sound', fun u => ?_⟩
            rw [setStep, Finset.mem_erase, ← listed u]
            exact members' u
      obtain ⟨flag, sound', listed'⟩ := stepped
      obtain ⟨flags, last⟩ := ih sound' listed'
      exact ⟨congrArg₂ List.cons flag flags, last⟩

/-- After any changes the set shows what a finite set of integers would. -/
theorem intSet_run (calls : List Call) :
    (new.run calls).1 = (setRun ∅ calls).1 ∧ (new.run calls).2.Shows (setRun ∅ calls).2 := by
  have empty : ∀ v : Int64, v ∈ new.iter ↔ v ∈ (∅ : Finset Int64) := by
    intro v
    simp [new, iter]
  have start : new.Sound := sound16 List.Pairwise.nil
  obtain ⟨flags, sound, listed⟩ := start.run empty calls
  refine ⟨flags, fun v => ?_, listed, sound.iter_sorted, rfl, sound.iterRange, sound.only16,
    sound.only32, sound.only64⟩
  rw [sound.contains, decide_eq_decide]
  exact listed v

end IntSet

end Zumic.Database
