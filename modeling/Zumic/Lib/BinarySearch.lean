/- Binary search in a sorted list, as the standard library does it; sorted vectors as sets; and the
next item of a finite set that is arranged in a circle. -/

import Mathlib.Data.List.InsertIdx
import Mathlib.Order.Lattice

namespace Zumic.Lib.BinarySearch

variable {α : Type} [LinearOrder α]

/-- The loop: `size` items from `base` on are left, of which one half is kept in every turn. -/
def narrow (l : List α) (x : α) : Nat → Nat → Nat → Nat
  | 0, base, _ => base
  | fuel + 1, base, size =>
      if 1 < size then
        let half := size / 2
        let mid := base + half
        let base := match l[mid]? with
          | some y => if x < y then base else mid
          | none => base
        narrow l x fuel base (size - half)
      else base

/-- The place of the item, or the place where it could be inserted. -/
def binarySearch (l : List α) (x : α) : Except Nat Nat :=
  let base := narrow l x l.length 0 l.length
  match l[base]? with
  | none => .error 0
  | some y => if y = x then .ok base else .error (if y < x then base + 1 else base)

/-- The item is not to the left of `base` and not at or behind `base + size`. -/
structure Bracketed (l : List α) (x : α) (base size : Nat) : Prop where
  positive : 0 < size
  inside : base + size ≤ l.length
  left : ∃ y, l[base]? = some y ∧ y ≤ x
  right : ∀ j y, base + size ≤ j → l[j]? = some y → x < y

theorem Bracketed.narrow {l : List α} {x : α} (sorted : l.Pairwise (· < ·)) {fuel base size : Nat}
    (bracketed : Bracketed l x base size) (enough : size ≤ fuel + 1) :
    Bracketed l x (narrow l x fuel base size) 1 := by
  induction fuel generalizing base size with
  | zero =>
      have one : size = 1 := by
        have positive := bracketed.positive
        omega
      exact one ▸ bracketed
  | succ fuel ih =>
      rw [BinarySearch.narrow]
      split
      · rename_i more
        have within := bracketed.inside
        have readable : base + size / 2 < l.length := by omega
        simp only [List.getElem?_eq_getElem readable]
        split
        · rename_i smaller
          refine ih ⟨by omega, by omega, bracketed.left, ?_⟩ (by omega)
          intro j y beyond read
          by_cases same : base + size / 2 = j
          · subst same
            rw [List.getElem?_eq_getElem readable] at read
            exact Option.some.inj read ▸ smaller
          · obtain ⟨bound, value⟩ := List.getElem?_eq_some_iff.mp read
            have above : l[base + size / 2] < l[j] :=
              List.pairwise_iff_getElem.mp sorted _ _ readable bound (by omega)
            exact value ▸ lt_trans smaller above
        · rename_i larger
          have whole : base + size / 2 + (size - size / 2) = base + size := by omega
          refine ih ⟨by omega, whole.symm ▸ within, ?_, ?_⟩ (by omega)
          · exact ⟨_, List.getElem?_eq_getElem readable, not_lt.mp larger⟩
          · intro j y beyond read
            exact bracketed.right j y (whole ▸ beyond) read
      · rename_i one
        have single : size = 1 := by
          have positive := bracketed.positive
          omega
        exact single ▸ bracketed

/-- The last item that is not greater than `x` is found, or the place behind it. -/
theorem binarySearch_spec {l : List α} {x : α} (sorted : l.Pairwise (· < ·))
    (first : ∃ y, l[0]? = some y ∧ y ≤ x) :
    ∃ i y, l[i]? = some y ∧ y ≤ x ∧ (∀ j z, i < j → l[j]? = some z → x < z) ∧
      binarySearch l x = if y = x then .ok i else .error (i + 1) := by
  have some' : 0 < l.length := by
    obtain ⟨y, read, -⟩ := first
    exact (List.getElem?_eq_some_iff.mp read).1
  have start : Bracketed l x 0 l.length := by
    refine ⟨some', by omega, first, ?_⟩
    intro j y beyond read
    rw [List.getElem?_eq_none (by omega)] at read
    cases read
  have found := start.narrow sorted (Nat.le_succ l.length)
  obtain ⟨y, read, below⟩ := found.left
  refine ⟨_, y, read, below, fun j z beyond => found.right j z beyond, ?_⟩
  simp only [binarySearch, read]
  split
  · rfl
  · rename_i other
    rw [if_pos (lt_of_le_of_ne below other)]

theorem narrow_eq_zero {l : List α} {x : α} (greater : ∀ y ∈ l, x < y) (fuel size : Nat) :
    narrow l x fuel 0 size = 0 := by
  induction fuel generalizing size with
  | zero => rfl
  | succ fuel ih =>
      rw [narrow]
      split
      · dsimp only
        cases read : l[0 + size / 2]? with
        | none => exact ih _
        | some y =>
            dsimp only
            rw [if_pos (greater y (List.mem_of_getElem? read))]
            exact ih _
      · rfl

/-- The items to the left and to the right of a place for `x`. -/
structure Splits (a b : List α) (x : α) : Prop where
  left : ∀ y ∈ a, y < x
  right : ∀ y ∈ b, x < y

theorem binarySearch_cases {l : List α} (sorted : l.Pairwise (· < ·)) (x : α) :
    (∃ a b, l = a ++ x :: b ∧ Splits a b x ∧ binarySearch l x = .ok a.length) ∨
      ∃ a b, l = a ++ b ∧ Splits a b x ∧ binarySearch l x = .error a.length := by
  by_cases first : ∃ y, l[0]? = some y ∧ y ≤ x
  · obtain ⟨i, y, read, below, above, found⟩ := binarySearch_spec sorted first
    obtain ⟨inside, rfl⟩ := List.getElem?_eq_some_iff.mp read
    have parts : l = l.take i ++ l[i] :: l.drop (i + 1) := by
      rw [← List.drop_eq_getElem_cons inside, List.take_append_drop]
    have length : (l.take i).length = i := List.length_take_of_le (Nat.le_of_lt inside)
    have ordered := sorted
    rw [parts, List.pairwise_append] at ordered
    have left : ∀ z ∈ l.take i, z < l[i] := fun z member =>
      ordered.2.2 z member l[i] List.mem_cons_self
    have right : ∀ z ∈ l.drop (i + 1), x < z := by
      intro z member
      obtain ⟨j, bound, rfl⟩ := List.mem_iff_getElem.mp member
      rw [List.getElem_drop]
      exact above (i + 1 + j) _ (by omega) (List.getElem?_eq_getElem _)
    by_cases same : l[i] = x
    · left
      rw [if_pos same] at found
      refine ⟨l.take i, l.drop (i + 1), ?_, ⟨fun z member => ?_, right⟩, ?_⟩
      · rwa [same] at parts
      · rw [← same]
        exact left z member
      · rw [found, length]
    · right
      rw [if_neg same] at found
      refine ⟨l.take i ++ [l[i]], l.drop (i + 1), ?_, ⟨fun z member => ?_, right⟩, ?_⟩
      · rwa [List.append_assoc, List.singleton_append]
      · rcases List.mem_append.mp member with front | last
        · exact lt_of_lt_of_le (left z front) below
        · rw [List.mem_singleton.mp last]
          exact lt_of_le_of_ne below same
      · rw [found, List.length_append, length, List.length_singleton]
  · have greater : ∀ y ∈ l, x < y := by
      intro y member
      cases l with
      | nil => cases member
      | cons z l =>
          have least : x < z := not_le.mp fun below => first ⟨z, rfl, below⟩
          rcases List.mem_cons.mp member with rfl | later
          · exact least
          · exact lt_trans least ((List.pairwise_cons.mp sorted).1 y later)
    right
    refine ⟨[], l, rfl, ⟨fun y member => absurd member List.not_mem_nil, greater⟩, ?_⟩
    rw [binarySearch, narrow_eq_zero greater]
    cases l with
    | nil => rfl
    | cons z l =>
        have least := greater z List.mem_cons_self
        simp [ne_of_gt least, not_lt.mpr (le_of_lt least)]

end Zumic.Lib.BinarySearch

namespace Zumic.Lib.SortedVec

open Lib.BinarySearch

/-- Whether a search has found its item. -/
def found : Except Nat Nat → Bool
  | .ok _ => true
  | .error _ => false

/-- The place of the first item that is not smaller. -/
def placeOf : Except Nat Nat → Nat
  | .ok i => i
  | .error i => i

/-- The place of the first item that is greater. -/
def placeAfter : Except Nat Nat → Nat
  | .ok i => i + 1
  | .error i => i

variable {α : Type} [LinearOrder α]

def insert (l : List α) (x : α) : Bool × List α :=
  match binarySearch l x with
  | .ok _ => (false, l)
  | .error i => (true, l.insertIdx i x)

def remove (l : List α) (x : α) : Bool × List α :=
  match binarySearch l x with
  | .ok i => (true, l.eraseIdx i)
  | .error _ => (false, l)

variable {l a b : List α} {x : α}

theorem splits_not_mem (splits : Splits a b x) : x ∉ a ++ b := by
  intro member
  rcases List.mem_append.mp member with left | right
  · exact lt_irrefl x (splits.left x left)
  · exact lt_irrefl x (splits.right x right)

theorem pairwise_between (splits : Splits a b x) (sorted : (a ++ b).Pairwise (· < ·)) :
    (a ++ x :: b).Pairwise (· < ·) := by
  obtain ⟨left, right, across⟩ := List.pairwise_append.mp sorted
  refine List.pairwise_append.mpr ⟨left, List.pairwise_cons.mpr ⟨splits.right, right⟩, ?_⟩
  intro y front z member
  rcases List.mem_cons.mp member with rfl | back
  · exact splits.left y front
  · exact across y front z back

omit [LinearOrder α] in
theorem insertIdx_length (a b : List α) (x : α) :
    (a ++ b).insertIdx a.length x = a ++ x :: b := by
  induction a with
  | nil => exact List.insertIdx_zero
  | cons y a ih => rw [List.cons_append, List.length_cons, List.insertIdx_succ_cons, ih]; rfl

theorem found_binarySearch (sorted : l.Pairwise (· < ·)) (x : α) :
    found (binarySearch l x) = decide (x ∈ l) := by
  rcases binarySearch_cases sorted x with ⟨a, b, rfl, _, done⟩ | ⟨a, b, rfl, splits, done⟩
  · rw [done]
    simp [found]
  · rw [done, found, decide_eq_false (splits_not_mem splits)]

theorem insert_spec (sorted : l.Pairwise (· < ·)) (x : α) :
    (insert l x).1 = decide (x ∉ l) ∧ (insert l x).2.Pairwise (· < ·) ∧
      ∀ y, y ∈ (insert l x).2 ↔ y = x ∨ y ∈ l := by
  rw [insert]
  rcases binarySearch_cases sorted x with ⟨a, b, parts, _, done⟩ | ⟨a, b, rfl, splits, done⟩
  · have member : x ∈ l := parts ▸ List.mem_append_right a List.mem_cons_self
    rw [done]
    refine ⟨by simp [member], sorted, fun y => ⟨Or.inr, ?_⟩⟩
    rintro (rfl | old)
    · exact member
    · exact old
  · rw [done]
    dsimp only
    rw [insertIdx_length a b x]
    refine ⟨by simp [splits_not_mem splits], pairwise_between splits sorted, fun y => ?_⟩
    simp only [List.mem_append, List.mem_cons]
    tauto

theorem remove_spec (sorted : l.Pairwise (· < ·)) (x : α) :
    (remove l x).1 = decide (x ∈ l) ∧ (remove l x).2.Pairwise (· < ·) ∧
      ∀ y, y ∈ (remove l x).2 ↔ y ≠ x ∧ y ∈ l := by
  rw [remove]
  rcases binarySearch_cases sorted x with ⟨a, b, rfl, splits, done⟩ | ⟨a, b, rfl, splits, done⟩
  · have gone : (a ++ x :: b).eraseIdx a.length = a ++ b := by
      rw [List.eraseIdx_append_of_length_le (Nat.le_refl _), Nat.sub_self, List.eraseIdx_cons_zero]
    have kept : (a ++ b).Sublist (a ++ x :: b) :=
      (List.Sublist.refl a).append (List.sublist_cons_self x b)
    rw [done]
    dsimp only
    rw [gone]
    refine ⟨by simp, sorted.sublist kept, fun y => ⟨fun member => ⟨?_, kept.mem member⟩, ?_⟩⟩
    · rintro rfl
      exact splits_not_mem splits member
    · rintro ⟨other, member⟩
      simp only [List.mem_append, List.mem_cons] at member ⊢
      tauto
  · have absent := splits_not_mem splits
    rw [done]
    refine ⟨by simp [absent], sorted, fun y => ⟨fun member => ⟨?_, member⟩, And.right⟩⟩
    rintro rfl
    exact absent member

theorem filter_append_filter_not {p : α → Bool} (closed : ∀ x y, x < y → p y = true → p x = true)
    (sorted : l.Pairwise (· < ·)) : l.filter p ++ l.filter (fun y => !p y) = l := by
  induction l with
  | nil => rfl
  | cons y l ih =>
      obtain ⟨least, rest⟩ := List.pairwise_cons.mp sorted
      cases holds : p y with
      | true => simp [holds, ih rest]
      | false =>
          have none' : l.filter p = [] := by
            rw [List.filter_eq_nil_iff]
            intro z member above
            rw [closed y z (least z member) above] at holds
            cases holds
          have all : l.filter (fun y => !p y) = l := by
            have parts := ih rest
            rwa [none', List.nil_append] at parts
          simp [holds, none', all]

theorem placeOf_binarySearch (sorted : l.Pairwise (· < ·)) (x : α) :
    placeOf (binarySearch l x) = (l.filter (· < x)).length := by
  have sides : ∀ {a b : List α}, Splits a b x →
      a.filter (· < x) = a ∧ b.filter (· < x) = [] := by
    intro a b splits
    refine ⟨List.filter_eq_self.mpr fun y member => decide_eq_true (splits.left y member), ?_⟩
    refine List.filter_eq_nil_iff.mpr fun y member => ?_
    simpa using le_of_lt (splits.right y member)
  rcases binarySearch_cases sorted x with ⟨a, b, rfl, splits, done⟩ | ⟨a, b, rfl, splits, done⟩
  · rw [done, List.filter_append, (sides splits).1, List.filter_cons_of_neg (by simp),
      (sides splits).2, List.append_nil, placeOf]
  · rw [done, List.filter_append, (sides splits).1, (sides splits).2, List.append_nil, placeOf]

theorem placeAfter_binarySearch (sorted : l.Pairwise (· < ·)) (x : α) :
    placeAfter (binarySearch l x) = (l.filter (· ≤ x)).length := by
  have sides : ∀ {a b : List α}, Splits a b x →
      a.filter (· ≤ x) = a ∧ b.filter (· ≤ x) = [] := by
    intro a b splits
    refine ⟨List.filter_eq_self.mpr fun y member =>
      decide_eq_true (le_of_lt (splits.left y member)), ?_⟩
    refine List.filter_eq_nil_iff.mpr fun y member => ?_
    simpa using splits.right y member
  rcases binarySearch_cases sorted x with ⟨a, b, rfl, splits, done⟩ | ⟨a, b, rfl, splits, done⟩
  · rw [done, List.filter_append, (sides splits).1, List.filter_cons_of_pos (by simp),
      (sides splits).2, List.length_append, placeAfter]
    rfl
  · rw [done, List.filter_append, (sides splits).1, (sides splits).2, List.append_nil, placeAfter]

theorem take_filter {p : α → Bool} (closed : ∀ x y, x < y → p y = true → p x = true)
    (sorted : l.Pairwise (· < ·)) : l.take (l.filter p).length = l.filter p := by
  have parts : l.take (l.filter p).length =
      (l.filter p ++ l.filter (fun y => !p y)).take (l.filter p).length := by
    rw [filter_append_filter_not closed sorted]
  rw [parts, List.take_left]

theorem drop_filter {p : α → Bool} (closed : ∀ x y, x < y → p y = true → p x = true)
    (sorted : l.Pairwise (· < ·)) :
    l.drop (l.filter p).length = l.filter (fun y => !p y) := by
  have parts : l.drop (l.filter p).length =
      (l.filter p ++ l.filter (fun y => !p y)).drop (l.filter p).length := by
    rw [filter_append_filter_not closed sorted]
  rw [parts, List.drop_left]

theorem window_eq_filter (sorted : l.Pairwise (· < ·)) {lo hi : α} (order : lo ≤ hi) :
    (l.drop (l.filter (· < lo)).length).take
        ((l.filter (· ≤ hi)).length - (l.filter (· < lo)).length) =
      l.filter (fun y => lo ≤ y && y ≤ hi) := by
  have below : ∀ x y : α, x < y → decide (y < lo) = true → decide (x < lo) = true :=
    fun x y less low => decide_eq_true (lt_trans less (of_decide_eq_true low))
  have upTo : ∀ x y : α, x < y → decide (y ≤ hi) = true → decide (x ≤ hi) = true :=
    fun x y less low => decide_eq_true (le_trans (le_of_lt less) (of_decide_eq_true low))
  have rest := drop_filter below sorted
  have sorted' : (l.filter (fun y => !decide (y < lo))).Pairwise (· < ·) :=
    sorted.sublist List.filter_sublist
  -- the items up to `hi` are those below `lo` and those of the window
  have counted : (l.filter (· ≤ hi)).length - (l.filter (· < lo)).length =
      ((l.filter (fun y => !decide (y < lo))).filter (· ≤ hi)).length := by
    have low : (l.filter (· < lo)).filter (· ≤ hi) = l.filter (· < lo) :=
      List.filter_eq_self.mpr fun y member => decide_eq_true
        (le_trans (le_of_lt (of_decide_eq_true (List.mem_filter.mp member).2)) order)
    have whole := congrArg (List.filter (· ≤ hi)) (filter_append_filter_not below sorted)
    rw [List.filter_append, low] at whole
    rw [← whole, List.length_append, Nat.add_sub_cancel_left]
  rw [rest, counted, take_filter upTo sorted', List.filter_filter]
  refine List.filter_congr fun y _ => ?_
  rw [Bool.and_comm, ← decide_not]
  simp only [not_lt]

end Zumic.Lib.SortedVec

namespace Zumic.Lib.Cyclic

open Lib.BinarySearch

variable {α : Type} [LinearOrder α]

/-- The least item that is not below `x` or, where all are below, the least of all. -/
structure IsNext (l : List α) (x h : α) : Prop where
  member : h ∈ l
  least : ∀ y ∈ l, y < h → y < x ∧ x ≤ h
  wraps : h < x → ∀ y ∈ l, y < x

variable {l l' : List α} {x h h' : α}

theorem IsNext.unique (next : IsNext l x h) (next' : IsNext l x h') : h = h' := by
  rcases lt_trichotomy h h' with less | same | more
  · have between := next'.least h next.member less
    exact absurd (next.wraps between.1 h' next'.member) (not_lt.mpr between.2)
  · exact same
  · have between := next.least h' next'.member more
    exact absurd (next'.wraps between.1 h next.member) (not_lt.mpr between.2)

theorem IsNext.of_subset (next : IsNext l x h) (fewer : ∀ y ∈ l', y ∈ l) (kept : h ∈ l') :
    IsNext l' x h where
  member := kept
  least y member := next.least y (fewer y member)
  wraps below y member := next.wraps below y (fewer y member)

theorem IsNext.of_mem_iff (next : IsNext l x h) (same : ∀ y, y ∈ l' ↔ y ∈ l) : IsNext l' x h :=
  next.of_subset (fun y => (same y).mp) ((same h).mpr next.member)

/-- The place where a search ends, past the end at the beginning again. -/
def place (l : List α) (x : α) : Nat :=
  match binarySearch l x with
  | .ok i => i
  | .error i => if i = l.length then 0 else i

theorem isNext_place (sorted : l.Pairwise (· < ·)) (some' : l ≠ []) (x : α) :
    ∃ h, l[place l x]? = some h ∧ IsNext l x h := by
  rcases binarySearch_cases sorted x with ⟨a, b, rfl, splits, found⟩ | ⟨a, b, rfl, splits, found⟩
  · refine ⟨x, ?_, ?_, ?_, ?_⟩
    · simp [place, found]
    · simp
    · intro y _ less
      exact ⟨less, le_refl x⟩
    · intro less
      exact absurd less (lt_irrefl x)
  · cases b with
    | nil =>
        cases a with
        | nil => exact absurd rfl some'
        | cons first a =>
            rw [List.append_nil] at *
            have least := (List.pairwise_cons.mp sorted).1
            refine ⟨first, ?_, List.mem_cons_self, ?_, fun _ => splits.left⟩
            · simp [place, found]
            · intro y member less
              rcases List.mem_cons.mp member with rfl | later
              · exact absurd less (lt_irrefl _)
              · exact absurd less (not_lt.mpr (le_of_lt (least y later)))
    | cons next b =>
        have above := splits.right next List.mem_cons_self
        have ordered := List.pairwise_append.mp sorted
        refine ⟨next, ?_, ?_, ?_, ?_⟩
        · simp [place, found]
        · simp
        · intro y member less
          rcases List.mem_append.mp member with front | back
          · exact ⟨splits.left y front, le_of_lt above⟩
          · rcases List.mem_cons.mp back with rfl | later
            · exact absurd less (lt_irrefl _)
            · exact absurd less (not_lt.mpr (le_of_lt
                ((List.pairwise_cons.mp ordered.2.1).1 y later)))
        · intro less
          exact absurd less (not_lt.mpr (le_of_lt above))

end Zumic.Lib.Cyclic
