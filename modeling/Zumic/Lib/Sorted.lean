/- Sorted maps: the pairs of a finite map in the order of their keys. The bounds of a list. -/

import Mathlib.Order.Bounds.Basic
import Zumic.Lib.Assoc

namespace Zumic.Lib.Sorted

open Lib

variable {κ α : Type} [LinearOrder κ]

/-- The pair of a key stands between those of the keys below and above. -/
def insert (m : List (κ × α)) (key : κ) (value : α) : List (κ × α) :=
  (m.filter fun p => p.1 < key) ++ (key, value) :: m.filter fun p => key < p.1

def modify (m : List (κ × α)) (key : κ) (change : α → α) : List (κ × α) :=
  m.map fun p => if p.1 = key then (p.1, change p.2) else p

def range (m : List (κ × α)) (start stop : κ) : List (κ × α) :=
  m.filter fun p => start ≤ p.1 ∧ p.1 < stop

/-- A key between two parts of a map. -/
structure Gap (a b : List (κ × α)) (key : κ) : Prop where
  below : ∀ p ∈ a, p.1 < key
  above : ∀ p ∈ b, key < p.1

variable {a b : List (κ × α)} {key : κ}

theorem Gap.not_mem (gap : Gap a b key) : key ∉ Assoc.keys (a ++ b) := by
  intro member
  obtain ⟨p, inside, rfl⟩ := List.mem_map.mp member
  rcases List.mem_append.mp inside with low | high
  · exact lt_irrefl _ (gap.below p low)
  · exact lt_irrefl _ (gap.above p high)

theorem Gap.get_none (gap : Gap a b key) : Assoc.get (a ++ b) key = none :=
  Assoc.get_eq_none_iff.mpr gap.not_mem

theorem Gap.get_some (gap : Gap a b key) (v : α) :
    Assoc.get (a ++ (key, v) :: b) key = some v := by
  have below := gap.below
  clear gap
  induction a with
  | nil => simp [Assoc.get]
  | cons p a ih =>
      have other : p.1 ≠ key := ne_of_lt (below p List.mem_cons_self)
      rw [List.cons_append, Assoc.get, if_neg other]
      exact ih fun q member => below q (List.mem_cons_of_mem p member)

theorem Gap.filter_lt (gap : Gap a b key) : (a ++ b).filter (fun p => p.1 < key) = a := by
  rw [List.filter_append, List.filter_eq_self.mpr fun p member => decide_eq_true (gap.below p member),
    List.filter_eq_nil_iff.mpr fun p member => by simpa using le_of_lt (gap.above p member),
    List.append_nil]

theorem Gap.filter_gt (gap : Gap a b key) : (a ++ b).filter (fun p => key < p.1) = b := by
  rw [List.filter_append,
    List.filter_eq_nil_iff.mpr fun p member => by simpa using le_of_lt (gap.below p member),
    List.filter_eq_self.mpr fun p member => decide_eq_true (gap.above p member), List.nil_append]

theorem Gap.insert_new (gap : Gap a b key) (value : α) :
    insert (a ++ b) key value = a ++ (key, value) :: b := by
  rw [insert, gap.filter_lt, gap.filter_gt]

theorem Gap.insert_old (gap : Gap a b key) (old value : α) :
    insert (a ++ (key, old) :: b) key value = a ++ (key, value) :: b := by
  have low : (a ++ (key, old) :: b).filter (fun p => p.1 < key) =
      (a ++ b).filter fun p => p.1 < key := by simp [List.filter_append]
  have high : (a ++ (key, old) :: b).filter (fun p => key < p.1) =
      (a ++ b).filter fun p => key < p.1 := by simp [List.filter_append]
  rw [insert, low, high, gap.filter_lt, gap.filter_gt]

theorem foldl_insert {m items : List (κ × α)}
    (sorted : (m ++ items).Pairwise fun p q => p.1 < q.1) :
    items.foldl (fun m p => insert m p.1 p.2) m = m ++ items := by
  induction items generalizing m with
  | nil => exact (List.append_nil m).symm
  | cons p items ih =>
      have gap : Gap m [] p.1 :=
        ⟨fun q member => (List.pairwise_append.mp sorted).2.2 q member p List.mem_cons_self, by simp⟩
      have placed := gap.insert_new p.2
      rw [List.append_nil] at placed
      rw [List.foldl_cons, placed, ih (by rwa [List.append_assoc]), List.append_assoc]
      rfl

theorem Gap.modify_none (gap : Gap a b key) (change : α → α) :
    modify (a ++ b) key change = a ++ b := by
  refine (List.map_congr_left fun p member => ?_).trans (List.map_id _)
  have other : p.1 ≠ key := fun same => gap.not_mem (same ▸ List.mem_map_of_mem member)
  exact if_neg other

theorem Gap.modify_some (gap : Gap a b key) (old : α) (change : α → α) :
    modify (a ++ (key, old) :: b) key change = a ++ (key, change old) :: b := by
  have rest := gap.modify_none change
  rw [modify, List.map_append] at rest
  obtain ⟨front, back⟩ := List.append_inj rest (List.length_map _)
  rw [modify, List.map_append, List.map_cons, front, back, if_pos rfl]

theorem Gap.erase_none (gap : Gap a b key) : Assoc.erase (a ++ b) key = a ++ b :=
  Assoc.erase_of_not_mem gap.not_mem

theorem Gap.erase_some (gap : Gap a b key) (old : α) :
    Assoc.erase (a ++ (key, old) :: b) key = a ++ b := by
  have rest := gap.erase_none
  rw [Assoc.erase_eq_filter] at rest ⊢
  rw [← rest]
  simp [List.filter_append]

section

variable {m : List (κ × α)} {p : κ × α → Bool} {k : κ}

theorem get_append (m m' : List (κ × α)) (k : κ) :
    Assoc.get (m ++ m') k = (Assoc.get m k).or (Assoc.get m' k) := by
  induction m with
  | nil => rfl
  | cons entry m ih =>
      by_cases own : entry.1 = k
      · simp [Assoc.get, own]
      · simp only [List.cons_append, Assoc.get, own, if_false]
        exact ih

theorem get_filter_of_pos (all : ∀ v, p (k, v) = true) :
    Assoc.get (m.filter p) k = Assoc.get m k := by
  induction m with
  | nil => rfl
  | cons entry m ih =>
      by_cases own : entry.1 = k
      · subst own
        rw [List.filter_cons_of_pos (all entry.2)]
        simp [Assoc.get]
      · by_cases chosen : p entry = true
        · rw [List.filter_cons_of_pos chosen]
          simp only [Assoc.get, own, if_false]
          exact ih
        · rw [List.filter_cons_of_neg chosen]
          simp only [Assoc.get, own, if_false]
          exact ih

theorem get_filter_of_neg (none : ∀ v, p (k, v) = false) :
    Assoc.get (m.filter p) k = Option.none := by
  apply Assoc.get_eq_none_iff.mpr
  intro member
  obtain ⟨entry, inside, rfl⟩ := List.mem_map.mp member
  have chosen := (List.mem_filter.mp inside).2
  rw [none entry.2] at chosen
  cases chosen

theorem get_insert (m : List (κ × α)) (key : κ) (value : α) (k : κ) :
    Assoc.get (insert m key value) k = if key = k then some value else Assoc.get m k := by
  unfold insert
  rw [get_append]
  rcases lt_trichotomy k key with below | rfl | above
  · rw [if_neg (ne_of_gt below), get_filter_of_pos (fun _ => decide_eq_true below)]
    have rest : Assoc.get (m.filter fun p => key < p.1) k = none :=
      get_filter_of_neg fun _ => decide_eq_false (lt_asymm below)
    simp [Assoc.get, ne_of_gt below, rest]
  · rw [if_pos rfl, get_filter_of_neg (fun _ => decide_eq_false (lt_irrefl _))]
    simp [Assoc.get]
  · rw [if_neg (ne_of_lt above), get_filter_of_neg (fun _ => decide_eq_false (lt_asymm above))]
    have rest : Assoc.get (m.filter fun p => key < p.1) k = Assoc.get m k :=
      get_filter_of_pos fun _ => decide_eq_true above
    simp [Assoc.get, ne_of_lt above, rest]

theorem mem_insert {key : κ} {value : α} {entry : κ × α} (member : entry ∈ insert m key value) :
    entry = (key, value) ∨ entry ∈ m := by
  rcases List.mem_append.mp member with below | rest
  · exact .inr (List.mem_filter.mp below).1
  · rcases List.mem_cons.mp rest with own | above
    · exact .inl own
    · exact .inr (List.mem_filter.mp above).1

theorem nodup_keys_insert (distinct : (Assoc.keys m).Nodup) (key : κ) (value : α) :
    (Assoc.keys (insert m key value)).Nodup := by
  have part : ∀ p : κ × α → Bool, (Assoc.keys (m.filter p)).Nodup := fun p =>
    distinct.sublist (List.filter_sublist.map Prod.fst)
  unfold insert Assoc.keys
  rw [List.map_append, List.map_cons, List.nodup_append]
  refine ⟨part _, List.nodup_cons.mpr ⟨?_, part _⟩, ?_⟩
  · intro member
    obtain ⟨entry, inside, same⟩ := List.mem_map.mp member
    have above := of_decide_eq_true (List.mem_filter.mp inside).2
    exact absurd same (ne_of_gt above)
  · intro low lowMember other otherMember same
    obtain ⟨entry, inside, rfl⟩ := List.mem_map.mp lowMember
    have below : entry.1 < key := of_decide_eq_true (List.mem_filter.mp inside).2
    rcases List.mem_cons.mp otherMember with rfl | otherMember
    · exact absurd same (ne_of_lt below)
    · obtain ⟨entry', inside', rfl⟩ := List.mem_map.mp otherMember
      have above : key < entry'.1 := of_decide_eq_true (List.mem_filter.mp inside').2
      exact absurd same (ne_of_lt (below.trans above))

theorem length_insert (distinct : (Assoc.keys m).Nodup) (key : κ) (value : α) :
    (insert m key value).length = m.length + (if (Assoc.get m key).isSome then 0 else 1) := by
  have others : (m.filter fun p => p.1 < key).length + (m.filter fun p => key < p.1).length =
      (Assoc.erase m key).length := by
    clear distinct
    induction m with
    | nil => rfl
    | cons p m ih =>
        rcases lt_trichotomy p.1 key with below | same | above
        · simp only [List.filter_cons, below, lt_asymm below, Assoc.erase, below.ne, decide_true,
            decide_false, if_true, Bool.false_eq_true, if_false, List.length_cons]
          omega
        · simp only [List.filter_cons, same, lt_irrefl, Assoc.erase, decide_false, if_true,
            Bool.false_eq_true, if_false]
          omega
        · simp only [List.filter_cons, above, lt_asymm above, Assoc.erase, above.ne', decide_true,
            decide_false, if_true, Bool.false_eq_true, if_false, List.length_cons]
          omega
  have erased := Assoc.length_erase distinct key
  unfold insert
  rw [List.length_append, List.length_cons]
  split at erased
  · rename_i found
    rw [if_pos found]
    omega
  · rename_i missing
    rw [if_neg missing]
    omega

end

end Zumic.Lib.Sorted

namespace Zumic.Lib

variable {α : Type} [LinearOrder α]

/-- The exact bounds of the elements of a list; an empty list has none. -/
structure Bounds (l : List α) (low high : α) : Prop where
  least : IsLeast {x | x ∈ l} low
  greatest : IsGreatest {x | x ∈ l} high

namespace Bounds

variable {l l' : List α} {low high low' high' : α}

theorem singleton (x : α) : Bounds [x] x x := by
  refine ⟨⟨List.mem_singleton_self x, fun y member => ?_⟩, List.mem_singleton_self x,
    fun y member => ?_⟩
  · exact le_of_eq (List.mem_singleton.mp member).symm
  · exact le_of_eq (List.mem_singleton.mp member)

omit [LinearOrder α] in
theorem mem_append_eq (l l' : List α) : {x | x ∈ l ++ l'} = {x | x ∈ l} ∪ {x | x ∈ l'} := by
  ext x
  exact List.mem_append

theorem append (bounds : Bounds l low high) (bounds' : Bounds l' low' high') :
    Bounds (l ++ l') (min low low') (max high high') := by
  constructor
  · rw [mem_append_eq]
    exact bounds.least.union bounds'.least
  · rw [mem_append_eq]
    exact bounds.greatest.union bounds'.greatest

theorem le (bounds : Bounds l low high) {x : α} (member : x ∈ l) : low ≤ x :=
  bounds.least.2 member

theorem ge (bounds : Bounds l low high) {x : α} (member : x ∈ l) : x ≤ high :=
  bounds.greatest.2 member

end Bounds

end Zumic.Lib
