/- Items that are taken from a list group by group. -/

import Mathlib.Data.List.Induction
import Mathlib.Data.List.Nodup
import Zumic.Lib.Assoc

namespace Zumic.Lib.Grouping

variable {α β κ : Type} [DecidableEq α] [DecidableEq κ] [BEq κ] [LawfulBEq κ]

theorem count_flatMap_filter (key : α → κ) (keys : List κ) (items : List α) (item : α) :
    (keys.flatMap fun k => items.filter fun i => key i = k).count item =
      keys.count (key item) * items.count item := by
  induction keys with
  | nil => rw [List.flatMap_nil, List.count_nil, List.count_nil, Nat.zero_mul]
  | cons k keys ih =>
      rw [List.flatMap_cons, List.count_append, ih, List.count_cons]
      by_cases here : key item = k
      · rw [List.count_filter (by simpa using here), if_pos (by simpa using here.symm), Nat.succ_mul,
          Nat.add_comm]
      · have absent : item ∉ items.filter fun i => key i = k := fun member =>
          here (by simpa using (List.mem_filter.mp member).2)
        rw [List.count_eq_zero.mpr absent, if_neg (by simpa using Ne.symm here), Nat.zero_add,
          Nat.add_zero]

theorem flatMap_filter_perm {key : α → κ} {keys : List κ} {items : List α}
    (each : ∀ item ∈ items, keys.count (key item) = 1) :
    (keys.flatMap fun k => items.filter fun i => key i = k).Perm items := by
  apply List.perm_iff_count.mpr
  intro item
  rw [count_flatMap_filter]
  by_cases member : item ∈ items
  · rw [each item member, Nat.one_mul]
  · rw [List.count_eq_zero.mpr member, Nat.mul_zero]

/-- Taking items by their keys takes each once exactly when every key is asked for once. -/
theorem flatMap_filter_perm_iff {key : α → κ} {keys : List κ} {items : List α} {f : α → β}
    (distinct : (items.map f).Nodup) :
    (((keys.flatMap fun k => items.filter fun i => key i = k).map f).Perm (items.map f)) ↔
      ∀ item ∈ items, keys.count (key item) = 1 := by
  have unique : items.Nodup := List.Nodup.of_map f distinct
  have inside : ∀ item ∈ keys.flatMap (fun k => items.filter fun i => key i = k), item ∈ items := by
    intro item member
    obtain ⟨k, _, taken⟩ := List.mem_flatMap.mp member
    exact List.mem_of_mem_filter taken
  constructor
  · intro same item member
    have once : (keys.flatMap fun k => items.filter fun i => key i = k).count item = 1 := by
      apply List.count_eq_one_of_mem
      · exact List.Nodup.of_map f (same.nodup_iff.mpr distinct)
      · obtain ⟨other, taken, image⟩ :=
          List.mem_map.mp (same.symm.subset (List.mem_map_of_mem member))
        rw [← List.inj_on_of_nodup_map distinct (inside other taken) member image]
        exact taken
    rw [count_flatMap_filter, List.count_eq_one_of_mem unique member, Nat.mul_one] at once
    exact once
  · exact fun each => (flatMap_filter_perm each).map f

section

variable {ε ι : Type} [DecidableEq ι] (place : ε → ι)

/-- Items by their place, each group in the order of the items. -/
def group (items : List ε) : List (ι × List ε) :=
  items.foldl (fun groups item =>
    Assoc.insert groups (place item) ((Assoc.get groups (place item)).getD [] ++ [item])) []

/-- The items of a place, if there are any. -/
def groupAt (items : List ε) (i : ι) : Option (List ε) :=
  let here := items.filter fun item => place item = i
  if here.isEmpty then none else some here

variable {place}

theorem getD_groupAt (items : List ε) (i : ι) :
    (groupAt place items i).getD [] = items.filter fun item => place item = i := by
  unfold groupAt
  dsimp only
  split
  · rename_i empty
    exact (List.isEmpty_iff.mp empty).symm
  · rfl

theorem group_snoc (items : List ε) (item : ε) : group place (items ++ [item]) =
    Assoc.insert (group place items) (place item)
      ((Assoc.get (group place items) (place item)).getD [] ++ [item]) := by
  unfold group
  rw [List.foldl_append]
  rfl

theorem nodup_group (items : List ε) : (Assoc.keys (group place items)).Nodup := by
  induction items using List.reverseRecOn with
  | nil => exact List.nodup_nil
  | append_singleton items item ih =>
      rw [group_snoc]
      exact Assoc.nodup_keys_insert ih _ _

theorem get_group (items : List ε) (i : ι) :
    Assoc.get (group place items) i = groupAt place items i := by
  induction items using List.reverseRecOn generalizing i with
  | nil => rfl
  | append_singleton items item ih =>
      rw [group_snoc, Assoc.get_insert, ih, ih, getD_groupAt]
      by_cases here : place item = i
      · subst here
        rw [if_pos rfl]
        simp [groupAt]
      · rw [if_neg here]
        simp [groupAt, here]

theorem mem_keys_group {items : List ε} {i : ι} :
    i ∈ Assoc.keys (group place items) ↔ i ∈ items.map place := by
  rw [Assoc.mem_keys_iff_isSome, get_group, groupAt]
  simp only [List.isEmpty_iff, List.filter_eq_nil_iff, decide_eq_true_eq]
  split
  · rename_i none'
    refine ⟨fun some' => absurd some' Bool.false_ne_true, fun member => ?_⟩
    obtain ⟨item, listed, here⟩ := List.mem_map.mp member
    exact absurd here (none' item listed)
  · rename_i some'
    refine ⟨fun _ => ?_, fun _ => rfl⟩
    by_contra absent
    exact some' fun item listed here => absent (List.mem_map.mpr ⟨item, listed, here⟩)

variable {groups : List (ι × List ε)} {items : List ε}

theorem place_of_mem (same : groups.Perm (group place items)) {g : ι × List ε} (listed : g ∈ groups)
    {item : ε} (member : item ∈ g.2) : place item = g.1 := by
  have found := Assoc.get_of_mem (nodup_group items) (same.mem_iff.mp listed)
  rw [get_group] at found
  have here := @getD_groupAt _ _ _ place items g.1
  rw [found] at here
  rw [Option.getD_some] at here
  rw [here] at member
  exact of_decide_eq_true (List.mem_filter.mp member).2

theorem ne_nil_of_mem (same : groups.Perm (group place items)) {g : ι × List ε}
    (listed : g ∈ groups) : g.2 ≠ [] := by
  have found := Assoc.get_of_mem (nodup_group items) (same.mem_iff.mp listed)
  rw [get_group, groupAt] at found
  split at found
  · cases found
  · rename_i some
    rw [← Option.some.inj found]
    exact fun empty => some (List.isEmpty_iff.mpr empty)

theorem filter_flatMap_group (same : groups.Perm (group place items)) (p : ε → Bool) {i : ι}
    (one : ∀ item, p item = true → place item = i) :
    (groups.flatMap Prod.snd).filter p = items.filter p := by
  have others : ∀ l : List (ι × List ε), (∀ g ∈ l, g ∈ groups) →
      (l.flatMap Prod.snd).filter p =
        ((l.filter fun g => g.1 = i).flatMap Prod.snd).filter p := by
    intro l listed
    induction l with
    | nil => rfl
    | cons g l ih =>
        rw [List.flatMap_cons, List.filter_append,
          ih fun g' member => listed g' (List.mem_cons_of_mem g member), List.filter_cons]
        by_cases here : g.1 = i
        · rw [if_pos (decide_eq_true here), List.flatMap_cons, List.filter_append]
        · rw [if_neg (by simpa using here)]
          have none : g.2.filter p = [] := by
            refine List.filter_eq_nil_iff.mpr fun item member taken => here ?_
            rw [← place_of_mem same (listed g List.mem_cons_self) member]
            exact one item taken
          rw [none, List.nil_append]
  have single : (groups.filter fun g => g.1 = i) =
      ((groupAt place items i).map fun l => (i, l)).toList := by
    have distinct : (Assoc.keys groups).Nodup :=
      (same.symm.map Prod.fst).nodup (nodup_group items)
    have read : Assoc.get groups i = groupAt place items i := by
      rw [Assoc.get_of_perm same distinct, get_group]
    rw [← read]
    clear others read same
    induction groups with
    | nil => rfl
    | cons g l ih =>
        rw [Assoc.keys_cons, List.nodup_cons] at distinct
        rw [List.filter_cons, Assoc.get]
        by_cases here : g.1 = i
        · subst here
          have alone : (l.filter fun g' => g'.1 = g.1) = [] := by
            refine List.filter_eq_nil_iff.mpr fun g' member same => distinct.1 ?_
            rw [← of_decide_eq_true same]
            exact List.mem_map_of_mem member
          rw [if_pos (decide_eq_true rfl), if_pos rfl, alone]
          rfl
        · rw [if_neg (by simpa using here), if_neg here, ih distinct.2]
  rw [others groups fun _ member => member, single]
  have here := @getD_groupAt _ _ _ place items i
  have taken : items.filter p = (items.filter fun item => place item = i).filter p := by
    rw [List.filter_filter]
    refine List.filter_congr fun item _ => ?_
    cases chosen : p item with
    | false => rfl
    | true => simp [one item chosen]
  rw [taken, ← here]
  cases groupAt place items i with
  | none => rfl
  | some l => simp

theorem mem_flatMap_group (same : groups.Perm (group place items)) (item : ε) :
    item ∈ groups.flatMap Prod.snd ↔ item ∈ items := by
  classical
  have one : ∀ other, decide (other = item) = true → place other = place item :=
    fun other here => congrArg place (of_decide_eq_true here)
  have taken := filter_flatMap_group same (fun other => decide (other = item)) one
  have listed : ∀ l : List ε, item ∈ l ↔ item ∈ l.filter fun other => decide (other = item) := by
    intro l
    rw [List.mem_filter]
    exact ⟨fun member => ⟨member, decide_eq_true rfl⟩, And.left⟩
  rw [listed, taken, ← listed]

theorem map_get_perm {ids : List ι} {groups : List (ι × List ε)}
    (same : ids.Perm (Assoc.keys groups)) (distinct : (Assoc.keys groups).Nodup) :
    (ids.map fun i => (i, (Assoc.get groups i).getD [])).Perm groups := by
  have whole : (Assoc.keys groups).map (fun i => (i, (Assoc.get groups i).getD [])) = groups := by
    rw [Assoc.keys, List.map_map]
    conv_rhs => rw [← List.map_id groups]
    apply List.map_congr_left
    intro g member
    simp [Assoc.get_of_mem distinct member]
  have perm := same.map fun i => (i, (Assoc.get groups i).getD [])
  rwa [whole] at perm

end

section

variable {β ε : Type} {place : ε → Nat} (act : β → ε → β)

/-- An item acts on the cell at its place. -/
def actAt (place : ε → Nat) (cells : List β) (item : ε) : List β :=
  cells.modify (place item) fun b => act b item

theorem getElem?_foldl_actAt (items : List ε) (cells : List β) (i : Nat) :
    (items.foldl (actAt act place) cells)[i]? =
      cells[i]?.map fun b => (items.filter fun item => place item = i).foldl act b := by
  induction items generalizing cells with
  | nil => simp
  | cons item items ih =>
      rw [List.foldl_cons, ih, actAt, List.getElem?_modify, List.filter_cons]
      by_cases here : place item = i
      · rw [if_pos (decide_eq_true here)]
        cases cells[i]? with
        | none => rfl
        | some b => simp [here]
      · rw [if_neg (by simpa using here)]
        cases cells[i]? with
        | none => rfl
        | some b => simp [here]

theorem foldl_actAt_group {items : List ε} {i : Nat} (here : ∀ item ∈ items, place item = i)
    (cells : List β) :
    items.foldl (actAt act place) cells = cells.modify i fun b => items.foldl act b := by
  apply List.ext_getElem?
  intro j
  rw [getElem?_foldl_actAt, List.getElem?_modify]
  by_cases same : i = j
  · subst same
    rw [List.filter_eq_self.mpr fun item member => decide_eq_true (here item member)]
    cases cells[i]? with
    | none => rfl
    | some b => simp
  · have none' : (items.filter fun item => place item = j) = [] :=
      List.filter_eq_nil_iff.mpr fun item member at' =>
        same ((here item member).symm.trans (of_decide_eq_true at'))
    rw [none']
    cases cells[j]? with
    | none => rfl
    | some b => simp [same]

/-- Acting group by group, in any order of the groups, is acting item by item. -/
theorem foldl_groups {items : List ε} {groups : List (Nat × List ε)}
    (same : groups.Perm (group place items)) (cells : List β) :
    groups.foldl (fun cells g => cells.modify g.1 fun b => g.2.foldl act b) cells =
      items.foldl (actAt act place) cells := by
  have flat : ∀ l : List (Nat × List ε), (∀ g ∈ l, g ∈ groups) → ∀ cells : List β,
      l.foldl (fun cells g => cells.modify g.1 fun b => g.2.foldl act b) cells =
        (l.flatMap Prod.snd).foldl (actAt act place) cells := by
    intro l listed
    induction l with
    | nil => exact fun cells => rfl
    | cons g l ih =>
        intro cells
        have placed : ∀ item ∈ g.2, place item = g.1 :=
          fun item member => place_of_mem same (listed g List.mem_cons_self) member
        rw [List.foldl_cons, List.flatMap_cons, List.foldl_append, foldl_actAt_group act placed,
          ih fun g' member => listed g' (List.mem_cons_of_mem g member)]
  rw [flat groups (fun _ member => member) cells]
  apply List.ext_getElem?
  intro i
  rw [getElem?_foldl_actAt, getElem?_foldl_actAt,
    filter_flatMap_group same _ fun item here => of_decide_eq_true here]

end

section

variable {κ β : Type} (f : κ → β) {keys : List κ} {items : List (κ × Nat)}

theorem getElem?_fill (placed : ∀ e ∈ items, keys[e.2]? = some e.1) {results : List β} {i : Nat}
    (inRange : i < results.length) :
    (items.foldl (fun results e => results.set e.2 (f e.1)) results)[i]? =
      if i ∈ items.map Prod.snd then keys[i]?.map f else results[i]? := by
  induction items generalizing results with
  | nil => rfl
  | cons e items ih =>
      have here := placed e List.mem_cons_self
      rw [List.foldl_cons, ih (fun e' member => placed e' (List.mem_cons_of_mem e member))
        (by rwa [List.length_set]), List.getElem?_set, List.map_cons]
      by_cases later : i ∈ items.map Prod.snd
      · rw [if_pos later, if_pos (List.mem_cons_of_mem _ later)]
      · rw [if_neg later]
        by_cases now : e.2 = i
        · subst now
          rw [if_pos rfl, if_pos inRange, if_pos List.mem_cons_self, here]
          rfl
        · have absent : i ∉ e.2 :: items.map Prod.snd := by
            rw [List.mem_cons, not_or]
            exact ⟨Ne.symm now, later⟩
          rw [if_neg now, if_neg absent]

theorem length_fill (items : List (κ × Nat)) (results : List β) :
    (items.foldl (fun results e => results.set e.2 (f e.1)) results).length = results.length := by
  induction items generalizing results with
  | nil => rfl
  | cons e items ih => rw [List.foldl_cons, ih, List.length_set]

theorem fill_eq_map (members : ∀ e, e ∈ items ↔ e ∈ keys.zipIdx) {results : List β}
    (size : results.length = keys.length) :
    items.foldl (fun results e => results.set e.2 (f e.1)) results = keys.map f := by
  have placed : ∀ e ∈ items, keys[e.2]? = some e.1 :=
    fun e member => List.mem_zipIdx_iff_getElem?.mp ((members e).mp member)
  refine List.ext_getElem? fun i => ?_
  by_cases inRange : i < keys.length
  · have listed : i ∈ items.map Prod.snd := by
      refine List.mem_map.mpr ⟨(keys[i], i), (members _).mpr ?_, rfl⟩
      exact List.mem_zipIdx_iff_getElem?.mpr (List.getElem?_eq_getElem inRange)
    rw [getElem?_fill f placed (by rwa [size]), if_pos listed, List.getElem?_map]
  · rw [List.getElem?_eq_none, List.getElem?_eq_none]
    · rw [List.length_map]
      omega
    · rw [length_fill, size]
      omega

end

end Zumic.Lib.Grouping
