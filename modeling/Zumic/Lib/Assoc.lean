/- Finite maps as association lists with distinct keys, and hash tables whose order of iteration is
not promised. -/

import Mathlib.Data.List.Perm.Subperm

namespace Zumic.Lib.Assoc

variable {κ α : Type} [DecidableEq κ]

/-- The value of a key. -/
def get : List (κ × α) → κ → Option α
  | [], _ => none
  | p :: m, k => if p.1 = k then some p.2 else get m k

/-- Replaces the value of a key in place, or adds the key at the end. -/
def insert : List (κ × α) → κ → α → List (κ × α)
  | [], k, v => [(k, v)]
  | p :: m, k, v => if p.1 = k then (k, v) :: m else p :: insert m k v

/-- Drops a key. -/
def erase : List (κ × α) → κ → List (κ × α)
  | [], _ => []
  | p :: m, k => if p.1 = k then erase m k else p :: erase m k

def keys (m : List (κ × α)) : List κ := m.map Prod.fst

omit [DecidableEq κ] in
@[simp] theorem keys_cons (p : κ × α) (m : List (κ × α)) : keys (p :: m) = p.1 :: keys m := rfl

theorem get_insert (m : List (κ × α)) (k k' : κ) (v : α) :
    get (insert m k v) k' = if k = k' then some v else get m k' := by
  induction m with
  | nil => simp [insert, get]
  | cons p m ih =>
      by_cases here : p.1 = k
      · subst here
        by_cases same : p.1 = k' <;> simp [insert, get, same]
      · by_cases same : p.1 = k'
        · subst same
          simp [insert, get, here, Ne.symm here]
        · simp [insert, get, here, same, ih]

theorem get_erase (m : List (κ × α)) (k k' : κ) :
    get (erase m k) k' = if k = k' then none else get m k' := by
  induction m with
  | nil => simp [erase, get]
  | cons p m ih =>
      by_cases here : p.1 = k
      · subst here
        rw [erase, if_pos rfl, ih]
        by_cases same : p.1 = k' <;> simp [get, same]
      · by_cases same : p.1 = k'
        · subst same
          simp [erase, get, here, Ne.symm here]
        · simp [erase, get, here, same, ih]

theorem get_eq_none_iff {m : List (κ × α)} {k : κ} : get m k = none ↔ k ∉ keys m := by
  induction m with
  | nil => simp [get, keys]
  | cons p m ih =>
      by_cases here : p.1 = k
      · simp [get, here]
      · simp [get, here, ih, Ne.symm here]

theorem insert_of_not_mem {m : List (κ × α)} {k : κ} (fresh : k ∉ keys m) (v : α) :
    insert m k v = m ++ [(k, v)] := by
  induction m with
  | nil => rfl
  | cons p m ih =>
      simp only [keys_cons, List.mem_cons, not_or] at fresh
      simp [insert, Ne.symm fresh.1, ih fresh.2]

theorem insert_of_get {m : List (κ × α)} {k : κ} {v : α} (read : get m k = some v) :
    insert m k v = m := by
  induction m with
  | nil => cases read
  | cons p m ih =>
      rw [get] at read
      rw [insert]
      split at read
      · rename_i here
        obtain rfl := Option.some.inj read
        rw [if_pos here, ← here]
      · rename_i other
        rw [if_neg other, ih read]

theorem foldl_insert {l m : List (κ × α)} (distinct : (keys (m ++ l)).Nodup) :
    l.foldl (fun m e => insert m e.1 e.2) m = m ++ l := by
  induction l generalizing m with
  | nil => simp
  | cons e l ih =>
      have fresh : e.1 ∉ keys m := by
        intro member
        simp only [keys, List.map_append, List.map_cons] at distinct member
        exact (List.nodup_append.mp distinct).2.2 _ member _ (by simp) rfl
      rw [List.foldl_cons, insert_of_not_mem fresh, ih (by simpa using distinct)]
      simp

theorem get_of_mem {m : List (κ × α)} (distinct : (keys m).Nodup) {p : κ × α} (member : p ∈ m) :
    get m p.1 = some p.2 := by
  induction m with
  | nil => exact absurd member List.not_mem_nil
  | cons q m ih =>
      rw [keys_cons, List.nodup_cons] at distinct
      rcases List.mem_cons.mp member with rfl | later
      · simp [get]
      · have other : q.1 ≠ p.1 := fun same =>
          distinct.1 (same ▸ List.mem_map_of_mem later)
        rw [get, if_neg other, ih distinct.2 later]

theorem mem_keys_insert {m : List (κ × α)} {k k' : κ} {v : α} :
    k' ∈ keys (insert m k v) ↔ k' = k ∨ k' ∈ keys m := by
  have read := get_insert m k k' v
  have before := get_eq_none_iff (m := m) (k := k')
  have after := get_eq_none_iff (m := insert m k v) (k := k')
  by_cases same : k = k'
  · subst same
    rw [if_pos rfl] at read
    rw [read] at after
    have member : k ∈ keys (insert m k v) := by
      by_contra absent
      exact absurd (after.mpr absent) (by simp)
    simp [member]
  · rw [if_neg same] at read
    rw [read, before] at after
    have members : k' ∈ keys (insert m k v) ↔ k' ∈ keys m := (not_iff_not.mp after).symm
    rw [members]
    exact ⟨Or.inr, fun other => other.resolve_left (Ne.symm same)⟩

theorem mem_insert {m : List (κ × α)} {k : κ} {v : α} {p : κ × α} (member : p ∈ insert m k v) :
    p = (k, v) ∨ p ∈ m := by
  induction m with
  | nil => exact Or.inl (List.mem_singleton.mp member)
  | cons q m ih =>
      rw [insert] at member
      split at member
      · rcases List.mem_cons.mp member with rfl | later
        · exact Or.inl rfl
        · exact Or.inr (List.mem_cons_of_mem _ later)
      · rcases List.mem_cons.mp member with rfl | later
        · exact Or.inr List.mem_cons_self
        · rcases ih later with same | old
          · exact Or.inl same
          · exact Or.inr (List.mem_cons_of_mem _ old)

theorem nodup_keys_insert {m : List (κ × α)} (distinct : (keys m).Nodup) (k : κ) (v : α) :
    (keys (insert m k v)).Nodup := by
  induction m with
  | nil => simp [insert, keys]
  | cons p m ih =>
      rw [keys_cons, List.nodup_cons] at distinct
      rw [insert]
      split
      · rename_i here
        subst here
        exact List.nodup_cons.mpr distinct
      · rename_i other
        refine List.nodup_cons.mpr ⟨?_, ih distinct.2⟩
        intro member
        rcases mem_keys_insert.mp member with same | later
        · exact other same
        · exact distinct.1 later

theorem mem_of_get {m : List (κ × α)} {k : κ} {v : α} (read : get m k = some v) : (k, v) ∈ m := by
  induction m with
  | nil => cases read
  | cons p m ih =>
      rw [get] at read
      split at read
      · rename_i here
        obtain rfl := Option.some.inj read
        exact here ▸ List.mem_cons_self
      · exact List.mem_cons_of_mem _ (ih read)

theorem erase_sublist (m : List (κ × α)) (k : κ) : (erase m k).Sublist m := by
  induction m with
  | nil => exact List.Sublist.slnil
  | cons p m ih =>
      rw [erase]
      split
      · exact ih.cons p
      · exact ih.cons_cons p

theorem erase_of_not_mem {m : List (κ × α)} {k : κ} (absent : k ∉ keys m) : erase m k = m := by
  induction m with
  | nil => rfl
  | cons p m ih =>
      simp only [keys_cons, List.mem_cons, not_or] at absent
      rw [erase, if_neg (Ne.symm absent.1), ih absent.2]

theorem erase_insert (m : List (κ × α)) (k : κ) (v : α) : erase (insert m k v) k = erase m k := by
  induction m with
  | nil => simp [insert, erase]
  | cons p m ih =>
      by_cases here : p.1 = k
      · simp [insert, erase, here]
      · simp [insert, erase, here, ih]

theorem split_of_get {m : List (κ × α)} (distinct : (keys m).Nodup) {k : κ} {v : α}
    (read : get m k = some v) :
    ∃ after, m = m.takeWhile (fun p => p.1 ≠ k) ++ (k, v) :: after ∧
      erase m k = m.takeWhile (fun p => p.1 ≠ k) ++ after := by
  induction m with
  | nil => cases read
  | cons p m ih =>
      rw [keys_cons, List.nodup_cons] at distinct
      rw [get] at read
      split at read
      · rename_i here
        subst here
        obtain rfl := Option.some.inj read
        refine ⟨m, by simp, ?_⟩
        rw [erase, if_pos rfl, erase_of_not_mem distinct.1]
        simp
      · rename_i other
        obtain ⟨after, listed, erased⟩ := ih distinct.2 read
        refine ⟨after, ?_, ?_⟩
        · rw [List.takeWhile_cons_of_pos (by simpa using other), List.cons_append, ← listed]
        · rw [erase, if_neg other, List.takeWhile_cons_of_pos (by simpa using other),
            List.cons_append, erased]

theorem mem_keys_iff_isSome {m : List (κ × α)} {k : κ} : k ∈ keys m ↔ (get m k).isSome = true := by
  have absent := get_eq_none_iff (m := m) (k := k)
  rw [Option.isSome_iff_ne_none, ne_eq, absent, not_not]

theorem length_insert (m : List (κ × α)) (k : κ) (v : α) :
    (insert m k v).length = m.length + (if (get m k).isSome then 0 else 1) := by
  induction m with
  | nil => rfl
  | cons p m ih =>
      by_cases here : p.1 = k
      · simp [insert, get, here]
      · simp only [insert, get, here, if_false, List.length_cons, ih]
        omega

theorem length_erase {m : List (κ × α)} (distinct : (keys m).Nodup) (k : κ) :
    (erase m k).length + (if (get m k).isSome then 1 else 0) = m.length := by
  cases read : get m k with
  | none => simp [erase_of_not_mem (get_eq_none_iff.mp read)]
  | some v =>
      obtain ⟨after, listed, erased⟩ := split_of_get distinct read
      rw [erased]
      conv_rhs => rw [listed]
      simp only [List.length_append, List.length_cons, Option.isSome_some, if_true]
      omega

theorem nodup_keys_erase {m : List (κ × α)} (distinct : (keys m).Nodup) (k : κ) :
    (keys (erase m k)).Nodup :=
  ((erase_sublist m k).map Prod.fst).nodup distinct

theorem get_of_perm {m m' : List (κ × α)} (same : m.Perm m') (distinct : (keys m).Nodup) (k : κ) :
    get m k = get m' k := by
  induction same with
  | nil => rfl
  | cons p _ ih =>
      rw [keys_cons, List.nodup_cons] at distinct
      rw [get, get, ih distinct.2]
  | swap p q m =>
      simp only [keys_cons, List.nodup_cons, List.mem_cons, not_or] at distinct
      by_cases first : p.1 = k
      · subst first
        simp [get, distinct.1.1]
      · simp [get, first]
  | trans left right ih ih' =>
      exact (ih distinct).trans (ih' ((left.map Prod.fst).nodup distinct))

theorem erase_eq_filter (m : List (κ × α)) (k : κ) : erase m k = m.filter fun p => p.1 ≠ k := by
  induction m with
  | nil => rfl
  | cons p m ih =>
      by_cases here : p.1 = k
      · simp [erase, here, ih]
      · simp [erase, here, ih]

theorem get_filter {m : List (κ × α)} (distinct : (keys m).Nodup) (p : κ × α → Bool) (k : κ) :
    get (m.filter p) k = (get m k).filter fun v => p (k, v) := by
  induction m with
  | nil => rfl
  | cons q m ih =>
      rw [keys_cons, List.nodup_cons] at distinct
      have rest := ih distinct.2
      rcases q with ⟨key, v⟩
      by_cases here : key = k
      · subst here
        have gone : get m key = none := get_eq_none_iff.mpr distinct.1
        rw [gone] at rest
        cases kept : p (key, v) with
        | true => simp [Option.filter, kept, get]
        | false => simp [Option.filter, kept, get, rest]
      · cases kept : p (key, v) with
        | true => simp [kept, get, here, rest]
        | false => simp [kept, get, here, rest]

theorem erase_perm {m m' : List (κ × α)} (same : m.Perm m') (k : κ) :
    (erase m k).Perm (erase m' k) := by
  rw [erase_eq_filter, erase_eq_filter]
  exact same.filter _

theorem insert_perm_cons {m : List (κ × α)} (distinct : (keys m).Nodup) (k : κ) (v : α) :
    (insert m k v).Perm ((k, v) :: erase m k) := by
  induction m with
  | nil => exact List.Perm.refl _
  | cons p m ih =>
      rw [keys_cons, List.nodup_cons] at distinct
      by_cases here : p.1 = k
      · subst here
        rw [insert, if_pos rfl, erase, if_pos rfl, erase_of_not_mem distinct.1]
      · rw [insert, if_neg here, erase, if_neg here]
        exact ((ih distinct.2).cons p).trans (List.Perm.swap _ _ _)

theorem insert_perm {m m' : List (κ × α)} (same : m.Perm m') (distinct : (keys m).Nodup) (k : κ)
    (v : α) : (insert m k v).Perm (insert m' k v) := by
  have distinct' : (keys m').Nodup := (same.map Prod.fst).nodup distinct
  exact ((insert_perm_cons distinct k v).trans ((erase_perm same k).cons _)).trans
    (insert_perm_cons distinct' k v).symm

theorem of_perm_cons {m rest : List (κ × α)} {k : κ} {v : α} (same : m.Perm ((k, v) :: rest))
    (distinct : (keys m).Nodup) :
    get m k = some v ∧ (erase m k).Perm rest ∧ ∀ v', (insert m k v').Perm ((k, v') :: rest) := by
  have distinct' : (keys ((k, v) :: rest)).Nodup := (same.map Prod.fst).nodup distinct
  have absent : k ∉ keys rest := (List.nodup_cons.mp distinct').1
  have erased : (erase m k).Perm rest := by
    have listed := erase_perm same k
    rwa [erase, if_pos rfl, erase_of_not_mem absent] at listed
  refine ⟨?_, erased, fun v' => (insert_perm_cons distinct k v').trans (erased.cons _)⟩
  rw [get_of_perm same distinct, get, if_pos rfl]

theorem any_key (m : List (κ × α)) (k : κ) : (m.any fun p => p.1 = k) = (get m k).isSome := by
  induction m with
  | nil => rfl
  | cons p m ih =>
      rw [List.any_cons, ih, get]
      by_cases here : p.1 = k <;> simp [here]

theorem map_find?_key (m : List (κ × α)) (k : κ) :
    (m.find? fun p => p.1 = k).map Prod.snd = get m k := by
  induction m with
  | nil => rfl
  | cons p m ih =>
      rw [get]
      by_cases here : p.1 = k
      · simp [here]
      · rw [List.find?_cons_of_neg (by simpa using here), ih, if_neg here]

theorem eraseP_key {m : List (κ × α)} (distinct : (keys m).Nodup) (k : κ) :
    (m.eraseP fun p => p.1 = k) = erase m k := by
  induction m with
  | nil => rfl
  | cons p m ih =>
      rw [keys_cons, List.nodup_cons] at distinct
      by_cases here : p.1 = k
      · subst here
        rw [List.eraseP_cons_of_pos (by simp), erase, if_pos rfl, erase_of_not_mem distinct.1]
      · rw [List.eraseP_cons_of_neg (by simpa using here), ih distinct.2, erase, if_neg here]

theorem mem_iff_get {m : List (κ × α)} (distinct : (keys m).Nodup) {p : κ × α} :
    p ∈ m ↔ get m p.1 = some p.2 :=
  ⟨get_of_mem distinct, mem_of_get⟩

omit [DecidableEq κ] in
theorem nodup_of_keys {m : List (κ × α)} (distinct : (keys m).Nodup) : m.Nodup :=
  List.Pairwise.of_map Prod.fst (fun _ _ other same => other (congrArg Prod.fst same)) distinct

theorem perm_of_get {m m' : List (κ × α)} (distinct : (keys m).Nodup)
    (distinct' : (keys m').Nodup) (same : ∀ k, get m k = get m' k) : m.Perm m' := by
  apply (List.perm_ext_iff_of_nodup (nodup_of_keys distinct) (nodup_of_keys distinct')).mpr
  intro p
  rw [mem_iff_get distinct, mem_iff_get distinct', same]

theorem length_eq_of_agree [BEq α] {m m' : List (κ × α)} (distinct : (keys m).Nodup)
    (distinct' : (keys m').Nodup) (agree : ∀ k, (get m' k == get m k) = true) :
    m.length = m'.length := by
  have same : (keys m).Perm (keys m') := by
    refine (List.perm_ext_iff_of_nodup distinct distinct').mpr fun k => ?_
    have here := agree k
    rw [mem_keys_iff_isSome, mem_keys_iff_isSome]
    cases held : get m k <;> cases held' : get m' k <;> simp_all
  simpa [keys] using same.length_eq

/-- With as many keys, it is enough to look up the entries of one map in the other. -/
theorem agree_of_found [BEq α] {m m' : List (κ × α)} (distinct : (keys m).Nodup)
    (size : m.length = m'.length) (found : ∀ p ∈ m, (get m' p.1 == some p.2) = true) (k : κ) :
    (get m' k == get m k) = true := by
  cases held : get m k with
  | some v => exact found (k, v) (mem_of_get held)
  | none =>
      have within : keys m ⊆ keys m' := by
        intro k' member
        obtain ⟨p, inside, rfl⟩ := List.mem_map.mp member
        have there := found p inside
        rw [mem_keys_iff_isSome]
        cases held' : get m' p.1 with
        | none => simp [held'] at there
        | some v => rfl
      have all := (List.subperm_of_subset distinct within).perm_of_length_le (by simp [keys, size])
      have missing : get m' k = none := by
        rw [get_eq_none_iff, ← all.mem_iff]
        exact get_eq_none_iff.mp held
      rw [missing]
      rfl

theorem eq_of_keys {m m' : List (κ × α)} (distinct : (keys m).Nodup) (ordered : keys m = keys m')
    (same : ∀ k, get m k = get m' k) : m = m' := by
  induction m generalizing m' with
  | nil =>
      cases m' with
      | nil => rfl
      | cons q m' => cases ordered
  | cons p m ih =>
      cases m' with
      | nil => cases ordered
      | cons q m' =>
          obtain ⟨first, rest⟩ := List.cons.inj ordered
          obtain ⟨fresh, distinct⟩ := List.nodup_cons.mp distinct
          have value := same p.1
          rw [get, get, if_pos rfl, if_pos first.symm] at value
          obtain rfl : p = q := Prod.ext first (Option.some.inj value)
          congr 1
          refine ih distinct rest fun k => ?_
          by_cases here : p.1 = k
          · subst here
            rw [get_eq_none_iff.mpr fresh]
            rw [rest] at fresh
            exact (get_eq_none_iff.mpr fresh).symm
          · have later := same k
            rwa [get, get, if_neg here, if_neg here] at later

end Zumic.Lib.Assoc

namespace Zumic.Lib

/-- A table as its entries in the order of iteration. -/
structure HashMap (κ α : Type) where
  entries : List (κ × α)
  distinct : (Assoc.keys entries).Nodup

namespace HashMap

/-- The order that a table iterates in after it was changed: its hasher and its history choose
it. -/
structure Hasher (κ α : Type) where
  order : List (κ × α) → List (κ × α)
  perm : ∀ l, (order l).Perm l

def Hasher.id (κ α : Type) : Hasher κ α := ⟨fun l => l, List.Perm.refl⟩

variable {κ α : Type} [DecidableEq κ] (hasher : Hasher κ α) (m : HashMap κ α)

def empty : HashMap κ α := ⟨[], List.nodup_nil⟩

def len : Nat := m.entries.length

def get (k : κ) : Option α := Assoc.get m.entries k

def containsKey (k : κ) : Bool := (m.get k).isSome

def insert (k : κ) (v : α) : HashMap κ α where
  entries := hasher.order (Assoc.insert m.entries k v)
  distinct := ((hasher.perm _).map Prod.fst).nodup_iff.mpr
    (Assoc.nodup_keys_insert m.distinct k v)

def remove (k : κ) : HashMap κ α where
  entries := hasher.order (Assoc.erase m.entries k)
  distinct := ((hasher.perm _).map Prod.fst).nodup_iff.mpr (Assoc.nodup_keys_erase m.distinct k)

/-- The table that a list of entries is put into, one after the other. -/
def fill (l : List (κ × α)) : HashMap κ α := l.foldl (fun m e => m.insert hasher e.1 e.2) empty

/-- Equality of tables: the same number of entries, and each of them found in the other one. -/
def eq [DecidableEq α] (m m' : HashMap κ α) : Bool :=
  m.len == m'.len && m.entries.all fun e => m'.get e.1 == some e.2

variable {hasher m}

theorem entries_insert_perm {l : List (κ × α)} (shown : m.entries.Perm l) (k : κ) (v : α) :
    (m.insert hasher k v).entries.Perm (Assoc.insert l k v) :=
  (hasher.perm _).trans (Assoc.insert_perm shown m.distinct k v)

theorem entries_remove_perm (hasher : Hasher κ α) {l : List (κ × α)} (shown : m.entries.Perm l) (k : κ) :
    (m.remove hasher k).entries.Perm (Assoc.erase l k) :=
  (hasher.perm _).trans (Assoc.erase_perm shown k)

theorem get_of_entries_perm {l : List (κ × α)} (shown : m.entries.Perm l) (k : κ) :
    m.get k = Assoc.get l k := Assoc.get_of_perm shown m.distinct k

theorem entries_foldl_perm {l shown : List (κ × α)} (same : m.entries.Perm shown) :
    (l.foldl (fun m e => m.insert hasher e.1 e.2) m).entries.Perm
      (l.foldl (fun m e => Assoc.insert m e.1 e.2) shown) := by
  induction l generalizing m shown with
  | nil => exact same
  | cons e l ih => exact ih (entries_insert_perm same e.1 e.2)

theorem entries_fill_perm {l : List (κ × α)} (distinct : (Assoc.keys l).Nodup) :
    (fill hasher l).entries.Perm l := by
  have kept := Assoc.foldl_insert (m := []) (l := l) distinct
  rw [List.nil_append] at kept
  exact (entries_foldl_perm (List.Perm.refl _)).trans (List.Perm.of_eq kept)

theorem eq_of_perm [DecidableEq α] {m m' : HashMap κ α} (same : m.entries.Perm m'.entries) :
    m.eq m' = true := by
  rw [eq, Bool.and_eq_true, beq_iff_eq, List.all_eq_true]
  refine ⟨same.length_eq, fun e member => ?_⟩
  rw [beq_iff_eq]
  exact Assoc.get_of_mem m'.distinct (same.mem_iff.mp member)

end HashMap

end Zumic.Lib
