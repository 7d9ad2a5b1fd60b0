/- Keys that are renamed, one to one but for those that all get the same name. -/

import Zumic.Lib.Assoc

namespace Zumic.Lib.Masking

open Lib

variable {κ ν α : Type}

/-- The hidden keys are those with the name `mask`, and every other key can be read off its
name. -/
structure Masks (hidden : κ → Bool) (name : κ → ν) (mask : ν) (back : ν → κ) : Prop where
  masked : ∀ k, hidden k = true ↔ name k = mask
  readBack : ∀ k, hidden k = false → back (name k) = k

/-- An entry under the name of its key. -/
def named (name : κ → ν) (e : κ × α) : ν × α := (name e.1, e.2)

section

variable (hidden : κ → Bool)

/-- The entries whose keys have a name of their own. -/
def opened (l : List (κ × α)) : List (κ × α) := l.filter fun e => !hidden e.1

/-- The entries whose keys are hidden. -/
def masked (l : List (κ × α)) : List (κ × α) := l.filter fun e => hidden e.1

/-- The entries differ, but in hidden keys only: the others are the same, and so are the values
under the hidden keys. -/
def MaskedApart (l m : List (κ × α)) : Prop :=
  (opened hidden l).Perm (opened hidden m) ∧
    ((masked hidden l).map Prod.snd).Perm ((masked hidden m).map Prod.snd) ∧
    ¬ (masked hidden l).Perm (masked hidden m)

theorem masked_append_opened (l : List (κ × α)) : (masked hidden l ++ opened hidden l).Perm l :=
  List.filter_append_perm _ l

theorem perm_iff_parts {l m : List (κ × α)} : l.Perm m ↔
    (opened hidden l).Perm (opened hidden m) ∧ (masked hidden l).Perm (masked hidden m) := by
  constructor
  · intro same
    exact ⟨same.filter _, same.filter _⟩
  · rintro ⟨first, second⟩
    have both := second.append first
    exact (masked_append_opened hidden l).symm.trans (both.trans (masked_append_opened hidden m))

theorem masked_cons (e : κ × α) (l : List (κ × α)) :
    masked hidden (e :: l) = if hidden e.1 then e :: masked hidden l else masked hidden l := by
  simp [masked, List.filter_cons]

end

section

variable {hidden : κ → Bool} {name : κ → ν} {mask : ν} {back : ν → κ} {l m : List (κ × α)}

theorem map_named_masked (masks : Masks hidden name mask back) (l : List (κ × α)) :
    (masked hidden l).map (named name) =
      ((masked hidden l).map Prod.snd).map fun v => (mask, v) := by
  rw [List.map_map]
  refine List.map_congr_left fun e member => ?_
  have same : name e.1 = mask := (masks.masked e.1).mp (List.mem_filter.mp member).2
  simp [named, same]

theorem map_back_opened (masks : Masks hidden name mask back) (l : List (κ × α)) :
    ((opened hidden l).map (named name)).map (named back) = opened hidden l := by
  rw [List.map_map]
  refine (List.map_congr_left fun e member => ?_).trans (List.map_id _)
  have other : hidden e.1 = false := by simpa using (List.mem_filter.mp member).2
  simp [named, masks.readBack e.1 other]

variable [DecidableEq ν]

theorem filter_named (masks : Masks hidden name mask back) (l : List (κ × α)) :
    (l.map (named name)).filter (fun e => decide (e.1 = mask)) =
        (masked hidden l).map (named name) ∧
      (l.map (named name)).filter (fun e => !decide (e.1 = mask)) =
        (opened hidden l).map (named name) := by
  have same (e : κ × α) : decide ((named name e).1 = mask) = hidden e.1 := by
    rw [Bool.eq_iff_iff, decide_eq_true_iff, masks.masked]
    rfl
  simp only [List.filter_map, Function.comp_def, same, masked, opened, and_self]

/-- The names tell the other keys apart, and of the hidden ones nothing but the values. -/
theorem perm_named_iff (masks : Masks hidden name mask back) :
    (l.map (named name)).Perm (m.map (named name)) ↔
      (opened hidden l).Perm (opened hidden m) ∧
        ((masked hidden l).map Prod.snd).Perm ((masked hidden m).map Prod.snd) := by
  constructor
  · intro same
    constructor
    · have others := (same.filter fun e => !decide (e.1 = mask)).map (named back)
      rw [(filter_named masks l).2, (filter_named masks m).2] at others
      rwa [map_back_opened masks, map_back_opened masks] at others
    · have values := (same.filter fun e => decide (e.1 = mask)).map Prod.snd
      rw [(filter_named masks l).1, (filter_named masks m).1, List.map_map, List.map_map] at values
      exact values
  · rintro ⟨first, second⟩
    have values := second.map fun v => (mask, v)
    rw [← map_named_masked masks, ← map_named_masked masks] at values
    have both := values.append (first.map (named name))
    rw [← List.map_append, ← List.map_append] at both
    have parts (l : List (κ × α)) := (masked_append_opened hidden l).map (named name)
    exact (parts l).symm.trans (both.trans (parts m))

theorem told_apart_iff (masks : Masks hidden name mask back) :
    ((l.map (named name)).Perm (m.map (named name)) → l.Perm m) ↔ ¬ MaskedApart hidden l m := by
  have parts := perm_iff_parts hidden (l := l) (m := m)
  rw [perm_named_iff masks, parts]
  unfold MaskedApart
  tauto

theorem mask_mem_names (masks : Masks hidden name mask back) (l : List (κ × α)) :
    mask ∈ Assoc.keys (l.map (named name)) ↔ masked hidden l ≠ [] := by
  simp [Assoc.keys, named, masked, masks.masked]

theorem nodup_named_iff (masks : Masks hidden name mask back) (distinct : (Assoc.keys l).Nodup) :
    (Assoc.keys (l.map (named name))).Nodup ↔ (masked hidden l).length ≤ 1 := by
  induction l with
  | nil => simp [Assoc.keys, masked]
  | cons e l ih =>
      rw [Assoc.keys_cons, List.nodup_cons] at distinct
      rw [List.map_cons, Assoc.keys_cons, List.nodup_cons, ih distinct.2, masked_cons]
      cases hides : hidden e.1 with
      | true =>
          have first : (named name e).1 = mask := (masks.masked e.1).mp hides
          rw [if_pos rfl, first, mask_mem_names masks, not_not, List.length_cons]
          constructor
          · rintro ⟨none, -⟩
            simp [none]
          · intro alone
            have none : masked hidden l = [] := List.eq_nil_of_length_eq_zero (by omega)
            exact ⟨none, by simp [none]⟩
      | false =>
          have fresh : (named name e).1 ∉ Assoc.keys (l.map (named name)) := by
            intro member
            obtain ⟨e', later, same⟩ : ∃ e' ∈ l, name e'.1 = name e.1 := by
              simpa [Assoc.keys, named] using member
            have open' : hidden e'.1 = false := by
              rw [← Bool.not_eq_true, masks.masked, same, ← masks.masked, hides]
              exact Bool.false_ne_true
            have key : e'.1 = e.1 := by
              rw [← masks.readBack e.1 hides, ← same, masks.readBack e'.1 open']
            exact distinct.1 (key ▸ List.mem_map_of_mem later)
          simp [fresh]

end

/-- The entries collected into a map, a later one over an earlier one of its key. -/
def collect [DecidableEq κ] (l : List (κ × α)) : List (κ × α) :=
  l.foldl (fun m e => Assoc.insert m e.1 e.2) []

theorem length_foldl_insert_le [DecidableEq κ] (l m : List (κ × α)) :
    (l.foldl (fun m e => Assoc.insert m e.1 e.2) m).length ≤ m.length + l.length := by
  induction l generalizing m with
  | nil => simp
  | cons e l ih =>
      have later := ih (Assoc.insert m e.1 e.2)
      rw [Assoc.length_insert] at later
      simp only [List.foldl_cons, List.length_cons]
      split at later <;> omega

/-- An entry over another one leaves the map shorter than the list, and it stays so. -/
theorem nodup_of_length_foldl_insert [DecidableEq κ] (l m : List (κ × α))
    (distinct : (Assoc.keys m).Nodup)
    (kept : m.length + l.length ≤ (l.foldl (fun m e => Assoc.insert m e.1 e.2) m).length) :
    (Assoc.keys (m ++ l)).Nodup := by
  induction l generalizing m with
  | nil => simpa using distinct
  | cons e l ih =>
      rw [List.foldl_cons, List.length_cons] at kept
      have bound := length_foldl_insert_le l (Assoc.insert m e.1 e.2)
      rw [Assoc.length_insert] at bound
      have fresh : e.1 ∉ Assoc.keys m := by
        intro member
        rw [if_pos (Assoc.mem_keys_iff_isSome.mp member)] at bound
        omega
      have shape := Assoc.insert_of_not_mem fresh e.2
      have rest := ih (Assoc.insert m e.1 e.2) (Assoc.nodup_keys_insert distinct _ _)
        (by rw [shape] at kept ⊢; simp only [List.length_append, List.length_singleton]; omega)
      rw [shape, List.append_assoc] at rest
      exact rest

theorem collect_eq [DecidableEq κ] {l : List (κ × α)} (distinct : (Assoc.keys l).Nodup) :
    collect l = l :=
  Assoc.foldl_insert (by simpa using distinct)

theorem length_collect_iff [DecidableEq κ] (l : List (κ × α)) :
    (collect l).length = l.length ↔ (Assoc.keys l).Nodup := by
  constructor
  · intro kept
    have whole : ([] : List (κ × α)).length + l.length ≤ (collect l).length := by
      simp [kept]
    exact nodup_of_length_foldl_insert l [] (by simp [Assoc.keys]) whole
  · intro distinct
    rw [collect_eq distinct]

end Zumic.Lib.Masking
