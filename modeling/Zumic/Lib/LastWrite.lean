/- Pairs that are written into two tables, one by their first and one by their second parts. -/

import Mathlib.Data.List.Basic

namespace Zumic.Lib.LastWrite

variable {α β : Type} [DecidableEq α] [DecidableEq β]

/-- What stands for a key once all pairs are written: the last one wins. -/
def final : List (α × β) → α → Option β
  | [], _ => none
  | p :: l, a => (final l a).or (if p.1 = a then some p.2 else none)

/-- A pair is the last one for its first part exactly when it is the last one for its second
part. -/
def Settled : List (α × β) → Prop
  | [] => True
  | p :: l => (p.1 ∈ l.map Prod.fst ↔ p.2 ∈ l.map Prod.snd) ∧ Settled l

instance decidableSettled : (l : List (α × β)) → Decidable (Settled l)
  | [] => isTrue trivial
  | p :: l =>
      have := decidableSettled l
      inferInstanceAs (Decidable ((p.1 ∈ l.map Prod.fst ↔ p.2 ∈ l.map Prod.snd) ∧ Settled l))

/-- Each of the two tables is the inverse of the other. -/
def Inverse (l : List (α × β)) : Prop :=
  ∀ a b, final l a = some b ↔ final (l.map Prod.swap) b = some a

omit [DecidableEq β] in
theorem final_eq_none_iff {l : List (α × β)} {a : α} : final l a = none ↔ a ∉ l.map Prod.fst := by
  induction l with
  | nil => simp [final]
  | cons p l ih =>
      rw [final, Option.or_eq_none_iff, ih, List.map_cons, List.mem_cons, not_or]
      constructor
      · rintro ⟨later, here⟩
        refine ⟨?_, later⟩
        rintro rfl
        rw [if_pos rfl] at here
        cases here
      · rintro ⟨other, later⟩
        exact ⟨later, if_neg (Ne.symm other)⟩

omit [DecidableEq β] in
theorem mem_of_final {l : List (α × β)} {a : α} {b : β} (last : final l a = some b) :
    (a, b) ∈ l := by
  induction l with
  | nil => cases last
  | cons p l ih =>
      rw [final, Option.or_eq_some_iff] at last
      rcases last with later | ⟨-, here⟩
      · exact List.mem_cons_of_mem p (ih later)
      · split at here
        · rename_i same
          obtain rfl := Option.some.inj here
          exact same ▸ List.mem_cons_self
        · cases here

omit [DecidableEq β] in
theorem final_cons_of_mem {l : List (α × β)} {p : α × β} (again : p.1 ∈ l.map Prod.fst) (a : α) :
    final (p :: l) a = final l a := by
  rw [final]
  split
  · rename_i same
    subst same
    cases last : final l p.1 with
    | none => exact absurd again (final_eq_none_iff.mp last)
    | some b => rfl
  · exact Option.or_none

omit [DecidableEq β] in
theorem final_cons_of_not_mem {l : List (α × β)} {p : α × β} (once : p.1 ∉ l.map Prod.fst)
    (a : α) : final (p :: l) a = if p.1 = a then some p.2 else final l a := by
  rw [final]
  split
  · rename_i same
    subst same
    rw [final_eq_none_iff.mpr once]
    rfl
  · exact Option.or_none

omit [DecidableEq α] [DecidableEq β] in
theorem map_fst_swap (l : List (α × β)) : (l.map Prod.swap).map Prod.fst = l.map Prod.snd := by
  rw [List.map_map]
  rfl

omit [DecidableEq α] [DecidableEq β] in
theorem map_swap_swap (l : List (α × β)) : (l.map Prod.swap).map Prod.swap = l := by
  rw [List.map_map, Prod.swap_swap_eq, List.map_id]

theorem inverse_swap_iff {l : List (α × β)} : Inverse (l.map Prod.swap) ↔ Inverse l := by
  rw [Inverse, map_swap_swap]
  exact ⟨fun inverse a b => (inverse b a).symm, fun inverse b a => (inverse a b).symm⟩

theorem mem_of_inverse_cons {l : List (α × β)} {p : α × β} (inverse : Inverse (p :: l))
    (second : p.2 ∈ l.map Prod.snd) : p.1 ∈ l.map Prod.fst := by
  by_contra once
  have second' : p.swap.1 ∈ (l.map Prod.swap).map Prod.fst := (map_fst_swap l).symm ▸ second
  have last : final (p :: l) p.1 = some p.2 := by
    rw [final_cons_of_not_mem once, if_pos rfl]
  have last' := (inverse p.1 p.2).mp last
  rw [List.map_cons, final_cons_of_mem second'] at last'
  obtain ⟨q, member, same⟩ := List.mem_map.mp (mem_of_final last')
  have first : q.1 = p.1 := congrArg Prod.snd same
  exact once (first ▸ List.mem_map_of_mem member)

theorem inverse_cons_iff {l : List (α × β)} {p : α × β} (first : p.1 ∉ l.map Prod.fst)
    (second : p.2 ∉ l.map Prod.snd) : Inverse (p :: l) ↔ Inverse l := by
  have second' : p.swap.1 ∉ (l.map Prod.swap).map Prod.fst := (map_fst_swap l).symm ▸ second
  have apart : ∀ {a b}, final l a = some b → p.1 ≠ a ∧ p.2 ≠ b := by
    intro a b last
    have member := mem_of_final last
    exact ⟨fun same => first (same ▸ List.mem_map_of_mem member),
      fun same => second (same ▸ List.mem_map_of_mem member)⟩
  have apart' : ∀ {a b}, final (l.map Prod.swap) b = some a → p.1 ≠ a ∧ p.2 ≠ b := by
    intro a b last
    obtain ⟨q, member, same⟩ := List.mem_map.mp (mem_of_final last)
    obtain ⟨rfl, rfl⟩ := Prod.mk.inj same
    exact ⟨fun same => first (same ▸ List.mem_map_of_mem member),
      fun same => second (same ▸ List.mem_map_of_mem member)⟩
  simp only [Inverse, List.map_cons, final_cons_of_not_mem first, final_cons_of_not_mem second',
    Prod.fst_swap, Prod.snd_swap]
  constructor
  · intro inverse a b
    constructor
    · intro last
      have both := inverse a b
      rw [if_neg (apart last).1, if_neg (apart last).2] at both
      exact both.mp last
    · intro last
      have both := inverse a b
      rw [if_neg (apart' last).1, if_neg (apart' last).2] at both
      exact both.mpr last
  · intro inverse a b
    by_cases here : p.1 = a
    · by_cases there : p.2 = b
      · subst here there
        simp
      · rw [if_pos here, if_neg there]
        refine ⟨fun same => absurd (Option.some.inj same) there, fun last => ?_⟩
        exact absurd here (apart' last).1
    · by_cases there : p.2 = b
      · rw [if_neg here, if_pos there]
        refine ⟨fun last => absurd there (apart last).2, fun same => ?_⟩
        exact absurd (Option.some.inj same) here
      · rw [if_neg here, if_neg there]
        exact inverse a b

/-- The two tables agree exactly when every pair is settled. -/
theorem inverse_iff_settled (l : List (α × β)) : Inverse l ↔ Settled l := by
  induction l with
  | nil => simp [Inverse, Settled, final]
  | cons p l ih =>
      rw [Settled, ← ih]
      by_cases first : p.1 ∈ l.map Prod.fst
      · by_cases second : p.2 ∈ l.map Prod.snd
        · have second' : p.swap.1 ∈ (l.map Prod.swap).map Prod.fst :=
            (map_fst_swap l).symm ▸ second
          simp only [Inverse, List.map_cons, final_cons_of_mem first, final_cons_of_mem second',
            first, second, true_and]
        · refine ⟨fun inverse => absurd ?_ second, fun both => absurd (both.1.mp first) second⟩
          have swapped : Inverse (p.swap :: l.map Prod.swap) := inverse_swap_iff.mpr inverse
          rw [← map_fst_swap]
          refine mem_of_inverse_cons swapped ?_
          rwa [← map_fst_swap, map_swap_swap]
      · by_cases second : p.2 ∈ l.map Prod.snd
        · refine ⟨fun inverse => absurd (mem_of_inverse_cons inverse second) first, fun both => ?_⟩
          exact absurd (both.1.mpr second) first
        · rw [inverse_cons_iff first second]
          simp only [first, second, true_and]

end Zumic.Lib.LastWrite
