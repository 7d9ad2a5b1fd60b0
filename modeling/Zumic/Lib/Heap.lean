/- Binary heaps by their items: what is taken out is an item of the greatest key. -/

import Mathlib.Order.Lattice

namespace Zumic.Lib.Heap

variable {α β : Type} [LinearOrder β] (key : α → β)

/-- The first of the items with the greatest key, and the others. -/
def pop : List α → Option (α × List α)
  | [] => none
  | item :: rest =>
      match pop rest with
      | none => some (item, [])
      | some (best, others) =>
          if key item < key best then some (best, item :: others) else some (item, rest)

def peek (heap : List α) : Option α := (pop key heap).map Prod.fst

variable {key}

theorem pop_eq_none_iff {heap : List α} : pop key heap = none ↔ heap = [] := by
  cases heap with
  | nil => exact iff_of_true rfl rfl
  | cons item rest =>
      refine iff_of_false ?_ (List.cons_ne_nil item rest)
      unfold pop
      cases pop key rest with
      | none => exact Option.some_ne_none _
      | some taken =>
          obtain ⟨best, others⟩ := taken
          dsimp only
          split
          · exact Option.some_ne_none _
          · exact Option.some_ne_none _

theorem pop_cons {item : α} {rest others : List α} {best : α}
    (taken : pop key (item :: rest) = some (best, others)) :
    (best = item ∧ others = rest ∧
      ∀ next left, pop key rest = some (next, left) → ¬ key item < key next) ∨
      ∃ left, pop key rest = some (best, left) ∧ others = item :: left ∧ key item < key best := by
  unfold pop at taken
  cases later : pop key rest with
  | none =>
      rw [later] at taken
      obtain ⟨rfl, rfl⟩ := Prod.mk.inj (Option.some.inj taken)
      exact .inl ⟨rfl, (pop_eq_none_iff.mp later).symm, fun _ _ none => by cases none⟩
  | some next =>
      obtain ⟨next, left⟩ := next
      rw [later] at taken
      dsimp only at taken
      split at taken
      · rename_i greater
        obtain ⟨rfl, rfl⟩ := Prod.mk.inj (Option.some.inj taken)
        exact .inr ⟨left, rfl, rfl, greater⟩
      · rename_i notGreater
        obtain ⟨rfl, rfl⟩ := Prod.mk.inj (Option.some.inj taken)
        refine .inl ⟨rfl, rfl, fun _ _ same => ?_⟩
        obtain ⟨rfl, rfl⟩ := Prod.mk.inj (Option.some.inj same)
        exact notGreater

theorem pop_isSome {heap : List α} (nonempty : heap ≠ []) :
    ∃ best others, pop key heap = some (best, others) := by
  cases taken : pop key heap with
  | none => exact absurd (pop_eq_none_iff.mp taken) nonempty
  | some item => exact ⟨item.1, item.2, rfl⟩

theorem pop_perm {heap others : List α} {best : α} (taken : pop key heap = some (best, others)) :
    (best :: others).Perm heap := by
  induction heap generalizing best others with
  | nil => cases taken
  | cons item rest ih =>
      rcases pop_cons taken with ⟨rfl, rfl, -⟩ | ⟨left, later, rfl, -⟩
      · exact List.Perm.refl _
      · exact (List.Perm.swap item best left).trans ((ih later).cons item)

theorem length_lt_of_pop {heap others : List α} {best : α}
    (taken : pop key heap = some (best, others)) : others.length < heap.length := by
  rw [← (pop_perm taken).length_eq, List.length_cons]
  exact Nat.lt_succ_self _

theorem pop_greatest {heap others : List α} {best : α}
    (taken : pop key heap = some (best, others)) : ∀ other ∈ others, key other ≤ key best := by
  induction heap generalizing best others with
  | nil => cases taken
  | cons item rest ih =>
      intro other member
      rcases pop_cons taken with ⟨rfl, rfl, least⟩ | ⟨left, later, rfl, greater⟩
      · obtain ⟨next, left, later⟩ := @pop_isSome _ _ _ key _ (List.ne_nil_of_mem member)
        have below := le_of_not_gt (least next left later)
        rcases List.mem_cons.mp ((pop_perm later).symm.subset member) with rfl | further
        · exact below
        · exact (ih later other further).trans below
      · rcases List.mem_cons.mp member with rfl | further
        · exact greater.le
        · exact ih later other further

end Zumic.Lib.Heap
