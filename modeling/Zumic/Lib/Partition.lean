/- A store that is kept in parts: every key has its place in one of them, and a call that looks at
the keys of one place only runs there as it would on the whole. -/

import Mathlib.Data.List.Perm.Lattice

namespace Zumic.Lib.Partition

variable {σ κ α β : Type} (view : σ → κ → Option α)

/-- A call that looks at the keys in `P` and changes no others. -/
structure Confined (P : κ → Prop) (call : σ → β × σ) : Prop where
  answer : ∀ s t, (∀ k, P k → view s k = view t k) → (call s).1 = (call t).1
  inside : ∀ s t, (∀ k, P k → view s k = view t k) →
    ∀ k, P k → view (call s).2 k = view (call t).2 k
  outside : ∀ s k, ¬ P k → view (call s).2 k = view s k

/-- The parts together hold what the whole holds, every key at its place. -/
structure Together (place : κ → Nat) (parts : List σ) (whole : σ) : Prop where
  found : ∀ k, ∃ part, parts[place k]? = some part ∧ view part k = view whole k
  only : ∀ (i : Nat) part k, parts[i]? = some part → (view part k).isSome = true → place k = i

variable {view} {place : κ → Nat} {parts : List σ} {whole : σ}

theorem confined_read {P : κ → Prop} {read : σ → β}
    (answer : ∀ s t, (∀ k, P k → view s k = view t k) → read s = read t) :
    Confined view P fun s => (read s, s) where
  answer := answer
  inside _ _ same := same
  outside _ _ _ := rfl

namespace Together

theorem congr (together : Together view place parts whole) {other : σ}
    (same : ∀ k, view other k = view whole k) : Together view place parts other where
  found k := by
    obtain ⟨part, here, held⟩ := together.found k
    exact ⟨part, here, held.trans (same k).symm⟩
  only := together.only

theorem view_eq (together : Together view place parts whole) {i : Nat} {part : σ}
    (here : parts[i]? = some part) {k : κ} (placed : place k = i) : view part k = view whole k := by
  obtain ⟨part', here', held⟩ := together.found k
  rw [placed, here] at here'
  obtain rfl := Option.some.inj here'
  exact held

theorem call (together : Together view place parts whole) {P : κ → Prop} {call : σ → β × σ}
    (confined : Confined view P call) {i : Nat} (placed : ∀ k, P k → place k = i) {part : σ}
    (here : parts[i]? = some part) :
    (call part).1 = (call whole).1 ∧
      Together view place (parts.set i (call part).2) (call whole).2 := by
  have inRange : i < parts.length := (List.getElem?_eq_some_iff.mp here).1
  have same : ∀ k, P k → view part k = view whole k :=
    fun k inside => together.view_eq here (placed k inside)
  refine ⟨confined.answer part whole same, ?_, ?_⟩
  · intro k
    by_cases at' : place k = i
    · refine ⟨(call part).2, by rw [at', List.getElem?_set_self inRange], ?_⟩
      by_cases inside : P k
      · exact confined.inside part whole same k inside
      · rw [confined.outside part k inside, confined.outside whole k inside,
          together.view_eq here at']
    · obtain ⟨other, there, held⟩ := together.found k
      have outside : ¬ P k := fun inside => at' (placed k inside)
      refine ⟨other, by rw [List.getElem?_set_ne (Ne.symm at'), there], ?_⟩
      rw [held, confined.outside whole k outside]
  · intro j other k there some
    by_cases at' : i = j
    · subst at'
      rw [List.getElem?_set_self inRange] at there
      obtain rfl := Option.some.inj there
      by_cases inside : P k
      · exact placed k inside
      · rw [confined.outside part k inside] at some
        exact together.only i part k here some
    · rw [List.getElem?_set_ne at'] at there
      exact together.only j other k there some

theorem keys_perm (together : Together view place parts whole) {keys : σ → List κ}
    (mem : ∀ s k, k ∈ keys s ↔ (view s k).isSome = true)
    (distinct : ∀ part ∈ parts, (keys part).Nodup) (distinct' : (keys whole).Nodup) :
    (parts.flatMap keys).Perm (keys whole) := by
  have apart : (parts.flatMap keys).Nodup := by
    refine List.nodup_flatMap.mpr ⟨distinct, List.pairwise_iff_getElem.mpr ?_⟩
    intro i j before behind less k first second
    have one := together.only i parts[i] k (List.getElem?_eq_getElem before)
      ((mem _ _).mp first)
    have two := together.only j parts[j] k (List.getElem?_eq_getElem behind)
      ((mem _ _).mp second)
    omega
  refine (List.perm_ext_iff_of_nodup apart distinct').mpr fun k => ?_
  rw [List.mem_flatMap, mem]
  constructor
  · rintro ⟨part, member, inside⟩
    obtain ⟨i, here⟩ := List.mem_iff_getElem?.mp member
    have some := (mem part k).mp inside
    rwa [together.view_eq here (together.only i part k here some)] at some
  · intro some
    obtain ⟨part, here, held⟩ := together.found k
    refine ⟨part, List.mem_of_getElem? here, (mem part k).mpr ?_⟩
    rw [held]
    exact some

end Together

end Zumic.Lib.Partition
