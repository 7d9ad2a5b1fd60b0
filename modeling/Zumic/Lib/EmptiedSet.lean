/- A set that goes when it is empty. A removal that takes the last member notes it, and drops the
set in a later step. -/

namespace Zumic.Lib.EmptiedSet

variable {μ : Type}

/-- The members, whether the set is about to be dropped, and the members that were added and not
removed since. -/
structure State (μ : Type) where
  members : List μ
  doomed : Bool
  owed : List μ

/-- Nothing new is added to a set that is about to be dropped. -/
inductive Step : State μ → State μ → Prop
  | add (s : State μ) (added members : List μ) (kept : ∀ m ∈ s.members, m ∈ members)
      (new : ∀ m ∈ added, m ∈ members) (early : s.doomed = true → added = []) :
      Step s ⟨members, s.doomed, s.owed ++ added⟩
  | remove (s : State μ) (gone members owed : List μ)
      (kept : ∀ m ∈ s.members, m ∉ gone → m ∈ members)
      (rest : ∀ m ∈ owed, m ∈ s.owed ∧ m ∉ gone) : Step s ⟨members, s.doomed, owed⟩
  | doom (s : State μ) (gone members owed : List μ) (all : ∀ m ∈ s.members, m ∈ gone)
      (rest : ∀ m ∈ owed, m ∈ s.owed ∧ m ∉ gone) : Step s ⟨members, true, owed⟩
  | drop (s : State μ) (doomed : s.doomed = true) : Step s ⟨[], false, s.owed⟩

/-- Nothing is owed of a set that is about to be dropped; all that is owed is in another one. -/
structure Paid (s : State μ) : Prop where
  present : s.doomed = false → ∀ m ∈ s.owed, m ∈ s.members
  nothing : s.doomed = true → s.owed = []

theorem Step.paid {s s' : State μ} (step : Step s s') (paid : Paid s) : Paid s' := by
  cases step with
  | add added members kept new early =>
      constructor
      · intro stays m owed
        rcases List.mem_append.mp owed with old | fresh
        · exact kept m (paid.present stays m old)
        · exact new m fresh
      · intro doomed
        rw [paid.nothing doomed, early doomed, List.append_nil]
  | remove gone members owed kept rest =>
      constructor
      · intro stays m member
        obtain ⟨old, left⟩ := rest m member
        exact kept m (paid.present stays m old) left
      · intro doomed
        apply List.eq_nil_iff_forall_not_mem.mpr
        intro m member
        have old := (rest m member).1
        rw [paid.nothing doomed] at old
        exact absurd old List.not_mem_nil
  | doom gone members owed all rest =>
      refine ⟨fun stays => Bool.noConfusion stays, fun _ => ?_⟩
      apply List.eq_nil_iff_forall_not_mem.mpr
      intro m member
      obtain ⟨old, left⟩ := rest m member
      cases doomed : s.doomed with
      | true =>
          rw [paid.nothing doomed] at old
          exact absurd old List.not_mem_nil
      | false => exact left (all m (paid.present doomed m old))
  | drop doomed =>
      refine ⟨fun _ m owed => ?_, fun stays => Bool.noConfusion stays⟩
      rw [paid.nothing doomed] at owed
      exact absurd owed List.not_mem_nil

end Zumic.Lib.EmptiedSet
