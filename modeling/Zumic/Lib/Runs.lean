/- Runs of a system whose steps may be refused, loops whose body may end them, and what a run of
counters adds up to. -/

import Mathlib.Algebra.BigOperators.Group.List.Basic
import Mathlib.Algebra.Ring.Int.Defs

namespace Zumic.Lib.Runs

variable {σ ε : Type} (step : σ → ε → Option σ) (allowed : σ → ε → Prop)

def run (s : σ) (events : List ε) : Option σ := events.foldlM step s

/-- Every event of a run is allowed in the state that it meets. -/
def Along : σ → List ε → Prop
  | _, [] => True
  | s, e :: events => allowed s e ∧ ∀ s' ∈ step s e, Along s' events

instance decidableAlong [∀ s e, Decidable (allowed s e)] :
    (s : σ) → (events : List ε) → Decidable (Along step allowed s events)
  | _, [] => isTrue trivial
  | s, e :: events =>
      have := fun s' => decidableAlong s' events
      inferInstanceAs (Decidable (allowed s e ∧ ∀ s' ∈ step s e, Along step allowed s' events))

variable {step allowed}

theorem Along.cons {s s' : σ} {e : ε} {events : List ε} (now : allowed s e)
    (next : step s e = some s') (rest : Along step allowed s' events) :
    Along step allowed s (e :: events) := by
  refine ⟨now, fun s'' member => ?_⟩
  obtain rfl := Option.some.inj (next.symm.trans member)
  exact rest

theorem Along.and {allowed' : σ → ε → Prop} {s : σ} {events : List ε}
    (first : Along step allowed s events) (second : Along step allowed' s events) :
    Along step (fun s e => allowed s e ∧ allowed' s e) s events := by
  induction events generalizing s with
  | nil => trivial
  | cons e events ih =>
      refine ⟨⟨first.1, second.1⟩, fun s' stepped => ?_⟩
      exact ih (first.2 s' stepped) (second.2 s' stepped)

theorem kept_run {Inv : σ → Prop}
    (keeps : ∀ s e s', Inv s → allowed s e → step s e = some s' → Inv s') {s s' : σ}
    {events : List ε} (start : Inv s) (along : Along step allowed s events)
    (ran : run step s events = some s') : Inv s' := by
  induction events generalizing s with
  | nil =>
      obtain rfl := Option.some.inj ran
      exact start
  | cons e events ih =>
      obtain ⟨first, rest⟩ := along
      rw [run, List.foldlM_cons] at ran
      obtain ⟨next, stepped, ran⟩ := Option.bind_eq_some_iff.mp ran
      exact ih (keeps s e next start first stepped) (rest next stepped) ran

theorem along_true (s : σ) (events : List ε) : Along step (fun _ _ => True) s events := by
  induction events generalizing s with
  | nil => trivial
  | cons e events ih => exact ⟨trivial, fun s' _ => ih s'⟩

theorem kept_run_always {Inv : σ → Prop}
    (keeps : ∀ s e s', Inv s → step s e = some s' → Inv s') {s s' : σ} {events : List ε}
    (start : Inv s) (ran : run step s events = some s') : Inv s' :=
  kept_run (fun s e s' inv _ => keeps s e s' inv) start (along_true s events) ran

/-- A condition that the allowed steps keep up an invariant for is met along the run, where the
invariant gives it. -/
theorem along_of_kept {Inv : σ → Prop} {allowed' : σ → ε → Prop}
    (keeps : ∀ s e s', Inv s → allowed s e → step s e = some s' → Inv s')
    (gives : ∀ s e, Inv s → allowed s e → allowed' s e) {s : σ} {events : List ε} (start : Inv s)
    (along : Along step allowed s events) : Along step allowed' s events := by
  induction events generalizing s with
  | nil => trivial
  | cons e events ih =>
      obtain ⟨now, rest⟩ := along
      refine ⟨gives s e start now, fun s' stepped => ?_⟩
      exact ih (keeps s e s' start now stepped) (rest s' stepped)

/-- Two conditions that agree wherever an invariant holds are met along the same runs, if the steps
that meet the first one keep it. -/
theorem along_congr_of_kept {Inv : σ → Prop} {allowed' : σ → ε → Prop}
    (keeps : ∀ s e s', Inv s → allowed s e → step s e = some s' → Inv s')
    (agree : ∀ s e, Inv s → (allowed s e ↔ allowed' s e)) {s : σ} {events : List ε}
    (start : Inv s) : Along step allowed s events ↔ Along step allowed' s events := by
  induction events generalizing s with
  | nil => exact Iff.rfl
  | cons e events ih =>
      constructor
      · rintro ⟨now, rest⟩
        refine ⟨(agree s e start).mp now, fun s' stepped => ?_⟩
        exact (ih (keeps s e s' start now stepped)).mp (rest s' stepped)
      · rintro ⟨now, rest⟩
        have first := (agree s e start).mpr now
        refine ⟨first, fun s' stepped => ?_⟩
        exact (ih (keeps s e s' start first stepped)).mpr (rest s' stepped)

theorem along_congr {Inv : σ → Prop} {allowed' : σ → ε → Prop}
    (keeps : ∀ s e s', Inv s → step s e = some s' → Inv s')
    (agree : ∀ s e, Inv s → (allowed s e ↔ allowed' s e)) {s : σ} {events : List ε}
    (start : Inv s) : Along step allowed s events ↔ Along step allowed' s events :=
  along_congr_of_kept (fun s e s' inv _ => keeps s e s' inv) agree start

/-- What holds in every state of a run holds at its start and after each of its steps. -/
theorem always_iff_along {P : σ → Prop} {s : σ} {events : List ε} :
    (∀ n s', run step s (events.take n) = some s' → P s') ↔
      P s ∧ Along step (fun s e => ∀ s' ∈ step s e, P s') s events := by
  induction events generalizing s with
  | nil =>
      constructor
      · intro always
        exact ⟨always 0 s rfl, trivial⟩
      · intro now n s' ran
        rw [List.take_nil] at ran
        obtain rfl := Option.some.inj ran
        exact now.1
  | cons e events ih =>
      constructor
      · intro always
        refine ⟨always 0 s rfl, fun s' stepped => ?_, fun s' stepped => ?_⟩
        · refine always 1 s' ?_
          rw [List.take_succ_cons, List.take_zero, run, List.foldlM_cons, stepped]
          rfl
        · refine (ih.mp fun n s'' ran => always (n + 1) s'' ?_).2
          rw [List.take_succ_cons, run, List.foldlM_cons, stepped]
          exact ran
      · rintro ⟨now, next, later⟩ n s' ran
        cases n with
        | zero =>
            obtain rfl := Option.some.inj ran
            exact now
        | succ n =>
            rw [List.take_succ_cons, run, List.foldlM_cons] at ran
            obtain ⟨middle, stepped, ran⟩ := Option.bind_eq_some_iff.mp ran
            exact ih.mpr ⟨next middle stepped, later middle stepped⟩ n s' ran

end Zumic.Lib.Runs

namespace Zumic.Lib.Loop

variable {S R : Type} (body : S → S ⊕ R)

/-- At most `n` turns of the loop. -/
def turns : Nat → S → S ⊕ R
  | 0, s => .inl s
  | n + 1, s =>
      match body s with
      | .inl s' => turns n s'
      | .inr r => .inr r

/-- Finitely many turns end the loop. -/
def Ends (s : S) : Prop := ∃ n r, turns body n s = .inr r

/-- One turn. -/
def Turn (s s' : S) : Prop := body s = .inl s'

/-- The loop comes from the one state to the other. -/
abbrev Reaches : S → S → Prop := Relation.ReflTransGen (Turn body)

variable {body}

theorem ends_of_result {s : S} {r : R} (stop : body s = .inr r) : Ends body s := by
  refine ⟨1, r, ?_⟩
  rw [turns, stop]

theorem ends_iff_of_turn {s s' : S} (turn : body s = .inl s') : Ends body s ↔ Ends body s' := by
  constructor
  · rintro ⟨n, r, run⟩
    cases n with
    | zero => cases run
    | succ n =>
        rw [turns, turn] at run
        exact ⟨n, r, run⟩
  · rintro ⟨n, r, run⟩
    refine ⟨n + 1, r, ?_⟩
    rw [turns, turn]
    exact run

theorem ends_iff_of_reaches {s t : S} (reaches : Reaches body s t) :
    Ends body s ↔ Ends body t := by
  induction reaches with
  | refl => exact Iff.rfl
  | tail _ turn ih => exact ih.trans (ends_iff_of_turn turn)

theorem not_ends_of_invariant {I : S → Prop} (kept : ∀ s, I s → ∃ s', body s = .inl s' ∧ I s')
    {s : S} (holds : I s) : ¬ Ends body s := by
  rintro ⟨n, r, run⟩
  induction n generalizing s with
  | zero => cases run
  | succ n ih =>
      obtain ⟨s', turn, holds'⟩ := kept s holds
      rw [turns, turn] at run
      exact ih holds' run

/-- A loop in which every turn counts down, but in states with `Dry`, ends unless it comes to such
a state from which it does not end. -/
theorem ends_iff (Dry : S → Prop) (left : S → Nat)
    (down : ∀ s s', ¬ Dry s → body s = .inl s' → left s' < left s) (s : S) :
    Ends body s ↔ ∀ t, Reaches body s t → Dry t → Ends body t := by
  refine ⟨fun ends t reaches _ => (ends_iff_of_reaches reaches).mp ends, fun dry => ?_⟩
  generalize bound : left s = n
  induction n using Nat.strongRecOn generalizing s with
  | ind n ih =>
      by_cases here : Dry s
      · exact dry s Relation.ReflTransGen.refl here
      · cases turn : body s with
        | inr r => exact ends_of_result turn
        | inl s' =>
            have less : left s' < n := bound ▸ down s s' here turn
            rw [ends_iff_of_turn turn]
            exact ih _ less s' (fun t reaches => dry t (reaches.head turn)) rfl

end Zumic.Lib.Loop

namespace Zumic.Lib.Tally

variable {σ ι ρ : Type} (step : ι → σ → ρ × σ) (amount : ι → Int) (accepts : ρ → Bool)

/-- The steps with their results, and the state after them. -/
def results : List ι → σ → List (ι × ρ) × σ
  | [], s => ([], s)
  | i :: rest, s =>
      let others := results rest (step i s).2
      ((i, (step i s).1) :: others.1, others.2)

/-- The sum of the amounts that were accepted. -/
def taken (done : List (ι × ρ)) : Int :=
  ((done.filter fun d => accepts d.2).map fun d => amount d.1).sum

/-- A step takes its amount where the sum fits, and otherwise is refused and changes nothing. The
view has no number where the state holds none. -/
structure Counts (fits : Int → Prop) (view : σ → Option Int) : Prop where
  accepted : ∀ i s n, view s = some n → fits (n + amount i) →
    accepts (step i s).1 = true ∧ view (step i s).2 = some (n + amount i)
  refused : ∀ i s, (∀ n, view s = some n → ¬ fits (n + amount i)) →
    accepts (step i s).1 = false ∧ (step i s).2 = s

variable {step amount accepts} {fits : Int → Prop} {view : σ → Option Int}

theorem taken_cons_accepted {i : ι} {r : ρ} (yes : accepts r = true) (done : List (ι × ρ)) :
    taken amount accepts ((i, r) :: done) = amount i + taken amount accepts done := by
  simp [taken, yes]

theorem taken_cons_refused {i : ι} {r : ρ} (no : accepts r = false) (done : List (ι × ρ)) :
    taken amount accepts ((i, r) :: done) = taken amount accepts done := by
  simp [taken, no]

theorem Counts.view_results (counts : Counts step amount accepts fits view) (calls : List ι)
    (s : σ) : view (results step calls s).2 =
      (view s).map (· + taken amount accepts (results step calls s).1) := by
  induction calls generalizing s with
  | nil => simp [results, taken]
  | cons i rest ih =>
      change view (results step rest (step i s).2).2 =
        (view s).map (· + taken amount accepts ((i, (step i s).1) :: _))
      rw [ih]
      by_cases fit : ∃ n, view s = some n ∧ fits (n + amount i)
      · obtain ⟨n, here, fit⟩ := fit
        obtain ⟨yes, next⟩ := counts.accepted i s n here fit
        rw [next, here, taken_cons_accepted yes]
        simp only [Option.map_some, Int.add_assoc]
      · obtain ⟨no, same⟩ := counts.refused i s fun n here fits => fit ⟨n, here, fits⟩
        rw [same, taken_cons_refused no]

end Zumic.Lib.Tally
