/- A map that can be rebuilt from the journal of its changes, and two copies of a map that are
changed one after the other. -/

import Zumic.Lib.Assoc

namespace Zumic.Lib.Journal

variable {κ α : Type} [DecidableEq κ]

/-- One change of a map. -/
inductive Entry (κ α : Type) where
  | set (k : κ) (v : α)
  | del (k : κ)
  deriving DecidableEq

def Entry.apply (m : κ → Option α) : Entry κ α → κ → Option α
  | .set k v => Function.update m k (some v)
  | .del k => Function.update m k none

/-- The map after the changes of a journal. -/
def replay (entries : List (Entry κ α)) (m : κ → Option α) : κ → Option α :=
  entries.foldl Entry.apply m

@[simp] theorem replay_nil (m : κ → Option α) : replay [] m = m := rfl

@[simp] theorem replay_cons (e : Entry κ α) (l : List (Entry κ α)) (m : κ → Option α) :
    replay (e :: l) m = replay l (e.apply m) := rfl

theorem replay_append (l l' : List (Entry κ α)) (m : κ → Option α) :
    replay (l ++ l') m = replay l' (replay l m) := by
  rw [replay, replay, replay, List.foldl_append]

/-- The key that a change is about. -/
def Entry.key : Entry κ α → κ
  | .set k _ => k
  | .del k => k

theorem Entry.apply_of_ne {e : Entry κ α} {k : κ} (other : e.key ≠ k) (m : κ → Option α) :
    e.apply m k = m k := by
  cases e with
  | set k' v => exact Function.update_of_ne (Ne.symm other) _ _
  | del k' => exact Function.update_of_ne (Ne.symm other) _ _

theorem Entry.apply_key (e : Entry κ α) (m m' : κ → Option α) :
    e.apply m e.key = e.apply m' e.key := by
  cases e with
  | set k v => simp [Entry.apply, Entry.key]
  | del k => simp [Entry.apply, Entry.key]

theorem replay_congr {entries : List (Entry κ α)} {m m' : κ → Option α}
    (others : ∀ k, (∀ e ∈ entries, e.key ≠ k) → m k = m' k) :
    replay entries m = replay entries m' := by
  induction entries generalizing m m' with
  | nil =>
      funext k
      exact others k fun e member => absurd member List.not_mem_nil
  | cons e entries ih =>
      rw [replay_cons, replay_cons]
      apply ih
      intro k unnamed
      by_cases here : e.key = k
      · subst here
        exact e.apply_key m m'
      · rw [Entry.apply_of_ne here, Entry.apply_of_ne here]
        apply others
        intro e' member
        rcases List.mem_cons.mp member with rfl | later
        · exact here
        · exact unnamed e' later

theorem replay_of_unnamed {entries : List (Entry κ α)} {k : κ} (m : κ → Option α)
    (unnamed : ∀ e ∈ entries, e.key ≠ k) : replay entries m k = m k := by
  induction entries generalizing m with
  | nil => rfl
  | cons e entries ih =>
      have other : e.key ≠ k := unnamed e List.mem_cons_self
      rw [replay_cons, ih _ fun e' member => unnamed e' (List.mem_cons_of_mem _ member),
        Entry.apply_of_ne other]

theorem replay_sets {l : List (κ × α)} (distinct : (Assoc.keys l).Nodup) (m : κ → Option α) :
    replay (l.map fun e => Entry.set e.1 e.2) m = fun k => (Assoc.get l k).or (m k) := by
  induction l generalizing m with
  | nil => rfl
  | cons e l ih =>
      rw [Assoc.keys_cons, List.nodup_cons] at distinct
      rw [List.map_cons, replay_cons, ih distinct.2]
      funext k
      by_cases here : e.1 = k
      · subst here
        have absent : Assoc.get l e.1 = none := Assoc.get_eq_none_iff.mpr distinct.1
        simp [Entry.apply, Assoc.get, absent]
      · simp [Entry.apply, Assoc.get, here, Function.update_of_ne (Ne.symm here)]

theorem isSome_replay_sets {l : List (κ × α)} {m : κ → Option α} {k : κ}
    (held : (m k).isSome = true ∨ k ∈ Assoc.keys l) :
    (replay (l.map fun e => Entry.set e.1 e.2) m k).isSome = true := by
  induction l generalizing m with
  | nil => exact held.resolve_right List.not_mem_nil
  | cons e l ih =>
      rw [List.map_cons, replay_cons]
      apply ih
      by_cases here : k = e.1
      · subst here
        exact Or.inl (by simp [Entry.apply])
      · rw [Entry.apply, Function.update_of_ne here]
        rw [Assoc.keys_cons] at held
        exact held.imp_right fun member => (List.mem_cons.mp member).resolve_left here

end Zumic.Lib.Journal

namespace Zumic.Lib.TwoCopies

open Lib.Journal

variable {κ α : Type} [DecidableEq κ]

inductive Side where
  | left
  | right
  deriving DecidableEq

def Side.other : Side → Side
  | .left => .right
  | .right => .left

theorem Side.other_ne (side : Side) : side.other ≠ side := by
  cases side with
  | left => exact Side.noConfusion
  | right => exact Side.noConfusion

theorem Side.eq_other_of_ne {a side : Side} (ne : a ≠ side) : a = side.other := by
  cases a with
  | left =>
      cases side with
      | left => exact absurd rfl ne
      | right => rfl
  | right =>
      cases side with
      | left => rfl
      | right => exact absurd rfl ne

/-- A change that one side has and the other does not. -/
structure Half (κ α : Type) where
  made : Side
  entries : List (Entry κ α)

/-- The copies, and the changes that are half made, in the order in which they were begun. -/
structure State (κ α : Type) where
  copies : Side → κ → Option α
  halves : List (Half κ α)

/-- Changes that have no key in common. -/
def Apart (l l' : List (Entry κ α)) : Prop :=
  ∀ e ∈ l, ∀ e' ∈ l', e.key ≠ e'.key

/-- A change goes to one side and is left to be made on the other. -/
def State.begun (s : State κ α) (h : Half κ α) : State κ α where
  copies := Function.update s.copies h.made (replay h.entries (s.copies h.made))
  halves := s.halves ++ [h]

/-- The other side of a change is made. -/
def State.finished (s : State κ α) (h : Half κ α) (others : List (Half κ α)) : State κ α where
  copies := Function.update s.copies h.made.other (replay h.entries (s.copies h.made.other))
  halves := others

/-- Changes of one key are begun and finished in the same order on both sides. -/
inductive Step : State κ α → State κ α → Prop
  | begin (s : State κ α) (h : Half κ α)
      (apart : ∀ h' ∈ s.halves, h'.made ≠ h.made → Apart h'.entries h.entries) :
      Step s (s.begun h)
  | finish (s : State κ α) (before after : List (Half κ α)) (h : Half κ α)
      (listed : s.halves = before ++ h :: after)
      (apart : ∀ h' ∈ before, h'.made = h.made → Apart h'.entries h.entries) :
      Step s (s.finished h (before ++ after))

/-- What a side is still to be given. -/
def owed (side : Side) (halves : List (Half κ α)) : List (Entry κ α) :=
  halves.flatMap fun h => if h.made = side then [] else h.entries

/-- A side once all changes are made. -/
def State.settled (s : State κ α) (side : Side) : κ → Option α :=
  replay (owed side s.halves) (s.copies side)

theorem apply_comm {e e' : Entry κ α} (other : e.key ≠ e'.key) (m : κ → Option α) :
    e.apply (e'.apply m) = e'.apply (e.apply m) := by
  funext k
  by_cases here : e.key = k
  · subst here
    rw [Entry.apply_of_ne (Ne.symm other)]
    exact e.apply_key _ _
  · rw [Entry.apply_of_ne here]
    by_cases there : e'.key = k
    · subst there
      exact e'.apply_key _ _
    · rw [Entry.apply_of_ne there, Entry.apply_of_ne there, Entry.apply_of_ne here]

theorem apply_replay {e : Entry κ α} {l : List (Entry κ α)}
    (apart : ∀ e' ∈ l, e'.key ≠ e.key) (m : κ → Option α) :
    replay l (e.apply m) = e.apply (replay l m) := by
  induction l generalizing m with
  | nil => rfl
  | cons e' l ih =>
      rw [replay_cons, replay_cons, apply_comm (apart e' List.mem_cons_self)]
      exact ih (fun e'' member => apart e'' (List.mem_cons_of_mem _ member)) _

theorem replay_comm {l l' : List (Entry κ α)} (apart : Apart l l') (m : κ → Option α) :
    replay l (replay l' m) = replay l' (replay l m) := by
  induction l' generalizing m with
  | nil => rfl
  | cons e l' ih =>
      rw [replay_cons, replay_cons, ih fun e' member e'' member' =>
          apart e' member e'' (List.mem_cons_of_mem _ member'),
        apply_replay fun e' member => apart e' member e List.mem_cons_self]

omit [DecidableEq κ] in
theorem apart_owed {side : Side} {halves : List (Half κ α)} {l : List (Entry κ α)}
    (apart : ∀ h ∈ halves, h.made ≠ side → Apart h.entries l) : Apart (owed side halves) l := by
  intro e member e' member'
  obtain ⟨h, among, within⟩ := List.mem_flatMap.mp member
  split at within
  · cases within
  · rename_i other
    exact apart h among other e within e' member'

omit [DecidableEq κ] in
theorem owed_append (side : Side) (halves halves' : List (Half κ α)) :
    owed side (halves ++ halves') = owed side halves ++ owed side halves' :=
  List.flatMap_append

theorem settled_begun {s : State κ α} {h : Half κ α}
    (apart : ∀ h' ∈ s.halves, h'.made ≠ h.made → Apart h'.entries h.entries) (side : Side) :
    (s.begun h).settled side = replay h.entries (s.settled side) := by
  simp only [State.settled, State.begun, owed_append, replay_append]
  by_cases here : side = h.made
  · subst here
    have own : owed h.made [h] = [] := by simp [owed]
    rw [own, replay_nil, Function.update_self]
    exact replay_comm (apart_owed apart) _
  · have rest : owed side [h] = h.entries := by simp [owed, Ne.symm here]
    rw [rest, Function.update_of_ne here]

theorem settled_finished {s : State κ α} {before after : List (Half κ α)} {h : Half κ α}
    (listed : s.halves = before ++ h :: after)
    (apart : ∀ h' ∈ before, h'.made = h.made → Apart h'.entries h.entries) (side : Side) :
    (s.finished h (before ++ after)).settled side = s.settled side := by
  have listed' : s.halves = before ++ ([h] ++ after) := listed
  simp only [State.settled, State.finished, listed', owed_append, replay_append]
  by_cases here : side = h.made
  · subst here
    have own : owed h.made [h] = [] := by simp [owed]
    rw [own, replay_nil, Function.update_of_ne h.made.other_ne.symm]
  · obtain rfl := Side.eq_other_of_ne here
    have rest : owed h.made.other [h] = h.entries := by simp [owed, Ne.symm here]
    have earlier : Apart (owed h.made.other before) h.entries :=
      apart_owed fun h' member ne => apart h' member (by
        by_contra elsewhere
        exact ne (Side.eq_other_of_ne elsewhere))
    rw [rest, Function.update_self, replay_comm earlier]

/-- A step leads both sides to the same settled state when they were bound for one before. -/
theorem Step.settled_eq {s s' : State κ α} (step : Step s s')
    (same : s.settled .left = s.settled .right) : s'.settled .left = s'.settled .right := by
  cases step with
  | begin h apart => rw [settled_begun apart, settled_begun apart, same]
  | finish before after h listed apart =>
      rw [settled_finished listed apart, settled_finished listed apart, same]

theorem State.settled_of_nil {s : State κ α} (none' : s.halves = []) (side : Side) :
    s.settled side = s.copies side := by
  rw [State.settled, none']
  rfl

end Zumic.Lib.TwoCopies
