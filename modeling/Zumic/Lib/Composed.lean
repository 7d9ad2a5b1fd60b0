/- Readers that are put together from those that take bytes from the front, what a cut of their
input does to them, and readers that move over the bytes another reader takes in. -/

import Zumic.Lib.Reader

namespace Zumic.Lib.Reader

open Lib.ByteString

section

variable {ε α β : Type}

/-- Readers that touch their input by taking bytes from its front only. -/
inductive Composed : {α : Type} → Reader ε α → Prop
  | pure {α : Type} (a : α) : Composed (pure a : Reader ε α)
  | throw {α : Type} (e : ε) : Composed (throw e : Reader ε α)
  | next (e : ε) : Composed (next e)
  | take (n : Nat) (e : ε) : Composed (take n e)
  | takeUpTo (n : Nat) : Composed (takeUpTo n)
  | bind {α β : Type} {p : Reader ε α} {f : α → Reader ε β} (first : Composed p)
      (second : ∀ a, Composed (f a)) : Composed (p >>= f)

theorem composed_ite {c : Prop} [Decidable c] {p q : Reader ε α} (yes : Composed p)
    (no : Composed q) : Composed (if c then p else q) := by
  split
  · exact yes
  · exact no

theorem composed_readFrom {p : Nat → Reader ε α} (each : ∀ i, Composed (p i)) (i n : Nat) :
    Composed (readFrom p i n) := by
  induction n generalizing i with
  | zero => exact Composed.pure []
  | succ n ih => exact (each i).bind fun a => (ih (i + 1)).bind fun l => Composed.pure (a :: l)

theorem composed_readMany {p : Nat → Reader ε α} (each : ∀ i, Composed (p i)) (n : Nat) :
    Composed (readMany p n) :=
  composed_readFrom each 0 n

theorem Composed.shrinks {p : Reader ε α} (composed : Composed p) : Shrinks p := by
  induction composed with
  | pure a => exact shrinks_pure a
  | throw e => exact shrinks_throw e
  | next e => exact shrinks_next e
  | take n e => exact shrinks_take n e
  | takeUpTo n => exact shrinks_takeUpTo n
  | bind _ _ first second => exact first.bind second

/-- A reader that hands bytes back has not met the end of its input, so more of it would change
nothing. -/
def Settled (p : Reader ε α) : Prop :=
  ∀ b a rest t, p b = .ok (a, rest) → rest ≠ [] → p (b ++ t) = .ok (a, rest ++ t)

theorem settled_take (n : Nat) (e : ε) : Settled (take n e) := by
  intro b a rest t run _
  rw [take] at run
  split at run
  · rename_i enough
    obtain ⟨rfl, rfl⟩ := Prod.mk.inj (Except.ok.inj run)
    have enough' : n ≤ (b ++ t).length := by
      rw [List.length_append]
      omega
    rw [take, if_pos enough', List.take_append_of_le_length enough,
      List.drop_append_of_le_length enough]
  · cases run

theorem settled_takeUpTo (n : Nat) : Settled (takeUpTo n : Reader ε Bytes) := by
  intro b a rest t run more
  obtain ⟨rfl, rfl⟩ := Prod.mk.inj (Except.ok.inj run)
  have enough : n ≤ b.length := by
    by_contra short
    exact more (List.drop_of_length_le (by omega))
  rw [takeUpTo, List.take_append_of_le_length enough, List.drop_append_of_le_length enough]

theorem Composed.settled {p : Reader ε α} (composed : Composed p) : Settled p := by
  induction composed with
  | pure a =>
      intro b r rest t run _
      obtain ⟨rfl, rfl⟩ := Prod.mk.inj (Except.ok.inj run)
      rfl
  | throw e =>
      intro b a rest t run _
      cases run
  | next e =>
      intro b x rest t run _
      cases b with
      | nil => cases run
      | cons y b =>
          obtain ⟨rfl, rfl⟩ := Prod.mk.inj (Except.ok.inj run)
          rfl
  | take n e => exact settled_take n e
  | takeUpTo n => exact settled_takeUpTo n
  | bind _ later first second =>
      intro b r rest t run more
      obtain ⟨a, middle, runFirst, runSecond⟩ := bind_eq_ok run
      have between : middle ≠ [] := by
        rintro rfl
        have shorter := (later a).shrinks [] r rest runSecond
        exact more (List.eq_nil_of_length_eq_zero (Nat.le_zero.mp shorter))
      rw [bind_of_ok (first b a middle t runFirst between)]
      exact second a middle r rest t runSecond more

/-- The reader takes exactly `b`, or fails on it, whatever follows. -/
def Decides (p : Reader ε α) (b : Bytes) : Prop := (∃ a, Reads p b a) ∨ Fails p b

theorem Reads.decides {p : Reader ε α} {b : Bytes} {a : α} (reads : Reads p b a) : Decides p b :=
  Or.inl ⟨a, reads⟩

theorem fails_throw (e : ε) (b : Bytes) : Fails (throw e : Reader ε α) b :=
  fun _ => ⟨e, rfl⟩

theorem decides_pure (a : α) : Decides (pure a : Reader ε α) [] :=
  (reads_pure a).decides

theorem Reads.bind_decides {p : Reader ε α} {f : α → Reader ε β} {b c : Bytes} {a : α}
    (first : Reads p b a) (second : Decides (f a) c) : Decides (p >>= f) (b ++ c) := by
  rcases second with ⟨r, reads⟩ | fails
  · exact (first.bind reads).decides
  · exact Or.inr (first.bind_fails fails)

theorem Decides.bind {p : Reader ε α} {f : α → Reader ε β} {b c : Bytes} (first : Decides p b)
    (second : ∀ a, Decides (f a) c) : Decides (p >>= f) (b ++ c) := by
  rcases first with ⟨a, reads⟩ | fails
  · exact reads.bind_decides (second a)
  · exact Or.inr (fails.bind c)

theorem Decides.mapped {p : Reader ε α} {f : α → Reader ε β} {b : Bytes} (first : Decides p b)
    (made : ∀ a, Decides (f a) []) : Decides (p >>= f) b := by
  have both := first.bind made
  rw [List.append_nil] at both
  exact both

theorem decides_readFrom {p : Nat → Reader ε α} {encode : β → Bytes} (l : List β)
    (each : ∀ x ∈ l, ∀ i, Decides (p i) (encode x)) (i : Nat) :
    Decides (readFrom p i l.length) (l.flatMap encode) := by
  induction l generalizing i with
  | nil => exact decides_pure []
  | cons x l ih =>
      have tail := ih (fun y hy => each y (List.mem_cons_of_mem _ hy)) (i + 1)
      rw [List.flatMap_cons]
      exact (each x (by simp) i).bind fun a => tail.mapped fun l => decides_pure (a :: l)

theorem decides_readMany {p : Nat → Reader ε α} {encode : β → Bytes} (l : List β)
    (each : ∀ x ∈ l, ∀ i, Decides (p i) (encode x)) :
    Decides (readMany p l.length) (l.flatMap encode) :=
  decides_readFrom l each 0

/-- A settled reader that hands back bytes of a cut input has read what it reads of the whole. -/
theorem Settled.of_cut {p : Reader ε α} (settled : Settled p) {b c t u rest : Bytes} {a : α}
    (decides : Decides p b) (cut : c ++ t = b ++ u) (run : p c = .ok (a, rest))
    (more : rest ≠ []) : rest ++ t = u := by
  have whole := settled c a rest t run more
  rw [cut] at whole
  rcases decides with ⟨a', reads⟩ | fails
  · rw [reads u] at whole
    exact (Prod.mk.inj (Except.ok.inj whole)).2.symm
  · obtain ⟨e, failed⟩ := fails u
    rw [failed] at whole
    cases whole

end

section

variable {ε α β : Type}

/-- `n` times the same reader. -/
def skipMany (q : Reader ε Unit) : Nat → Reader ε Unit
  | 0 => pure ()
  | n + 1 => do
      q
      skipMany q n

/-- Where `p` reads, `q` moves over the same bytes, or fails where they begin with `C`. -/
def Skips (q : Reader ε Unit) (C : Bytes → Prop) (p : Reader ε α) : Prop :=
  ∀ b a rest, p b = .ok (a, rest) →
    (C b → ∃ e, q b = .error e) ∧ (¬ C b → q b = .ok ((), rest))

/-- The reader takes nothing. -/
def Quiet (p : Reader ε α) : Prop := ∀ b a rest, p b = .ok (a, rest) → rest = b

theorem quiet_pure (a : α) : Quiet (pure a : Reader ε α) :=
  fun _ _ _ run => (Prod.mk.inj (Except.ok.inj run)).2.symm

theorem quiet_throw (e : ε) : Quiet (throw e : Reader ε α) := by
  intro b a rest run
  exact absurd run (by simp [throw, throwThe, MonadExceptOf.throw, StateT.lift])

theorem Skips.iff {q : Reader ε Unit} {C : Bytes → Prop} {p : Reader ε α} (skips : Skips q C p)
    {b rest : Bytes} {a : α} (run : p b = .ok (a, rest)) : q b = .ok ((), rest) ↔ ¬ C b := by
  obtain ⟨stuck, moves⟩ := skips b a rest run
  refine ⟨fun moved cut => ?_, moves⟩
  obtain ⟨e, failed⟩ := stuck cut
  rw [moved] at failed
  cases failed

theorem skips_of_ok {q : Reader ε Unit} {p : Reader ε α}
    (moves : ∀ b a rest, p b = .ok (a, rest) → q b = .ok ((), rest)) :
    Skips q (fun _ => False) p :=
  fun b a rest run => ⟨False.elim, fun _ => moves b a rest run⟩

theorem Skips.congr {q : Reader ε Unit} {C D : Bytes → Prop} {p : Reader ε α}
    (skips : Skips q C p) (same : ∀ b a rest, p b = .ok (a, rest) → (C b ↔ D b)) :
    Skips q D p := by
  intro b a rest run
  rw [← same b a rest run]
  exact skips b a rest run

theorem Skips.never {q : Reader ε Unit} {C : Bytes → Prop} {p : Reader ε α}
    (skips : Skips q C p) (nowhere : ∀ b, ¬ C b) : Skips q (fun _ => False) p :=
  skips.congr fun b _ _ _ => iff_of_false (nowhere b) id

theorem skips_throw (q : Reader ε Unit) (C : Bytes → Prop) (e : ε) :
    Skips q C (throw e : Reader ε α) := by
  intro b a rest run
  exact absurd run (by simp [throw, throwThe, MonadExceptOf.throw, StateT.lift])

theorem Skips.after {p : Reader ε α} {f : α → Reader ε β} {g : α → Reader ε Unit}
    {C : α → Bytes → Prop} (later : ∀ a, Skips (g a) (C a) (f a)) :
    Skips (p >>= g) (fun b => ∃ a s, p b = .ok (a, s) ∧ C a s) (p >>= f) := by
  intro b r rest run
  obtain ⟨a, s, first, second⟩ := bind_eq_ok run
  obtain ⟨stuck, moves⟩ := later a s r rest second
  rw [bind_of_ok first]
  constructor
  · rintro ⟨a', s', first', cut⟩
    rw [first] at first'
    obtain ⟨rfl, rfl⟩ := Prod.mk.inj (Except.ok.inj first')
    exact stuck cut
  · intro whole
    exact moves fun cut => whole ⟨a, s, first, cut⟩

theorem Skips.after_never {p : Reader ε α} {f : α → Reader ε β} {g : α → Reader ε Unit}
    (later : ∀ a, Skips (g a) (fun _ => False) (f a)) :
    Skips (p >>= g) (fun _ => False) (p >>= f) := by
  refine (Skips.after later).never ?_
  rintro b ⟨a, s, -, impossible⟩
  exact impossible

theorem Skips.bind {p : Reader ε α} {f : α → Reader ε β} {q r : Reader ε Unit}
    {C : Bytes → Prop} {D : α → Bytes → Prop} (first : Skips q C p)
    (second : ∀ a, Skips r (D a) (f a)) :
    Skips (q >>= fun _ => r) (fun b => C b ∨ ∃ a s, p b = .ok (a, s) ∧ D a s) (p >>= f) := by
  intro b v rest run
  obtain ⟨a, s, runFirst, runSecond⟩ := bind_eq_ok run
  obtain ⟨stuck, moves⟩ := first b a s runFirst
  obtain ⟨stuck', moves'⟩ := second a s v rest runSecond
  by_cases cut : C b
  · obtain ⟨e, failed⟩ := stuck cut
    exact ⟨fun _ => ⟨e, bind_of_error failed⟩, fun whole => absurd (Or.inl cut) whole⟩
  · rw [bind_of_ok (moves cut)]
    constructor
    · rintro (cut' | ⟨a', s', runFirst', cut'⟩)
      · exact absurd cut' cut
      · rw [runFirst] at runFirst'
        obtain ⟨rfl, rfl⟩ := Prod.mk.inj (Except.ok.inj runFirst')
        exact stuck' cut'
    · intro whole
      exact moves' fun cut' => whole (Or.inr ⟨a, s, runFirst, cut'⟩)

theorem Skips.bind_never {p : Reader ε α} {f : α → Reader ε β} {q r : Reader ε Unit}
    (first : Skips q (fun _ => False) p) (second : ∀ a, Skips r (fun _ => False) (f a)) :
    Skips (q >>= fun _ => r) (fun _ => False) (p >>= f) := by
  refine (first.bind second).never ?_
  rintro b (impossible | ⟨a, s, -, impossible⟩)
  · exact impossible
  · exact impossible

theorem Skips.guarded {p : Reader ε α} {f : α → Reader ε β} {q : Reader ε Unit}
    {C : Bytes → Prop} (check : Quiet p) (later : ∀ a, Skips q C (f a)) :
    Skips q C (p >>= f) := by
  intro b r rest run
  obtain ⟨a, s, first, second⟩ := bind_eq_ok run
  obtain rfl := check b a s first
  exact later a _ r rest second

theorem Skips.mapped {p : Reader ε α} {f : α → Reader ε β} {q : Reader ε Unit}
    {C : Bytes → Prop} (first : Skips q C p) (made : ∀ a, Quiet (f a)) :
    Skips q C (p >>= f) := by
  intro b r rest run
  obtain ⟨a, s, runFirst, runSecond⟩ := bind_eq_ok run
  obtain rfl := made a s r rest runSecond
  exact first b a _ runFirst

/-- One of the `n` items that are read one after another begins with `C`. -/
def SomeItem (p : Nat → Reader ε α) (C : Bytes → Prop) : Nat → Nat → Bytes → Prop
  | _, 0, _ => False
  | i, n + 1, b => C b ∨ ∃ a s, p i b = .ok (a, s) ∧ SomeItem p C (i + 1) n s

theorem skips_readFrom {p : Nat → Reader ε α} {q : Reader ε Unit} {C : Bytes → Prop}
    (each : ∀ i, Skips q C (p i)) (i n : Nat) :
    Skips (skipMany q n) (SomeItem p C i n) (readFrom p i n) := by
  induction n generalizing i with
  | zero =>
      refine skips_of_ok fun b a rest run => ?_
      obtain ⟨-, rfl⟩ := Prod.mk.inj (Except.ok.inj run)
      rfl
  | succ n ih =>
      exact (each i).bind fun a => (ih (i + 1)).mapped fun l => quiet_pure (a :: l)

theorem skips_readMany {p : Nat → Reader ε α} {q : Reader ε Unit} {C : Bytes → Prop}
    (each : ∀ i, Skips q C (p i)) (n : Nat) :
    Skips (skipMany q n) (SomeItem p C 0 n) (readMany p n) :=
  skips_readFrom each 0 n

theorem not_someItem {p : Nat → Reader ε α} (i n : Nat) (b : Bytes) :
    ¬ SomeItem p (fun _ => False) i n b := by
  induction n generalizing i b with
  | zero => exact id
  | succ n ih =>
      rintro (impossible | ⟨a, s, -, later⟩)
      · exact impossible
      · exact ih (i + 1) s later

end

end Zumic.Lib.Reader
