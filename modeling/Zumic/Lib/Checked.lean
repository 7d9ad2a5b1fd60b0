/- Readers that check what they do, and the plain readers that they follow. -/

import Zumic.Lib.Reader

namespace Zumic.Lib

open Lib.ByteString Lib.Reader

/-- A reader with checks: it stops on the left at a broken one, and fails on the right. -/
abbrev CheckedReader (γ ε α : Type) := Reader (γ ⊕ ε) α

namespace Checked

variable {γ ε α β : Type}

def check (broken : γ) (holds : Bool) : CheckedReader γ ε Unit :=
  if holds then pure () else throw (.inl broken)

/-- What is still to be read. -/
def unread : CheckedReader γ ε Bytes := fun b => .ok (b, b)

/-- The byte at an index, `slice[i]`. -/
def index (broken : γ) (i : Nat) : CheckedReader γ ε UInt8 := fun b =>
  match b[i]? with
  | some x => .ok (x, b)
  | none => .error (.inl broken)

/-- The first bytes, `&slice[..n]`. -/
def front (broken : γ) (n : Nat) : CheckedReader γ ε Bytes := fun b =>
  if n ≤ b.length then .ok (b.take n, b) else .error (.inl broken)

/-- Goes on behind the first bytes, `slice = &slice[n..]`. -/
def skip (broken : γ) (n : Nat) : CheckedReader γ ε Unit := fun b =>
  if n ≤ b.length then .ok ((), b.drop n) else .error (.inl broken)

/-- A subtraction of unsigned numbers. -/
def minus (broken : γ) (m n : Nat) : CheckedReader γ ε Nat :=
  if n ≤ m then pure (m - n) else throw (.inl broken)

/-- A reader that checks nothing. -/
def lift (p : Reader ε α) : CheckedReader γ ε α := fun b => (p b).mapError .inr

theorem lift_throw (e : ε) :
    lift (throw e : Reader ε α) = (throw (.inr e) : CheckedReader γ ε α) := rfl

theorem lift_bind (p : Reader ε α) (f : α → Reader ε β) :
    lift (p >>= f) = (lift p >>= fun a => lift (f a) : CheckedReader γ ε β) := by
  ext b
  show (lift (p >>= f) : CheckedReader γ ε β) b = (lift p >>= fun a => lift (f a)) b
  rw [lift, bind_apply, bind_apply, lift]
  cases p b with
  | error e => rfl
  | ok r => rfl

theorem lift_ite {c : Prop} [Decidable c] (p q : Reader ε α) :
    lift (if c then p else q) = (if c then lift p else lift q : CheckedReader γ ε α) := by
  split
  · rfl
  · rfl

/-- The checked reader does what the plain one does, unless it stops at a check. -/
structure Follows (g : CheckedReader γ ε α) (p : Reader ε α) : Prop where
  ok : ∀ b r, g b = .ok r → p b = .ok r
  failed : ∀ b e, g b = .error (.inr e) → p b = .error e

theorem follows_lift (p : Reader ε α) : Follows (lift p : CheckedReader γ ε α) p := by
  constructor
  · intro b r run
    rw [lift] at run
    cases plain : p b with
    | error e => rw [plain] at run; cases run
    | ok r' => rw [plain] at run; exact congrArg _ (Except.ok.inj run)
  · intro b e run
    rw [lift] at run
    cases plain : p b with
    | error e' => rw [plain] at run; exact congrArg _ (Sum.inr.inj (Except.error.inj run))
    | ok r' => rw [plain] at run; cases run

theorem follows_pure (a : α) : Follows (pure a : CheckedReader γ ε α) (pure a) :=
  follows_lift (pure a)

theorem follows_throw (e : ε) :
    Follows (throw (.inr e) : CheckedReader γ ε α) (throw e : Reader ε α) := by
  rw [← lift_throw]
  exact follows_lift (throw e)

theorem follows_ite {c : Prop} [Decidable c] {g h : CheckedReader γ ε α} {p q : Reader ε α}
    (yes : Follows g p) (no : Follows h q) :
    Follows (if c then g else h) (if c then p else q) := by
  split
  · exact yes
  · exact no

theorem Follows.bind {g : CheckedReader γ ε α} {p : Reader ε α}
    {f : α → CheckedReader γ ε β} {f' : α → Reader ε β} (first : Follows g p)
    (second : ∀ a, Follows (f a) (f' a)) : Follows (g >>= f) (p >>= f') := by
  constructor
  · intro b r run
    obtain ⟨a, rest, read, later⟩ := bind_eq_ok run
    rw [bind_of_ok (first.ok b _ read)]
    exact (second a).ok rest r later
  · intro b e run
    cases read : g b with
    | error e' =>
        rw [bind_of_error read] at run
        rw [Except.error.inj run] at read
        rw [bind_of_error (first.failed b e read)]
    | ok r =>
        obtain ⟨a, rest⟩ := r
        rw [bind_of_ok read] at run
        rw [bind_of_ok (first.ok b _ read)]
        exact (second a).failed rest e run

theorem Follows.checked {g : CheckedReader γ ε α} {p : Reader ε α} (follows : Follows g p)
    (broken : γ) (holds : Bool) : Follows (check broken holds >>= fun _ => g) p := by
  cases holds with
  | true => exact follows
  | false =>
      constructor
      · intro b r run
        cases run
      · intro b e run
        cases run

/-- Where no check breaks, the checked reader is the plain one. -/
theorem Follows.eq_lift {g : CheckedReader γ ε α} {p : Reader ε α} (follows : Follows g p)
    {b : Bytes} (passed : ∀ broken, g b ≠ .error (.inl broken)) : g b = lift p b := by
  cases run : g b with
  | ok r =>
      rw [lift, follows.ok b r run]
      rfl
  | error stop =>
      cases stop with
      | inl broken => exact absurd run (passed broken)
      | inr e =>
          rw [lift, follows.failed b e run]
          rfl

/-- What holds of the results behind a check may use that it has held. -/
theorem yields_check {P : α → Prop} {g : CheckedReader γ ε α} (broken : γ) {holds : Bool}
    (yields : holds = true → Yields P g) : Yields P (check broken holds >>= fun _ => g) := by
  cases holds with
  | true => exact yields rfl
  | false =>
      intro b a rest run
      cases run

theorem yields_lift {P : α → Prop} {p : Reader ε α} (yields : Yields P p) :
    Yields P (lift p : CheckedReader γ ε α) := by
  intro b a rest run
  exact yields b a rest ((follows_lift p).ok b _ run)

/-- Whether no check is broken in a run that goes on with `k` where it succeeds. -/
def passes (g : CheckedReader γ ε α) (k : α → Bytes → Bool) (b : Bytes) : Bool :=
  match g b with
  | .ok (a, rest) => k a rest
  | .error (.inl _) => false
  | .error (.inr _) => true

theorem passes_pure (a : α) (k : α → Bytes → Bool) (b : Bytes) :
    passes (pure a : CheckedReader γ ε α) k b = k a b := rfl

theorem passes_bind (g : CheckedReader γ ε α) (f : α → CheckedReader γ ε β)
    (k : β → Bytes → Bool) (b : Bytes) :
    passes (g >>= f) k b = passes g (fun a rest => passes (f a) k rest) b := by
  rw [passes, passes, bind_apply]
  cases g b with
  | error e => cases e <;> rfl
  | ok r => rfl

theorem passes_check (broken : γ) (holds : Bool) (k : Unit → Bytes → Bool) (b : Bytes) :
    passes (check broken holds : CheckedReader γ ε Unit) k b = (holds && k () b) := by
  cases holds with
  | true => exact passes_pure () k b
  | false => rfl

theorem passes_lift (p : Reader ε α) (k : α → Bytes → Bool) (b : Bytes) :
    passes (lift p : CheckedReader γ ε α) k b =
      match p b with
      | .ok (a, rest) => k a rest
      | .error _ => true := by
  rw [passes, lift]
  cases p b with
  | error e => rfl
  | ok r => rfl

theorem passes_congr {g : CheckedReader γ ε α} {k k' : α → Bytes → Bool} {b : Bytes}
    (same : ∀ a rest, g b = .ok (a, rest) → k a rest = k' a rest) :
    passes g k b = passes g k' b := by
  rw [passes, passes]
  cases run : g b with
  | error e => cases e <;> rfl
  | ok r => exact same r.1 r.2 run

theorem passes_iff (g : CheckedReader γ ε α) (b : Bytes) :
    passes g (fun _ _ => true) b = true ↔ ∀ broken, g b ≠ .error (.inl broken) := by
  rw [passes]
  cases g b with
  | error e =>
      cases e with
      | inl broken => simp
      | inr e => simp
  | ok r => simp

end Checked

end Zumic.Lib
