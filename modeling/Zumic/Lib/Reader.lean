/- Readers over byte strings, what it means for a reader to consume exactly an encoding, and readers
that are fed a chunk at a time. -/

import Zumic.Lib.ByteString

namespace Zumic.Lib

open Lib.ByteString

/-- A computation that reads from the front of a byte string and may fail. -/
abbrev Reader (ε α : Type) := StateT Bytes (Except ε) α

namespace Reader

variable {ε α β : Type}

/-- The reader turns exactly `b` into `a`, whatever follows. -/
def Reads (p : Reader ε α) (b : Bytes) (a : α) : Prop :=
  ∀ t, p (b ++ t) = .ok (a, t)

theorem pure_apply (a : α) (b : Bytes) : (pure a : Reader ε α) b = .ok (a, b) := rfl

theorem bind_apply (p : Reader ε α) (f : α → Reader ε β) (b : Bytes) :
    (p >>= f) b = (p b).bind fun r => f r.1 r.2 := rfl

theorem bind_of_ok {p : Reader ε α} {f : α → Reader ε β} {b rest : Bytes} {a : α}
    (run : p b = .ok (a, rest)) : (p >>= f) b = f a rest := by
  rw [bind_apply, run]
  rfl

theorem bind_of_error {p : Reader ε α} {f : α → Reader ε β} {b : Bytes} {e : ε}
    (run : p b = .error e) : (p >>= f) b = .error e := by
  rw [bind_apply, run]
  rfl

theorem bind_eq_ok {p : Reader ε α} {f : α → Reader ε β} {b : Bytes} {r : β × Bytes}
    (run : (p >>= f) b = .ok r) : ∃ a rest, p b = .ok (a, rest) ∧ f a rest = .ok r := by
  rw [bind_apply] at run
  cases first : p b with
  | error e =>
      rw [first] at run
      exact absurd run (by simp [Except.bind])
  | ok s =>
      rw [first] at run
      exact ⟨s.1, s.2, rfl, run⟩

theorem reads_pure (a : α) : Reads (pure a : Reader ε α) [] a :=
  fun _ => rfl

theorem Reads.bind {p : Reader ε α} {f : α → Reader ε β} {b c : Bytes} {a : α} {r : β}
    (first : Reads p b a) (second : Reads (f a) c r) : Reads (p >>= f) (b ++ c) r := by
  intro t
  rw [List.append_assoc, bind_of_ok (first (c ++ t))]
  exact second t

theorem Reads.bind_pure {p : Reader ε α} {f : α → β} {b : Bytes} {a : α} (first : Reads p b a) :
    Reads (p >>= fun a => pure (f a)) b (f a) := by
  intro t
  rw [bind_of_ok (first t)]
  rfl

/-- Takes the next byte, or fails with `e`. -/
def next (e : ε) : Reader ε UInt8
  | [] => .error e
  | x :: b => .ok (x, b)

/-- Takes the next `n` bytes, or fails with `e`. -/
def take (n : Nat) (e : ε) : Reader ε Bytes :=
  fun b => if n ≤ b.length then .ok (b.take n, b.drop n) else .error e

/-- Takes up to `n` bytes. -/
def takeUpTo (n : Nat) : Reader ε Bytes :=
  fun b => .ok (b.take n, b.drop n)

/-- A result that reads nothing. -/
def ofExcept : Except ε α → Reader ε α
  | .ok a => pure a
  | .error e => throw e

theorem reads_next (e : ε) (x : UInt8) : Reads (next e) [x] x :=
  fun _ => rfl

theorem reads_take (e : ε) (b : Bytes) : Reads (take b.length e) b b := by
  intro t
  simp [take]

theorem reads_take_of_length {e : ε} {b : Bytes} {n : Nat} (length : b.length = n) :
    Reads (take n e) b b := by
  subst length
  exact reads_take e b

/-- Reads `n` items one after another, the first of them with index `i`. -/
def readFrom (p : Nat → Reader ε α) : Nat → Nat → Reader ε (List α)
  | _, 0 => pure []
  | i, n + 1 => do
      let a ← p i
      let l ← readFrom p (i + 1) n
      pure (a :: l)

/-- Reads `n` items one after another. -/
def readMany (p : Nat → Reader ε α) (n : Nat) : Reader ε (List α) := readFrom p 0 n

theorem length_of_readFrom {p : Nat → Reader ε α} {i n : Nat} {b rest : Bytes}
    {l : List α} (run : readFrom p i n b = .ok (l, rest)) : l.length = n := by
  induction n generalizing i b l rest with
  | zero =>
      obtain ⟨rfl, -⟩ := Prod.mk.inj (Except.ok.inj run)
      rfl
  | succ n ih =>
      obtain ⟨a, s, -, later⟩ := bind_eq_ok run
      obtain ⟨l', s', tail, made⟩ := bind_eq_ok later
      obtain ⟨rfl, -⟩ := Prod.mk.inj (Except.ok.inj made)
      rw [List.length_cons, ih tail]

theorem length_of_readMany {p : Nat → Reader ε α} {n : Nat} {b rest : Bytes} {l : List α}
    (run : readMany p n b = .ok (l, rest)) : l.length = n :=
  length_of_readFrom run

theorem reads_readFrom {p : Nat → Reader ε α} {encode : β → Bytes} {decoded : β → α}
    (l : List β) (each : ∀ x ∈ l, ∀ i, Reads (p i) (encode x) (decoded x)) (i : Nat) :
    Reads (readFrom p i l.length) (l.flatMap encode) (l.map decoded) := by
  induction l generalizing i with
  | nil => exact reads_pure []
  | cons x l ih =>
      have head : Reads (p i) (encode x) (decoded x) := each x (by simp) i
      have tail := ih (fun y hy => each y (List.mem_cons_of_mem _ hy)) (i + 1)
      rw [List.flatMap_cons]
      exact head.bind tail.bind_pure

theorem reads_readMany {p : Nat → Reader ε α} {encode : β → Bytes} {decoded : β → α}
    (l : List β) (each : ∀ x ∈ l, ∀ i, Reads (p i) (encode x) (decoded x)) :
    Reads (readMany p l.length) (l.flatMap encode) (l.map decoded) :=
  reads_readFrom l each 0

theorem reads_readFrom_mapM {p : Nat → Reader ε α} {encode : β → Bytes}
    {decoded : β → Option α} (l : List β)
    (each : ∀ x ∈ l, ∀ a, decoded x = some a → ∀ i, Reads (p i) (encode x) a) {m : List α}
    (image : l.mapM decoded = some m) (i : Nat) :
    Reads (readFrom p i l.length) (l.flatMap encode) m := by
  induction l generalizing m i with
  | nil =>
      obtain rfl : [] = m := by simpa using image
      exact reads_pure []
  | cons x l ih =>
      rw [List.mapM_cons] at image
      obtain ⟨a, head, rest⟩ := Option.bind_eq_some_iff.mp image
      obtain ⟨m', tail, last⟩ := Option.bind_eq_some_iff.mp rest
      obtain rfl : a :: m' = m := by simpa using last
      rw [List.flatMap_cons]
      have first := each x (by simp) a head i
      have second := ih (fun y hy => each y (List.mem_cons_of_mem _ hy)) tail (i + 1)
      exact first.bind second.bind_pure

theorem reads_readMany_mapM {p : Nat → Reader ε α} {encode : β → Bytes}
    {decoded : β → Option α} (l : List β)
    (each : ∀ x ∈ l, ∀ a, decoded x = some a → ∀ i, Reads (p i) (encode x) a) {m : List α}
    (image : l.mapM decoded = some m) : Reads (readMany p l.length) (l.flatMap encode) m :=
  reads_readFrom_mapM l each image 0

/-- The reader fails on `b`, whatever follows. -/
def Fails (p : Reader ε α) (b : Bytes) : Prop :=
  ∀ t, ∃ e, p (b ++ t) = .error e

theorem Fails.bind {p : Reader ε α} {f : α → Reader ε β} {b : Bytes} (first : Fails p b)
    (c : Bytes) : Fails (p >>= f) (b ++ c) := by
  intro t
  obtain ⟨e, run⟩ := first (c ++ t)
  exact ⟨e, by rw [List.append_assoc, bind_of_error run]⟩

theorem Reads.bind_fails {p : Reader ε α} {f : α → Reader ε β} {b c : Bytes} {a : α}
    (first : Reads p b a) (second : Fails (f a) c) : Fails (p >>= f) (b ++ c) := by
  intro t
  obtain ⟨e, run⟩ := second t
  exact ⟨e, by rw [List.append_assoc, bind_of_ok (first (c ++ t)), run]⟩

theorem fails_readFrom {p : Nat → Reader ε α} {encode : β → Bytes}
    {decoded : β → Option α} (l : List β)
    (some' : ∀ x ∈ l, ∀ a, decoded x = some a → ∀ i, Reads (p i) (encode x) a)
    (none' : ∀ x ∈ l, decoded x = none → ∀ i, Fails (p i) (encode x))
    (bad : l.mapM decoded = none) (i : Nat) :
    Fails (readFrom p i l.length) (l.flatMap encode) := by
  induction l generalizing i with
  | nil => exact absurd bad (by simp)
  | cons x l ih =>
      rw [List.flatMap_cons]
      cases head : decoded x with
      | none => exact (none' x (by simp) head i).bind _
      | some a =>
          have rest : l.mapM decoded = none := by
            cases tail : l.mapM decoded with
            | none => rfl
            | some l' => simp [List.mapM_cons, head, tail] at bad
          have tail := ih (fun y hy => some' y (List.mem_cons_of_mem _ hy))
            (fun y hy => none' y (List.mem_cons_of_mem _ hy)) rest (i + 1)
          have last := tail.bind (f := fun l => (pure (a :: l) : Reader ε (List α))) []
          rw [List.append_nil] at last
          exact (some' x (by simp) a head i).bind_fails last

theorem fails_readMany {p : Nat → Reader ε α} {encode : β → Bytes}
    {decoded : β → Option α} (l : List β)
    (some' : ∀ x ∈ l, ∀ a, decoded x = some a → ∀ i, Reads (p i) (encode x) a)
    (none' : ∀ x ∈ l, decoded x = none → ∀ i, Fails (p i) (encode x))
    (bad : l.mapM decoded = none) :
    Fails (readMany p l.length) (l.flatMap encode) :=
  fails_readFrom l some' none' bad 0

/-- The reader never hands back more bytes than it was given. -/
def Shrinks (p : Reader ε α) : Prop :=
  ∀ b a rest, p b = .ok (a, rest) → rest.length ≤ b.length

theorem shrinks_pure (a : α) : Shrinks (pure a : Reader ε α) := by
  intro b r rest run
  obtain ⟨-, rfl⟩ := Prod.mk.inj (Except.ok.inj run)
  exact le_refl _

theorem Shrinks.bind {p : Reader ε α} {f : α → Reader ε β} (first : Shrinks p)
    (second : ∀ a, Shrinks (f a)) : Shrinks (p >>= f) := by
  intro b r rest run
  obtain ⟨a, middle, runFirst, runSecond⟩ := bind_eq_ok run
  exact (second a middle r rest runSecond).trans (first b a middle runFirst)

theorem shrinks_throw (e : ε) : Shrinks (throw e : Reader ε α) := by
  intro b a rest run
  exact absurd run (by simp [throw, throwThe, MonadExceptOf.throw, StateT.lift])

theorem shrinks_ite {c : Prop} [Decidable c] {p q : Reader ε α} (yes : Shrinks p)
    (no : Shrinks q) : Shrinks (if c then p else q) := by
  split
  · exact yes
  · exact no

theorem ofExcept_eq_ok {x : Except ε α} {b rest : Bytes} {a : α}
    (run : ofExcept x b = .ok (a, rest)) : x = .ok a := by
  cases x with
  | error e => cases run
  | ok a' => exact congrArg _ (Prod.mk.inj (Except.ok.inj run)).1

theorem shrinks_ofExcept (x : Except ε α) : Shrinks (ofExcept x) := by
  cases x with
  | error e => exact shrinks_throw e
  | ok a => exact shrinks_pure a

theorem shrinks_takeUpTo (n : Nat) : Shrinks (takeUpTo n : Reader ε Bytes) := by
  intro s b rest run
  obtain ⟨-, rfl⟩ := Prod.mk.inj (Except.ok.inj run)
  simp

theorem shrinks_next (e : ε) : Shrinks (next e) := by
  intro s b rest run
  cases s with
  | nil => exact absurd run (by simp [next])
  | cons x s =>
      obtain ⟨-, rfl⟩ := Prod.mk.inj (Except.ok.inj run)
      simp

theorem shrinks_take (n : Nat) (e : ε) : Shrinks (take n e) := by
  intro s b rest run
  rw [take] at run
  split at run
  · obtain ⟨-, rfl⟩ := Prod.mk.inj (Except.ok.inj run)
    simp
  · exact absurd run (by simp)

/-- The results with `P` do not depend on what follows the bytes they were read from. -/
def StableOn (P : α → Prop) (p : Reader ε α) : Prop :=
  ∀ b a rest t, P a → p b = .ok (a, rest) → p (b ++ t) = .ok (a, rest ++ t)

theorem stableOn_pure (P : α → Prop) (a : α) : StableOn P (pure a : Reader ε α) := by
  intro b r rest t _ run
  obtain ⟨rfl, rfl⟩ := Prod.mk.inj (Except.ok.inj run)
  rfl

theorem stableOn_throw (P : α → Prop) (e : ε) : StableOn P (throw e : Reader ε α) := by
  intro b a rest t _ run
  exact absurd run (by simp [throw, throwThe, MonadExceptOf.throw, StateT.lift])

theorem stableOn_ite {P : α → Prop} {c : Prop} [Decidable c] {p q : Reader ε α}
    (yes : StableOn P p) (no : StableOn P q) : StableOn P (if c then p else q) := by
  split
  · exact yes
  · exact no

theorem StableOn.bind {P : α → Prop} {Q : β → Prop} {p : Reader ε α} {f : α → Reader ε β}
    (first : StableOn P p) (second : ∀ a, StableOn Q (f a))
    (needs : ∀ a b r rest, f a b = .ok (r, rest) → Q r → P a) : StableOn Q (p >>= f) := by
  intro b r rest t accepted run
  obtain ⟨a, middle, runFirst, runSecond⟩ := bind_eq_ok run
  have kept := needs a middle r rest runSecond accepted
  rw [bind_of_ok (first b a middle t kept runFirst)]
  exact second a middle r rest t accepted runSecond

/-- All results are stable. -/
abbrev Stable (p : Reader ε α) : Prop := StableOn (fun _ => True) p

theorem Stable.bind {Q : β → Prop} {p : Reader ε α} {f : α → Reader ε β} (first : Stable p)
    (second : ∀ a, StableOn Q (f a)) : StableOn Q (p >>= f) :=
  StableOn.bind first second fun _ _ _ _ _ _ => trivial

theorem StableOn.not_of_cut {P : α → Prop} {p : Reader ε α} {b s t rest : Bytes} {a r : α}
    (stable : StableOn P p) (reads : Reads p b a) (cut : b = s ++ t) (some' : t ≠ [])
    (run : p s = .ok (r, rest)) : ¬ P r := by
  intro accepted
  have longer := stable s r rest t accepted run
  have whole := reads []
  rw [List.append_nil, cut, longer] at whole
  have ends : rest ++ t = [] := (Prod.mk.inj (Except.ok.inj whole)).2
  exact some' (List.append_eq_nil_iff.mp ends).2

/-- Two readers that differ in their errors at most. -/
def Agrees (p q : Reader ε α) : Prop :=
  ∀ b r, p b = .ok r ↔ q b = .ok r

theorem Agrees.refl (p : Reader ε α) : Agrees p p :=
  fun _ _ => Iff.rfl

theorem Agrees.symm {p q : Reader ε α} (agrees : Agrees p q) : Agrees q p :=
  fun b r => (agrees b r).symm

theorem Agrees.bind_ok {p q : Reader ε α} {f g : α → Reader ε β} (first : Agrees p q)
    (second : ∀ a, Agrees (f a) (g a)) {b : Bytes} {r : β × Bytes} (run : (p >>= f) b = .ok r) :
    (q >>= g) b = .ok r := by
  obtain ⟨a, rest, read, run'⟩ := bind_eq_ok run
  rw [bind_of_ok ((first b _).mp read)]
  exact (second a rest r).mp run'

theorem Agrees.bind {p q : Reader ε α} {f g : α → Reader ε β} (first : Agrees p q)
    (second : ∀ a, Agrees (f a) (g a)) : Agrees (p >>= f) (q >>= g) :=
  fun _ _ => ⟨first.bind_ok second, first.symm.bind_ok fun a => (second a).symm⟩

theorem agrees_throw (e e' : ε) : Agrees (throw e : Reader ε α) (throw e') :=
  fun _ _ => ⟨fun run => (by cases run), fun run => (by cases run)⟩

theorem agrees_ite {c : Prop} [Decidable c] {p q p' q' : Reader ε α} (yes : Agrees p p')
    (no : Agrees q q') : Agrees (if c then p else q) (if c then p' else q') := by
  split
  · exact yes
  · exact no

theorem agrees_take (n : Nat) (e e' : ε) : Agrees (take n e) (take n e') := by
  intro b r
  rw [take, take]
  split
  · exact Iff.rfl
  · exact ⟨fun run => (by cases run), fun run => (by cases run)⟩

/-- `P` holds of whatever the reader gives. -/
def Yields (P : α → Prop) (p : Reader ε α) : Prop :=
  ∀ b a rest, p b = .ok (a, rest) → P a

theorem yields_pure {P : α → Prop} {a : α} (holds : P a) : Yields P (pure a : Reader ε α) := by
  intro b a' rest run
  obtain ⟨rfl, -⟩ := Prod.mk.inj (Except.ok.inj run)
  exact holds

theorem yields_throw {P : α → Prop} (e : ε) : Yields P (throw e : Reader ε α) := by
  intro b a rest run
  cases run

theorem yields_ite {P : α → Prop} {c : Prop} [Decidable c] {p q : Reader ε α} (yes : Yields P p)
    (no : Yields P q) : Yields P (if c then p else q) := by
  split
  · exact yes
  · exact no

theorem yields_bind {P : β → Prop} {p : Reader ε α} {f : α → Reader ε β}
    (last : ∀ a, Yields P (f a)) : Yields P (p >>= f) := by
  intro b r rest run
  obtain ⟨a, middle, -, later⟩ := bind_eq_ok run
  exact last a middle r rest later

theorem yields_readFrom {P : α → Prop} {p : Nat → Reader ε α} (each : ∀ i, Yields P (p i))
    (i n : Nat) : Yields (fun l => ∀ a ∈ l, P a) (readFrom p i n) := by
  induction n generalizing i with
  | zero => exact yields_pure fun a member => absurd member List.not_mem_nil
  | succ n ih =>
      intro b l rest run
      obtain ⟨a, middle, first, later⟩ := bind_eq_ok run
      obtain ⟨l', middle', others, made⟩ := bind_eq_ok later
      obtain ⟨rfl, -⟩ := Prod.mk.inj (Except.ok.inj made)
      intro x member
      rcases List.mem_cons.mp member with rfl | old
      · exact each i _ _ _ first
      · exact ih (i + 1) _ _ _ others x old

theorem yields_readMany {P : α → Prop} {p : Nat → Reader ε α} (each : ∀ i, Yields P (p i))
    (n : Nat) : Yields (fun l => ∀ a ∈ l, P a) (readMany p n) := yields_readFrom each 0 n

end Reader

end Zumic.Lib

namespace Zumic.Lib.Resume

open Lib.ByteString

variable {ε σ α : Type}

/-- The answers to the chunks, each handed over once. A failure leaves the state `reset`. -/
def feed (decode : σ → Reader ε (Option α × σ)) (reset : σ) :
    σ → List Bytes → List (Except ε (Option α))
  | _, [] => []
  | state, chunk :: chunks =>
      match decode state chunk with
      | .ok ((out, state), _) => .ok out :: feed decode reset state chunks
      | .error e => .error e :: feed decode reset reset chunks

/-- The answers of a reader that waits through `n` chunks and finishes with the next one. -/
def finishesAfter (n : Nat) (a : α) : List (Except ε (Option α)) :=
  List.replicate n (.ok none) ++ [.ok (some a)]

/-- A reader that can be stopped after any of the pieces: it takes each piece in one step, and at
the end of its input it is left in a state from which it goes on as before. -/
inductive Resumes (decode : σ → Reader ε (Option α × σ)) (a : α) :
    (Bytes → Except ε ((Option α × σ) × Bytes)) → List Bytes → Prop
  | done {cont : Bytes → Except ε ((Option α × σ) × Bytes)} {final : σ} {rest : Bytes}
      (finished : cont [] = .ok ((some a, final), rest)) : Resumes decode a cont []
  | piece {cont cont' : Bytes → Except ε ((Option α × σ) × Bytes)} {p : Bytes} {ps : List Bytes}
      (step : ∀ s, cont (p ++ s) = cont' s)
      (pause : ps ≠ [] → ∃ state rest, cont' [] = .ok ((none, state), rest) ∧
        ∀ s, decode state s = cont' s)
      (later : Resumes decode a cont' ps) : Resumes decode a cont (p :: ps)

variable {decode : σ → Reader ε (Option α × σ)} {a : α}

theorem resumes_group {group ps : List Bytes}
    {cont : Bytes → Except ε ((Option α × σ) × Bytes)} (nonempty : group ≠ [])
    (resumes : Resumes decode a cont (group ++ ps)) :
    ∃ cont', (∀ s, cont (group.flatten ++ s) = cont' s) ∧ Resumes decode a cont' ps ∧
      (ps ≠ [] → ∃ state rest, cont' [] = .ok ((none, state), rest) ∧
        ∀ s, decode state s = cont' s) := by
  induction group generalizing cont with
  | nil => exact absurd rfl nonempty
  | cons p group ih =>
      cases resumes with
      | piece step pause later =>
          rename_i cont'
          by_cases last : group = []
          · subst last
            refine ⟨cont', fun s => ?_, later, pause⟩
            rw [← step s]
            simp
          · obtain ⟨cont'', whole, rest⟩ := ih last later
            refine ⟨cont'', fun s => ?_, rest⟩
            rw [← whole s, ← step (group.flatten ++ s)]
            simp

theorem feed_of_resumes {groups : List (List Bytes)} {state reset : σ}
    (some' : groups ≠ []) (nonempty : ∀ g ∈ groups, g ≠ [])
    (resumes : Resumes decode a (decode state) groups.flatten) :
    feed decode reset state (groups.map List.flatten) = finishesAfter (groups.length - 1) a := by
  induction groups generalizing state with
  | nil => exact absurd rfl some'
  | cons g groups ih =>
      obtain ⟨cont', whole, later, pause⟩ :=
        resumes_group (nonempty g (by simp)) (by simpa using resumes)
      have answer : decode state g.flatten = cont' [] := by
        simpa using whole []
      by_cases last : groups = []
      · subst last
        cases later with
        | done finished =>
            simp [feed, answer, finished, finishesAfter]
      · have nonempty' : ∀ h ∈ groups, h ≠ [] := fun h hh => nonempty h (List.mem_cons_of_mem _ hh)
        have more : groups.flatten ≠ [] := by
          obtain ⟨h, hs, rfl⟩ := List.exists_cons_of_ne_nil last
          simp [nonempty' h (by simp)]
        obtain ⟨next, rest, waiting, same⟩ := pause more
        have reader : decode next = cont' := funext same
        have resumes' : Resumes decode a (decode next) groups.flatten := by
          rw [reader]
          exact later
        have tail := ih last nonempty' resumes'
        have positive := List.length_pos_iff.mpr last
        obtain ⟨n, size⟩ : ∃ n, groups.length = n + 1 := ⟨groups.length - 1, by omega⟩
        rw [size] at tail
        simp only [List.map_cons, feed, answer, waiting, tail, List.length_cons, size,
          finishesAfter, Nat.add_sub_cancel, List.replicate_succ, List.cons_append]

theorem feed_eq_finishesAfter_zero {state reset : σ} {chunks : List Bytes}
    (run : feed decode reset state chunks = finishesAfter 0 a) :
    ∃ chunk next rest, chunks = [chunk] ∧ decode state chunk = .ok ((some a, next), rest) := by
  cases chunks with
  | nil => exact absurd run (by simp [feed, finishesAfter])
  | cons chunk chunks =>
      cases answer : decode state chunk with
      | error e => simp [feed, answer, finishesAfter] at run
      | ok r =>
          obtain ⟨⟨out, next⟩, rest⟩ := r
          simp only [feed, answer, finishesAfter, List.replicate_zero, List.nil_append,
            List.cons.injEq, Except.ok.injEq] at run
          obtain ⟨rfl, ended⟩ := run
          cases chunks with
          | nil => exact ⟨chunk, next, rest, rfl, answer⟩
          | cons chunk' chunks =>
              unfold feed at ended
              split at ended <;> exact absurd ended (by simp)

theorem feed_eq_finishesAfter_succ {state reset : σ} {chunks : List Bytes} {n : Nat}
    (run : feed decode reset state chunks = finishesAfter (n + 1) a) :
    ∃ chunk later next rest, chunks = chunk :: later ∧
      decode state chunk = .ok ((none, next), rest) ∧
      feed decode reset next later = finishesAfter n a := by
  cases chunks with
  | nil => exact absurd run (by simp [feed, finishesAfter])
  | cons chunk chunks =>
      cases answer : decode state chunk with
      | error e => simp [feed, answer, finishesAfter, List.replicate_succ] at run
      | ok r =>
          obtain ⟨⟨out, next⟩, rest⟩ := r
          simp only [feed, answer, finishesAfter, List.replicate_succ, List.cons_append,
            List.cons.injEq, Except.ok.injEq] at run
          obtain ⟨rfl, later⟩ := run
          exact ⟨chunk, chunks, next, rest, rfl, answer, later⟩

end Zumic.Lib.Resume
