/- The skip list behind one readers-writer lock, its length kept beside it in a counter, and the
validator of the list (`concurrent.rs`, `skiplist_base.rs`). -/

import Zumic.Database.SortedMap

namespace Zumic.Database

open Lib Lib.Buffer

namespace SkipList

variable {K V : Type}

/-- The errors of `validate_invariants`, with what their messages show. -/
inductive ValidationError (K : Type)
  | invalidLevel (nodeLevel maxLevel : Nat)
  | sortOrderViolation (prev key : K)
  | lengthMismatch (expected actual : Nat)

section

variable [LinearOrder K]

/-- The walk over the lowest level, from the link that was read last. -/
def validateLoop (s : SkipList K V) :
    Nat → Option Addr → Option K → Nat → Except Fault (Except (ValidationError K) Nat)
  | 0, _, _, _ => .error .endless
  | _ + 1, none, _, count => .ok (.ok count)
  | fuel + 1, some a, prev, count => do
      let n ← s.memory.deref a
      -- `forward` is an array, so that its length is the bound itself.
      let nodeLevel := maxLevel
      if maxLevel < nodeLevel then pure (.error (.invalidLevel nodeLevel maxLevel))
      else
        match prev.filter fun prev => decide (n.key ≤ prev) with
        | some prev => pure (.error (.sortOrderViolation prev n.key))
        | none => do
            let link ← s.memory.forward a 0
            validateLoop s fuel link (some n.key) (count + 1)

/-- Nodes in order are distinct: there are no more of them than addresses were handed out. -/
def validateInvariants (s : SkipList K V) : Except Fault (Except (ValidationError K) Unit) := do
  let first ← s.memory.forward s.head 0
  match ← s.validateLoop (s.nextAddr + 1) first none 0 with
  | .error e => pure (.error e)
  | .ok count =>
      if count = s.length then pure (.ok ())
      else pure (.error (.lengthMismatch s.length count))

variable [Inhabited K] [Inhabited V] {s : SkipList K V} {m : List (K × V)}

theorem Shape.length_le {cells : List (Cell K V)} (shape : s.Shape cells) :
    cells.length ≤ s.nextAddr := by
  have nodes : (cells.map Cell.addr).Nodup := (List.nodup_cons.mp shape.distinct).2
  have below : cells.map Cell.addr ⊆ List.range s.nextAddr := by
    intro a member
    obtain ⟨c, inside, rfl⟩ := List.mem_map.mp member
    refine List.mem_range.mpr (Nat.lt_of_not_le fun unused => ?_)
    have held := shape.depicts c (List.mem_cons_of_mem _ inside)
    rw [shape.fresh _ unused] at held
    cases held
  have bound := (List.subperm_of_subset nodes below).length_le
  rwa [List.length_map, List.length_range] at bound

theorem Shape.validateLoop {A R : List (Cell K V)} (shape : s.Shape (A ++ R)) {fuel : Nat}
    (enough : R.length < fuel) {prev : Option K} (before : ∀ k ∈ prev, ∀ c ∈ R, k < c.key)
    (count : Nat) :
    s.validateLoop fuel (R.map Cell.addr).head? prev count = .ok (.ok (count + R.length)) := by
  induction R generalizing A fuel prev count with
  | nil =>
      obtain ⟨fuel, rfl⟩ := Nat.exists_eq_succ_of_ne_zero (Nat.ne_of_gt enough)
      rfl
  | cons x R ih =>
      obtain ⟨fuel, rfl⟩ := Nat.exists_eq_succ_of_ne_zero (Nat.ne_of_gt (Nat.zero_lt_of_lt enough))
      have member : x ∈ s.headCell :: (A ++ x :: R) := by simp
      obtain ⟨n, held, key⟩ : ∃ n, s.memory.deref x.addr = .ok n ∧ n.key = x.key :=
        ⟨_, shape.depicts.deref member, rfl⟩
      have rising : prev.filter (fun prev => decide (n.key ≤ prev)) = none := by
        refine Option.filter_eq_none_iff.mpr fun k inside => ?_
        simpa [key] using before k inside x List.mem_cons_self
      have behind : ∀ k ∈ some n.key, ∀ c ∈ R, k < c.key := by
        rintro k ⟨rfl⟩ c later
        rw [key]
        exact (List.pairwise_cons.mp (List.pairwise_append.mp shape.sorted).2.1).1 c later
      have further : s.Shape ((A ++ [x]) ++ R) := by rwa [List.append_assoc]
      have rest := ih further (Nat.lt_of_succ_lt_succ enough) behind (count + 1)
      rw [List.map_cons, List.head?_cons, SkipList.validateLoop, held, ok_bind]
      simp only [Nat.lt_irrefl, if_false, rising, shape.forward_zero, ok_bind]
      rw [rest, List.length_cons, Nat.add_right_comm, ← Nat.add_assoc]

theorem Holds.validateInvariants (holds : s.Holds m) : s.validateInvariants = .ok (.ok ()) := by
  obtain ⟨cells, shape, rfl⟩ := holds
  have walked := @Shape.validateLoop K V _ _ _ s [] cells shape (s.nextAddr + 1)
    (Nat.lt_succ_of_le shape.length_le) none (fun _ none => by cases none) 0
  rw [SkipList.validateInvariants, shape.forward_head, ok_bind, walked, ok_bind]
  simp [shape.length]
  rfl

/-- After any history the validator has nothing to report. -/
theorem validateInvariants_run (calls : List (Call K V)) :
    ∃ s, (new : SkipList K V).run calls = .ok ((sortedRun [] calls).1, s) ∧
      s.validateInvariants = .ok (.ok ()) := by
  obtain ⟨s, ran, holds⟩ := holds_new.run calls
  exact ⟨s, ran, holds.validateInvariants⟩

end

/-- Whether a use leaves the list as it is. -/
def Call.isRead : Call K V → Bool
  | .insert .. | .remove .. | .searchMut .. | .clear => false
  | _ => true

end SkipList

open SkipList

/-- The calls that take the write lock. The closure of `with_write` uses the list any number of
times; `try_insert` is `insert` where the lock is granted in time. -/
inductive WriteCall (K V : Type)
  | insert (key : K) (value : V) (draws : Nat → UInt32)
  | remove (key : K)
  | clear
  | withWrite (calls : List (Call K V))

/-- While the write lock is held, `writer` is what its holder is about to store in the counter. -/
structure ConcurrentSkipList (K V : Type) where
  inner : SkipList K V
  cachedLength : Nat
  writer : Option (Option Nat)

namespace ConcurrentSkipList

variable {K V : Type}

/-- What the threads do, one section after the other: the uses under one read lock, the uses under
one write lock, the store that ends it with the release of the lock, and a look at the counter. -/
inductive Event (K V : Type)
  | read (calls : List {c : Call K V // c.isRead = true})
  | validateInvariants
  | write (call : WriteCall K V)
  | store
  | len

inductive Answer (K V : Type)
  | replies (l : List (Reply K V))
  | valid (result : Except (ValidationError K) Unit)
  | stored
  | len (n : Nat)

def new [Inhabited K] [Inhabited V] : ConcurrentSkipList K V := ⟨SkipList.new, 0, none⟩

variable [LinearOrder K]

/-- The replies, the list behind, and what the counter is to be set to. -/
def underLock (inner : SkipList K V) :
    WriteCall K V → Except Fault (List (Reply K V) × SkipList K V × Option Nat)
  | .insert key value draws => do
      let list ← inner.insert key value draws
      pure ([.done], list, if list.length = inner.length then none else some list.length)
  | .remove key => do
      let (value, list) ← inner.remove key
      pure ([.value value], list, if value.isSome then some list.length else none)
  | .clear => do
      let list ← inner.clear
      pure ([.done], list, some 0)
  | .withWrite calls => do
      let (replies, list) ← inner.run calls
      pure (replies, list, some list.length)

/-- A section that waits for the lock has no result. -/
def step (s : ConcurrentSkipList K V) :
    Event K V → Except Fault (Option (Answer K V × ConcurrentSkipList K V))
  | .read calls =>
      if s.writer.isSome then pure none
      else do
        let (replies, _) ← s.inner.run (calls.map Subtype.val)
        pure (some (.replies replies, s))
  | .validateInvariants =>
      if s.writer.isSome then pure none
      else do
        let result ← s.inner.validateInvariants
        pure (some (.valid result, s))
  | .write call =>
      if s.writer.isSome then pure none
      else do
        let (replies, list, due) ← underLock s.inner call
        pure (some (.replies replies, ⟨list, s.cachedLength, some due⟩))
  | .store =>
      match s.writer with
      | none => pure none
      | some due => pure (some (.stored, ⟨s.inner, due.getD s.cachedLength, none⟩))
  | .len => pure (some (.len s.cachedLength, s))

def run : ConcurrentSkipList K V → List (Event K V) →
    Except Fault (Option (List (Answer K V) × ConcurrentSkipList K V))
  | s, [] => pure (some ([], s))
  | s, e :: events => do
      match ← s.step e with
      | none => pure none
      | some (answer, s) => do
          let later ← run s events
          pure (later.map fun r => (answer :: r.1, r.2))

end ConcurrentSkipList

/-- What the list stands for: a sorted map and the length that is shown. A write shows its length
when it is over. -/
structure LockedMap (K V : Type) where
  map : List (K × V)
  shown : Nat
  writing : Bool

namespace LockedMap

open ConcurrentSkipList

variable {K V : Type} [LinearOrder K]

def callsOf : WriteCall K V → List (Call K V)
  | .insert key value draws => [.insert key value draws]
  | .remove key => [.remove key]
  | .clear => [.clear]
  | .withWrite calls => calls

def step (t : LockedMap K V) : Event K V → Option (Answer K V × LockedMap K V)
  | .read calls =>
      if t.writing then none
      else some (.replies (sortedRun t.map (calls.map Subtype.val)).1, t)
  | .validateInvariants => if t.writing then none else some (.valid (.ok ()), t)
  | .write call =>
      if t.writing then none
      else
        let (replies, map) := sortedRun t.map (callsOf call)
        some (.replies replies, ⟨map, t.shown, true⟩)
  | .store => if t.writing then some (.stored, ⟨t.map, t.map.length, false⟩) else none
  | .len => some (.len t.shown, t)

def run : LockedMap K V → List (Event K V) → Option (List (Answer K V) × LockedMap K V)
  | t, [] => some ([], t)
  | t, e :: events => do
      let (answer, t) ← t.step e
      let later ← run t events
      pure (answer :: later.1, later.2)

end LockedMap

namespace ConcurrentSkipList

variable {K V : Type} [LinearOrder K] [Inhabited K] [Inhabited V] {s : ConcurrentSkipList K V}
  {t : LockedMap K V} {m : List (K × V)}

/-- What is stored last makes the counter the length. -/
structure Shows (s : ConcurrentSkipList K V) (t : LockedMap K V) : Prop where
  holds : s.inner.Holds t.map
  cached : s.cachedLength = t.shown
  writer : s.writer.isSome = t.writing
  due : (s.writer.getD none).getD s.cachedLength = t.map.length

theorem underLock_spec {inner : SkipList K V} (holds : inner.Holds m) (call : WriteCall K V) :
    ∃ list due, underLock inner call =
        .ok ((sortedRun m (LockedMap.callsOf call)).1, list, due) ∧
      list.Holds (sortedRun m (LockedMap.callsOf call)).2 ∧
      due.getD m.length = (sortedRun m (LockedMap.callsOf call)).2.length := by
  cases call with
  | insert key value draws =>
      obtain ⟨list, done, holds'⟩ := holds.insert key value draws
      refine ⟨list, _, by rw [underLock, done]; rfl, holds', ?_⟩
      rw [holds.length, holds'.length]
      split
      · rename_i same
        exact same.symm
      · rfl
  | remove key =>
      obtain ⟨list, done, holds'⟩ := holds.remove key
      refine ⟨list, _, by rw [underLock, done]; rfl, holds', ?_⟩
      rw [holds'.length]
      cases held : Assoc.get m key with
      | some value => rfl
      | none =>
          have same := Assoc.erase_of_not_mem (Assoc.get_eq_none_iff.mp held)
          exact (congrArg List.length same).symm
  | clear =>
      obtain ⟨list, done, holds'⟩ := holds.clear
      exact ⟨list, _, by rw [underLock, done]; rfl, holds', rfl⟩
  | withWrite calls =>
      obtain ⟨list, done, holds'⟩ := holds.run calls
      exact ⟨list, some list.length, by rw [underLock, done]; rfl, holds', holds'.length⟩

/-- Two results with the same answer, the list showing the map. -/
def Same {α : Type} (p : α × ConcurrentSkipList K V) (q : α × LockedMap K V) : Prop :=
  p.1 = q.1 ∧ p.2.Shows q.2

theorem Shows.step (shows' : s.Shows t) (e : Event K V) :
    ∃ r, s.step e = .ok r ∧ Option.Rel Same r (t.step e) := by
  have writer := shows'.writer
  have due := shows'.due
  cases e with
  | len => exact ⟨_, rfl, .some ⟨by rw [shows'.cached], shows'⟩⟩
  | store =>
      rw [ConcurrentSkipList.step, LockedMap.step, ← writer]
      cases held : s.writer with
      | none => exact ⟨_, rfl, .none⟩
      | some stored =>
          rw [held] at due
          exact ⟨_, rfl, .some ⟨rfl, shows'.holds, due, rfl, due⟩⟩
  | read calls =>
      obtain ⟨list, ran, -⟩ := shows'.holds.run (calls.map Subtype.val)
      rw [ConcurrentSkipList.step, LockedMap.step, ← writer, ran]
      cases s.writer.isSome with
      | true => exact ⟨none, rfl, .none⟩
      | false => exact ⟨some _, rfl, .some ⟨rfl, shows'⟩⟩
  | validateInvariants =>
      rw [ConcurrentSkipList.step, LockedMap.step, ← writer, shows'.holds.validateInvariants]
      cases s.writer.isSome with
      | true => exact ⟨none, rfl, .none⟩
      | false => exact ⟨some _, rfl, .some ⟨rfl, shows'⟩⟩
  | write call =>
      obtain ⟨list, stored, ran, holds, length⟩ := underLock_spec shows'.holds call
      rw [ConcurrentSkipList.step, LockedMap.step, ← writer, ran]
      cases held : s.writer with
      | some _ => exact ⟨none, rfl, .none⟩
      | none =>
          rw [held] at due
          rw [← due] at length
          exact ⟨some _, rfl, .some ⟨rfl, holds, shows'.cached, rfl, length⟩⟩

theorem Shows.run (shows' : s.Shows t) (events : List (Event K V)) :
    ∃ r, s.run events = .ok r ∧ Option.Rel Same r (t.run events) := by
  induction events generalizing s t with
  | nil => exact ⟨_, rfl, .some ⟨rfl, shows'⟩⟩
  | cons e events ih =>
      obtain ⟨r, stepped, same⟩ := shows'.step e
      rw [ConcurrentSkipList.run, LockedMap.run, stepped, ok_bind]
      generalize t.step e = next at same
      cases same with
      | none => exact ⟨_, rfl, .none⟩
      | @some p q same =>
          obtain ⟨answer, s⟩ := p
          obtain ⟨rfl, same⟩ := same
          obtain ⟨later, ran, same'⟩ := ih same
          simp only [ran, ok_bind, Option.bind_eq_bind, Option.bind_some]
          generalize LockedMap.run q.2 events = rest at same'
          cases same' with
          | none => exact ⟨_, rfl, .none⟩
          | some same' => exact ⟨_, rfl, .some ⟨congrArg _ same'.1, same'.2⟩⟩

/-- In every interleaving the threads get the answers of a sorted map under one lock, the validator
included, and `len` is the length that the map had when the lock was last released. -/
theorem interleaved_as_locked (events : List (Event K V)) :
    ∃ r, (new : ConcurrentSkipList K V).run events = .ok r ∧
      Option.Rel (fun p q => p.1 = q.1 ∧ p.2.inner.InOrder q.2.map ∧
          (q.2.writing = false → p.2.cachedLength = q.2.map.length)) r
        ((⟨[], 0, false⟩ : LockedMap K V).run events) := by
  have start : (new : ConcurrentSkipList K V).Shows ⟨[], 0, false⟩ := ⟨holds_new, rfl, rfl, rfl⟩
  obtain ⟨r, ran, same⟩ := start.run events
  refine ⟨r, ran, ?_⟩
  generalize LockedMap.run _ events = q at same ⊢
  cases same with
  | none => exact .none
  | some same =>
      refine .some ⟨same.1, same.2.holds.inOrder, fun free => ?_⟩
      have due := same.2.due
      have released := Option.isSome_eq_false_iff.mp (same.2.writer.trans free)
      rwa [Option.isNone_iff_eq_none.mp released] at due

end ConcurrentSkipList

end Zumic.Database
