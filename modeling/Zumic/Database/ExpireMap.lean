/- Keys with a time to live (`expire_base.rs`): the table of deadlines and the queue of all
deadlines that were ever set. -/

import Mathlib.Data.List.Lex
import Mathlib.Data.Prod.Lex
import Zumic.Lib.Assoc
import Zumic.Lib.ByteString
import Zumic.Lib.Heap

namespace Zumic.Database

open Lib Lib.ByteString

/-- Instants are numbers of nanoseconds. The queue keeps what was renewed or removed. -/
structure ExpireMap where
  deadlines : List (Bytes × Nat)
  queue : List (Nat × Bytes)

namespace ExpireMap

/-- The order of the queue, least deadline first, then least key. -/
def rank (entry : Nat × Bytes) : (Nat ×ₗ List Nat)ᵒᵈ :=
  OrderDual.toDual (toLex (entry.1, entry.2.map UInt8.toNat))

def new : ExpireMap := ⟨[], []⟩

/-- A deadline from the first instant on that cannot be represented stops the call before it
changes anything. -/
def set (horizon now : Nat) (m : ExpireMap) (key : Bytes) (ttl : Nat) : Option ExpireMap :=
  let deadline := now + ttl
  if deadline < horizon then
    some ⟨Assoc.insert m.deadlines key deadline, (deadline, key) :: m.queue⟩
  else none

/-- The loop of `purge`, with the keys that it collected. -/
def purgeFrom (now : Nat) (m : ExpireMap) (expired : List Bytes) : List Bytes × ExpireMap :=
  match taken : Heap.pop rank m.queue with
  | none => (expired, m)
  | some ((deadline, key), queue) =>
      have := Heap.length_lt_of_pop taken
      if now < deadline then (expired, m)
      else
        match Assoc.get m.deadlines key with
        | some current =>
            if current ≤ now then
              purgeFrom now ⟨Assoc.erase m.deadlines key, queue⟩ (expired ++ [key])
            else purgeFrom now ⟨m.deadlines, queue⟩ expired
        | none => purgeFrom now ⟨m.deadlines, queue⟩ expired
termination_by m.queue.length
decreasing_by
  all_goals assumption

def purge (now : Nat) (m : ExpireMap) : List Bytes × ExpireMap := purgeFrom now m []

def get (now : Nat) (m : ExpireMap) (key : Bytes) : Bool × ExpireMap :=
  let m := (purge now m).2
  ((Assoc.get m.deadlines key).isSome, m)

def remove (m : ExpireMap) (key : Bytes) : ExpireMap :=
  { m with deadlines := Assoc.erase m.deadlines key }

inductive Call where
  | set (key : Bytes) (ttl : Nat)
  | get (key : Bytes)
  | remove (key : Bytes)
  | purge

/-- A call at an instant; one that is stopped leaves the map as it was. -/
def step (horizon : Nat) (m : ExpireMap) : Nat × Call → ExpireMap
  | (now, .set key ttl) => (m.set horizon now key ttl).getD m
  | (now, .get key) => (m.get now key).2
  | (_, .remove key) => m.remove key
  | (now, .purge) => (m.purge now).2

def run (horizon : Nat) (events : List (Nat × Call)) : ExpireMap :=
  events.foldl (step horizon) new

section

variable (horizon : Nat)

/-- The deadlines that the last `set` of each key gave it, unless a `remove` followed. -/
def lastSet (table : Bytes → Option Nat) : Nat × Call → Bytes → Option Nat
  | (now, .set key ttl) =>
      if now + ttl < horizon then Function.update table key (some (now + ttl)) else table
  | (_, .remove key) => Function.update table key none
  | _ => table

/-- The same, without the keys that were purged since. -/
def unpurged (table : Bytes → Option Nat) : Nat × Call → Bytes → Option Nat
  | (now, .get _) => fun key => (table key).filter (now < ·)
  | (now, .purge) => fun key => (table key).filter (now < ·)
  | event => lastSet horizon table event

def lastDeadline (events : List (Nat × Call)) : Bytes → Option Nat :=
  events.foldl (lastSet horizon) fun _ => none

def currentDeadline (events : List (Nat × Call)) : Bytes → Option Nat :=
  events.foldl (unpurged horizon) fun _ => none

end

/-- The table holds these deadlines, and every one of them is queued. -/
structure Holds (m : ExpireMap) (table : Bytes → Option Nat) : Prop where
  reads : ∀ key, Assoc.get m.deadlines key = table key
  queued : ∀ key deadline, table key = some deadline → (deadline, key) ∈ m.queue

section

variable {m : ExpireMap} {table : Bytes → Option Nat}

theorem holds_new : new.Holds fun _ => none :=
  ⟨fun _ => rfl, fun _ _ none => by cases none⟩

theorem least_of_pop {queue rest : List (Nat × Bytes)} {first : Nat × Bytes}
    (taken : Heap.pop rank queue = some (first, rest)) {entry : Nat × Bytes}
    (member : entry ∈ queue) : first.1 ≤ entry.1 := by
  rcases List.mem_cons.mp ((Heap.pop_perm taken).symm.subset member) with rfl | later
  · exact le_refl _
  · have below := OrderDual.toDual_le_toDual.mp (Heap.pop_greatest taken entry later)
    exact (Prod.Lex.monotone_fst _ _ below : _)

/-- An entry that was taken is missed only by its own key. -/
theorem Holds.pop {queue : List (Nat × Bytes)} {deadline : Nat} {key : Bytes}
    (holds : m.Holds table) (taken : Heap.pop rank m.queue = some ((deadline, key), queue))
    {other : Bytes} {due : Nat} (current : table other = some due)
    (apart : (due, other) ≠ (deadline, key)) : (due, other) ∈ queue := by
  have member := (Heap.pop_perm taken).symm.subset (holds.queued other due current)
  exact (List.mem_cons.mp member).resolve_left apart

theorem Holds.skip {queue : List (Nat × Bytes)} {deadline : Nat} {key : Bytes}
    (holds : m.Holds table) (taken : Heap.pop rank m.queue = some ((deadline, key), queue))
    (obsolete : table key ≠ some deadline) : Holds ⟨m.deadlines, queue⟩ table := by
  refine ⟨holds.reads, fun other due current => holds.pop taken current fun same => ?_⟩
  obtain ⟨rfl, rfl⟩ := Prod.mk.inj same
  exact obsolete current

theorem Holds.erase {queue : List (Nat × Bytes)} (holds : m.Holds table) (key : Bytes)
    (queued : ∀ other due, other ≠ key → table other = some due → (due, other) ∈ queue) :
    Holds ⟨Assoc.erase m.deadlines key, queue⟩ (Function.update table key none) := by
  constructor
  · intro other
    rw [Assoc.get_erase]
    by_cases own : key = other
    · subst own
      rw [if_pos rfl, Function.update_self]
    · rw [if_neg own, Function.update_of_ne (Ne.symm own)]
      exact holds.reads other
  · intro other due current
    by_cases own : other = key
    · subst own
      rw [Function.update_self] at current
      cases current
    · rw [Function.update_of_ne own] at current
      exact queued other due own current

theorem Holds.drop {queue : List (Nat × Bytes)} {deadline : Nat} {key : Bytes}
    (holds : m.Holds table) (taken : Heap.pop rank m.queue = some ((deadline, key), queue)) :
    Holds ⟨Assoc.erase m.deadlines key, queue⟩ (Function.update table key none) :=
  holds.erase key fun _ _ own current =>
    holds.pop taken current fun same => own (Prod.mk.inj same).2

theorem purgeFrom_due {queue : List (Nat × Bytes)} {deadline now : Nat} {key : Bytes}
    (taken : Heap.pop rank m.queue = some ((deadline, key), queue)) (due : ¬ now < deadline)
    (expired : List Bytes) : purgeFrom now m expired =
      match Assoc.get m.deadlines key with
      | some current =>
          if current ≤ now then
            purgeFrom now ⟨Assoc.erase m.deadlines key, queue⟩ (expired ++ [key])
          else purgeFrom now ⟨m.deadlines, queue⟩ expired
      | none => purgeFrom now ⟨m.deadlines, queue⟩ expired := by
  rw [purgeFrom]
  split
  · rename_i none
    rw [taken] at none
    cases none
  · rename_i same
    rw [taken] at same
    cases same
    rw [if_neg due]

/-- What a purge that starts here finds and leaves. -/
def Purges (now : Nat) (m : ExpireMap) (expired : List Bytes) (table : Bytes → Option Nat) : Prop :=
  ∃ found, (purgeFrom now m expired).1 = expired ++ found ∧ found.Nodup ∧
    (∀ key, key ∈ found ↔ ∃ deadline, table key = some deadline ∧ deadline ≤ now) ∧
    (purgeFrom now m expired).2.Holds fun key => (table key).filter (now < ·)

theorem Holds.purges_nothing {now : Nat} {expired : List Bytes} (holds : m.Holds table)
    (stops : purgeFrom now m expired = (expired, m))
    (later : ∀ key deadline, table key = some deadline → now < deadline) :
    Purges now m expired table := by
  have same : (fun key => (table key).filter (now < ·)) = table := by
    funext key
    cases current : table key with
    | none => rfl
    | some deadline => exact Option.filter_some_pos (decide_eq_true (later key deadline current))
  refine ⟨[], ?_, List.nodup_nil, fun key => ?_, ?_⟩
  · rw [stops, List.append_nil]
  · constructor
    · exact nofun
    · rintro ⟨deadline, current, due⟩
      exact absurd (later key deadline current) (Nat.not_lt.mpr due)
  · rw [stops, same]
    exact holds

theorem Holds.purges (now : Nat) (holds : m.Holds table) (expired : List Bytes) :
    Purges now m expired table := by
  induction m, expired using purgeFrom.induct now generalizing table with
  | case1 m expired taken =>
      have empty := Heap.pop_eq_none_iff.mp taken
      refine holds.purges_nothing ?_ fun key deadline current => ?_
      · rw [purgeFrom]
        split
        · rfl
        · rename_i other
          rw [taken] at other
          cases other
      · have member := holds.queued key deadline current
        rw [empty] at member
        cases member
  | case2 m expired deadline key queue taken shorter later =>
      refine holds.purges_nothing ?_ fun other due current => ?_
      · rw [purgeFrom]
        split
        · rfl
        · rename_i same
          rw [taken] at same
          cases same
          rw [if_pos later]
      · have least := least_of_pop taken (holds.queued other due current)
        exact Nat.lt_of_lt_of_le later least
  | case3 m expired deadline key queue taken shorter due current read past ih =>
      have step := purgeFrom_due taken due expired
      simp only [read, if_pos past] at step
      have here : table key = some current := (holds.reads key).symm.trans read
      obtain ⟨found, collected, distinct, complete, left⟩ := ih (holds.drop taken)
      have fresh : key ∉ found := by
        rw [complete, Function.update_self]
        rintro ⟨deadline, none, -⟩
        cases none
      refine ⟨key :: found, ?_, List.nodup_cons.mpr ⟨fresh, distinct⟩, fun other => ?_, ?_⟩
      · rw [step, collected, List.append_assoc, List.singleton_append]
      · rw [List.mem_cons, complete]
        by_cases own : other = key
        · subst own
          exact iff_of_true (.inl rfl) ⟨current, here, past⟩
        · rw [Function.update_of_ne own]
          exact or_iff_right own
      · have same : (fun other => (Function.update table key none other).filter (now < ·)) =
            fun other => (table other).filter (now < ·) := by
          funext other
          by_cases own : other = key
          · subst own
            have stale : (some current).filter (fun due => decide (now < due)) = none := by
              simpa using past
            rw [Function.update_self, here, stale]
            rfl
          · rw [Function.update_of_ne own]
        rw [step, ← same]
        exact left
  | case4 m expired deadline key queue taken shorter due current read future ih =>
      have step := purgeFrom_due taken due expired
      simp only [read, if_neg future] at step
      have renewed : table key ≠ some deadline := by
        rw [← holds.reads key, read]
        intro same
        obtain rfl := Option.some.inj same
        exact future (Nat.le_of_not_lt due)
      unfold Purges
      rw [step]
      exact ih (holds.skip taken renewed)
  | case5 m expired deadline key queue taken shorter due read ih =>
      have step := purgeFrom_due taken due expired
      simp only [read] at step
      have removed : table key ≠ some deadline := by
        rw [← holds.reads key, read]
        exact nofun
      unfold Purges
      rw [step]
      exact ih (holds.skip taken removed)

end

section

variable {horizon : Nat} {m : ExpireMap} {table : Bytes → Option Nat}

theorem Holds.purge (holds : m.Holds table) (now : Nat) :
    (m.purge now).2.Holds fun key => (table key).filter (now < ·) := by
  obtain ⟨found, -, -, -, left⟩ := holds.purges now []
  exact left

theorem Holds.remove (holds : m.Holds table) (key : Bytes) :
    (m.remove key).Holds (Function.update table key none) :=
  holds.erase key fun other due _ current => holds.queued other due current

theorem Holds.put (holds : m.Holds table) (key : Bytes) (deadline : Nat) :
    Holds ⟨Assoc.insert m.deadlines key deadline, (deadline, key) :: m.queue⟩
      (Function.update table key (some deadline)) := by
  constructor
  · intro other
    rw [Assoc.get_insert]
    by_cases own : key = other
    · subst own
      rw [if_pos rfl, Function.update_self]
    · rw [if_neg own, Function.update_of_ne (Ne.symm own)]
      exact holds.reads other
  · intro other due current
    by_cases own : other = key
    · subst own
      rw [Function.update_self] at current
      obtain rfl := Option.some.inj current
      exact List.mem_cons_self
    · rw [Function.update_of_ne own] at current
      exact List.mem_cons_of_mem _ (holds.queued other due current)

theorem Holds.step (holds : m.Holds table) (event : Nat × Call) :
    (m.step horizon event).Holds (unpurged horizon table event) := by
  obtain ⟨now, call⟩ := event
  cases call with
  | get key => exact holds.purge now
  | purge => exact holds.purge now
  | remove key => exact holds.remove key
  | set key ttl =>
      unfold ExpireMap.step ExpireMap.set unpurged lastSet
      dsimp only
      by_cases fits : now + ttl < horizon
      · rw [if_pos fits, if_pos fits]
        exact holds.put key (now + ttl)
      · rw [if_neg fits, if_neg fits]
        exact holds

theorem Holds.run (holds : m.Holds table) (events : List (Nat × Call)) :
    (events.foldl (ExpireMap.step horizon) m).Holds (events.foldl (unpurged horizon) table) := by
  induction events generalizing m table with
  | nil => exact holds
  | cons event events ih => exact ih (holds.step event)

theorem holds_run (horizon : Nat) (events : List (Nat × Call)) :
    (run horizon events).Holds (currentDeadline horizon events) :=
  holds_new.run events

/-- Two tables that agree on the deadlines after an instant. -/
def AgreeAfter (now : Nat) (table table' : Bytes → Option Nat) : Prop :=
  ∀ key deadline, now < deadline → (table key = some deadline ↔ table' key = some deadline)

theorem AgreeAfter.later {now now' : Nat} {table table' : Bytes → Option Nat}
    (agree : AgreeAfter now table table') (le : now ≤ now') : AgreeAfter now' table table' :=
  fun key deadline after => agree key deadline (Nat.lt_of_le_of_lt le after)

/-- What a purge takes out is not after its instant. -/
theorem AgreeAfter.step {table table' : Bytes → Option Nat} {event : Nat × Call}
    (agree : AgreeAfter event.1 table table') :
    AgreeAfter event.1 (unpurged horizon table event) (lastSet horizon table' event) := by
  obtain ⟨now, call⟩ := event
  have purged : AgreeAfter now (fun key => (table key).filter (now < ·)) table' := by
    intro key deadline after
    rw [← agree key deadline after, Option.filter_eq_some_iff, decide_eq_true_eq]
    exact and_iff_left after
  have written : ∀ key value, AgreeAfter now (Function.update table key value)
      (Function.update table' key value) := by
    intro key value other deadline after
    by_cases own : other = key
    · subst own
      rw [Function.update_self, Function.update_self]
    · rw [Function.update_of_ne own, Function.update_of_ne own]
      exact agree other deadline after
  cases call with
  | get key => exact purged
  | purge => exact purged
  | remove key => exact written key none
  | set key ttl =>
      unfold unpurged lastSet
      dsimp only
      split
      · exact written key _
      · exact agree

theorem AgreeAfter.run {events : List (Nat × Call)} {start now : Nat}
    {table table' : Bytes → Option Nat} (agree : AgreeAfter start table table')
    (ordered : (events.map Prod.fst).Pairwise (· ≤ ·)) (first : ∀ event ∈ events, start ≤ event.1)
    (last : ∀ event ∈ events, event.1 ≤ now) (since : start ≤ now) :
    AgreeAfter now (events.foldl (unpurged horizon) table)
      (events.foldl (lastSet horizon) table') := by
  induction events generalizing start table table' with
  | nil => exact agree.later since
  | cons event events ih =>
      rw [List.map_cons, List.pairwise_cons] at ordered
      have here := agree.later (first event List.mem_cons_self)
      refine ih here.step ordered.2 (fun next member => ?_)
        (fun next member => last next (List.mem_cons_of_mem _ member))
        (last event List.mem_cons_self)
      exact ordered.1 next.1 (List.mem_map_of_mem member)

/-- Whatever was called before, in the order of time: a key is there exactly when its last `set`
was not followed by a `remove` and is due later, and a purge gives each key that is due and
neither removed nor purged since once, and leaves the others. -/
theorem expiry_exact {events : List (Nat × Call)} {now : Nat}
    (ordered : (events.map Prod.fst).Pairwise (· ≤ ·))
    (last : ∀ event ∈ events, event.1 ≤ now) :
    (∀ key, ((run horizon events).get now key).1 = true ↔
      ∃ deadline, lastDeadline horizon events key = some deadline ∧ now < deadline) ∧
    ((run horizon events).purge now).1.Nodup ∧
    (∀ key, key ∈ ((run horizon events).purge now).1 ↔
      ∃ deadline, currentDeadline horizon events key = some deadline ∧ deadline ≤ now) ∧
    ∀ key, Assoc.get ((run horizon events).purge now).2.deadlines key =
      (currentDeadline horizon events key).filter (now < ·) := by
  obtain ⟨found, collected, distinct, complete, left⟩ := (holds_run horizon events).purges now []
  rw [List.nil_append] at collected
  have agree : AgreeAfter now (currentDeadline horizon events) (lastDeadline horizon events) :=
    AgreeAfter.run (fun _ _ _ => Iff.rfl) ordered (fun _ _ => Nat.zero_le _) last (Nat.zero_le now)
  refine ⟨fun key => ?_, ?_, fun key => ?_, left.reads⟩
  · have read : ((run horizon events).get now key).1 =
        ((currentDeadline horizon events key).filter (now < ·)).isSome :=
      congrArg Option.isSome (left.reads key)
    rw [read, Option.isSome_iff_exists]
    constructor
    · rintro ⟨deadline, kept⟩
      obtain ⟨current, after⟩ := Option.filter_eq_some_iff.mp kept
      have after := of_decide_eq_true after
      exact ⟨deadline, (agree key deadline after).mp current, after⟩
    · rintro ⟨deadline, set, after⟩
      exact ⟨deadline, Option.filter_eq_some_iff.mpr
        ⟨(agree key deadline after).mpr set, decide_eq_true after⟩⟩
  · have same : ((run horizon events).purge now).1 = found := collected
    rw [same]
    exact distinct
  · have same : ((run horizon events).purge now).1 = found := collected
    rw [same]
    exact complete key

/-- A key that is renewed to an earlier deadline. -/
theorem expiry_exact_renewed :
    ((run 100 [(1, .set [7] 50), (2, .set [7] 3)]).get 5 [7]).1 = true ↔
      ∃ deadline, lastDeadline 100 [(1, .set [7] 50), (2, .set [7] 3)] [7] = some deadline ∧
        5 < deadline :=
  (expiry_exact (by decide) (by decide)).1 [7]

end

end ExpireMap

end Zumic.Database
