/- Two clients on one hash set, one of which adds members while the other takes some out. Another
client may come in wherever a call leaves a lock. -/

import Zumic.Engine.Memory
import Zumic.Lib.EmptiedSet
import Zumic.Lib.Runs

namespace Zumic.Engine

open Database Lib

/-- A call that takes members out, with the random numbers that it meets. -/
inductive Removal where
  | srem (removed : List Sds)
  | spop (rng : Rng) (count : Int64)

namespace Removal

def command : Removal → String
  | .srem _ => "SREM"
  | .spop _ _ => "SPOP"

/-- The members that a call takes out, and those that it leaves. -/
def split (set : List Sds) : Removal → List Sds × List Sds
  | .srem removed => (removed.filter fun m => m ∈ set, (removeMembers set removed).1)
  | .spop rng count =>
      let (out, kept, _) := popMembers (popCount count) set rng
      (out, kept)

theorem mem_split {set : List Sds} {removal : Removal} {m : Sds} (here : m ∈ set)
    (stays : m ∉ (removal.split set).1) : m ∈ (removal.split set).2 := by
  cases removal with
  | srem removed =>
      apply mem_removeMembers here
      intro listed
      exact stays (List.mem_filter.mpr ⟨listed, by simpa using here⟩)
  | spop rng count => exact mem_popMembers here stays

theorem mem_gone {set : List Sds} {removal : Removal} {m : Sds} (here : m ∈ set)
    (emptied : (removal.split set).2 = []) : m ∈ (removal.split set).1 := by
  by_contra stays
  have left := mem_split here stays
  rw [emptied] at left
  exact absurd left List.not_mem_nil

end Removal

/-- The members that are still owed once some are gone. -/
def debited (owed gone : List Sds) : List Sds := owed.filter fun m => m ∉ gone

theorem mem_debited (owed gone : List Sds) : ∀ m ∈ debited owed gone, m ∈ owed ∧ m ∉ gone := by
  intro m member
  obtain ⟨old, left⟩ := List.mem_filter.mp member
  exact ⟨old, by simpa using left⟩

@[simp] theorem debited_nil (owed : List Sds) : debited owed [] = owed := by
  simp [debited]

/-- A client enters a critical section. -/
inductive SetEvent where
  | sadd (added : List Sds)
  | saddNext
  | take (removal : Removal)
  | takeNext

namespace InMemoryStore

variable {γ : Type}

/-- `sadd` as long as it has the entry of the key: the store, the members that it counted, and
those of a set that it has yet to make. -/
def saddFirst (key : Sds) (added : List Sds) (s : InMemoryStore γ) :
    InMemoryStore γ × List Sds × Option (List Sds) :=
  match Assoc.get s.data key with
  | some (.set members) =>
      ({ s with data := Assoc.insert s.data key (.set (addMembers members added).1) },
        added.filter fun m => m ∉ members, none)
  | some _ => (s, [], none)
  | none => (s, [], some added)

/-- The new set takes the place of whatever the key has by now. -/
def saddNext (key : Sds) (added : List Sds) (s : InMemoryStore γ) : InMemoryStore γ :=
  { s with data := Assoc.insert s.data key (.set (addMembers [] added).1) }

/-- `srem` and `spop` as long as they have the entry: the store, the members that are gone, and
the flag `remove_key`. -/
def takeFirst (key : Sds) (removal : Removal) (s : InMemoryStore γ) :
    InMemoryStore γ × List Sds × Bool :=
  match Assoc.get s.data key with
  | some (.set members) =>
      let (gone, kept) := removal.split members
      ({ s with data := Assoc.insert s.data key (.set kept) }, gone, kept.isEmpty)
  | _ => (s, [], false)

def takeNext (key : Sds) (s : InMemoryStore γ) : InMemoryStore γ :=
  { s with data := Assoc.erase s.data key }

theorem saddFirst_cases (key : Sds) (added : List Sds) (s : InMemoryStore γ) :
    (∃ members, Assoc.get s.data key = some (.set members) ∧ saddFirst key added s =
        ({ s with data := Assoc.insert s.data key (.set (addMembers members added).1) },
          added.filter fun m => m ∉ members, none)) ∨
      (Assoc.get s.data key = none ∧ saddFirst key added s = (s, [], some added)) ∨
      saddFirst key added s = (s, [], none) := by
  rw [saddFirst]
  split
  · rename_i members here
    exact Or.inl ⟨members, here, rfl⟩
  · exact Or.inr (Or.inr rfl)
  · rename_i here
    exact Or.inr (Or.inl ⟨here, rfl⟩)

theorem takeFirst_cases (key : Sds) (removal : Removal) (s : InMemoryStore γ) :
    (∃ members, Assoc.get s.data key = some (.set members) ∧ takeFirst key removal s =
        ({ s with data := Assoc.insert s.data key (.set (removal.split members).2) },
          (removal.split members).1, (removal.split members).2.isEmpty)) ∨
      takeFirst key removal s = (s, [], false) := by
  rw [takeFirst]
  split
  · rename_i members here
    exact Or.inl ⟨members, here, rfl⟩
  · exact Or.inr rfl

theorem saddNext_saddFirst (key : Sds) (added : List Sds) (s : InMemoryStore γ) :
    (let (s', _, rest) := saddFirst key added s;
      rest.elim s' fun members => saddNext key members s') = (sadd key added s).2 := by
  rw [saddFirst, sadd, members]
  cases Assoc.get s.data key with
  | none => rfl
  | some v => cases v <;> rfl

/-- The data after a call that takes members out. -/
def taken (key : Sds) (s : InMemoryStore γ) : Removal → List (Sds × Value)
  | .srem removed => (srem key removed s).2.data
  | .spop rng count => (spop key count { s with rng := rng }).2.data

theorem data_keep (s : InMemoryStore γ) (key : Sds) (kept : List Sds) :
    (s.keep key kept).data =
      if kept = [] then Assoc.erase s.data key else Assoc.insert s.data key (.set kept) := by
  rw [keep]
  split
  · rfl
  · rfl

theorem taken_eq (key : Sds) (s : InMemoryStore γ) (removal : Removal) :
    taken key s removal =
      match s.members removal.command key with
      | .ok members => (s.keep key (removal.split members).2).data
      | .error _ => s.data := by
  cases removal with
  | srem removed =>
      rw [taken, srem, Removal.command]
      cases s.members "SREM" key with
      | error e => rfl
      | ok members => rfl
  | spop rng count =>
      have found : members "SPOP" { s with rng := rng } key = s.members "SPOP" key := rfl
      rw [taken, spop, Removal.command, found]
      cases s.members "SPOP" key with
      | error e => rfl
      | ok members =>
          let popped := popMembers (popCount count) members rng
          show (keep { s with rng := popped.2.2 } key popped.2.1).data = (s.keep key popped.2.1).data
          rw [data_keep, data_keep]

theorem split_nil (removal : Removal) : removal.split [] = ([], []) := by
  cases removal with
  | srem removed =>
      have none' : (removeMembers [] removed).1 = [] := by
        induction removed with
        | nil => rfl
        | cons m removed ih => exact ih
      simp [Removal.split, none']
  | spop rng count =>
      cases count' : popCount count with
      | zero => simp [Removal.split, count', popMembers]
      | succ n => simp [Removal.split, count', popMembers, choose]

theorem takeNext_takeFirst (key : Sds) (removal : Removal) (s : InMemoryStore γ) :
    (let (s', _, removeKey) := takeFirst key removal s;
      if removeKey then takeNext key s' else s').data = taken key s removal := by
  rw [taken_eq, takeFirst, members]
  cases found : Assoc.get s.data key with
  | none =>
      have absent := Assoc.get_eq_none_iff.mp found
      simp [split_nil, keep, Assoc.erase_of_not_mem absent]
  | some v =>
      cases v with
      | set members =>
          simp only [keep, takeNext]
          cases (removal.split members).2 with
          | nil => simp [Assoc.erase_insert]
          | cons m kept => rfl
      | _ => rfl

/-- A store, the set that the one client has yet to make, the flag of the other client, and the
members that were counted and not taken out since. -/
structure Clients (γ : Type) where
  store : InMemoryStore γ
  adding : Option (List Sds)
  removeKey : Bool
  owed : List Sds

namespace Clients

def start (s : InMemoryStore γ) : Clients γ := ⟨s, none, false, []⟩

/-- A client has one call at a time. -/
def step (key : Sds) (c : Clients γ) : SetEvent → Option (Clients γ)
  | .sadd added =>
      if c.adding.isSome then none
      else
        let (store, counted, adding) := saddFirst key added c.store
        some { c with store := store, adding := adding, owed := c.owed ++ counted }
  | .saddNext =>
      match c.adding with
      | none => none
      | some added =>
          some { c with
            store := saddNext key added c.store, adding := none, owed := c.owed ++ added }
  | .take removal =>
      if c.removeKey then none
      else
        let (store, gone, removeKey) := takeFirst key removal c.store
        some { c with store := store, removeKey := removeKey, owed := debited c.owed gone }
  | .takeNext =>
      if c.removeKey then some { c with store := takeNext key c.store, removeKey := false }
      else none

def run (key : Sds) (c : Clients γ) (events : List SetEvent) : Option (Clients γ) :=
  Runs.run (step key) c events

/-- Both clients have their answers. -/
def Returned (c : Clients γ) : Prop := c.adding = none ∧ c.removeKey = false

/-- The members of the set of a key. -/
def found (key : Sds) (s : InMemoryStore γ) : List Sds :=
  match Assoc.get s.data key with
  | some (.set members) => members
  | _ => []

/-- No member is added to a set that was found empty and is about to be removed. -/
def InTurn (key : Sds) (c : Clients γ) : SetEvent → Prop
  | .sadd added => c.removeKey = true → ∀ m ∈ added, m ∈ found key c.store
  | _ => True

def Orderly (key : Sds) (c : Clients γ) (events : List SetEvent) : Prop :=
  Runs.Along (step key) (InTurn key) c events

def view (key : Sds) (c : Clients γ) : EmptiedSet.State Sds :=
  ⟨found key c.store, c.removeKey, c.owed⟩

/-- The set that a client has yet to make is still missing, and a set that is to be removed is
still there. -/
structure Settled (key : Sds) (c : Clients γ) : Prop where
  paid : EmptiedSet.Paid (view key c)
  making : ∀ added, c.adding = some added → Assoc.get c.store.data key = none
  flagged : c.removeKey = true → Assoc.get c.store.data key ≠ none

theorem settled_start (key : Sds) (s : InMemoryStore γ) : Settled key (start s) where
  paid := ⟨fun _ m owed => absurd owed List.not_mem_nil, fun _ => rfl⟩
  making added none' := by cases none'
  flagged unset := by cases unset

theorem found_insert (key : Sds) (members : List Sds) (s : InMemoryStore γ) :
    found key { s with data := Assoc.insert s.data key (.set members) } = members := by
  simp [found, Assoc.get_insert]

theorem settled_sadd {key : Sds} {c c' : Clients γ} {added : List Sds} (settled : Settled key c)
    (turn : c.InTurn key (.sadd added)) (next : c.step key (.sadd added) = some c') :
    Settled key c' := by
  rw [step] at next
  split at next
  · cases next
  rcases saddFirst_cases key added c.store with ⟨members, here, first⟩ | ⟨here, first⟩ | first
  · have before : found key c.store = members := by rw [found, here]
    rw [first] at next
    obtain rfl := Option.some.inj next
    refine ⟨?_, fun _ none' => (by cases none'), fun _ => by simp [Assoc.get_insert]⟩
    have stepped := EmptiedSet.Step.add (view key c) (added.filter fun m => m ∉ members)
      (addMembers members added).1 (fun m old => mem_addMembers (Or.inl (before ▸ old)))
      (fun m new => mem_addMembers (Or.inr (List.mem_of_mem_filter new)))
      (fun flagged => List.filter_eq_nil_iff.mpr fun m listed => by
        simpa using before ▸ turn flagged m listed)
    have paid := stepped.paid settled.paid
    rwa [← found_insert key (addMembers members added).1 c.store] at paid
  · rw [first] at next
    obtain rfl := Option.some.inj next
    refine ⟨?_, fun _ _ => here, settled.flagged⟩
    rw [view, List.append_nil]
    exact settled.paid
  · rw [first] at next
    obtain rfl := Option.some.inj next
    refine ⟨?_, fun _ none' => (by cases none'), settled.flagged⟩
    rw [view, List.append_nil]
    exact settled.paid

theorem settled_saddNext {key : Sds} {c c' : Clients γ} (settled : Settled key c)
    (next : c.step key .saddNext = some c') : Settled key c' := by
  rw [step] at next
  split at next
  · cases next
  rename_i added adding
  obtain rfl := Option.some.inj next
  have missing := settled.making added adding
  have before : found key c.store = [] := by rw [found, missing]
  refine ⟨?_, fun _ none' => (by cases none'), fun _ => by simp [saddNext, Assoc.get_insert]⟩
  have stepped := EmptiedSet.Step.add (view key c) added (addMembers [] added).1
    (fun m old => by
      rw [view, before] at old
      exact absurd old List.not_mem_nil)
    (fun m new => mem_addMembers (Or.inr new))
    (fun flagged => absurd missing (settled.flagged flagged))
  have paid := stepped.paid settled.paid
  rwa [← found_insert key (addMembers [] added).1 c.store] at paid

theorem settled_take {key : Sds} {c c' : Clients γ} {removal : Removal} (settled : Settled key c)
    (next : c.step key (.take removal) = some c') : Settled key c' := by
  rw [step] at next
  split at next
  · cases next
  rename_i unset
  have unset : c.removeKey = false := by simpa using unset
  rcases takeFirst_cases key removal c.store with ⟨members, here, first⟩ | first
  · have before : found key c.store = members := by rw [found, here]
    have kept : ∀ m ∈ (view key c).members, m ∉ (removal.split members).1 →
        m ∈ (removal.split members).2 := fun m old stays => Removal.mem_split (before ▸ old) stays
    have rest := mem_debited c.owed (removal.split members).1
    rw [first] at next
    obtain rfl := Option.some.inj next
    refine ⟨?_, fun added adding => ?_, fun _ => by simp [Assoc.get_insert]⟩
    · rw [view, found_insert]
      cases left : (removal.split members).2 with
      | nil =>
          refine (EmptiedSet.Step.doom (view key c) _ [] _ ?_ rest).paid settled.paid
          exact fun m old => Removal.mem_gone (before ▸ old) left
      | cons m more =>
          have stepped := EmptiedSet.Step.remove (view key c) _ _ _ kept rest
          have paid := stepped.paid settled.paid
          rwa [left, show (view key c).doomed = false from unset] at paid
    · rw [settled.making added adding] at here
      cases here
  · rw [first] at next
    obtain rfl := Option.some.inj next
    refine ⟨?_, settled.making, fun set => by cases set⟩
    rw [view, debited_nil, ← unset]
    exact settled.paid

theorem settled_takeNext {key : Sds} {c c' : Clients γ} (settled : Settled key c)
    (next : c.step key .takeNext = some c') : Settled key c' := by
  rw [step] at next
  split at next
  · rename_i flagged
    obtain rfl := Option.some.inj next
    have after : Assoc.get (takeNext key c.store).data key = none := by
      simp [takeNext, Assoc.get_erase]
    refine ⟨?_, fun added adding => ?_, fun set => by cases set⟩
    · rw [view, found, after]
      exact (EmptiedSet.Step.drop (view key c) flagged).paid settled.paid
    · exact absurd (settled.making added adding) (settled.flagged flagged)
  · cases next

theorem settled_step {key : Sds} (c : Clients γ) (e : SetEvent) (c' : Clients γ)
    (settled : Settled key c) (turn : c.InTurn key e) (next : c.step key e = some c') :
    Settled key c' := by
  cases e with
  | sadd added => exact settled_sadd settled turn next
  | saddNext => exact settled_saddNext settled next
  | take removal => exact settled_take settled next
  | takeNext => exact settled_takeNext settled next

theorem sismember_of_orderly {key : Sds} {s : InMemoryStore γ} {events : List SetEvent}
    {c : Clients γ} (orderly : Orderly key (start s) events)
    (ran : run key (start s) events = some c) (returned : c.Returned) {m : Sds}
    (owed : m ∈ c.owed) : sismember key m c.store = .ok true := by
  have settled := Runs.kept_run settled_step (settled_start key s) orderly ran
  have present := settled.paid.present returned.2 m owed
  simp only [view, found] at present
  split at present
  · rename_i members here
    rw [sismember, InMemoryStore.members, here]
    exact congrArg Except.ok (decide_eq_true present)
  · exact absurd present List.not_mem_nil

end Clients

end InMemoryStore

end Zumic.Engine
