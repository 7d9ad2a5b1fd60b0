/- Overlapping migrations: when the slot map and the table of migrations agree. -/

import Zumic.Engine.SlotManager
import Zumic.Lib.Runs
import Zumic.Lib.Tasks

namespace Zumic.Engine.SlotManager

open Lib

/-- The slot of a start that has not registered its task yet. -/
def Call.starting : Call → Option SlotId
  | .startChecked slot _ _ => some slot
  | .startAssigned slot _ _ => some slot
  | _ => none

/-- The slot of a call that has not brought the table of migrations up to date yet. -/
def Call.pending : Call → Option SlotId
  | .startChecked slot _ _ => some slot
  | .startAssigned slot _ _ => some slot
  | .finishRead slot _ => some slot
  | .finishAssigned slot => some slot
  | _ => none

def Call.isStart : Call → Bool
  | .startChecked _ _ _ => true
  | .startAssigned _ _ _ => true
  | .startRegistered _ => true
  | _ => false

def Call.hasReturned : Call → Bool
  | .returned _ => true
  | _ => false

def Call.isOk : Call → Bool
  | .returned (.ok _) => true
  | _ => false

def System.ok (s : System) : Nat := s.calls.countP Call.isOk

/-- The event is a section of a start. -/
def System.startMoves (s : System) : Event → Bool
  | .start _ _ _ => true
  | .go i => (s.calls[i]?).any Call.isStart
  | _ => false

/-- A start that passes its check names the shard that serves the slot and an existing target,
and no other call on the slot is between its check and its update of the table. -/
def Orderly (shardCount : Nat) (s : System) : Event → Prop
  | .start slot src dst =>
      slot.toNat < totalSlots → Assoc.get s.manager.activeMigrations slot = none →
        getSlotShard s.manager slot = some src ∧ dst < shardCount ∧
          ∀ call ∈ s.calls, call.pending ≠ some slot
  | _ => True

instance decidableOrderly (shardCount : Nat) (s : System) :
    (e : Event) → Decidable (Orderly shardCount s e)
  | .start slot src dst =>
      have : Decidable (Assoc.get s.manager.activeMigrations slot = none) :=
        decidable_of_iff _ Option.isNone_iff_eq_none
      inferInstanceAs (Decidable (slot.toNat < totalSlots →
        Assoc.get s.manager.activeMigrations slot = none →
          getSlotShard s.manager slot = some src ∧ dst < shardCount ∧
            ∀ call ∈ s.calls, call.pending ≠ some slot))
  | .complete _ => isTrue trivial
  | .rollback _ => isTrue trivial
  | .go _ => isTrue trivial

/-- When no call is in progress, the map and the table tell the same migrations. At any time
every slot is served by an existing shard, the version counts the calls that succeeded, and no
section of a start changes the shard that serves a slot. -/
structure Agrees (shardCount : Nat) (s : System) : Prop where
  migrating_iff : (∀ call ∈ s.calls, call.hasReturned = true) → ∀ slot src dst,
    (∃ progress, stateOf s.manager slot = some (.migrating src dst progress)) ↔
      ∃ task, Assoc.get s.manager.activeMigrations slot = some task ∧ task.fromShard = src ∧
        task.toShard = dst
  owner_lt : ∀ slot : SlotId, slot.toNat < totalSlots →
    ∃ shard < shardCount, getSlotShard s.manager slot = some shard
  start_keeps : ∀ e s', s.startMoves e = true → step s e = some s' → ∀ slot,
    getSlotShard s'.manager slot = getSlotShard s.manager slot
  version_eq : s.manager.slotMapVersion = 1 + UInt64.ofNat s.ok

def SlotState.Below (n : Nat) : SlotState → Prop
  | .stable shard => shard < n
  | .migrating src dst _ => src < n ∧ dst < n
  | .importing _ _ _ => False

/-- What the sections keep of one slot. A start that has not registered its task is alone on its
slot. -/
structure Kept (n : Nat) (s : System) (slot : SlotId) : Prop where
  below : ∀ state, stateOf s.manager slot = some state → state.Below n
  task_below : ∀ task, Assoc.get s.manager.activeMigrations slot = some task →
    task.fromShard < n ∧ task.toShard < n ∧ slot.toNat < totalSlots
  alone : slot.toNat < totalSlots → ∀ (i j : Nat) (c d : Call), i ≠ j → s.calls[i]? = some c →
    s.calls[j]? = some d → c.starting = some slot → d.pending ≠ some slot
  unregistered : ∀ (i : Nat) (c : Call), s.calls[i]? = some c → c.starting = some slot →
    Assoc.get s.manager.activeMigrations slot = none
  checked : ∀ (i : Nat) src dst, s.calls[i]? = some (.startChecked slot src dst) →
    slot.toNat < totalSlots → stateOf s.manager slot = some (.stable src) ∧ dst < n
  assigned : ∀ (i : Nat) src dst, s.calls[i]? = some (.startAssigned slot src dst) →
    stateOf s.manager slot = some (.migrating src dst (F64.ofInt 0))
  read : ∀ (i : Nat) shard, s.calls[i]? = some (.finishRead slot shard) →
    shard < n ∧ slot.toNat < totalSlots
  settled : ∀ i : Nat, s.calls[i]? = some (.finishAssigned slot) →
    ∃ shard, stateOf s.manager slot = some (.stable shard)
  tasked : ∀ task, Assoc.get s.manager.activeMigrations slot = some task →
    stateOf s.manager slot = some (.migrating task.fromShard task.toShard (F64.ofInt 0)) ∨
      ∃ i : Nat, s.calls[i]? = some (.finishAssigned slot)
  migrating : ∀ src dst progress,
    stateOf s.manager slot = some (.migrating src dst progress) →
      (∃ task, Assoc.get s.manager.activeMigrations slot = some task ∧ task.fromShard = src ∧
        task.toShard = dst) ∨ ∃ i : Nat, s.calls[i]? = some (.startAssigned slot src dst)

structure Consistent (n : Nat) (s : System) : Prop where
  kept : ∀ slot, Kept n s slot
  version : s.manager.slotMapVersion = 1 + UInt64.ofNat s.ok

theorem pending_of_starting {c : Call} {slot : SlotId} (starting : c.starting = some slot) :
    c.pending = some slot := by
  cases c <;> simp_all [Call.starting, Call.pending]

/-- A slot whose state and task stay keeps its invariant when calls on it disappear, other than
those that explain a state without a task or a task without a state. -/
theorem Kept.frame {n : Nat} {s s' : System} {slot : SlotId} (old : Kept n s slot)
    (state : stateOf s'.manager slot = stateOf s.manager slot)
    (task : Assoc.get s'.manager.activeMigrations slot =
      Assoc.get s.manager.activeMigrations slot)
    (fewer : ∀ (j : Nat) (d : Call), d.pending = some slot → s'.calls[j]? = some d →
      s.calls[j]? = some d)
    (started : ∀ (j : Nat) src dst, s.calls[j]? = some (.startAssigned slot src dst) →
      s'.calls[j]? = some (.startAssigned slot src dst))
    (finished : ∀ j : Nat, s.calls[j]? = some (.finishAssigned slot) →
      s'.calls[j]? = some (.finishAssigned slot)) : Kept n s' slot where
  below := by
    rw [state]
    exact old.below
  task_below := by
    rw [task]
    exact old.task_below
  alone := by
    intro inside i j c d apart at_i at_j starting pending
    have one := fewer i c (pending_of_starting starting) at_i
    exact old.alone inside i j c d apart one (fewer j d pending at_j) starting pending
  unregistered := by
    intro i c at_i starting
    rw [task]
    exact old.unregistered i c (fewer i c (pending_of_starting starting) at_i) starting
  checked := by
    intro i src dst at_i
    rw [state]
    exact old.checked i src dst (fewer i _ rfl at_i)
  assigned := by
    intro i src dst at_i
    rw [state]
    exact old.assigned i src dst (fewer i _ rfl at_i)
  read := fun i shard at_i => old.read i shard (fewer i _ rfl at_i)
  settled := by
    intro i at_i
    rw [state]
    exact old.settled i (fewer i _ rfl at_i)
  tasked := by
    intro t registered
    rw [task] at registered
    rw [state]
    rcases old.tasked t registered with moving | ⟨i, at_i⟩
    · exact .inl moving
    · exact .inr ⟨i, finished i at_i⟩
  migrating := by
    intro src dst progress moving
    rw [state] at moving
    rw [task]
    rcases old.migrating src dst progress moving with registered | ⟨i, at_i⟩
    · exact .inl registered
    · exact .inr ⟨i, started i src dst at_i⟩

section

variable {n : Nat} {s : System} {slot : SlotId} {i : Nat} {old : Call}

theorem Kept.frame_move (kept : Kept n s slot) (here : s.calls[i]? = some old) {m' : SlotManager}
    {new : Call} (state : stateOf m' slot = stateOf s.manager slot)
    (task : Assoc.get m'.activeMigrations slot = Assoc.get s.manager.activeMigrations slot)
    (new_else : new.pending ≠ some slot) (start_else : ∀ src dst, old ≠ .startAssigned slot src dst)
    (finish_else : old ≠ .finishAssigned slot) : Kept n ⟨m', s.calls.set i new⟩ slot := by
  refine kept.frame state task ?_ ?_ ?_
  · intro j d pending at_j
    rcases Tasks.getElem?_move at_j with ⟨-, rfl⟩ | ⟨-, at_j⟩
    · exact absurd pending new_else
    · exact at_j
  · intro j src dst at_j
    have other : j ≠ i := by
      rintro rfl
      exact start_else src dst (Option.some.inj (here.symm.trans at_j))
    rw [List.getElem?_set_ne (Ne.symm other), at_j]
  · intro j at_j
    have other : j ≠ i := by
      rintro rfl
      exact finish_else (Option.some.inj (here.symm.trans at_j))
    rw [List.getElem?_set_ne (Ne.symm other), at_j]

theorem Kept.frame_elsewhere (kept : Kept n s slot) (here : s.calls[i]? = some old)
    {m' : SlotManager} {new : Call} (state : stateOf m' slot = stateOf s.manager slot)
    (task : Assoc.get m'.activeMigrations slot = Assoc.get s.manager.activeMigrations slot)
    {own : SlotId} (other : slot ≠ own) (before : old.pending = some own)
    (after : new.pending = some own ∨ new.pending = none) :
    Kept n ⟨m', s.calls.set i new⟩ slot := by
  have apart : some own ≠ some slot := fun same => other (Option.some.inj same).symm
  refine kept.frame_move here state task ?_ ?_ ?_
  · rcases after with same | none <;> simp [*]
  · rintro src dst rfl
    exact apart before.symm
  · rintro rfl
    exact apart before.symm

theorem Kept.frame_begin (kept : Kept n s slot) {new : Call} (new_else : new.pending ≠ some slot) :
    Kept n (s.begin new) slot := by
  refine kept.frame rfl rfl ?_ ?_ ?_
  · intro j d pending at_j
    rcases Tasks.getElem?_begin at_j with ⟨-, rfl⟩ | ⟨-, at_j⟩
    · exact absurd pending new_else
    · exact at_j
  · intro j src dst at_j
    exact Tasks.getElem?_begin_old new at_j
  · intro j at_j
    exact Tasks.getElem?_begin_old new at_j

theorem Kept.start_assign {src dst : ShardId} (kept : Kept n s slot)
    (here : s.calls[i]? = some (.startChecked slot src dst)) {m' : SlotManager}
    (state : stateOf m' slot = some (.migrating src dst (F64.ofInt 0)))
    (inside : slot.toNat < totalSlots)
    (task : m'.activeMigrations = s.manager.activeMigrations) :
    Kept n ⟨m', s.calls.set i (.startAssigned slot src dst)⟩ slot := by
  have starting : (Call.startChecked slot src dst).starting = some slot := rfl
  -- no other call is pending on this slot
  have only : ∀ (j : Nat) (d : Call), d.pending = some slot →
      (s.calls.set i (.startAssigned slot src dst))[j]? = some d →
        j = i ∧ d = .startAssigned slot src dst := by
    intro j d pending at_j
    rcases Tasks.getElem?_move at_j with moved | ⟨apart, at_j⟩
    · exact moved
    · exact absurd pending (kept.alone inside i j _ d (Ne.symm apart) here at_j starting)
  have untasked := kept.unregistered i _ here starting
  obtain ⟨served, target⟩ := kept.checked i src dst here inside
  have owner : src < n := kept.below _ served
  refine ⟨?_, ?_, ?_, ?_, ?_, ?_, ?_, ?_, ?_, ?_⟩
  · intro st read
    obtain rfl := Option.some.inj (state.symm.trans read)
    exact ⟨owner, target⟩
  · intro t registered
    rw [task, untasked] at registered
    cases registered
  · intro _ j k c d apart at_j at_k starts pending
    have one := only j c (pending_of_starting starts) at_j
    have two := only k d pending at_k
    exact apart (one.1.trans two.1.symm)
  · intro j c at_j starts
    rw [task, untasked]
  · intro j src' dst' at_j
    cases (only j _ rfl at_j).2
  · intro j src' dst' at_j
    cases (only j _ rfl at_j).2
    exact state
  · intro j shard at_j
    cases (only j _ rfl at_j).2
  · intro j at_j
    cases (only j _ rfl at_j).2
  · intro t registered
    rw [task, untasked] at registered
    cases registered
  · intro src' dst' progress moving
    cases Option.some.inj (state.symm.trans moving)
    exact .inr ⟨i, List.getElem?_set_self (List.getElem?_eq_some_iff.mp here).1⟩

theorem Kept.start_register {src dst : ShardId} (kept : Kept n s slot)
    (here : s.calls[i]? = some (.startAssigned slot src dst)) {m' : SlotManager}
    (state : stateOf m' slot = stateOf s.manager slot) (inside : slot.toNat < totalSlots)
    (task : Assoc.get m'.activeMigrations slot = some ⟨slot, src, dst⟩) :
    Kept n ⟨m', s.calls.set i (.startRegistered slot)⟩ slot := by
  have starting : (Call.startAssigned slot src dst).starting = some slot := rfl
  have none_left : ∀ (j : Nat) (d : Call), d.pending = some slot →
      (s.calls.set i (.startRegistered slot))[j]? ≠ some d := by
    intro j d pending at_j
    rcases Tasks.getElem?_move at_j with ⟨-, rfl⟩ | ⟨apart, at_j⟩
    · cases pending
    · exact kept.alone inside i j _ d (Ne.symm apart) here at_j starting pending
  have moving := kept.assigned i src dst here
  obtain ⟨owner, target⟩ := kept.below _ moving
  refine ⟨?_, ?_, ?_, ?_, ?_, ?_, ?_, ?_, ?_, ?_⟩
  · rw [state]
    exact kept.below
  · intro t registered
    cases Option.some.inj (task.symm.trans registered)
    exact ⟨owner, target, inside⟩
  · intro _ j k c d _ at_j _ starts _
    exact none_left j c (pending_of_starting starts) at_j
  · intro j c at_j starts
    exact absurd at_j (none_left j c (pending_of_starting starts))
  · intro j src' dst' at_j
    exact absurd at_j (none_left j _ rfl)
  · intro j src' dst' at_j
    exact absurd at_j (none_left j _ rfl)
  · intro j shard at_j
    exact absurd at_j (none_left j _ rfl)
  · intro j at_j
    exact absurd at_j (none_left j _ rfl)
  · intro t registered
    cases Option.some.inj (task.symm.trans registered)
    exact .inl (state.trans moving)
  · intro src' dst' progress read
    cases Option.some.inj ((state.trans moving).symm.trans read)
    exact .inl ⟨_, task, rfl, rfl⟩

theorem Kept.finish_assign {shard : ShardId} (kept : Kept n s slot)
    (here : s.calls[i]? = some (.finishRead slot shard)) {m' : SlotManager}
    (state : stateOf m' slot = some (.stable shard)) (inside : slot.toNat < totalSlots)
    (task : m'.activeMigrations = s.manager.activeMigrations) :
    Kept n ⟨m', s.calls.set i (.finishAssigned slot)⟩ slot := by
  have no_start : ∀ (j : Nat) (c : Call), c.starting = some slot →
      (s.calls.set i (.finishAssigned slot))[j]? ≠ some c := by
    intro j c starts at_j
    rcases Tasks.getElem?_move at_j with ⟨-, rfl⟩ | ⟨apart, at_j⟩
    · cases starts
    · exact kept.alone inside j i c _ apart at_j here starts rfl
  refine ⟨?_, ?_, ?_, ?_, ?_, ?_, ?_, ?_, ?_, ?_⟩
  · intro st read
    obtain rfl := Option.some.inj (state.symm.trans read)
    exact (kept.read i shard here).1
  · intro t registered
    rw [task] at registered
    exact kept.task_below t registered
  · intro _ j k c d _ at_j _ starts _
    exact no_start j c starts at_j
  · intro j c at_j starts
    exact absurd at_j (no_start j c starts)
  · intro j src dst at_j
    exact absurd at_j (no_start j _ rfl)
  · intro j src dst at_j
    exact absurd at_j (no_start j _ rfl)
  · intro j shard' at_j
    rcases Tasks.getElem?_move at_j with ⟨-, same⟩ | ⟨-, at_j⟩
    · cases same
    · exact kept.read j shard' at_j
  · intro j at_j
    exact ⟨shard, state⟩
  · intro t registered
    exact .inr ⟨i, List.getElem?_set_self (List.getElem?_eq_some_iff.mp here).1⟩
  · intro src dst progress moving
    cases Option.some.inj (state.symm.trans moving)

theorem Kept.finish_remove (kept : Kept n s slot)
    (here : s.calls[i]? = some (.finishAssigned slot)) {m' : SlotManager}
    (state : stateOf m' slot = stateOf s.manager slot)
    (task : Assoc.get m'.activeMigrations slot = none) :
    Kept n ⟨m', s.calls.set i (.finishRemoved slot)⟩ slot := by
  obtain ⟨shard, stable⟩ := kept.settled i here
  have earlier : ∀ (j : Nat) (d : Call), d.pending = some slot →
      (s.calls.set i (.finishRemoved slot))[j]? = some d → s.calls[j]? = some d := by
    intro j d pending at_j
    rcases Tasks.getElem?_move at_j with ⟨-, rfl⟩ | ⟨-, at_j⟩
    · cases pending
    · exact at_j
  refine ⟨?_, ?_, ?_, ?_, ?_, ?_, ?_, ?_, ?_, ?_⟩
  · rw [state]
    exact kept.below
  · intro t registered
    rw [task] at registered
    cases registered
  · intro inside j k c d apart at_j at_k starts pending
    exact kept.alone inside j k c d apart (earlier j c (pending_of_starting starts) at_j)
      (earlier k d pending at_k) starts pending
  · intro j c at_j starts
    exact task
  · intro j src dst at_j
    rw [state]
    exact kept.checked j src dst (earlier j _ rfl at_j)
  · intro j src dst at_j
    rw [state]
    exact kept.assigned j src dst (earlier j _ rfl at_j)
  · intro j shard' at_j
    exact kept.read j shard' (earlier j _ rfl at_j)
  · intro j at_j
    exact ⟨shard, state.trans stable⟩
  · intro t registered
    rw [task] at registered
    cases registered
  · intro src dst progress moving
    cases Option.some.inj ((state.trans stable).symm.trans moving)

/-- A start that passes its check on a slot where nothing is pending. -/
theorem Kept.start_begin {src dst : ShardId} (kept : Kept n s slot)
    (free : slot.toNat < totalSlots → getSlotShard s.manager slot = some src ∧ dst < n ∧
      ∀ call ∈ s.calls, call.pending ≠ some slot)
    (untasked : Assoc.get s.manager.activeMigrations slot = none) :
    Kept n (s.begin (.startChecked slot src dst)) slot := by
  have quiet : slot.toNat < totalSlots → ∀ (j : Nat) (d : Call), s.calls[j]? = some d →
      d.pending ≠ some slot := by
    intro inside j d at_j
    exact (free inside).2.2 d (List.mem_of_getElem? at_j)
  refine ⟨kept.below, kept.task_below, ?_, ?_, ?_, ?_, ?_, ?_, ?_, ?_⟩
  · intro inside j k c d apart at_j at_k starts pending
    rcases Tasks.getElem?_begin at_j with ⟨first, -⟩ | ⟨-, at_j⟩
    · rcases Tasks.getElem?_begin at_k with ⟨second, -⟩ | ⟨-, at_k⟩
      · exact apart (first.trans second.symm)
      · exact quiet inside k d at_k pending
    · exact quiet inside j c at_j (pending_of_starting starts)
  · intro j c _ _
    exact untasked
  · intro j src' dst' at_j inside
    rcases Tasks.getElem?_begin at_j with ⟨-, same⟩ | ⟨-, at_j⟩
    · cases same
      obtain ⟨served, target, -⟩ := free inside
      refine ⟨?_, target⟩
      obtain ⟨state, read, owner⟩ := Option.map_eq_some_iff.mp served
      rw [show (s.begin (.startChecked slot src dst)).manager = s.manager from rfl, read]
      cases state with
      | stable shard => exact congrArg some (congrArg SlotState.stable owner)
      | migrating src' dst' progress =>
          rcases kept.migrating src' dst' progress read with ⟨t, registered, -⟩ | ⟨k, at_k⟩
          · cases untasked.symm.trans registered
          · exact absurd rfl (quiet inside k _ at_k)
      | importing src' dst' progress => exact absurd (kept.below _ read) (fun h => h)
    · exact absurd rfl (quiet inside j _ at_j)
  · intro j src' dst' at_j
    rcases Tasks.getElem?_begin at_j with ⟨-, same⟩ | ⟨-, at_j⟩
    · cases same
    · exact kept.assigned j src' dst' at_j
  · intro j shard at_j
    rcases Tasks.getElem?_begin at_j with ⟨-, same⟩ | ⟨-, at_j⟩
    · cases same
    · exact kept.read j shard at_j
  · intro j at_j
    rcases Tasks.getElem?_begin at_j with ⟨-, same⟩ | ⟨-, at_j⟩
    · cases same
    · exact kept.settled j at_j
  · intro t registered
    cases untasked.symm.trans registered
  · intro src' dst' progress moving
    rcases kept.migrating src' dst' progress moving with registered | ⟨k, at_k⟩
    · exact .inl registered
    · exact .inr ⟨k, Tasks.getElem?_begin_old _ at_k⟩

theorem Kept.finish_begin (kept : Kept n s slot) {task : MigrationTask}
    (registered : Assoc.get s.manager.activeMigrations slot = some task) {shard : ShardId}
    (known : shard < n) : Kept n (s.begin (.finishRead slot shard)) slot := by
  obtain ⟨-, -, inside⟩ := kept.task_below task registered
  have no_start : ∀ (j : Nat) (c : Call), c.starting = some slot → s.calls[j]? ≠ some c := by
    intro j c starts at_j
    cases (kept.unregistered j c at_j starts).symm.trans registered
  have no_start' : ∀ (j : Nat) (c : Call), c.starting = some slot →
      (s.begin (.finishRead slot shard)).calls[j]? ≠ some c := by
    intro j c starts at_j
    rcases Tasks.getElem?_begin at_j with ⟨-, rfl⟩ | ⟨-, at_j⟩
    · cases starts
    · exact no_start j c starts at_j
  refine ⟨kept.below, kept.task_below, ?_, ?_, ?_, ?_, ?_, ?_, ?_, ?_⟩
  · intro _ j k c d _ at_j _ starts _
    exact no_start' j c starts at_j
  · intro j c at_j starts
    exact absurd at_j (no_start' j c starts)
  · intro j src dst at_j
    exact absurd at_j (no_start' j _ rfl)
  · intro j src dst at_j
    exact absurd at_j (no_start' j _ rfl)
  · intro j shard' at_j
    rcases Tasks.getElem?_begin at_j with ⟨-, same⟩ | ⟨-, at_j⟩
    · cases same
      exact ⟨known, inside⟩
    · exact kept.read j shard' at_j
  · intro j at_j
    rcases Tasks.getElem?_begin at_j with ⟨-, same⟩ | ⟨-, at_j⟩
    · cases same
    · exact kept.settled j at_j
  · intro t found
    rcases kept.tasked t found with moving | ⟨k, at_k⟩
    · exact .inl moving
    · exact .inr ⟨k, Tasks.getElem?_begin_old _ at_k⟩
  · intro src dst progress moving
    rcases kept.migrating src dst progress moving with held | ⟨k, at_k⟩
    · exact .inl held
    · exact .inr ⟨k, Tasks.getElem?_begin_old _ at_k⟩

end

theorem version_begin {s : System} {new : Call} (version : s.manager.slotMapVersion =
    1 + UInt64.ofNat s.ok) (failed : new.isOk = false) :
    (s.begin new).manager.slotMapVersion = 1 + UInt64.ofNat (s.begin new).ok := by
  have same : (s.begin new).ok = s.ok := by
    simp [System.ok, System.begin, List.countP_append, failed]
  rw [same]
  exact version

theorem consistent_begin {n : Nat} {s : System} (start : Consistent n s) {new : Call}
    (failed : new.isOk = false)
    (own : ∀ slot, new.pending = some slot → Kept n (s.begin new) slot) :
    Consistent n (s.begin new) := by
  refine ⟨fun slot => ?_, version_begin start.version failed⟩
  by_cases concerned : new.pending = some slot
  · exact own slot concerned
  · exact (start.kept slot).frame_begin concerned

theorem consistent_readTask {n : Nat} {s : System} (start : Consistent n s) (slot : SlotId)
    (shard : MigrationTask → ShardId)
    (known : ∀ task, task.fromShard < n → task.toShard < n → shard task < n) :
    Consistent n (s.begin (readTask s.manager slot shard)) := by
  unfold readTask
  cases registered : Assoc.get s.manager.activeMigrations slot with
  | none =>
      refine consistent_begin start rfl (fun other concerned => ?_)
      cases concerned
  | some task =>
      refine consistent_begin start rfl (fun other concerned => ?_)
      cases concerned
      have bounds := (start.kept slot).task_below task registered
      exact (start.kept slot).finish_begin registered (known task bounds.1 bounds.2.1)

theorem version_move {s : System} {i : Nat} {old new : Call} {m' : SlotManager}
    (here : s.calls[i]? = some old)
    (version : s.manager.slotMapVersion = 1 + UInt64.ofNat s.ok) (unreturned : old.isOk = false)
    (counted : m'.slotMapVersion =
      s.manager.slotMapVersion + (if new.isOk then 1 else 0)) :
    m'.slotMapVersion = 1 + UInt64.ofNat (System.ok ⟨m', s.calls.set i new⟩) := by
  have count := Tasks.countP_move Call.isOk new here
  rw [unreturned] at count
  simp only [Bool.false_eq_true, if_false, Nat.add_zero] at count
  rw [counted, version, System.ok, System.ok, count]
  cases new.isOk with
  | false => simp
  | true =>
      simp only [if_true, UInt64.ofNat_add]
      rw [UInt64.add_assoc]
      rfl

theorem range_of_stateOf {m : SlotManager} {slot : SlotId} {state : SlotState}
    (read : stateOf m slot = some state) : slot.toNat < totalSlots := by
  unfold stateOf at read
  split at read
  · assumption
  · cases read

theorem consistent_unwritten {n : Nat} {s : System} (start : Consistent n s) {i : Nat} {old : Call}
    (here : s.calls[i]? = some old) {m' : SlotManager} {new : Call}
    (states : m'.slotAssignments = s.manager.slotAssignments)
    (tasks : m'.activeMigrations = s.manager.activeMigrations) (quiet : new.pending = none)
    (start_else : ∀ slot src dst, old ≠ .startAssigned slot src dst)
    (finish_else : ∀ slot, old ≠ .finishAssigned slot)
    (version : m'.slotMapVersion = 1 + UInt64.ofNat (System.ok ⟨m', s.calls.set i new⟩)) :
    Consistent n ⟨m', s.calls.set i new⟩ := by
  refine ⟨fun slot => ?_, version⟩
  have state : stateOf m' slot = stateOf s.manager slot := by
    unfold stateOf
    rw [states]
  exact (start.kept slot).frame_move here state (by rw [tasks]) (by simp [quiet]) (start_else slot)
    (finish_else slot)

theorem consistent_nextSection {n : Nat} {s : System} (start : Consistent n s) {i : Nat}
    {old : Call} (here : s.calls[i]? = some old) {m' : SlotManager} {new : Call}
    (done : nextSection s.manager old = some (m', new)) :
    Consistent n ⟨m', s.calls.set i new⟩ := by
  cases old with
  | startChecked slot src dst =>
      simp only [nextSection, assignOr, Option.some.injEq] at done
      split at done
      · rename_i written assigned
        cases done
        have fields := activeMigrations_assign assigned
        have states := stateOf_assign assigned
        have inside : slot.toNat < totalSlots := range_of_stateOf ((states slot).trans (if_pos rfl))
        refine ⟨fun other => ?_, version_move here start.version rfl ?_⟩
        · by_cases own : other = slot
          · subst own
            exact (start.kept other).start_assign here ((states other).trans (if_pos rfl)) inside
              fields.1
          · refine (start.kept other).frame_elsewhere here ?_ (by rw [fields.1]) own rfl (.inl rfl)
            rw [states, if_neg own]
        · rw [fields.2]
          exact (UInt64.add_zero _).symm
      · cases done
        exact consistent_unwritten start here rfl rfl rfl (by simp) (by simp)
          (version_move here start.version rfl (UInt64.add_zero _).symm)
  | startAssigned slot src dst =>
      cases done
      have moving := (start.kept slot).assigned i src dst here
      refine ⟨fun other => ?_, version_move here start.version rfl (UInt64.add_zero _).symm⟩
      by_cases own : other = slot
      · subst own
        exact (start.kept other).start_register here rfl (range_of_stateOf moving)
          (by rw [Assoc.get_insert, if_pos rfl])
      · refine (start.kept other).frame_elsewhere here rfl ?_ own rfl (.inr rfl)
        rw [Assoc.get_insert, if_neg (Ne.symm own)]
  | startRegistered slot =>
      cases done
      exact consistent_unwritten start here rfl rfl rfl (by simp) (by simp)
        (version_move here start.version rfl rfl)
  | finishRead slot shard =>
      have inside := ((start.kept slot).read i shard here).2
      simp only [nextSection, assignOr, Option.some.injEq] at done
      split at done
      · rename_i written assigned
        cases done
        have fields := activeMigrations_assign assigned
        have states := stateOf_assign assigned
        refine ⟨fun other => ?_, version_move here start.version rfl ?_⟩
        · by_cases own : other = slot
          · subst own
            exact (start.kept other).finish_assign here ((states other).trans (if_pos rfl)) inside
              fields.1
          · refine (start.kept other).frame_elsewhere here ?_ (by rw [fields.1]) own rfl (.inl rfl)
            rw [states, if_neg own]
        · rw [fields.2]
          exact (UInt64.add_zero _).symm
      · rename_i failed
        rw [assign, if_pos inside] at failed
        cases failed
  | finishAssigned slot =>
      cases done
      refine ⟨fun other => ?_, version_move here start.version rfl (UInt64.add_zero _).symm⟩
      by_cases own : other = slot
      · subst own
        exact (start.kept other).finish_remove here rfl (by rw [Assoc.get_erase, if_pos rfl])
      · refine (start.kept other).frame_elsewhere here rfl ?_ own rfl (.inr rfl)
        rw [Assoc.get_erase, if_neg (Ne.symm own)]
  | finishRemoved slot =>
      cases done
      exact consistent_unwritten start here rfl rfl rfl (by simp) (by simp)
        (version_move here start.version rfl rfl)
  | returned result => cases done

theorem consistent_step {n : Nat} (s : System) (e : Event) (s' : System) (start : Consistent n s)
    (orderly : Orderly n s e) (done : step s e = some s') : Consistent n s' := by
  cases e with
  | start slot src dst =>
      cases done
      unfold checkStart
      cases registered : Assoc.get s.manager.activeMigrations slot with
      | some task =>
          refine consistent_begin start rfl (fun other concerned => ?_)
          cases concerned
      | none =>
          refine consistent_begin start rfl (fun other concerned => ?_)
          cases concerned
          exact (start.kept slot).start_begin (fun inside => orderly inside registered) registered
  | complete slot =>
      cases done
      exact consistent_readTask start slot _ fun _ _ known => known
  | rollback slot =>
      cases done
      exact consistent_readTask start slot _ fun _ known _ => known
  | go i =>
      unfold step at done
      simp only at done
      split at done
      · rename_i call here
        obtain ⟨⟨m', new⟩, ran, rfl⟩ := Option.map_eq_some_iff.mp done
        exact consistent_nextSection start here ran
      · cases done

theorem consistent_new {n : Nat} {m : SlotManager} (made : new n = some m) :
    Consistent n ⟨m, []⟩ := by
  unfold new at made
  split at made
  · cases made
  rename_i some_shard
  cases made
  have stable : ∀ slot state, stateOf
      { slotAssignments := fun slot : Fin totalSlots => .stable (slot.val % n)
        slotMapVersion := 1
        activeMigrations := [] } slot = some state → ∃ shard < n, state = .stable shard := by
    intro slot state read
    unfold stateOf at read
    split at read
    · cases read
      exact ⟨_, Nat.mod_lt _ (Nat.pos_of_ne_zero some_shard), rfl⟩
    · cases read
  refine ⟨fun slot => ⟨?_, ?_, ?_, ?_, ?_, ?_, ?_, ?_, ?_, ?_⟩, rfl⟩
  · intro state read
    obtain ⟨shard, known, rfl⟩ := stable slot state read
    exact known
  · intro task registered
    cases registered
  · intro _ j k c d _ at_j
    cases at_j
  · intro j c at_j
    cases at_j
  · intro j src dst at_j
    cases at_j
  · intro j src dst at_j
    cases at_j
  · intro j shard at_j
    cases at_j
  · intro j at_j
    cases at_j
  · intro task registered
    cases registered
  · intro src dst progress moving
    obtain ⟨shard, -, same⟩ := stable slot _ moving
    cases same

theorem Consistent.start_keeps {n : Nat} {s : System} (held : Consistent n s) (e : Event)
    (s' : System) (moves : s.startMoves e = true) (done : step s e = some s') (slot : SlotId) :
    getSlotShard s'.manager slot = getSlotShard s.manager slot := by
  cases e with
  | start slot src dst =>
      cases done
      rfl
  | complete slot => cases moves
  | rollback slot => cases moves
  | go i =>
      unfold step at done
      simp only at done
      split at done
      swap
      · cases done
      rename_i call here
      obtain ⟨⟨m', new⟩, ran, rfl⟩ := Option.map_eq_some_iff.mp done
      rw [System.startMoves, here] at moves
      cases call with
      | startChecked own src dst =>
          simp only [nextSection, assignOr, Option.some.injEq] at ran
          split at ran
          · rename_i written assigned
            cases ran
            have states := stateOf_assign assigned
            have inside : own.toNat < totalSlots :=
              range_of_stateOf ((states own).trans (if_pos rfl))
            have served := ((held.kept own).checked i src dst here inside).1
            by_cases same : slot = own
            · rw [getSlotShard, getSlotShard, states, if_pos same, same, served]
              rfl
            · rw [getSlotShard, getSlotShard, states, if_neg same]
          · cases ran
            rfl
      | startAssigned own src dst =>
          cases ran
          rfl
      | startRegistered own =>
          cases ran
          rfl
      | finishRead own shard => cases moves
      | finishAssigned own => cases moves
      | finishRemoved own => cases moves
      | returned result => cases moves

theorem Consistent.agrees {n : Nat} {s : System} (held : Consistent n s) : Agrees n s := by
  refine ⟨fun idle slot src dst => ⟨?_, ?_⟩, fun slot inside => ?_, held.start_keeps, held.version⟩
  · rintro ⟨progress, moving⟩
    rcases (held.kept slot).migrating src dst progress moving with registered | ⟨i, at_i⟩
    · exact registered
    · cases idle _ (List.mem_of_getElem? at_i)
  · rintro ⟨task, registered, rfl, rfl⟩
    rcases (held.kept slot).tasked task registered with moving | ⟨i, at_i⟩
    · exact ⟨_, moving⟩
    · cases idle _ (List.mem_of_getElem? at_i)
  · have read : stateOf s.manager slot = some (s.manager.slotAssignments ⟨slot.toNat, inside⟩) :=
      dif_pos inside
    have bounds := (held.kept slot).below _ read
    rw [getSlotShard, read]
    cases state : s.manager.slotAssignments ⟨slot.toNat, inside⟩ with
    | stable shard =>
        rw [state] at bounds
        exact ⟨shard, bounds, rfl⟩
    | migrating src dst progress =>
        rw [state] at bounds
        exact ⟨src, bounds.1, rfl⟩
    | importing src dst progress =>
        rw [state] at bounds
        cases bounds

theorem agrees_of_orderly (n : Nat) (m : SlotManager) (made : new n = some m)
    (events : List Event) (s : System) (orderly : Runs.Along step (Orderly n) ⟨m, []⟩ events)
    (ran : Runs.run step ⟨m, []⟩ events = some s) : Agrees n s :=
  (Runs.kept_run consistent_step (consistent_new made) orderly ran).agrees

/-- The shards that a slot moves between. -/
def SlotState.route : SlotState → Option (ShardId × ShardId)
  | .migrating src dst _ => some (src, dst)
  | _ => none

def threeShards : SlotManager where
  slotAssignments := fun slot => .stable (slot.val % 3)
  slotMapVersion := 1
  activeMigrations := []

/-- A migration of slot 0 from shard 0 to shard 1 runs to its end. -/
def oneMigration : List Event :=
  [.start 0 0 1, .go 0, .go 0, .go 0, .complete 0, .go 1, .go 1, .go 1]

theorem agrees_of_orderly_one_migration :
    ((Runs.run step ⟨threeShards, []⟩ oneMigration).map fun s => getSlotShard s.manager 0) =
        some (some 1) ∧
      ∀ s, Runs.run step ⟨threeShards, []⟩ oneMigration = some s → Agrees 3 s :=
  ⟨by decide, fun s ran => agrees_of_orderly 3 threeShards rfl oneMigration s (by decide) ran⟩

/-- Two starts on slot 0 pass the check, and the map keeps one target and the table the other. -/
def twoStarts : List Event :=
  [.start 0 0 1, .start 0 0 2, .go 0, .go 1, .go 1, .go 0, .go 0, .go 1]

theorem map_and_table_differ :
    ¬ ∀ (n : Nat) (m : SlotManager), new n = some m → ∀ (events : List Event) (s : System),
      Runs.run step ⟨m, []⟩ events = some s → Agrees n s := by
  intro always
  have seen : ((Runs.run step ⟨threeShards, []⟩ twoStarts).map fun s =>
      (s.calls.all Call.hasReturned, (stateOf s.manager 0).bind SlotState.route,
        (Assoc.get s.manager.activeMigrations 0).map MigrationTask.toShard)) =
      some (true, some (0, 2), some 1) := by
    decide
  obtain ⟨s, ran, view⟩ := Option.map_eq_some_iff.mp seen
  simp only [Prod.mk.injEq] at view
  obtain ⟨idle, routed, tabled⟩ := view
  have agrees := always 3 threeShards rfl twoStarts s ran
  obtain ⟨task, registered, target⟩ := Option.map_eq_some_iff.mp tabled
  have moving := (agrees.migrating_iff (List.all_eq_true.mp idle) 0 task.fromShard
    task.toShard).mpr ⟨task, registered, rfl, rfl⟩
  obtain ⟨progress, state⟩ := moving
  rw [state] at routed
  simp only [Option.bind_some, SlotState.route, Option.some.injEq, Prod.mk.injEq] at routed
  exact absurd (routed.2.symm.trans target) (by decide)

end Zumic.Engine.SlotManager
