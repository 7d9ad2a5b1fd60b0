/- The slot map of a cluster and its migrations (`slot_manager.rs`). Callers may overlap; a step
is one lock section of one call. -/

import Zumic.Lib.Assoc
import Zumic.Lib.F64

namespace Zumic.Engine

open Lib

namespace SlotManager

abbrev ShardId := Nat

abbrev SlotId := UInt16

def totalSlots : Nat := 16384

inductive SlotState where
  | stable (shard : ShardId)
  | migrating (src dst : ShardId) (progress : F64)
  | importing (src dst : ShardId) (progress : F64)

structure MigrationTask where
  slot : SlotId
  fromShard : ShardId
  toShard : ShardId

inductive SlotManagerError where
  | migrationActive (slot : SlotId)
  | noActiveMigration (slot : SlotId)
  | invalidSlot (slot : SlotId)
  deriving DecidableEq

end SlotManager

open SlotManager in
/-- The assignments are a vector of `TOTAL_SLOTS` states. -/
structure SlotManager where
  slotAssignments : Fin totalSlots → SlotState
  slotMapVersion : UInt64
  activeMigrations : List (SlotId × MigrationTask)

namespace SlotManager

/-- Without shards the round robin divides by zero. -/
def new (shardCount : Nat) : Option SlotManager :=
  if shardCount = 0 then none
  else
    some
      { slotAssignments := fun slot => .stable (slot.val % shardCount)
        slotMapVersion := 1
        activeMigrations := [] }

/-- The state of a slot, if it is in range. -/
def stateOf (m : SlotManager) (slot : SlotId) : Option SlotState :=
  if inside : slot.toNat < totalSlots then some (m.slotAssignments ⟨slot.toNat, inside⟩) else none

/-- Writes the state of a slot that is in range. -/
def assign (m : SlotManager) (slot : SlotId) (state : SlotState) : Option SlotManager :=
  if slot.toNat < totalSlots then
    some
      { m with
        slotAssignments := fun other =>
          if other.val = slot.toNat then state else m.slotAssignments other }
  else none

def SlotState.owner : SlotState → ShardId
  | .stable s => s
  | .migrating src _ _ => src
  | .importing _ dst _ => dst

def getSlotShard (m : SlotManager) (slot : SlotId) : Option ShardId :=
  (stateOf m slot).map SlotState.owner

/-- Where a call stands after a section. `complete_slot_migration` and `rollback_migration`
differ in the shard that they read from the task. -/
inductive Call where
  | startChecked (slot : SlotId) (src dst : ShardId)
  | startAssigned (slot : SlotId) (src dst : ShardId)
  | startRegistered (slot : SlotId)
  | finishRead (slot : SlotId) (shard : ShardId)
  | finishAssigned (slot : SlotId)
  | finishRemoved (slot : SlotId)
  | returned (result : Except SlotManagerError Unit)

structure System where
  manager : SlotManager
  calls : List Call

inductive Event where
  | start (slot : SlotId) (src dst : ShardId)
  | complete (slot : SlotId)
  | rollback (slot : SlotId)
  | go (i : Nat)

/-- The first section of `start_slot_migration`. -/
def checkStart (m : SlotManager) (slot : SlotId) (src dst : ShardId) : Call :=
  match Assoc.get m.activeMigrations slot with
  | some _ => .returned (.error (.migrationActive slot))
  | none => .startChecked slot src dst

/-- The first section of the calls that end a migration. -/
def readTask (m : SlotManager) (slot : SlotId) (shard : MigrationTask → ShardId) : Call :=
  match Assoc.get m.activeMigrations slot with
  | some task => .finishRead slot (shard task)
  | none => .returned (.error (.noActiveMigration slot))

def assignOr (m : SlotManager) (slot : SlotId) (state : SlotState) (next : Call) :
    SlotManager × Call :=
  match assign m slot state with
  | some m => (m, next)
  | none => (m, .returned (.error (.invalidSlot slot)))

/-- The next section of a call; `none` when it has returned. -/
def nextSection (m : SlotManager) : Call → Option (SlotManager × Call)
  | .startChecked slot src dst =>
      some (assignOr m slot (.migrating src dst (F64.ofInt 0)) (.startAssigned slot src dst))
  | .startAssigned slot src dst =>
      some ({ m with
        activeMigrations := Assoc.insert m.activeMigrations slot ⟨slot, src, dst⟩ },
        .startRegistered slot)
  | .startRegistered _ =>
      some ({ m with slotMapVersion := m.slotMapVersion + 1 }, .returned (.ok ()))
  | .finishRead slot shard => some (assignOr m slot (.stable shard) (.finishAssigned slot))
  | .finishAssigned slot =>
      some ({ m with activeMigrations := Assoc.erase m.activeMigrations slot },
        .finishRemoved slot)
  | .finishRemoved _ =>
      some ({ m with slotMapVersion := m.slotMapVersion + 1 }, .returned (.ok ()))
  | .returned _ => none

def System.begin (s : System) (call : Call) : System := { s with calls := s.calls ++ [call] }

def step (s : System) : Event → Option System
  | .start slot src dst => some (s.begin (checkStart s.manager slot src dst))
  | .complete slot => some (s.begin (readTask s.manager slot MigrationTask.toShard))
  | .rollback slot => some (s.begin (readTask s.manager slot MigrationTask.fromShard))
  | .go i =>
      match s.calls[i]? with
      | some call =>
          (nextSection s.manager call).map fun next => ⟨next.1, s.calls.set i next.2⟩
      | none => none

theorem stateOf_assign {m m' : SlotManager} {slot : SlotId} {state : SlotState}
    (done : assign m slot state = some m') (other : SlotId) :
    stateOf m' other = if other = slot then some state else stateOf m other := by
  unfold assign at done
  split at done
  · rename_i inside
    cases done
    by_cases same : other = slot
    · subst same
      simp [stateOf, inside]
    · have apart : other.toNat ≠ slot.toNat := fun eq => same (UInt16.toNat_inj.mp eq)
      simp [stateOf, same, apart]
  · cases done

theorem activeMigrations_assign {m m' : SlotManager} {slot : SlotId} {state : SlotState}
    (done : assign m slot state = some m') :
    m'.activeMigrations = m.activeMigrations ∧ m'.slotMapVersion = m.slotMapVersion := by
  unfold assign at done
  split at done
  · cases done
    exact ⟨rfl, rfl⟩
  · cases done

end SlotManager

end Zumic.Engine
