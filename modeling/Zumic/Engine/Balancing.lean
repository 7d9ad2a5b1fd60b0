/- The slots of keys, the load counters of a cluster and the moves that are planned from them
(`slot_manager.rs`, `rebalancer.rs`). -/

import Mathlib.Data.UInt
import Zumic.Engine.SlotManager
import Zumic.Engine.Persistent
import Zumic.Lib.F64Arith

namespace Zumic.Engine.SlotManager

open Lib Lib.ByteString Lib.Utf8

def crc16Tab : List UInt16 :=
  [0x0000, 0x1021, 0x2042, 0x3063, 0x4084, 0x50a5, 0x60c6, 0x70e7, 0x8108, 0x9129, 0xa14a,
   0xb16b, 0xc18c, 0xd1ad, 0xe1ce, 0xf1ef, 0x1231, 0x0210, 0x3273, 0x2252, 0x52b5, 0x4294,
   0x72f7, 0x62d6, 0x9339, 0x8318, 0xb37b, 0xa35a, 0xd3bd, 0xc39c, 0xf3ff, 0xe3de, 0x2462,
   0x3443, 0x0420, 0x1401, 0x64e6, 0x74c7, 0x44a4, 0x5485, 0xa56a, 0xb54b, 0x8528, 0x9509,
   0xe5ee, 0xf5cf, 0xc5ac, 0xd58d, 0x3653, 0x2672, 0x1611, 0x0630, 0x76d7, 0x66f6, 0x5695,
   0x46b4, 0xb75b, 0xa77a, 0x9719, 0x8738, 0xf7df, 0xe7fe, 0xd79d, 0xc7bc, 0x48c4, 0x58e5,
   0x6886, 0x78a7, 0x0840, 0x1861, 0x2802, 0x3823, 0xc9cc, 0xd9ed, 0xe98e, 0xf9af, 0x8948,
   0x9969, 0xa90a, 0xb92b, 0x5af5, 0x4ad4, 0x7ab7, 0x6a96, 0x1a71, 0x0a50, 0x3a33, 0x2a12,
   0xdbfd, 0xcbdc, 0xfbbf, 0xeb9e, 0x9b79, 0x8b58, 0xbb3b, 0xab1a, 0x6ca6, 0x7c87, 0x4ce4,
   0x5cc5, 0x2c22, 0x3c03, 0x0c60, 0x1c41, 0xedae, 0xfd8f, 0xcdec, 0xddcd, 0xad2a, 0xbd0b,
   0x8d68, 0x9d49, 0x7e97, 0x6eb6, 0x5ed5, 0x4ef4, 0x3e13, 0x2e32, 0x1e51, 0x0e70, 0xff9f,
   0xefbe, 0xdfdd, 0xcffc, 0xbf1b, 0xaf3a, 0x9f59, 0x8f78, 0x9188, 0x81a9, 0xb1ca, 0xa1eb,
   0xd10c, 0xc12d, 0xf14e, 0xe16f, 0x1080, 0x00a1, 0x30c2, 0x20e3, 0x5004, 0x4025, 0x7046,
   0x6067, 0x83b9, 0x9398, 0xa3fb, 0xb3da, 0xc33d, 0xd31c, 0xe37f, 0xf35e, 0x02b1, 0x1290,
   0x22f3, 0x32d2, 0x4235, 0x5214, 0x6277, 0x7256, 0xb5ea, 0xa5cb, 0x95a8, 0x8589, 0xf56e,
   0xe54f, 0xd52c, 0xc50d, 0x34e2, 0x24c3, 0x14a0, 0x0481, 0x7466, 0x6447, 0x5424, 0x4405,
   0xa7db, 0xb7fa, 0x8799, 0x97b8, 0xe75f, 0xf77e, 0xc71d, 0xd73c, 0x26d3, 0x36f2, 0x0691,
   0x16b0, 0x6657, 0x7676, 0x4615, 0x5634, 0xd94c, 0xc96d, 0xf90e, 0xe92f, 0x99c8, 0x89e9,
   0xb98a, 0xa9ab, 0x5844, 0x4865, 0x7806, 0x6827, 0x18c0, 0x08e1, 0x3882, 0x28a3, 0xcb7d,
   0xdb5c, 0xeb3f, 0xfb1e, 0x8bf9, 0x9bd8, 0xabbb, 0xbb9a, 0x4a75, 0x5a54, 0x6a37, 0x7a16,
   0x0af1, 0x1ad0, 0x2ab3, 0x3a92, 0xfd2e, 0xed0f, 0xdd6c, 0xcd4d, 0xbdaa, 0xad8b, 0x9de8,
   0x8dc9, 0x7c26, 0x6c07, 0x5c64, 0x4c45, 0x3ca2, 0x2c83, 0x1ce0, 0x0cc1, 0xef1f, 0xff3e,
   0xcf5d, 0xdf7c, 0xaf9b, 0xbfba, 0x8fd9, 0x9ff8, 0x6e17, 0x7e36, 0x4e55, 0x5e74, 0x2e93,
   0x3eb2, 0x0ed1, 0x1ef0]

def crc16 (data : Bytes) : UInt16 :=
  data.foldl (fun crc byte =>
    (crc <<< 8) ^^^ crc16Tab.getD ((crc >>> 8) ^^^ byte.toUInt16).toNat 0) 0

/-- What is hashed of a key: the text between the first `{` and the next `}`, if there is any. -/
def hashKey (key : Bytes) : Bytes :=
  match key.idxOf? 123 with
  | none => key
  | some start =>
      let rest := key.drop (start + 1)
      match rest.idxOf? 125 with
      | none => key
      | some stop => if stop = 0 then key else rest.take stop

def calculateSlot (key : Str) : SlotId := crc16 (hashKey key.bytes) % UInt16.ofNat totalSlots

theorem calculateSlot_lt (key : Str) : (calculateSlot key).toNat < totalSlots := by
  have slots : (UInt16.ofNat totalSlots).toNat = 16384 := rfl
  unfold calculateSlot
  rw [UInt16.toNat_mod, slots]
  exact Nat.mod_lt _ (by decide)

def getKeyShard (m : SlotManager) (key : Str) : ShardId :=
  (getSlotShard m (calculateSlot key)).getD 0

/-- A slot that is to be handed from a shard to another one. -/
structure Move where
  slot : SlotId
  fromShard : ShardId
  toShard : ShardId
  deriving DecidableEq

structure LoadMetrics where
  operationsPerSecond : List (ShardId × UInt64)
  slotAccessCount : List (SlotId × UInt64)

/-- The slot manager with its counters. Tables are listed in their order of iteration. -/
structure CountedManager where
  slots : SlotManager
  shardOps : List UInt64
  slotAccess : Fin totalSlots → UInt64
  loadMetrics : LoadMetrics
  migrationQueue : List Move

namespace CountedManager

def new (shardCount : Nat) : Option CountedManager :=
  (SlotManager.new shardCount).map fun slots =>
    { slots := slots
      shardOps := List.replicate shardCount 0
      slotAccess := fun _ => 0
      loadMetrics := ⟨[], []⟩
      migrationQueue := [] }

def recordOperation (m : CountedManager) (key : Str) : CountedManager :=
  let slot := calculateSlot key
  { m with
    slotAccess := fun other =>
      if other.val = slot.toNat then m.slotAccess other + 1 else m.slotAccess other
    shardOps := m.shardOps.modify (getKeyShard m.slots key) (· + 1) }

def resetMetrics (m : CountedManager) : CountedManager :=
  { m with
    loadMetrics := ⟨[], []⟩
    shardOps := m.shardOps.map fun _ => 0
    slotAccess := fun _ => 0 }

end CountedManager

def rebalanceThreshold : F64 := F64.ofRatio false 3 2

def hotKeyThreshold : UInt64 := 100

def migrationBatchSize : Nat := 64

def ofU64 (n : UInt64) : F64 := F64.ofInt n.toNat

def ofUsize (n : Nat) : F64 := F64.ofInt n

/-- A loop that stops when the batch is full. -/
def untilFull {α : Type} (batch : Nat) (f : α → List Move → List Move) :
    List α → List Move → List Move
  | [], moves => moves
  | a :: rest, moves =>
      if batch ≤ (f a moves).length then f a moves else untilFull batch f rest (f a moves)

def SlotState.isStableAt (shard : ShardId) : SlotState → Bool
  | .stable s => s = shard
  | _ => false

def isOver (avgLoad : F64) (e : ShardId × UInt64) : Bool :=
  F64.lt (F64.mul avgLoad rebalanceThreshold) (ofU64 e.2)

def isUnder (avgLoad : F64) (e : ShardId × UInt64) : Bool :=
  F64.lt (ofU64 e.2) (F64.div avgLoad rebalanceThreshold)

def mostLoaded (loads : List (ShardId × UInt64)) : List (ShardId × UInt64) :=
  loads.mergeSort fun a b => decide (b.2 ≤ a.2)

def leastLoaded (loads : List (ShardId × UInt64)) : List (ShardId × UInt64) :=
  loads.mergeSort fun a b => decide (a.2 ≤ b.2)

namespace CountedManager

variable (m : CountedManager)

/-- The hot slots of a shard, by the counts of the metrics. -/
def hotSlots (shard : ShardId) : List SlotId :=
  ((List.finRange totalSlots).filterMap fun slot =>
    let id := UInt16.ofNat slot.val
    if (m.slots.slotAssignments slot).isStableAt shard then
      match Assoc.get m.loadMetrics.slotAccessCount id with
      | some count => if hotKeyThreshold < count then some id else none
      | none => none
    else none).take migrationBatchSize

/-- The moves of `trigger_rebalance` by the metrics that were collected. -/
def planByMetrics : List Move :=
  let loads := m.loadMetrics.operationsPerSecond
  if loads = [] then []
  else
    let avgLoad := F64.div (ofU64 (loads.map Prod.snd).sum) (ofUsize loads.length)
    let overloaded := mostLoaded (loads.filter (isOver avgLoad))
    let underloaded := leastLoaded (loads.filter fun e => !isOver avgLoad e && isUnder avgLoad e)
    untilFull migrationBatchSize (fun giver => untilFull migrationBatchSize (fun under moves =>
      moves ++ (m.hotSlots giver.1).map fun slot => ⟨slot, giver.1, under.1⟩) underloaded)
      overloaded []

/-- The moves of `trigger_rebalance` by the counters. When the batch is full no slot is added any
more, which is where the source leaves the loops. -/
def planByCounters : List Move :=
  let loads := m.shardOps.zipIdx.map fun e => (e.2, e.1)
  let total := m.shardOps.sum
  if total = 0 then []
  else
    let avgLoad := F64.div (ofU64 total) (ofUsize m.shardOps.length)
    let overloaded := mostLoaded (loads.filter (isOver avgLoad))
    let underloaded := leastLoaded (loads.filter (isUnder avgLoad))
    overloaded.foldl (fun moves giver => underloaded.foldl (fun moves under =>
      (List.finRange totalSlots).foldl (fun moves slot =>
        if migrationBatchSize ≤ moves.length then moves
        else if (m.slots.slotAssignments slot).isStableAt giver.1 &&
            decide (hotKeyThreshold < m.slotAccess slot) then
          moves ++ [⟨UInt16.ofNat slot.val, giver.1, under.1⟩]
        else moves) moves) moves) []

def triggerRebalance : List Move × CountedManager :=
  let moves := if m.planByMetrics = [] then m.planByCounters else m.planByMetrics
  (moves, { m with migrationQueue := m.migrationQueue ++ moves })

/-- Each shard's part of all operations, as a table that lists its entries in some order. -/
def getLoadDistribution (order : IterationOrder (ShardId × F64)) : List (ShardId × F64) :=
  let total := m.shardOps.sum
  if total = 0 then []
  else order.order (m.shardOps.zipIdx.map fun e => (e.2, F64.div (ofU64 e.1) (ofU64 total)))

end CountedManager

theorem untilFull_kept {α : Type} {batch : Nat} {f : α → List Move → List Move} {l : List α}
    {P : List Move → Prop} (keeps : ∀ a ∈ l, ∀ moves, P moves → P (f a moves)) {moves : List Move}
    (start : P moves) : P (untilFull batch f l moves) := by
  induction l generalizing moves with
  | nil => exact start
  | cons a rest ih =>
      have next := keeps a List.mem_cons_self moves start
      rw [untilFull]
      split
      · exact next
      · exact ih (fun b member => keeps b (List.mem_cons_of_mem a member)) next

theorem foldl_kept {α β : Type} {f : β → α → β} {l : List α} {P : β → Prop}
    (keeps : ∀ a ∈ l, ∀ b, P b → P (f b a)) {b : β} (start : P b) : P (l.foldl f b) := by
  induction l generalizing b with
  | nil => exact start
  | cons a rest ih =>
      exact ih (fun c member => keeps c (List.mem_cons_of_mem a member))
        (keeps a List.mem_cons_self b start)

namespace CountedManager

variable {m : CountedManager}

/-- The slot of a move is settled at the shard that is to hand it over. -/
def Settled (m : CountedManager) (move : Move) : Prop :=
  stateOf m.slots move.slot = some (.stable move.fromShard)

theorem stateOf_ofNat (slots : SlotManager) (slot : Fin totalSlots) :
    stateOf slots (UInt16.ofNat slot.val) = some (slots.slotAssignments slot) := by
  have bound : slot.val < 16384 := slot.isLt
  have same : (UInt16.ofNat slot.val).toNat = slot.val := by
    rw [UInt16.toNat_ofNat']
    omega
  have inside : (UInt16.ofNat slot.val).toNat < totalSlots := by
    rw [same]
    exact slot.isLt
  unfold stateOf
  rw [dif_pos inside]
  exact congrArg (fun slot => some (slots.slotAssignments slot)) (Fin.ext same)

theorem eq_stable_of_isStableAt {shard : ShardId} {state : SlotState}
    (at' : state.isStableAt shard = true) : state = .stable shard := by
  cases state with
  | stable s => exact congrArg SlotState.stable (of_decide_eq_true at')
  | migrating src dst progress => cases at'
  | importing src dst progress => cases at'

theorem stable_of_mem_hotSlots {shard : ShardId} {id : SlotId} (hot : id ∈ m.hotSlots shard) :
    stateOf m.slots id = some (.stable shard) := by
  obtain ⟨slot, -, listed⟩ := List.mem_filterMap.mp (List.mem_of_mem_take hot)
  dsimp only at listed
  split at listed
  · rename_i here
    have same : UInt16.ofNat slot.val = id := by
      split at listed
      · split at listed
        · exact Option.some.inj listed
        · cases listed
      · cases listed
    rw [← same, stateOf_ofNat, eq_stable_of_isStableAt here]
  · cases listed

theorem planByMetrics_settled : ∀ move ∈ m.planByMetrics, m.Settled move := by
  unfold planByMetrics
  dsimp only
  split
  · simp
  · refine untilFull_kept (P := fun moves => ∀ move ∈ moves, m.Settled move) ?_ (by simp)
    intro giver _ moves sofar
    refine untilFull_kept (P := fun moves => ∀ move ∈ moves, m.Settled move) ?_ sofar
    intro under _ moves sofar move member
    rcases List.mem_append.mp member with old | added
    · exact sofar move old
    · obtain ⟨slot, hot, rfl⟩ := List.mem_map.mp added
      exact stable_of_mem_hotSlots hot

theorem planByCounters_settled : ∀ move ∈ m.planByCounters, m.Settled move := by
  unfold planByCounters
  dsimp only
  split
  · simp
  · refine foldl_kept (P := fun moves => ∀ move ∈ moves, m.Settled move) ?_ (by simp)
    intro giver _ moves sofar
    refine foldl_kept (P := fun moves => ∀ move ∈ moves, m.Settled move) ?_ sofar
    intro under _ moves sofar
    refine foldl_kept (P := fun moves => ∀ move ∈ moves, m.Settled move) ?_ sofar
    intro slot _ moves sofar
    split
    · exact sofar
    · split
      · rename_i hot
        intro move member
        rcases List.mem_append.mp member with old | added
        · exact sofar move old
        · obtain rfl := List.mem_singleton.mp added
          have here := (Bool.and_eq_true_iff.mp hot).1
          exact (stateOf_ofNat m.slots slot).trans
            (congrArg some (eq_stable_of_isStableAt here))
      · exact sofar

theorem triggerRebalance_settled : ∀ move ∈ m.triggerRebalance.1, m.Settled move := by
  unfold triggerRebalance
  dsimp only
  split
  · exact planByCounters_settled
  · exact planByMetrics_settled

theorem lt_of_mem_getLoadDistribution {order : IterationOrder (ShardId × F64)}
    {e : ShardId × F64} (member : e ∈ m.getLoadDistribution order) : e.1 < m.shardOps.length := by
  unfold getLoadDistribution at member
  dsimp only at member
  split at member
  · cases member
  · obtain ⟨load, listed, rfl⟩ := List.mem_map.mp ((order.perm _).mem_iff.mp member)
    exact List.snd_lt_of_mem_zipIdx listed

end CountedManager

/-- The parts of the configuration that planning reads. -/
structure RebalancerConfig where
  loadThreshold : F64
  migrationBatchSize : Nat

inductive RebalanceTrigger where
  | loadImbalance (maxLoad minLoad : F64)
  | hotKeyDetected (key : Str) (opsPerSec : UInt64)
  | manualTrigger
  | shardAddition
  | shardRemoval

/-- The first of the least entries. -/
def minLoad : List (ShardId × F64) → Option (ShardId × F64)
  | [] => none
  | e :: rest => some (rest.foldl (fun least e => if F64.lt e.2 least.2 then e else least) e)

section

variable (config : RebalancerConfig) (m : CountedManager) (order : IterationOrder (ShardId × F64))

/-- Only the first hundred slots are looked at. -/
def planLoadBasedRebalancing : List Move :=
  let loads := m.getLoadDistribution order
  let avgLoad := F64.div ((loads.map Prod.snd).foldl F64.add (F64.ofInt 0)) (ofUsize loads.length)
  let isOver (e : ShardId × F64) : Bool := F64.lt (F64.mul avgLoad config.loadThreshold) e.2
  let under (e : ShardId × F64) : Bool := F64.lt e.2 (F64.div avgLoad config.loadThreshold)
  let overloaded := (loads.filter isOver).mergeSort fun a b => !F64.lt a.2 b.2
  let underloaded := (loads.filter fun e => !isOver e && under e).mergeSort fun a b =>
    !F64.lt b.2 a.2
  untilFull config.migrationBatchSize (fun giver =>
    untilFull config.migrationBatchSize (fun under =>
      untilFull config.migrationBatchSize (fun slot moves =>
        if getSlotShard m.slots slot = some giver.1 then moves ++ [⟨slot, giver.1, under.1⟩]
        else moves) ((List.range 100).map UInt16.ofNat))
      (underloaded.take 2)) (overloaded.take (config.migrationBatchSize / 2)) []

def planHotKeyRedistribution (hotKey : Str) : List Move :=
  let slot := calculateSlot hotKey
  let currentShard := getKeyShard m.slots hotKey
  let loads := m.getLoadDistribution order
  let current := (Assoc.get loads currentShard).getD F64.nan
  if loads.all fun e => F64.lt (F64.abs (F64.sub e.2 current)) F64.epsilon then []
  else
    let targetShard := ((minLoad loads).map Prod.fst).getD 0
    if targetShard ≠ currentShard then [⟨slot, currentShard, targetShard⟩] else []

def planRebalancing : RebalanceTrigger → List Move
  | .loadImbalance _ _ => planLoadBasedRebalancing config m order
  | .hotKeyDetected key _ => planHotKeyRedistribution m order key
  | .manualTrigger => planLoadBasedRebalancing config m order
  | _ => []

variable {config m order}

/-- A planned move takes a slot from the shard that serves it to another shard of the cluster. -/
def Planned (m : CountedManager) (move : Move) : Prop :=
  getSlotShard m.slots move.slot = some move.fromShard ∧ move.toShard < m.shardOps.length

theorem planLoadBasedRebalancing_planned :
    ∀ move ∈ planLoadBasedRebalancing config m order, Planned m move := by
  unfold planLoadBasedRebalancing
  refine untilFull_kept (P := fun moves => ∀ move ∈ moves, Planned m move) ?_ (by simp)
  intro giver _ moves sofar
  refine untilFull_kept (P := fun moves => ∀ move ∈ moves, Planned m move) ?_ sofar
  intro under least moves sofar
  have target : under.1 < m.shardOps.length := by
    have listed := List.mem_of_mem_filter (List.mem_mergeSort.mp (List.mem_of_mem_take least))
    exact CountedManager.lt_of_mem_getLoadDistribution listed
  refine untilFull_kept (P := fun moves => ∀ move ∈ moves, Planned m move) ?_ sofar
  intro slot _ moves sofar
  split
  · rename_i here
    intro move member
    rcases List.mem_append.mp member with old | added
    · exact sofar move old
    · obtain rfl := List.mem_singleton.mp added
      exact ⟨here, target⟩
  · exact sofar

theorem mem_of_minLoad {loads : List (ShardId × F64)} {e : ShardId × F64}
    (least : minLoad loads = some e) : e ∈ loads := by
  cases loads with
  | nil => cases least
  | cons first rest =>
      obtain rfl := Option.some.inj least
      refine foldl_kept (P := fun least => least ∈ first :: rest) ?_ List.mem_cons_self
      intro a member b kept
      split
      · exact List.mem_cons_of_mem first member
      · exact kept

theorem planHotKeyRedistribution_planned (hotKey : Str) :
    ∀ move ∈ planHotKeyRedistribution m order hotKey, Planned m move := by
  intro move member
  unfold planHotKeyRedistribution at member
  dsimp only at member
  split at member
  · cases member
  · rename_i uneven
    split at member
    · obtain rfl := List.mem_singleton.mp member
      constructor
      · obtain ⟨state, known⟩ : ∃ state, stateOf m.slots (calculateSlot hotKey) = some state :=
          ⟨_, dif_pos (calculateSlot_lt hotKey)⟩
        simp [getKeyShard, getSlotShard, known]
      · cases least : minLoad (m.getLoadDistribution order) with
        | none =>
            have empty : m.getLoadDistribution order = [] := by
              cases loads : m.getLoadDistribution order with
              | nil => rfl
              | cons first rest =>
                  rw [loads] at least
                  cases least
            exact absurd (by rw [empty]; rfl) uneven
        | some e => exact CountedManager.lt_of_mem_getLoadDistribution (mem_of_minLoad least)
    · cases member

theorem planRebalancing_planned (trigger : RebalanceTrigger) :
    ∀ move ∈ planRebalancing config m order trigger, Planned m move := by
  cases trigger with
  | loadImbalance _ _ => exact planLoadBasedRebalancing_planned
  | hotKeyDetected key _ => exact planHotKeyRedistribution_planned key
  | manualTrigger => exact planLoadBasedRebalancing_planned
  | shardAddition => simp [planRebalancing]
  | shardRemoval => simp [planRebalancing]

end

/-- A call that runs by itself, at most `n` sections long. -/
def alone : Nat → SlotManager → Call → SlotManager × Call
  | 0, m, call => (m, call)
  | n + 1, m, call =>
      match nextSection m call with
      | some (m, call) => alone n m call
      | none => (m, call)

def startSlotMigration (m : SlotManager) (slot : SlotId) (src dst : ShardId) : SlotManager × Call :=
  alone 3 m (checkStart m slot src dst)

def completeSlotMigration (m : SlotManager) (slot : SlotId) : SlotManager × Call :=
  alone 3 m (readTask m slot MigrationTask.toShard)

/-- What a start that succeeded has done. -/
structure Started (m m' : SlotManager) (slot : SlotId) (src dst : ShardId) : Prop where
  idle : Assoc.get m.activeMigrations slot = none
  states : ∀ other, stateOf m' other =
    if other = slot then some (.migrating src dst (F64.ofInt 0)) else stateOf m other
  active : m'.activeMigrations = Assoc.insert m.activeMigrations slot ⟨slot, src, dst⟩

/-- What an end of a migration that succeeded has done. -/
structure Completed (m m' : SlotManager) (slot : SlotId) (task : MigrationTask) : Prop where
  found : Assoc.get m.activeMigrations slot = some task
  states : ∀ other, stateOf m' other =
    if other = slot then some (.stable task.toShard) else stateOf m other
  active : m'.activeMigrations = Assoc.erase m.activeMigrations slot

theorem le_of_assign_none {m : SlotManager} {slot : SlotId} {state : SlotState}
    (done : assign m slot state = none) : totalSlots ≤ slot.toNat := by
  unfold assign at done
  split at done
  · cases done
  · rename_i outside
    exact Nat.not_lt.mp outside

theorem startSlotMigration_cases (m : SlotManager) (slot : SlotId) (src dst : ShardId) :
    (∃ e, startSlotMigration m slot src dst = (m, .returned (.error e)) ∧
        ((Assoc.get m.activeMigrations slot).isSome = true ∨ totalSlots ≤ slot.toNat)) ∨
      ∃ m', startSlotMigration m slot src dst = (m', .returned (.ok ())) ∧
        Started m m' slot src dst := by
  unfold startSlotMigration checkStart
  cases idle : Assoc.get m.activeMigrations slot with
  | some task => exact Or.inl ⟨_, rfl, Or.inl rfl⟩
  | none =>
      cases done : assign m slot (.migrating src dst (F64.ofInt 0)) with
      | none =>
          refine Or.inl ⟨.invalidSlot slot, ?_, Or.inr (le_of_assign_none done)⟩
          simp only [alone, nextSection, assignOr, done]
      | some m' =>
          have same := (activeMigrations_assign done).1
          refine Or.inr ⟨{ m' with
            activeMigrations := Assoc.insert m'.activeMigrations slot ⟨slot, src, dst⟩
            slotMapVersion := m'.slotMapVersion + 1 }, ?_, idle,
            fun other => stateOf_assign done other, ?_⟩
          · simp only [alone, nextSection, assignOr, done]
          · simp only [same]

theorem completeSlotMigration_cases (m : SlotManager) (slot : SlotId) :
    (∃ e, completeSlotMigration m slot = (m, .returned (.error e)) ∧
        (Assoc.get m.activeMigrations slot = none ∨ totalSlots ≤ slot.toNat)) ∨
      ∃ m' task, completeSlotMigration m slot = (m', .returned (.ok ())) ∧
        Completed m m' slot task := by
  unfold completeSlotMigration readTask
  cases found : Assoc.get m.activeMigrations slot with
  | none => exact Or.inl ⟨_, rfl, Or.inl rfl⟩
  | some task =>
      cases done : assign m slot (.stable task.toShard) with
      | none =>
          refine Or.inl ⟨.invalidSlot slot, ?_, Or.inr (le_of_assign_none done)⟩
          simp only [alone, nextSection, assignOr, done]
      | some m' =>
          have same := (activeMigrations_assign done).1
          refine Or.inr ⟨{ m' with
            activeMigrations := Assoc.erase m'.activeMigrations slot
            slotMapVersion := m'.slotMapVersion + 1 }, task, ?_, found,
            fun other => stateOf_assign done other, ?_⟩
          · simp only [alone, nextSection, assignOr, done]
          · simp only [same]

end Zumic.Engine.SlotManager
