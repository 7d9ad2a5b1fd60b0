/- When the moves that `trigger_rebalance` plans can all be started (`slot_manager.rs`). -/

import Zumic.Engine.Balancing
import Zumic.Lib.Batches
import Zumic.Lib.F64Round

namespace Zumic.Engine.SlotManager

open Lib Lib.Batches

/-- One start after another succeeds. -/
def AllStart : SlotManager → List Move → Prop
  | _, [] => True
  | m, move :: rest =>
      ∃ m', startSlotMigration m move.slot move.fromShard move.toShard = (m', .returned (.ok ())) ∧
        AllStart m' rest

/-- No migration of the slot is under way. -/
def Idle (m : SlotManager) (slot : SlotId) : Prop := Assoc.get m.activeMigrations slot = none

/-- The overloaded shards with their hot slots and the underloaded shards, as planning meets them. -/
structure Prospect where
  rows : List (ShardId × List SlotId)
  takers : List ShardId

namespace Prospect

def hot (p : Prospect) : List SlotId := p.rows.flatMap Prod.snd

/-- There is something to move and a shard to take it. -/
def Offers (p : Prospect) : Prop := p.takers ≠ [] ∧ p.hot ≠ []

instance (p : Prospect) : Decidable p.Offers := inferInstanceAs (Decidable (_ ∧ _))

/-- One shard is underloaded, or the first shard that has hot slots fills the batch. -/
def OfferedOnce (p : Prospect) : Prop :=
  Once migrationBatchSize p.takers.length (p.rows.map Prod.snd)

/-- Shard by shard the numbers of hot slots do not jump beyond the batch. -/
def WithinBatch (p : Prospect) : Prop :=
  FillsUp migrationBatchSize (p.rows.map fun row => row.2.length)

end Prospect

namespace CountedManager

variable (m : CountedManager)

/-- The hot slots of a shard, by the counters. -/
def countedHotSlots (shard : ShardId) : List SlotId :=
  ((List.finRange totalSlots).filter fun slot =>
    (m.slots.slotAssignments slot).isStableAt shard &&
      decide (hotKeyThreshold < m.slotAccess slot)).map fun slot => UInt16.ofNat slot.val

def byMetrics : Prospect :=
  let loads := m.loadMetrics.operationsPerSecond
  let avgLoad := F64.div (ofU64 (loads.map Prod.snd).sum) (ofUsize loads.length)
  ⟨(mostLoaded (loads.filter (isOver avgLoad))).map fun giver => (giver.1, m.hotSlots giver.1),
    (leastLoaded (loads.filter fun e => !isOver avgLoad e && isUnder avgLoad e)).map Prod.fst⟩

def byCounters : Prospect :=
  let loads := m.shardOps.zipIdx.map fun e => (e.2, e.1)
  let avgLoad := F64.div (ofU64 m.shardOps.sum) (ofUsize m.shardOps.length)
  if m.shardOps.sum = 0 then ⟨[], []⟩
  else
    ⟨(mostLoaded (loads.filter (isOver avgLoad))).map fun giver =>
        (giver.1, m.countedHotSlots giver.1),
      (leastLoaded (loads.filter (isUnder avgLoad))).map Prod.fst⟩

/-- A plan that `start_slot_migration` can carry out. -/
structure Executable (moves : List Move) : Prop where
  size : moves.length ≤ migrationBatchSize
  once : (moves.map Move.slot).Nodup
  settled : ∀ move ∈ moves, m.Settled move ∧ move.fromShard ≠ move.toShard
  starts : AllStart m.slots moves

/-- No slot is offered twice, the batch is not exceeded, and the slots are idle. -/
def Startable : Prop :=
  if m.byMetrics.Offers then
    m.byMetrics.OfferedOnce ∧ m.byMetrics.WithinBatch ∧
      ∀ slot ∈ m.byMetrics.hot.take migrationBatchSize, Idle m.slots slot
  else m.byCounters.Offers →
    m.byCounters.OfferedOnce ∧
      ∀ slot ∈ m.byCounters.hot.take migrationBatchSize, Idle m.slots slot

end CountedManager

theorem allStart_iff {moves : List Move} (inside : ∀ move ∈ moves, move.slot.toNat < totalSlots)
    (m : SlotManager) : AllStart m moves ↔
      (moves.map Move.slot).Nodup ∧ ∀ slot ∈ moves.map Move.slot, Idle m slot := by
  induction moves generalizing m with
  | nil => exact ⟨fun _ => ⟨List.nodup_nil, fun slot member => absurd member List.not_mem_nil⟩,
      fun _ => trivial⟩
  | cons move moves ih =>
      rw [AllStart, List.map_cons, List.nodup_cons, List.forall_mem_cons]
      rcases startSlotMigration_cases m move.slot move.fromShard move.toShard with
        ⟨e, run, active | outside⟩ | ⟨m', run, started⟩
      · rw [run]
        constructor
        · rintro ⟨m', same, -⟩
          cases same
        · rintro ⟨-, idle, -⟩
          rw [Idle] at idle
          rw [idle] at active
          cases active
      · have range := inside move List.mem_cons_self
        omega
      · rw [run]
        have rest := ih (fun other member => inside other (List.mem_cons_of_mem move member)) m'
        have idle : ∀ slot, Idle m' slot ↔ slot ≠ move.slot ∧ Idle m slot := by
          intro slot
          rw [Idle, started.active, Assoc.get_insert]
          by_cases here : move.slot = slot
          · simp [here]
          · simp [here, Ne.symm here, Idle]
        constructor
        · rintro ⟨m'', same, later⟩
          obtain ⟨rfl, -⟩ := Prod.mk.inj same
          obtain ⟨once, idles⟩ := rest.mp later
          refine ⟨⟨fun member => ((idle _).mp (idles _ member)).1 rfl, once⟩, started.idle, ?_⟩
          exact fun slot member => ((idle slot).mp (idles slot member)).2
        · rintro ⟨⟨absent, once⟩, -, idles⟩
          refine ⟨m', rfl, rest.mpr ⟨once, fun slot member => (idle slot).mpr ⟨?_, idles slot member⟩⟩⟩
          rintro rfl
          exact absent member

section

variable {m : CountedManager}

theorem slots_offerRow (slots : List SlotId) (giver : ShardId)
    (unders : List (ShardId × UInt64)) (moves : List Move) :
    (untilFull migrationBatchSize (fun under moves =>
      moves ++ slots.map fun slot => ⟨slot, giver, under.1⟩) unders moves).map Move.slot =
        offerRow migrationBatchSize slots unders.length (moves.map Move.slot) := by
  induction unders generalizing moves with
  | nil => rfl
  | cons under unders ih =>
      have next : (moves ++ slots.map fun slot => (⟨slot, giver, under.1⟩ : Move)).map Move.slot =
          moves.map Move.slot ++ slots := by
        simp [Function.comp_def]
      have size := congrArg List.length next
      rw [List.length_map] at size
      rw [untilFull, List.length_cons, offerRow, ← size]
      split
      · exact next
      · rw [ih, next]

theorem slots_offerRows (hotOf : ShardId → List SlotId)
    (overs unders : List (ShardId × UInt64)) (moves : List Move) :
    (untilFull migrationBatchSize (fun giver => untilFull migrationBatchSize (fun under moves =>
      moves ++ (hotOf giver.1).map fun slot => ⟨slot, giver.1, under.1⟩) unders)
        overs moves).map Move.slot =
      offerRows migrationBatchSize (unders.map Prod.fst).length
        ((overs.map fun giver => (giver.1, hotOf giver.1)).map Prod.snd)
        (moves.map Move.slot) := by
  induction overs generalizing moves with
  | nil => rfl
  | cons giver overs ih =>
      have row := slots_offerRow (hotOf giver.1) giver.1 unders moves
      have size := congrArg List.length row
      rw [List.length_map] at size
      rw [untilFull, List.map_cons, List.map_cons, offerRows, List.length_map, ← size]
      split
      · exact row
      · rw [ih, List.length_map, row]

theorem slots_planByMetrics : m.planByMetrics.map Move.slot =
    offerRows migrationBatchSize m.byMetrics.takers.length (m.byMetrics.rows.map Prod.snd) [] := by
  unfold CountedManager.planByMetrics CountedManager.byMetrics
  dsimp only
  split
  · rename_i none'
    simp [none', mostLoaded, leastLoaded, offerRows]
  · exact slots_offerRows _ _ _ []

theorem slots_foldl {ε : Type} {f : List Move → ε → List Move} {items : ε → List SlotId}
    (adds : ∀ e moves, moves.length ≤ migrationBatchSize →
      (f moves e).map Move.slot = (moves.map Move.slot ++ items e).take migrationBatchSize)
    (l : List ε) {moves : List Move} (space : moves.length ≤ migrationBatchSize) :
    (l.foldl f moves).map Move.slot =
      (moves.map Move.slot ++ l.flatMap items).take migrationBatchSize := by
  induction l generalizing moves with
  | nil =>
      rw [List.flatMap_nil, List.append_nil, List.take_of_length_le (by rwa [List.length_map])]
      rfl
  | cons e l ih =>
      have first := adds e moves space
      have size : (f moves e).length ≤ migrationBatchSize := by
        rw [← List.length_map (f := Move.slot), first, List.length_take]
        exact Nat.min_le_left _ _
      rw [List.foldl_cons, ih size, first, List.flatMap_cons, ← List.append_assoc]
      generalize moves.map Move.slot ++ items e = front
      by_cases long : migrationBatchSize ≤ front.length
      · rw [List.take_append_of_le_length (by rw [List.length_take]; omega),
          List.take_append_of_le_length long, List.take_take, Nat.min_self]
      · rw [List.take_of_length_le (by omega : front.length ≤ migrationBatchSize)]

theorem flatMap_if {ε β : Type} (p : ε → Bool) (g : ε → β) (l : List ε) :
    (l.flatMap fun e => if p e = true then [g e] else []) = (l.filter p).map g := by
  induction l with
  | nil => rfl
  | cons e l ih =>
      rw [List.flatMap_cons, List.filter_cons, ih]
      split
      · rfl
      · rfl

theorem flatMap_const {ε β : Type} (row : List β) (l : List ε) :
    (l.flatMap fun _ => row) = (List.replicate l.length row).flatten := by
  induction l with
  | nil => rfl
  | cons e l ih => rw [List.flatMap_cons, ih, List.length_cons, List.replicate_succ, List.flatten_cons]

theorem slots_counted (slots : List (Fin totalSlots)) (p : Fin totalSlots → Bool)
    (giver taker : ShardId) {moves : List Move} (space : moves.length ≤ migrationBatchSize) :
    (slots.foldl (fun moves slot =>
      if migrationBatchSize ≤ moves.length then moves
      else if p slot then moves ++ [⟨UInt16.ofNat slot.val, giver, taker⟩]
      else moves) moves).map Move.slot =
        (moves.map Move.slot ++ (slots.filter p).map fun slot => UInt16.ofNat slot.val).take
          migrationBatchSize := by
  rw [← flatMap_if]
  refine slots_foldl (fun slot moves space => ?_) _ space
  split
  · rename_i full
    rw [List.take_append_of_le_length (by rwa [List.length_map]),
      List.take_of_length_le (by rwa [List.length_map])]
  · split
    · rw [List.take_of_length_le (by
        rw [List.length_append, List.length_map, List.length_singleton]
        omega)]
      simp
    · rw [List.append_nil, List.take_of_length_le (by rwa [List.length_map])]

theorem slots_takers (slots : List (Fin totalSlots)) (p : Fin totalSlots → Bool)
    (giver : ShardId) (unders : List (ShardId × UInt64)) {moves : List Move}
    (space : moves.length ≤ migrationBatchSize) :
    (unders.foldl (fun moves under => slots.foldl (fun moves slot =>
      if migrationBatchSize ≤ moves.length then moves
      else if p slot then moves ++ [⟨UInt16.ofNat slot.val, giver, under.1⟩]
      else moves) moves) moves).map Move.slot =
        (moves.map Move.slot ++ (List.replicate unders.length
          ((slots.filter p).map fun slot => UInt16.ofNat slot.val)).flatten).take
            migrationBatchSize := by
  rw [← flatMap_const]
  exact slots_foldl (fun under moves space => slots_counted slots p giver under.1 space) _ space

theorem slots_givers (slots : List (Fin totalSlots)) (p : ShardId → Fin totalSlots → Bool)
    (overs unders : List (ShardId × UInt64)) :
    (overs.foldl (fun moves giver => unders.foldl (fun moves under => slots.foldl (fun moves slot =>
      if migrationBatchSize ≤ moves.length then moves
      else if p giver.1 slot then moves ++ [⟨UInt16.ofNat slot.val, giver.1, under.1⟩]
      else moves) moves) moves) []).map Move.slot =
        takeRows migrationBatchSize unders.length
          (overs.map fun giver => (slots.filter (p giver.1)).map fun slot => UInt16.ofNat slot.val) := by
  have empty : ([] : List Move).length ≤ migrationBatchSize := Nat.zero_le _
  have rows := slots_foldl (fun giver moves space =>
    slots_takers slots (p giver.1) giver.1 unders space) overs empty
  rw [takeRows, List.flatMap_map]
  exact rows

theorem slots_planByCounters : m.planByCounters.map Move.slot =
    takeRows migrationBatchSize m.byCounters.takers.length (m.byCounters.rows.map Prod.snd) := by
  unfold CountedManager.planByCounters CountedManager.byCounters
  dsimp only
  split
  · rfl
  · simp only [CountedManager.countedHotSlots, List.length_map, List.map_map]
    generalize List.finRange totalSlots = slots
    exact slots_givers slots (fun giver slot => (m.slots.slotAssignments slot).isStableAt giver &&
      decide (hotKeyThreshold < m.slotAccess slot)) _ _

end

section

variable {m : CountedManager}

theorem toNat_ofNat (slot : Fin totalSlots) : (UInt16.ofNat slot.val).toNat = slot.val := by
  have bound : slot.val < 16384 := slot.isLt
  rw [UInt16.toNat_ofNat']
  omega

theorem ofNat_inj {slot slot' : Fin totalSlots}
    (same : UInt16.ofNat slot.val = UInt16.ofNat slot'.val) : slot = slot' := by
  have values := congrArg UInt16.toNat same
  rw [toNat_ofNat, toNat_ofNat] at values
  exact Fin.ext values

/-- The slot, if it is hot at the shard. -/
private def hotAt (m : CountedManager) (shard : ShardId) (slot : Fin totalSlots) : Option SlotId :=
  if (m.slots.slotAssignments slot).isStableAt shard then
    match Assoc.get m.loadMetrics.slotAccessCount (UInt16.ofNat slot.val) with
    | some count => if hotKeyThreshold < count then some (UInt16.ofNat slot.val) else none
    | none => none
  else none

theorem hotSlots_eq (shard : ShardId) : m.hotSlots shard =
    ((List.finRange totalSlots).filterMap (hotAt m shard)).take migrationBatchSize := rfl

theorem id_of_hotAt {shard : ShardId} {slot : Fin totalSlots} {id : SlotId}
    (hot : hotAt m shard slot = some id) : UInt16.ofNat slot.val = id := by
  unfold hotAt at hot
  split at hot
  · split at hot
    · split at hot
      · exact Option.some.inj hot
      · cases hot
    · cases hot
  · cases hot

theorem nodup_hotSlots (shard : ShardId) : (m.hotSlots shard).Nodup := by
  rw [hotSlots_eq]
  apply List.Nodup.sublist (List.take_sublist _ _)
  apply List.Nodup.filterMap _ (List.nodup_finRange _)
  intro slot slot' id first second
  exact ofNat_inj ((id_of_hotAt first).trans (id_of_hotAt second).symm)

theorem length_hotSlots (shard : ShardId) :
    (m.hotSlots shard).length ≤ migrationBatchSize := by
  rw [CountedManager.hotSlots]
  exact List.length_take_le _ _

theorem nodup_countedHotSlots (shard : ShardId) : (m.countedHotSlots shard).Nodup :=
  ((List.nodup_finRange _).filter _).map fun _ _ same => ofNat_inj same

theorem stable_of_mem_countedHotSlots {shard : ShardId} {id : SlotId}
    (hot : id ∈ m.countedHotSlots shard) : stateOf m.slots id = some (.stable shard) := by
  obtain ⟨slot, listed, rfl⟩ := List.mem_map.mp hot
  have here := (Bool.and_eq_true_iff.mp (List.mem_filter.mp listed).2).1
  rw [CountedManager.stateOf_ofNat, CountedManager.eq_stable_of_isStableAt here]

theorem nodup_rows (hotOf : ShardId → List SlotId) {overs : List (ShardId × UInt64)}
    (givers : (overs.map Prod.fst).Nodup) (each : ∀ shard, (hotOf shard).Nodup)
    (stable : ∀ shard, ∀ slot ∈ hotOf shard, stateOf m.slots slot = some (.stable shard)) :
    ((overs.map fun giver => (giver.1, hotOf giver.1)).map Prod.snd).flatten.Nodup := by
  rw [List.map_map, List.nodup_flatten, List.pairwise_map]
  constructor
  · intro l member
    obtain ⟨giver, -, rfl⟩ := List.mem_map.mp member
    exact each giver.1
  · rw [List.nodup_iff_pairwise_ne, List.pairwise_map] at givers
    refine givers.imp fun {giver giver'} apart slot one other => apart ?_
    have same := (stable giver.1 slot one).symm.trans (stable giver'.1 slot other)
    injection same with same
    injection same

theorem eq_of_key {loads : List (ShardId × UInt64)} (table : (Assoc.keys loads).Nodup)
    {e e' : ShardId × UInt64} (first : e ∈ loads) (second : e' ∈ loads) (same : e.1 = e'.1) :
    e = e' :=
  List.inj_on_of_nodup_map table first second same

theorem mem_mostLoaded {loads : List (ShardId × UInt64)} {p : ShardId × UInt64 → Bool}
    {e : ShardId × UInt64} (member : e ∈ mostLoaded (loads.filter p)) : e ∈ loads ∧ p e = true :=
  List.mem_filter.mp (List.mem_mergeSort.mp member)

theorem mem_leastLoaded {loads : List (ShardId × UInt64)} {p : ShardId × UInt64 → Bool}
    {e : ShardId × UInt64} (member : e ∈ leastLoaded (loads.filter p)) : e ∈ loads ∧ p e = true :=
  List.mem_filter.mp (List.mem_mergeSort.mp member)

theorem nodup_givers {loads : List (ShardId × UInt64)} (table : (Assoc.keys loads).Nodup)
    (p : ShardId × UInt64 → Bool) : ((mostLoaded (loads.filter p)).map Prod.fst).Nodup :=
  ((List.mergeSort_perm _ _).map Prod.fst).nodup_iff.mpr
    ((List.filter_sublist.map Prod.fst).nodup table)

theorem nodup_counters : (Assoc.keys (m.shardOps.zipIdx.map fun e => (e.2, e.1))).Nodup := by
  have ids : Assoc.keys (m.shardOps.zipIdx.map fun e => (e.2, e.1)) =
      List.range' 0 m.shardOps.length := by
    rw [Assoc.keys, List.map_map]
    exact List.zipIdx_map_snd 0 m.shardOps
  rw [ids]
  exact List.nodup_range'

theorem not_isUnder_of_isOver {total : UInt64} {count : Nat} {e : ShardId × UInt64}
    (heavy : isOver (F64.div (ofU64 total) (ofUsize count)) e = true) :
    isUnder (F64.div (ofU64 total) (ofUsize count)) e = false := by
  have sign : (F64.div (ofU64 total) (ofUsize count)).isSignNegative = false :=
    F64.isSignNegative_div (F64.isSignNegative_ofInt _) (F64.isSignNegative_ofInt _)
  have threshold : rebalanceThreshold.isSignNegative = false ∧ rebalanceThreshold.isNaN = false ∧
      rebalanceThreshold.isInfinite = false ∧ rebalanceThreshold.isZero = false ∧
      rebalanceThreshold.ratio.2 ≤ rebalanceThreshold.ratio.1 := by decide +kernel
  obtain ⟨positive, number, finite, some', factor⟩ := threshold
  exact F64.not_lt_div_of_mul_lt sign positive number finite some' factor heavy

theorem byMetrics_distinct (table : (Assoc.keys m.loadMetrics.operationsPerSecond).Nodup) :
    (m.byMetrics.rows.map Prod.snd).flatten.Nodup ∧
      ∀ row ∈ m.byMetrics.rows.map Prod.snd, row.length ≤ migrationBatchSize := by
  constructor
  · exact nodup_rows m.hotSlots (nodup_givers table _) nodup_hotSlots
      fun shard slot hot => CountedManager.stable_of_mem_hotSlots hot
  · intro row member
    rw [CountedManager.byMetrics, List.map_map] at member
    obtain ⟨giver, -, rfl⟩ := List.mem_map.mp member
    dsimp only [Function.comp_apply]
    exact length_hotSlots giver.1

theorem byCounters_distinct : (m.byCounters.rows.map Prod.snd).flatten.Nodup := by
  unfold CountedManager.byCounters
  dsimp only
  split
  · exact List.nodup_nil
  · exact nodup_rows m.countedHotSlots (nodup_givers nodup_counters _) nodup_countedHotSlots
      fun shard slot hot => stable_of_mem_countedHotSlots hot

theorem apart_planByMetrics
    (table : (Assoc.keys m.loadMetrics.operationsPerSecond).Nodup) :
    ∀ move ∈ m.planByMetrics, move.fromShard ≠ move.toShard := by
  unfold CountedManager.planByMetrics
  dsimp only
  split
  · simp
  · refine untilFull_kept (P := fun moves : List Move => ∀ move ∈ moves, move.fromShard ≠ move.toShard) ?_
      (by simp)
    intro giver heavy moves sofar
    refine untilFull_kept (P := fun moves : List Move => ∀ move ∈ moves, move.fromShard ≠ move.toShard) ?_
      sofar
    intro under light moves sofar move member
    rcases List.mem_append.mp member with old | added
    · exact sofar move old
    · obtain ⟨slot, -, rfl⟩ := List.mem_map.mp added
      intro same
      obtain ⟨one, isHeavy⟩ := mem_mostLoaded heavy
      obtain ⟨other, isLight⟩ := mem_leastLoaded light
      obtain rfl := eq_of_key table one other same
      rw [isHeavy] at isLight
      cases isLight

theorem apart_planByCounters :
    ∀ move ∈ m.planByCounters, move.fromShard ≠ move.toShard := by
  unfold CountedManager.planByCounters
  dsimp only
  split
  · simp
  · refine foldl_kept (P := fun moves : List Move => ∀ move ∈ moves, move.fromShard ≠ move.toShard) ?_
      (by simp)
    intro giver heavy moves sofar
    refine foldl_kept (P := fun moves : List Move => ∀ move ∈ moves, move.fromShard ≠ move.toShard) ?_ sofar
    intro under light moves sofar
    refine foldl_kept (P := fun moves : List Move => ∀ move ∈ moves, move.fromShard ≠ move.toShard) ?_ sofar
    intro slot _ moves sofar
    split
    · exact sofar
    · split
      · intro move member
        rcases List.mem_append.mp member with old | added
        · exact sofar move old
        · obtain rfl := List.mem_singleton.mp added
          intro same
          obtain ⟨one, isHeavy⟩ := mem_mostLoaded heavy
          obtain ⟨other, isLight⟩ := mem_leastLoaded light
          obtain rfl := eq_of_key nodup_counters one other same
          rw [not_isUnder_of_isOver isHeavy] at isLight
          cases isLight
      · exact sofar

end

namespace CountedManager

variable {m : CountedManager}

theorem executable_iff {moves : List Move}
    (settled : ∀ move ∈ moves, m.Settled move)
    (apart : ∀ move ∈ moves, move.fromShard ≠ move.toShard) :
    m.Executable moves ↔ (moves.map Move.slot).length ≤ migrationBatchSize ∧
      (moves.map Move.slot).Nodup ∧ ∀ slot ∈ moves.map Move.slot, Idle m.slots slot := by
  have inside : ∀ move ∈ moves, move.slot.toNat < totalSlots := by
    intro move member
    have known := settled move member
    rw [Settled, stateOf] at known
    split at known
    · assumption
    · cases known
  have starts := allStart_iff inside m.slots
  rw [List.length_map]
  constructor
  · intro able
    exact ⟨able.size, starts.mp able.starts⟩
  · rintro ⟨size, once, idle⟩
    exact ⟨size, once, fun move member => ⟨settled move member, apart move member⟩,
      starts.mpr ⟨once, idle⟩⟩

theorem hot_eq (p : Prospect) : p.hot = (p.rows.map Prod.snd).flatten :=
  List.flatMap_def

theorem not_offers_iff (p : Prospect) :
    ¬ p.Offers ↔ p.takers.length = 0 ∨ (p.rows.map Prod.snd).flatten = [] := by
  rw [Prospect.Offers, not_and_or, not_not, not_not, hot_eq, List.length_eq_zero_iff]

theorem planByMetrics_eq_nil_iff : m.planByMetrics = [] ↔ ¬ m.byMetrics.Offers := by
  rw [not_offers_iff, ← @offerRows_eq_nil_iff _ migrationBatchSize _ _ (by decide),
    ← slots_planByMetrics, List.map_eq_nil_iff]

/-- The plan can be carried out exactly when no slot is offered to two shards, the numbers of hot
slots do not jump beyond the batch, and no migration of the slots is under way. -/
theorem executable_triggerRebalance_iff (m : CountedManager)
    (table : (Assoc.keys m.loadMetrics.operationsPerSecond).Nodup) :
    m.Executable m.triggerRebalance.1 ↔ m.Startable := by
  rw [Startable, triggerRebalance]
  dsimp only
  by_cases offers : m.byMetrics.Offers
  · have some' : m.planByMetrics ≠ [] := fun none' => planByMetrics_eq_nil_iff.mp none' offers
    have takers : m.byMetrics.takers.length ≠ 0 := fun none' =>
      offers.1 (List.length_eq_zero_iff.mp none')
    obtain ⟨distinct, small⟩ := byMetrics_distinct table
    obtain ⟨fits, same⟩ := @offerRows_iff _ migrationBatchSize m.byMetrics.takers.length _
      (by decide) small distinct
    rw [or_iff_right takers] at fits
    rw [if_neg some', if_pos offers, executable_iff planByMetrics_settled (apart_planByMetrics table),
      slots_planByMetrics, ← and_assoc, fits, hot_eq, Prospect.OfferedOnce, Prospect.WithinBatch,
      ← and_assoc, List.map_map]
    refine and_congr_right fun good => ?_
    rw [same takers good.1 (by rw [List.map_map]; exact good.2)]
  · have none' := planByMetrics_eq_nil_iff.mpr offers
    rw [if_pos none', if_neg offers, executable_iff planByCounters_settled apart_planByCounters,
      slots_planByCounters]
    obtain ⟨fits, same⟩ := @takeRows_iff _ migrationBatchSize m.byCounters.takers.length _
      (@byCounters_distinct m)
    by_cases counted : m.byCounters.Offers
    · have takers : m.byCounters.takers.length ≠ 0 := fun none' =>
        counted.1 (List.length_eq_zero_iff.mp none')
      have size : (takeRows migrationBatchSize m.byCounters.takers.length
          (m.byCounters.rows.map Prod.snd)).length ≤ migrationBatchSize := List.length_take_le _ _
      rw [and_iff_right size, fits, forall_prop_of_true counted, hot_eq, Prospect.OfferedOnce]
      exact and_congr_right fun once => by rw [same takers once]
    · have none'' := @takeRows_eq_nil _ migrationBatchSize _ _ ((not_offers_iff _).mp counted)
      rw [none'']
      exact ⟨fun _ offers' => absurd offers' counted, fun _ => ⟨Nat.zero_le _, List.nodup_nil,
        fun slot member => absurd member List.not_mem_nil⟩⟩

/-- Slots dealt out to `n` shards, the first of them with one access too many. -/
def oneHotSlot (n : Nat) (loads : List (ShardId × UInt64)) : CountedManager where
  slots := ⟨fun slot => .stable (slot.val % n), 1, []⟩
  shardOps := List.replicate n 0
  slotAccess := fun _ => 0
  loadMetrics := ⟨loads, [(0, 101)]⟩
  migrationQueue := []

theorem hotSlots_oneHotSlot (n : Nat) (loads : List (ShardId × UInt64)) :
    (oneHotSlot n loads).hotSlots 0 = [0] := by
  have others : ∀ slot : Fin totalSlots, slot.val ≠ 0 →
      Assoc.get (oneHotSlot n loads).loadMetrics.slotAccessCount (UInt16.ofNat slot.val) = none := by
    intro slot later
    have apart : (0 : SlotId) ≠ UInt16.ofNat slot.val := by
      intro same
      have values := congrArg UInt16.toNat same
      rw [toNat_ofNat] at values
      exact later values.symm
    exact if_neg apart
  obtain ⟨rest, slots, later⟩ : ∃ rest : List (Fin totalSlots),
      List.finRange totalSlots = ⟨0, by decide⟩ :: rest ∧ ∀ slot ∈ rest, slot.val ≠ 0 := by
    refine ⟨(List.finRange 16383).map Fin.succ, List.finRange_succ, ?_⟩
    intro slot member
    obtain ⟨i, -, rfl⟩ := List.mem_map.mp member
    exact Nat.succ_ne_zero i.val
  have first : ((oneHotSlot n loads).slots.slotAssignments ⟨0, by decide⟩).isStableAt 0 = true := by
    simp [oneHotSlot, SlotState.isStableAt]
  have here : hotAt (oneHotSlot n loads) 0 ⟨0, by decide⟩ = some 0 := by
    rw [hotAt, if_pos first]
    rfl
  have none' : rest.filterMap (hotAt (oneHotSlot n loads) 0) = [] := by
    rw [List.filterMap_eq_nil_iff]
    intro slot member
    rw [hotAt, others slot (later slot member)]
    split
    · rfl
    · rfl
  rw [hotSlots_eq, slots, List.filterMap_cons_some here, none']
  rfl

theorem rows_oneHotSlot {n : Nat} {loads : List (ShardId × UInt64)} {load : UInt64}
    (loaded : loads.filter (isOver (F64.div (ofU64 (loads.map Prod.snd).sum) (ofUsize loads.length))) =
      [(0, load)]) : (oneHotSlot n loads).byMetrics.rows = [(0, [0])] := by
  have rows : (oneHotSlot n loads).byMetrics.rows = (mostLoaded (loads.filter
      (isOver (F64.div (ofU64 (loads.map Prod.snd).sum) (ofUsize loads.length))))).map
        fun giver => (giver.1, (oneHotSlot n loads).hotSlots giver.1) := rfl
  rw [rows, loaded, mostLoaded, List.mergeSort_singleton, List.map_singleton, hotSlots_oneHotSlot]

theorem length_takers (m : CountedManager) : m.byMetrics.takers.length =
    (m.loadMetrics.operationsPerSecond.filter fun e =>
      !isOver (F64.div (ofU64 (m.loadMetrics.operationsPerSecond.map Prod.snd).sum)
        (ofUsize m.loadMetrics.operationsPerSecond.length)) e &&
      isUnder (F64.div (ofU64 (m.loadMetrics.operationsPerSecond.map Prod.snd).sum)
        (ofUsize m.loadMetrics.operationsPerSecond.length)) e).length := by
  rw [byMetrics, List.length_map, leastLoaded, List.length_mergeSort]

/-- Three shards, two of them with hardly any load: the hot slot is offered to both. -/
theorem triggerRebalance_two_takers :
    ¬ (oneHotSlot 3 [(0, 1000), (1, 1), (2, 1)]).Executable
      (oneHotSlot 3 [(0, 1000), (1, 1), (2, 1)]).triggerRebalance.1 := by
  intro executable
  have takers : (oneHotSlot 3 [(0, 1000), (1, 1), (2, 1)]).byMetrics.takers.length = 2 := by
    rw [length_takers]
    decide +kernel
  have slots : (oneHotSlot 3 [(0, 1000), (1, 1), (2, 1)]).planByMetrics.map Move.slot = [0, 0] := by
    rw [slots_planByMetrics, takers, @rows_oneHotSlot _ _ 1000 (by decide +kernel)]
    rfl
  have planned : (oneHotSlot 3 [(0, 1000), (1, 1), (2, 1)]).planByMetrics ≠ [] := by
    intro none'
    rw [none'] at slots
    cases slots
  have once := executable.once
  rw [triggerRebalance] at once
  dsimp only at once
  rw [if_neg planned, slots] at once
  exact absurd once (by decide)

/-- With one other shard it can be moved there. -/
theorem executable_triggerRebalance_one_taker :
    (oneHotSlot 2 [(0, 1000), (1, 1)]).Executable
      (oneHotSlot 2 [(0, 1000), (1, 1)]).triggerRebalance.1 := by
  refine (executable_triggerRebalance_iff _ (by decide)).mpr ?_
  have takers : (oneHotSlot 2 [(0, 1000), (1, 1)]).byMetrics.takers.length = 1 := by
    rw [length_takers]
    decide +kernel
  have rows : (oneHotSlot 2 [(0, 1000), (1, 1)]).byMetrics.rows = [(0, [0])] :=
    @rows_oneHotSlot _ _ 1000 (by decide +kernel)
  have hot : (oneHotSlot 2 [(0, 1000), (1, 1)]).byMetrics.hot = [0] := by
    rw [Prospect.hot, rows]
    rfl
  have some' : (oneHotSlot 2 [(0, 1000), (1, 1)]).byMetrics.takers ≠ [] := by
    intro none'
    rw [none'] at takers
    cases takers
  rw [Startable, if_pos ⟨some', by rw [hot]; exact List.cons_ne_nil _ _⟩, hot]
  refine ⟨Or.inl (Nat.le_of_eq takers), ?_, fun slot member => rfl⟩
  rw [Prospect.WithinBatch, rows]
  exact Or.inr ⟨by decide, trivial⟩

end CountedManager

end Zumic.Engine.SlotManager
