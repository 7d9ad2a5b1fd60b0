/- What a client reads while slots are handed from shard to shard (`rebalancer.rs`, `cluster.rs`). -/

import Zumic.Engine.ClusterStore
import Zumic.Engine.Migrations

namespace Zumic.Engine

open Database Lib Lib.Utf8 Engine.SlotManager

/-- A cluster, the moves that a call of `execute_rebalancing` has still to make, the slot that it
has started to move, and what the clients last stored. -/
structure Rebalanced (γ : Type) where
  base : ClusterSystem γ
  pending : List Move
  started : Option SlotId
  last : Sds → Option Value

inductive RebalanceEvent where
  | set (key : Sds) (value : Value)
  | get (key : Sds)
  | del (key : Sds)
  | background (starts : Bool)
  | execute (config : RebalancerConfig) (order : IterationOrder (ShardId × F64))
      (trigger : RebalanceTrigger)
  | startMove
  | completeMove

namespace Rebalanced

variable {γ : Type}

def store (s : Rebalanced γ) : InClusterStore (InMemoryStore γ) := s.base.store

def slots (s : Rebalanced γ) : SlotManager := s.base.store.slotManager.slots

def withStore (s : Rebalanced γ) (store : InClusterStore (InMemoryStore γ)) : Rebalanced γ :=
  { s with base := { s.base with store := store } }

def withSlots (s : Rebalanced γ) (slots : SlotManager) : Rebalanced γ :=
  s.withStore { s.store with slotManager := { s.store.slotManager with slots := slots } }

/-- `execute_rebalancing` plans all its moves, then starts and completes one after another. A move
that cannot be started is reported and skipped. -/
def step (geo : GeoIndex γ) (s : Rebalanced γ) : RebalanceEvent → Option (Rebalanced γ)
  | .set key value =>
      let r := InClusterStore.set (InMemoryStore.storage geo) key value s.store
      some { s.withStore r.2 with last := Function.update s.last key (some value) }
  | .get key => some (s.withStore (InClusterStore.get (InMemoryStore.storage geo) key s.store).2)
  | .del key =>
      let r := InClusterStore.del (InMemoryStore.storage geo) key s.store
      some { s.withStore r.2 with last := Function.update s.last key none }
  | .background starts => some { s with base := s.base.background starts }
  | .execute config order trigger =>
      if s.pending = [] ∧ s.started = none then
        some { s with pending := planRebalancing config s.store.slotManager order trigger }
      else none
  | .startMove =>
      match s.started, s.pending with
      | none, move :: rest =>
          let r := startSlotMigration s.slots move.slot move.fromShard move.toShard
          some
            { s.withSlots r.1 with
              pending := rest
              started := if r.2.isOk then some move.slot else none }
      | _, _ => none
  | .completeMove =>
      match s.started with
      | some slot =>
          some { s.withSlots (completeSlotMigration s.slots slot).1 with started := none }
      | none => none

/-- A read of any key gives what was last stored under it. -/
def Remembers (geo : GeoIndex γ) (s : Rebalanced γ) : Prop :=
  ∀ key, (InClusterStore.get (InMemoryStore.storage geo) key s.store).1 = .ok (s.last key)

/-- The slot that a step gives to a shard, when its migration is started or completed. -/
def handover (s : Rebalanced γ) : RebalanceEvent → Option (SlotId × ShardId)
  | .background true =>
      match s.base.planned with
      | move :: _ =>
          if (Assoc.get s.slots.activeMigrations move.slot).isSome then none
          else some (move.slot, move.fromShard)
      | [] => none
  | .startMove =>
      match s.started, s.pending with
      | none, move :: _ =>
          if (Assoc.get s.slots.activeMigrations move.slot).isSome then none
          else some (move.slot, move.fromShard)
      | _, _ => none
  | .completeMove =>
      s.started.bind fun slot =>
        (Assoc.get s.slots.activeMigrations slot).map fun task => (slot, task.toShard)
  | _ => none

/-- What a shard holds of a key. -/
def heldBy (s : Rebalanced γ) (shard : ShardId) (key : Sds) : Option Value :=
  (s.store.shards[shard]?).bind fun part => part.view key

/-- A slot is given to a shard that holds all its keys as the shard that serves it does. -/
def Harmless (s : Rebalanced γ) (e : RebalanceEvent) : Prop :=
  ∀ slot shard, s.handover e = some (slot, shard) → ∀ key,
    calculateSlot (InClusterStore.sdsToStr key) = slot →
      s.heldBy (s.store.shardId key) key = s.heldBy shard key

/-- Every slot is served by one of the `n` shards, and every move in hand is between shards of the
cluster. -/
structure Sound (n : Nat) (s : Rebalanced γ) : Prop where
  sized : s.store.shards.length = n
  served : ∀ slot : SlotId, slot.toNat < totalSlots →
    ∃ shard < n, getSlotShard s.slots slot = some shard
  counted : s.store.slotManager.shardOps.length = n
  planned : ∀ move ∈ s.base.planned, move.fromShard < n
  pending : ∀ move ∈ s.pending, move.fromShard < n ∧ move.toShard < n
  started : ∀ slot, s.started = some slot →
    ∃ task, Assoc.get s.slots.activeMigrations slot = some task ∧ task.toShard < n

/-- The routed shard of every key holds what was last stored under it. -/
def Holds (s : Rebalanced γ) : Prop :=
  ∀ key, s.heldBy (s.store.shardId key) key = s.last key

section

variable {n : Nat} {s : Rebalanced γ} {α : Type}

theorem Sound.shardId_lt (sound : Sound n s) (key : Sds) : s.store.shardId key < n := by
  obtain ⟨shard, inRange, serves⟩ := sound.served _
    (calculateSlot_lt (InClusterStore.sdsToStr key))
  have routed : s.store.shardId key = shard := by
    unfold InClusterStore.shardId getKeyShard
    change (getSlotShard s.slots _).getD 0 = shard
    rw [serves]
    rfl
  rw [routed]
  exact inRange

theorem Sound.part_of (sound : Sound n s) (key : Sds) :
    ∃ part, s.store.shards[s.store.shardId key]? = some part := by
  have inRange := sound.shardId_lt key
  rw [← sound.sized] at inRange
  exact ⟨_, List.getElem?_eq_getElem inRange⟩

theorem routed_eq {store : InClusterStore (InMemoryStore γ)} {key : Sds} {part : InMemoryStore γ}
    (here : store.shards[store.shardId key]? = some part) (call : StoreM (InMemoryStore γ) α) :
    InClusterStore.routed key call store = ((call part).1,
      { store.recordOperation key with
        shards := store.shards.set (store.shardId key) (call part).2 }) := by
  have same : (store.recordOperation key).shards = store.shards := rfl
  have looked : (store.recordOperation key).shardById (store.shardId key) = .ok part := by
    unfold InClusterStore.shardById
    rw [same, here]
  unfold InClusterStore.routed
  dsimp only
  change InClusterStore.onShard (store.shardId key) call (store.recordOperation key) = _
  unfold InClusterStore.onShard
  rw [looked, same]

theorem Sound.get_eq (sound : Sound n s) (geo : GeoIndex γ) (key : Sds) :
    (InClusterStore.get (InMemoryStore.storage geo) key s.store).1 =
      .ok (s.heldBy (s.store.shardId key) key) := by
  obtain ⟨part, here⟩ := sound.part_of key
  unfold InClusterStore.get heldBy
  rw [routed_eq here, here]
  rfl

theorem Sound.remembers_iff (sound : Sound n s) (geo : GeoIndex γ) :
    s.Remembers geo ↔ s.Holds := by
  unfold Remembers Holds
  refine forall_congr' fun key => ?_
  rw [sound.get_eq]
  exact ⟨Except.ok.inj, congrArg Except.ok⟩

theorem heldBy_routed {key : Sds} {part : InMemoryStore γ}
    (here : s.store.shards[s.store.shardId key]? = some part) {call : StoreM (InMemoryStore γ) α}
    (onKeys : InMemoryStore.OnKeys (· = key) call) (k : Sds) (i : ShardId) :
    (s.withStore (InClusterStore.routed key call s.store).2).heldBy i k =
      if k = key ∧ i = s.store.shardId key then (call part).2.view k else s.heldBy i k := by
  have inRange := (List.getElem?_eq_some_iff.mp here).1
  rw [routed_eq here]
  change ((s.store.shards.set (s.store.shardId key) _)[i]?).bind _ = _
  by_cases same : s.store.shardId key = i
  · subst same
    rw [List.getElem?_set_self inRange]
    by_cases this : k = key
    · rw [if_pos ⟨this, rfl⟩]
      rfl
    · rw [if_neg fun both => this both.1]
      unfold heldBy
      rw [here]
      exact onKeys.confined.outside _ k this
  · rw [List.getElem?_set_ne same, if_neg fun both => same both.2.symm]
    rfl

theorem Sound.withRouted (sound : Sound n s) (key : Sds) (call : StoreM (InMemoryStore γ) α) :
    Sound n (s.withStore (InClusterStore.routed key call s.store).2) := by
  obtain ⟨part, here⟩ := sound.part_of key
  rw [routed_eq here]
  refine ⟨?_, sound.served, ?_, sound.planned, sound.pending, sound.started⟩
  · exact List.length_set.trans sound.sized
  · exact (List.length_modify _ _ _).trans sound.counted

theorem Holds.withRouted (holds : Holds s) (sound : Sound n s) {key : Sds}
    {call : StoreM (InMemoryStore γ) α} (onKeys : InMemoryStore.OnKeys (· = key) call)
    {last : Sds → Option Value} (others : ∀ k, k ≠ key → last k = s.last k)
    (now : ∀ part, s.store.shards[s.store.shardId key]? = some part →
      (call part).2.view key = last key) :
    Holds { s.withStore (InClusterStore.routed key call s.store).2 with last := last } := by
  obtain ⟨part, here⟩ := sound.part_of key
  intro k
  have routes : (InClusterStore.routed key call s.store).2.shardId k = s.store.shardId k := by
    rw [routed_eq here]
    rfl
  change (s.withStore (InClusterStore.routed key call s.store).2).heldBy
    ((InClusterStore.routed key call s.store).2.shardId k) k = last k
  rw [routes, heldBy_routed here onKeys]
  by_cases this : k = key
  · subst this
    rw [if_pos ⟨rfl, rfl⟩]
    exact now part here
  · rw [if_neg fun both => this both.1, others k this]
    exact holds k

end

section

variable {n : Nat} {s s' : Rebalanced γ}

/-- The shard of a slot after a handover. -/
def servedAfter (given : Option (SlotId × ShardId)) (slot : SlotId) (old : Option ShardId) :
    Option ShardId :=
  match given with
  | some (moved, shard) => if slot = moved then some shard else old
  | none => old

/-- A step that moves no value: it only changes which shard serves a slot. -/
structure Reroutes (s s' : Rebalanced γ) (given : Option (SlotId × ShardId)) : Prop where
  shards : s'.store.shards = s.store.shards
  last : s'.last = s.last
  served : ∀ slot : SlotId, slot.toNat < totalSlots →
    getSlotShard s'.slots slot = servedAfter given slot (getSlotShard s.slots slot)

theorem served_start (m : SlotManager) (move : Move) {slot : SlotId}
    (inside : slot.toNat < totalSlots) :
    getSlotShard (startSlotMigration m move.slot move.fromShard move.toShard).1 slot =
      servedAfter (if (Assoc.get m.activeMigrations move.slot).isSome then none
        else some (move.slot, move.fromShard)) slot (getSlotShard m slot) := by
  rcases startSlotMigration_cases m move.slot move.fromShard move.toShard with
    ⟨e, refused, reason⟩ | ⟨m', done, started⟩
  · rw [refused]
    rcases reason with active | outside
    · rw [if_pos active]
      rfl
    · have other : slot ≠ move.slot := by
        rintro rfl
        omega
      split
      · rfl
      · exact (if_neg other).symm
  · have idle : ¬ (Assoc.get m.activeMigrations move.slot).isSome = true := by
      rw [started.idle]
      simp
    rw [done, if_neg idle]
    unfold getSlotShard servedAfter
    rw [started.states]
    dsimp only
    split
    · rfl
    · rfl

theorem served_complete (m : SlotManager) (moved : SlotId) {slot : SlotId}
    (inside : slot.toNat < totalSlots) :
    getSlotShard (completeSlotMigration m moved).1 slot =
      servedAfter ((Assoc.get m.activeMigrations moved).map fun task => (moved, task.toShard)) slot
        (getSlotShard m slot) := by
  rcases completeSlotMigration_cases m moved with
    ⟨e, refused, reason⟩ | ⟨m', task, done, completed⟩
  · rw [refused]
    rcases reason with idle | outside
    · rw [idle]
      rfl
    · have other : slot ≠ moved := by
        rintro rfl
        omega
      cases Assoc.get m.activeMigrations moved with
      | none => rfl
      | some task => exact (if_neg other).symm
  · rw [done, completed.found]
    unfold getSlotShard servedAfter
    rw [completed.states]
    dsimp only [Option.map_some]
    split
    · rfl
    · rfl

/-- After a handover every key is read as before exactly when the shard that gets its slot holds
it as the old one does. -/
theorem Reroutes.holds_iff {given : Option (SlotId × ShardId)} (reroutes : Reroutes s s' given)
    (holds : Holds s) : Holds s' ↔ ∀ slot shard, given = some (slot, shard) → ∀ key,
      calculateSlot (InClusterStore.sdsToStr key) = slot →
        s.heldBy (s.store.shardId key) key = s.heldBy shard key := by
  have parts : ∀ i k, s'.heldBy i k = s.heldBy i k := by
    intro i k
    unfold heldBy
    rw [reroutes.shards]
  have routes : ∀ key, s'.store.shardId key = (servedAfter given
      (calculateSlot (InClusterStore.sdsToStr key))
      (getSlotShard s.slots (calculateSlot (InClusterStore.sdsToStr key)))).getD 0 := by
    intro key
    rw [← reroutes.served _ (calculateSlot_lt _)]
    rfl
  have stays : ∀ key, s.store.shardId key =
      (getSlotShard s.slots (calculateSlot (InClusterStore.sdsToStr key))).getD 0 := fun _ => rfl
  constructor
  · rintro after slot shard rfl key rfl
    have read := after key
    rw [parts, routes, reroutes.last, ← holds key] at read
    simp only [servedAfter, if_true, Option.getD_some] at read
    exact read.symm
  · intro agrees key
    rw [parts, routes, reroutes.last, ← holds key]
    cases given with
    | none => rfl
    | some handed =>
        obtain ⟨slot, shard⟩ := handed
        unfold servedAfter
        dsimp only
        split
        · rename_i here
          exact (agrees slot shard rfl key here).symm
        · rfl

theorem reroutes_background (s : Rebalanced γ) (starts : Bool) :
    Reroutes s { s with base := s.base.background starts } (s.handover (.background starts)) := by
  obtain ⟨⟨store, planned⟩, pending, started, last⟩ := s
  cases starts with
  | false =>
      cases planned with
      | nil => exact ⟨rfl, rfl, fun slot inside => rfl⟩
      | cons move rest => exact ⟨rfl, rfl, fun slot inside => rfl⟩
  | true =>
      cases planned with
      | nil => exact ⟨rfl, rfl, fun slot inside => rfl⟩
      | cons move rest =>
          exact ⟨rfl, rfl, fun slot inside => served_start store.slotManager.slots move inside⟩

theorem step_holds_iff (geo : GeoIndex γ) (sound : Sound n s) (holds : Holds s)
    {e : RebalanceEvent} (stepped : step geo s e = some s') : Holds s' ↔ Harmless s e := by
  unfold Harmless
  cases e with
  | set key value =>
      obtain rfl := Option.some.inj stepped
      refine iff_of_true ?_ fun slot shard given => by cases given
      refine holds.withRouted sound (InMemoryStore.onKeys_set key value) ?_ ?_
      · exact fun k other => Function.update_of_ne other _ _
      · intro part here
        rw [Function.update_self]
        change Assoc.get (Assoc.insert part.data key value) key = some value
        rw [Assoc.get_insert, if_pos rfl]
  | get key =>
      obtain rfl := Option.some.inj stepped
      refine iff_of_true ?_ fun slot shard given => by cases given
      refine holds.withRouted sound (InMemoryStore.onKeys_get key) (fun k _ => rfl) ?_
      intro part here
      have read := holds key
      unfold heldBy at read
      rw [here] at read
      exact read
  | del key =>
      obtain rfl := Option.some.inj stepped
      refine iff_of_true ?_ fun slot shard given => by cases given
      refine holds.withRouted sound (InMemoryStore.onKeys_del key) ?_ ?_
      · exact fun k other => Function.update_of_ne other _ _
      · intro part here
        rw [Function.update_self]
        change Assoc.get (Assoc.erase part.data key) key = none
        rw [Assoc.get_erase, if_pos rfl]
  | background starts =>
      obtain rfl := Option.some.inj stepped
      exact (reroutes_background s starts).holds_iff holds
  | execute config order trigger =>
      rw [step] at stepped
      split at stepped
      · obtain rfl := Option.some.inj stepped
        have same : Reroutes s { s with
            pending := planRebalancing config s.store.slotManager order trigger } none :=
          ⟨rfl, rfl, fun slot inside => rfl⟩
        exact same.holds_iff holds
      · cases stepped
  | startMove =>
      obtain ⟨base, pending, started, last⟩ := s
      cases started with
      | some slot => cases stepped
      | none =>
          cases pending with
          | nil => cases stepped
          | cons move rest =>
              obtain rfl := Option.some.inj stepped
              refine Reroutes.holds_iff ⟨rfl, rfl, fun slot inside => ?_⟩ holds
              exact served_start base.store.slotManager.slots move inside
  | completeMove =>
      obtain ⟨base, pending, started, last⟩ := s
      cases started with
      | none => cases stepped
      | some moved =>
          obtain rfl := Option.some.inj stepped
          refine Reroutes.holds_iff ⟨rfl, rfl, fun slot inside => ?_⟩ holds
          exact served_complete base.store.slotManager.slots moved inside

theorem harmless_of_refused {geo : GeoIndex γ} {e : RebalanceEvent}
    (refused : Rebalanced.step geo s e = none) : Harmless s e := by
  obtain ⟨base, pending, started, last⟩ := s
  intro slot shard given
  cases e with
  | set key value => cases given
  | get key => cases given
  | del key => cases given
  | background starts => cases refused
  | execute config order trigger => cases given
  | startMove =>
      cases started with
      | some slot => cases given
      | none =>
          cases pending with
          | nil => cases given
          | cons move rest => cases refused
  | completeMove =>
      cases started with
      | none => cases given
      | some moved => cases refused

theorem Reroutes.served_lt {given : Option (SlotId × ShardId)} (reroutes : Reroutes s s' given)
    (sound : Sound n s) (target : ∀ slot shard, given = some (slot, shard) → shard < n)
    (slot : SlotId) (inside : slot.toNat < totalSlots) :
    ∃ shard < n, getSlotShard s'.slots slot = some shard := by
  rw [reroutes.served slot inside]
  cases given with
  | none => exact sound.served slot inside
  | some handed =>
      obtain ⟨moved, shard⟩ := handed
      unfold servedAfter
      dsimp only
      split
      · exact ⟨shard, target moved shard rfl, rfl⟩
      · exact sound.served slot inside

theorem Sound.serving_lt (sound : Sound n s) {slot : SlotId} {shard : ShardId}
    (serves : getSlotShard s.slots slot = some shard) : shard < n := by
  have inside : slot.toNat < totalSlots := by
    by_contra outside
    unfold getSlotShard stateOf at serves
    rw [dif_neg outside] at serves
    cases serves
  obtain ⟨shard', inRange, serves'⟩ := sound.served slot inside
  rw [serves] at serves'
  obtain rfl := Option.some.inj serves'
  exact inRange

theorem active_of_begun (m : SlotManager) (move : Move)
    (begun : (startSlotMigration m move.slot move.fromShard move.toShard).2.isOk = true) :
    Assoc.get (startSlotMigration m move.slot move.fromShard move.toShard).1.activeMigrations
      move.slot = some ⟨move.slot, move.fromShard, move.toShard⟩ := by
  rcases startSlotMigration_cases m move.slot move.fromShard move.toShard with
    ⟨e, refused, -⟩ | ⟨m', done, started⟩
  · rw [refused] at begun
    cases begun
  · rw [done, started.active, Assoc.get_insert, if_pos rfl]

theorem active_start (m : SlotManager) (move : Move) {slot : SlotId} {task : MigrationTask}
    (active : Assoc.get m.activeMigrations slot = some task) :
    Assoc.get (startSlotMigration m move.slot move.fromShard move.toShard).1.activeMigrations slot =
      some task := by
  rcases startSlotMigration_cases m move.slot move.fromShard move.toShard with
    ⟨e, refused, -⟩ | ⟨m', done, started⟩
  · rw [refused]
    exact active
  · have other : move.slot ≠ slot := by
      rintro rfl
      rw [started.idle] at active
      cases active
    rw [done, started.active, Assoc.get_insert, if_neg other]
    exact active

theorem Sound.background (sound : Sound n s) (starts : Bool) :
    Sound n { s with base := s.base.background starts } := by
  have rerouted := reroutes_background s starts
  obtain ⟨⟨store, planned⟩, pending, begun, last⟩ := s
  cases starts with
  | false =>
      cases planned with
      | cons move rest => exact sound
      | nil =>
          refine ⟨sound.sized, sound.served, sound.counted, ?_, sound.pending, sound.started⟩
          intro move member
          have settled := CountedManager.triggerRebalance_settled move member
          have serves : getSlotShard store.slotManager.slots move.slot = some move.fromShard := by
            unfold getSlotShard
            rw [settled]
            rfl
          exact sound.serving_lt serves
  | true =>
      cases planned with
      | nil => exact sound
      | cons move rest =>
          have source := sound.planned move List.mem_cons_self
          refine ⟨sound.sized, rerouted.served_lt sound ?_, sound.counted, ?_, sound.pending, ?_⟩
          · intro slot shard given
            have handed : (if (Assoc.get store.slotManager.slots.activeMigrations move.slot).isSome
                then none else some (move.slot, move.fromShard)) = some (slot, shard) := given
            split at handed
            · cases handed
            · cases handed
              exact source
          · exact fun move' member => sound.planned move' (List.mem_cons_of_mem move member)
          · intro slot begins
            obtain ⟨task, active, target⟩ := sound.started slot begins
            exact ⟨task, active_start store.slotManager.slots move active, target⟩

theorem Sound.step (sound : Sound n s) (geo : GeoIndex γ) {e : RebalanceEvent}
    (stepped : step geo s e = some s') : Sound n s' := by
  cases e with
  | set key value =>
      obtain rfl := Option.some.inj stepped
      have kept := sound.withRouted key (InMemoryStore.set key value)
      exact ⟨kept.sized, kept.served, kept.counted, kept.planned, kept.pending, kept.started⟩
  | get key =>
      obtain rfl := Option.some.inj stepped
      exact sound.withRouted key fun part => (InMemoryStore.get key part, part)
  | del key =>
      obtain rfl := Option.some.inj stepped
      have kept := sound.withRouted key (InMemoryStore.del key)
      exact ⟨kept.sized, kept.served, kept.counted, kept.planned, kept.pending, kept.started⟩
  | background starts =>
      obtain rfl := Option.some.inj stepped
      exact sound.background starts
  | execute config order trigger =>
      rw [Rebalanced.step] at stepped
      split at stepped
      · obtain rfl := Option.some.inj stepped
        refine ⟨sound.sized, sound.served, sound.counted, sound.planned, ?_, sound.started⟩
        intro move member
        obtain ⟨source, target⟩ := planRebalancing_planned trigger move member
        exact ⟨sound.serving_lt source, lt_of_lt_of_eq target sound.counted⟩
      · cases stepped
  | startMove =>
      obtain ⟨base, pending, started, last⟩ := s
      cases started with
      | some slot => cases stepped
      | none =>
          cases pending with
          | nil => cases stepped
          | cons move rest =>
              obtain rfl := Option.some.inj stepped
              obtain ⟨source, target⟩ := sound.pending move List.mem_cons_self
              refine ⟨sound.sized, ?_, sound.counted, sound.planned, ?_, ?_⟩
              · have rerouted : Reroutes (⟨base, move :: rest, none, last⟩ : Rebalanced γ)
                    ((⟨base, rest, none, last⟩ : Rebalanced γ).withSlots
                      (startSlotMigration base.store.slotManager.slots move.slot move.fromShard
                        move.toShard).1)
                    (handover ⟨base, move :: rest, none, last⟩ .startMove) :=
                  ⟨rfl, rfl, fun slot inside =>
                    served_start base.store.slotManager.slots move inside⟩
                refine rerouted.served_lt sound ?_
                intro slot shard given
                have handed : (if (Assoc.get base.store.slotManager.slots.activeMigrations
                    move.slot).isSome then none else some (move.slot, move.fromShard)) =
                      some (slot, shard) := given
                split at handed
                · cases handed
                · cases handed
                  exact source
              · exact fun move' member => sound.pending move' (List.mem_cons_of_mem move member)
              · intro slot begins
                change (if (startSlotMigration base.store.slotManager.slots move.slot
                  move.fromShard move.toShard).2.isOk = true then some move.slot else none) =
                    some slot at begins
                split at begins
                · rename_i begun
                  obtain rfl := Option.some.inj begins
                  exact ⟨_, active_of_begun base.store.slotManager.slots move begun, target⟩
                · cases begins
  | completeMove =>
      obtain ⟨base, pending, started, last⟩ := s
      cases started with
      | none => cases stepped
      | some moved =>
          obtain rfl := Option.some.inj stepped
          obtain ⟨task, active, target⟩ := sound.started moved rfl
          refine ⟨sound.sized, ?_, sound.counted, sound.planned, sound.pending,
            fun slot begins => by cases begins⟩
          have rerouted : Reroutes (⟨base, pending, some moved, last⟩ : Rebalanced γ)
              ((⟨base, pending, none, last⟩ : Rebalanced γ).withSlots
                (completeSlotMigration base.store.slotManager.slots moved).1)
              (handover ⟨base, pending, some moved, last⟩ .completeMove) :=
            ⟨rfl, rfl, fun slot inside =>
              served_complete base.store.slotManager.slots moved inside⟩
          refine rerouted.served_lt sound ?_
          intro slot shard given
          have handed : ((Assoc.get base.store.slotManager.slots.activeMigrations moved).map
              fun task => (moved, task.toShard)) = some (slot, shard) := given
          have active' : Assoc.get base.store.slotManager.slots.activeMigrations moved =
              some task := active
          rw [active'] at handed
          cases handed
          exact target

end

section

variable {n : Nat}

/-- A cluster before the first event: what it holds is what counts as last stored. -/
def start (store : InClusterStore (InMemoryStore γ)) : Rebalanced γ :=
  ⟨⟨store, []⟩, [], none, fun key =>
    (store.shards[store.shardId key]?).bind fun part => part.view key⟩

/-- Every slot is served by a shard of the cluster, and every shard has its counter. -/
structure Served (store : InClusterStore (InMemoryStore γ)) : Prop where
  served : ∀ slot : SlotId, slot.toNat < totalSlots →
    ∃ shard < store.shards.length, getSlotShard store.slotManager.slots slot = some shard
  counted : store.slotManager.shardOps.length = store.shards.length

theorem sound_start {store : InClusterStore (InMemoryStore γ)} (served : Served store) :
    Sound store.shards.length (start store) where
  sized := rfl
  served := served.served
  counted := served.counted
  planned move member := by cases member
  pending move member := by cases member
  started slot begins := by cases begins

/-- In a run every read gives what was last stored exactly when every slot is only handed to a
shard that holds its keys as the shard before it does. -/
theorem remembers_iff_harmless (geo : GeoIndex γ) {store : InClusterStore (InMemoryStore γ)}
    (served : Served store) (events : List RebalanceEvent) :
    (∀ k s, Runs.run (step geo) (start store) (events.take k) = some s → s.Remembers geo) ↔
      Runs.Along (step geo) Harmless (start store) events := by
  have sound := sound_start served
  have remembers : (start store).Remembers geo := (sound.remembers_iff geo).mpr fun key => rfl
  have always := @Runs.always_iff_along _ _ (step geo) (fun s => s.Remembers geo) (start store)
    events
  have keeps : ∀ s e s', Sound store.shards.length s ∧ s.Remembers geo →
      (∀ s' ∈ step geo s e, s'.Remembers geo) → step geo s e = some s' →
        Sound store.shards.length s' ∧ s'.Remembers geo :=
    fun s e s' inv allowed stepped => ⟨inv.1.step geo stepped, allowed s' stepped⟩
  have agree : ∀ s e, Sound store.shards.length s ∧ s.Remembers geo →
      ((∀ s' ∈ step geo s e, s'.Remembers geo) ↔ Harmless s e) := by
    intro s e inv
    have holds := (inv.1.remembers_iff geo).mp inv.2
    cases stepped : step geo s e with
    | some s' =>
        rw [← step_holds_iff geo inv.1 holds stepped,
          ← (inv.1.step geo stepped).remembers_iff geo]
        simp
    | none =>
        exact iff_of_true (fun s' member => by cases member) (harmless_of_refused stepped)
  rw [always, Runs.along_congr_of_kept keeps agree ⟨sound, remembers⟩]
  exact and_iff_right remembers

def twoShards : InClusterStore (InMemoryStore Unit) where
  shards := [ClusterSystem.memoryShard, ClusterSystem.memoryShard]
  slotManager :=
    { slots := ⟨fun slot => .stable (slot.val % 2), 1, []⟩
      shardOps := [0, 0]
      slotAccess := fun _ => 0
      loadMetrics := ⟨[], []⟩
      migrationQueue := [] }

/-- A key is stored, found to be hot, and its slot is handed to the idle shard. -/
def hotKeyMoved : List RebalanceEvent :=
  [.set [97] .null,
    .execute ⟨F64.ofRatio false 3 2, 64⟩ ⟨id, fun _ => .refl _⟩ (.hotKeyDetected (Str.lit "a") 150),
    .startMove, .completeMove]

theorem served_twoShards : Served twoShards where
  served slot inside := by
    refine ⟨slot.toNat % 2, Nat.mod_lt _ (by decide), ?_⟩
    unfold getSlotShard stateOf
    rw [dif_pos inside]
    rfl
  counted := rfl

theorem remembers_iff_harmless_hotKeyMoved :
    (∀ k s, Runs.run (step GeoIndex.empty) (start twoShards) (hotKeyMoved.take k) = some s →
        s.Remembers GeoIndex.empty) ↔
      Runs.Along (step GeoIndex.empty) Harmless (start twoShards) hotKeyMoved :=
  remembers_iff_harmless GeoIndex.empty served_twoShards hotKeyMoved

theorem hotKeyMoved_lost :
    InClusterStore.new [ClusterSystem.memoryShard, ClusterSystem.memoryShard] = some twoShards ∧
    ∃ s, Runs.run (step GeoIndex.empty) (start twoShards) hotKeyMoved = some s ∧
      (InClusterStore.get (InMemoryStore.storage GeoIndex.empty) [97] s.store).1 = .ok none ∧
      (s.last [97]).isSome = true := by
  have run : (Runs.run (step GeoIndex.empty) (start twoShards) hotKeyMoved).map (fun s =>
      ((InClusterStore.get (InMemoryStore.storage GeoIndex.empty) [97] s.store).1.toOption.map
        Option.isSome, (s.last [97]).isSome)) = some (some false, true) := by
    decide +kernel
  obtain ⟨s, ran, answers⟩ := Option.map_eq_some_iff.mp run
  obtain ⟨answer, told⟩ := Prod.mk.inj answers
  refine ⟨rfl, s, ran, ?_, told⟩
  cases read : (InClusterStore.get (InMemoryStore.storage GeoIndex.empty) [97] s.store).1 with
  | error e =>
      rw [read] at answer
      cases answer
  | ok value =>
      rw [read] at answer
      cases value with
      | none => rfl
      | some v => cases answer

end

end Rebalanced

end Zumic.Engine
