/- When the statistics of the broker count the living receivers, and the cleanup of channels is
exact. The counts are refreshed by subscriptions only; a subscriber that goes away leaves them. -/

import Zumic.Pubsub.ChannelCounts

namespace Zumic.Pubsub

open Lib Lib.Guards Lib.Utf8

section

variable {Json : Type} {serde : SerdeJson Json} {gzip : Gzip} {config : BrokerConfig}
  {sharding : Table → Sharding} {b b' : Broker} {call : BrokerCall Json}

open Broker

/-- A living subscriber of a channel in the table goes away. -/
def BrokerCall.DropsListed (b : Broker) : BrokerCall Json → Prop
  | .dropSubscriber sender => sender ∈ b.receivers ∧ ∃ key, Assoc.get b.channels key = some sender
  | _ => False

theorem linked_effect (linked : b.Linked) (call : BrokerCall Json) :
    (call.effect serde gzip config sharding b).Linked := by
  cases call with
  | subscribeWithOptions channel options now => exact linked.subscribe config channel now
  | dropSubscriber sender => exact linked.drop sender
  | publishWithOptions channel payload options stamp now =>
      unfold BrokerCall.effect
      dsimp only
      split
      · exact linked.publish channel _ now
      · exact linked
  | unsubscribe channel => exact linked.closeChannel channel
  | cleanupInactiveChannels now =>
      unfold BrokerCall.effect Broker.cleanup
      dsimp only
      split
      · exact linked
      · exact linked.closeChannels _
  | snapshot now => exact linked

theorem counted_effect {R : Nat → Nat → Prop} (reflexive : ∀ n, R n n) (linked : b.Linked)
    (counts : b.Counted R) (drops : ∀ sender, call = .dropSubscriber sender →
      (b.drop sender).Counted R) : (call.effect serde gzip config sharding b).Counted R := by
  cases call with
  | subscribeWithOptions channel options now =>
      exact counts.subscribe reflexive linked config channel now
  | dropSubscriber sender => exact drops sender rfl
  | publishWithOptions channel payload options stamp now =>
      unfold BrokerCall.effect
      dsimp only
      split
      · exact counts.publish channel _ now
      · exact counts
  | unsubscribe channel => exact counts.closeChannel linked channel
  | cleanupInactiveChannels now =>
      unfold BrokerCall.effect Broker.cleanup
      dsimp only
      split
      · exact counts
      · exact counts.closeChannels linked _
  | snapshot now => exact counts

theorem linked_step (linked : b.Linked)
    (stepped : call.step serde gzip config sharding b = some b') : b'.Linked := by
  rcases BrokerCall.step_effect linked.channelKeys stepped with ⟨-, agrees⟩ | ⟨-, agrees⟩
  · exact agrees.linked linked
  · exact agrees.linked (linked_effect linked call)

/-- No count is ever below the living receivers. -/
theorem covered_step (linked : b.Linked) (covered : b.Counted (· ≤ ·))
    (stepped : call.step serde gzip config sharding b = some b') : b'.Counted (· ≤ ·) := by
  rcases BrokerCall.step_effect linked.channelKeys stepped with ⟨-, agrees⟩ | ⟨-, agrees⟩
  · exact agrees.counted.mpr covered
  · refine agrees.counted.mpr (counted_effect Nat.le_refl linked covered ?_)
    rintro sender - key other stats held counted
    rw [receiverCount_drop]
    exact (Nat.sub_le _ _).trans (covered key other stats held counted)

/-- The end of a subscriber keeps the counts exactly where its channel is out of the table. -/
theorem countsLive_drop_iff (linked : b.Linked) (counts : b.CountsLive) (sender : Nat) :
    (b.drop sender).CountsLive ↔
      ¬ (sender ∈ b.receivers ∧ ∃ key, Assoc.get b.channels key = some sender) := by
  constructor
  · rintro after ⟨living, key, held⟩
    obtain ⟨stats, known⟩ := linked.stats_of_channel held
    have before := counts key sender stats held known
    have later := after key sender stats held known
    have positive : 0 < b.receiverCount sender := List.count_pos_iff.mpr living
    rw [receiverCount_drop, if_pos rfl] at later
    omega
  · intro unlisted key other stats held known
    rw [receiverCount_drop, ← counts key other stats held known]
    by_cases same : sender = other
    · subst same
      have gone : sender ∉ b.receivers := fun living => unlisted ⟨living, key, held⟩
      have zero : b.receiverCount sender = 0 := List.count_eq_zero.mpr gone
      rw [zero, Nat.zero_sub]
    · rw [if_neg same, Nat.sub_zero]

theorem countsLive_step_iff (linked : b.Linked) (counts : b.CountsLive) :
    (∀ b' ∈ call.step serde gzip config sharding b, b'.CountsLive) ↔ ¬ call.DropsListed b := by
  constructor
  · intro after drops
    cases call with
    | dropSubscriber sender =>
        exact (countsLive_drop_iff linked counts sender).mp (after _ rfl) drops
    | subscribeWithOptions channel options now => exact drops
    | publishWithOptions channel payload options stamp now => exact drops
    | unsubscribe channel => exact drops
    | cleanupInactiveChannels now => exact drops
    | snapshot now => exact drops
  · intro keeps b' stepped
    rcases BrokerCall.step_effect linked.channelKeys stepped with ⟨-, agrees⟩ | ⟨-, agrees⟩
    · exact agrees.counted.mpr counts
    · refine agrees.counted.mpr (counted_effect (fun _ => rfl) linked counts ?_)
      rintro sender rfl
      exact (countsLive_drop_iff linked counts sender).mpr keeps

/-- The time that a call reads from the clock. -/
def BrokerCall.time : BrokerCall Json → Option Nat
  | .subscribeWithOptions _ _ now => some now
  | .dropSubscriber _ => none
  | .publishWithOptions _ _ _ _ now => some now
  | .unsubscribe _ => none
  | .cleanupInactiveChannels now => some now
  | .snapshot now => some now

/-- The channel that a call makes, or sends a message to, with the time. -/
def BrokerCall.activity (serde : SerdeJson Json) (gzip : Gzip) (config : BrokerConfig)
    (b : Broker) : BrokerCall Json → List (Str × Nat)
  | .subscribeWithOptions channel options now =>
      match Assoc.get b.channels channel,
        refusesCapacity (options.bufferSize.getD config.defaultChannelCapacity) with
      | none, false => [(channel, now)]
      | _, _ => []
  | .publishWithOptions channel payload options stamp now =>
      match Assoc.get b.channels channel,
        config.prepare serde gzip options channel stamp payload with
      | some _, .ok _ => [(channel, now)]
      | _, _ => []
  | _ => []

/-- The broker with all that was done on its channels so far. -/
structure History where
  broker : Broker
  activity : List (Str × Nat)

namespace History

def new : History := ⟨.new, []⟩

def step (serde : SerdeJson Json) (gzip : Gzip) (config : BrokerConfig)
    (sharding : Table → Sharding) (h : History) (call : BrokerCall Json) : Option History :=
  (call.step serde gzip config sharding h.broker).map fun b' =>
    ⟨b', h.activity ++ call.activity serde gzip config h.broker⟩

/-- No living receiver, and nothing done on the channel for longer than channels live. -/
def Expired (config : BrokerConfig) (h : History) (now : Nat) (key : Str) : Prop :=
  ∃ ttl sender, config.channelTtl = some ttl ∧ Assoc.get h.broker.channels key = some sender ∧
    h.broker.receiverCount sender = 0 ∧ ∀ t, (key, t) ∈ h.activity → ttl < now - t

/-- A cleanup that removes and counts the expired channels, and no others. -/
structure CleansTo (config : BrokerConfig) (h : History) (now count : Nat) (b' : Broker) :
    Prop where
  removed : ∀ key, h.Expired config now key →
    Assoc.get b'.channels key = none ∧ Assoc.get b'.stats key = none
  kept : ∀ key, ¬ h.Expired config now key →
    Assoc.get b'.channels key = Assoc.get h.broker.channels key ∧
      Assoc.get b'.stats key = Assoc.get h.broker.stats key
  counted : count + b'.channels.length = h.broker.channels.length

def CleansExactly (serde : SerdeJson Json) (gzip : Gzip) (config : BrokerConfig)
    (sharding : Table → Sharding) (h : History) (call : BrokerCall Json) : Prop :=
  ∀ now, call = .cleanupInactiveChannels now → ∃ count b',
    call.outcome serde gzip config sharding h.broker = .done (.cleaned count) b' ∧
      h.CleansTo config now count b'

/-- The statistics of a channel date its last activity. -/
def Dated (h : History) : Prop :=
  ∀ key stats, Assoc.get h.broker.stats key = some stats →
    (key, stats.lastActivity) ∈ h.activity ∧
      ∀ t, (key, t) ∈ h.activity → t ≤ stats.lastActivity

/-- The clock of a call is not behind what was done before. -/
def OnTime (h : History) (call : BrokerCall Json) : Prop :=
  ∀ entry ∈ h.activity, ∀ now ∈ call.time, entry.2 ≤ now

end History

theorem BrokerCall.time_of_activity {entry : Str × Nat}
    (member : entry ∈ call.activity serde gzip config b) : call.time = some entry.2 := by
  cases call with
  | subscribeWithOptions channel options now =>
      unfold activity at member
      dsimp only at member
      split at member
      · rw [List.mem_singleton.mp member]
        rfl
      · cases member
  | publishWithOptions channel payload options stamp now =>
      unfold activity at member
      dsimp only at member
      split at member
      · rw [List.mem_singleton.mp member]
        rfl
      · cases member
  | dropSubscriber sender => cases member
  | unsubscribe channel => cases member
  | cleanupInactiveChannels now => cases member
  | snapshot now => cases member

/-- The statistics of a channel keep their date where nothing is done on it, and get the date of
what is done. -/
def Redated (b b' : Broker) (activity : List (Str × Nat)) : Prop :=
  ∀ key stats', Assoc.get b'.stats key = some stats' →
    (∃ stats, Assoc.get b.stats key = some stats ∧ stats.lastActivity = stats'.lastActivity ∧
      ∀ t, (key, t) ∉ activity) ∨ (key, stats'.lastActivity) ∈ activity

theorem redated_nil (lost : ∀ key stats, Assoc.get b'.stats key = some stats →
    Assoc.get b.stats key = some stats) : Redated b b' [] := by
  intro key stats known
  exact .inl ⟨stats, lost key stats known, rfl, fun t => List.not_mem_nil⟩

/-- A count that is refreshed is no activity. -/
theorem Redated.join {activity : List (Str × Nat)} (redated : Redated b b' activity) (key : Str)
    (sender : Nat) : Redated b (b'.join key sender) activity := by
  intro key' stats' known
  unfold Broker.join at known
  rw [get_stats_alterStats] at known
  split at known
  · rename_i same
    subst same
    obtain ⟨stats, was, rfl⟩ := Option.map_eq_some_iff.mp known
    exact redated key stats was
  · exact redated key' stats' known

theorem redated_openChannel {options : SubscriptionOptions} (channel : Str) (now : Nat)
    (accepted : ¬ Refused config b channel options) :
    Redated b (b.openChannel channel now)
      ((BrokerCall.subscribeWithOptions channel options now).activity serde gzip config b) := by
  cases known : Assoc.get b.channels channel with
  | some sender =>
      rw [openChannel_of_some known]
      simp only [BrokerCall.activity, known]
      exact redated_nil fun _ _ held => held
  | none =>
      have capacity : refusesCapacity
          (options.bufferSize.getD config.defaultChannelCapacity) = false := by
        by_contra refused
        exact accepted ⟨known, eq_true_of_ne_false refused⟩
      rw [openChannel_of_none known]
      simp only [BrokerCall.activity, known, capacity]
      intro key stats held
      rw [Assoc.get_insert] at held
      split at held
      · rename_i same
        obtain rfl := Option.some.inj held
        rw [same]
        exact .inr (List.mem_singleton_self _)
      · rename_i other
        refine .inl ⟨stats, held, rfl, fun t member => other ?_⟩
        exact (congrArg Prod.fst (List.mem_singleton.mp member)).symm

theorem redated_publish (channel : Str) (messageSize now : Nat) :
    Redated b (b.publish channel messageSize now) [(channel, now)] := by
  intro key stats' held
  unfold Broker.publish at held
  rw [get_stats_alterStats] at held
  split at held
  · rename_i same
    obtain ⟨stats, -, rfl⟩ := Option.map_eq_some_iff.mp held
    rw [ChannelStats.lastActivity_publish, same]
    exact .inr (List.mem_singleton_self _)
  · rename_i other
    refine .inl ⟨stats', held, rfl, fun t member => other ?_⟩
    exact (congrArg Prod.fst (List.mem_singleton.mp member)).symm

theorem redated_effect (linked : b.Linked) (accepted : ¬ call.Refused config b) :
    Redated b (call.effect serde gzip config sharding b)
      (call.activity serde gzip config b) := by
  cases call with
  | subscribeWithOptions channel options now =>
      have opened := @redated_openChannel _ serde gzip config b options channel now accepted
      unfold BrokerCall.effect Broker.subscribe
      dsimp only
      split
      · exact opened
      · exact opened.join channel _
  | publishWithOptions channel payload options stamp now =>
      unfold BrokerCall.effect BrokerCall.activity
      dsimp only
      cases config.prepare serde gzip options channel stamp payload with
      | error e =>
          cases Assoc.get b.channels channel with
          | none => exact redated_nil fun _ _ held => held
          | some sender => exact redated_nil fun _ _ held => held
      | ok sent =>
          cases known : Assoc.get b.channels channel with
          | none =>
              have absent : Assoc.get b.stats channel = none := by
                rw [← Option.isNone_iff_eq_none, ← Option.not_isSome, linked.tables channel, known]
                rfl
              change Redated b (b.publish channel (sent.1.size serde) now) []
              unfold Broker.publish
              rw [alterStats_of_none absent]
              exact redated_nil fun _ _ held => held
          | some sender => exact redated_publish channel _ now
  | dropSubscriber sender => exact redated_nil fun _ _ held => held
  | unsubscribe channel =>
      refine redated_nil fun key stats held => ?_
      have found := (linked.tables.get_stats_closeChannel channel key).symm.trans held
      split at found
      · cases found
      · exact found
  | cleanupInactiveChannels now =>
      refine redated_nil fun key stats held => ?_
      unfold BrokerCall.effect Broker.cleanup at held
      dsimp only at held
      split at held
      · exact held
      · rw [linked.get_stats_closeChannels] at held
        split at held
        · cases held
        · exact held
  | snapshot now => exact redated_nil fun _ _ held => held

theorem dated_step {h h' : History} (linked : h.broker.Linked) (dated : h.Dated)
    (onTime : h.OnTime call) (stepped : h.step serde gzip config sharding call = some h') :
    h'.Dated := by
  obtain ⟨b', moved, rfl⟩ := Option.map_eq_some_iff.mp stepped
  have redated : Redated h.broker b' (call.activity serde gzip config h.broker) := by
    rcases BrokerCall.step_effect linked.channelKeys moved with
      ⟨refused, agrees⟩ | ⟨accepted, agrees⟩
    · have nothing : call.activity serde gzip config h.broker = [] := by
        cases call with
        | subscribeWithOptions channel options now =>
            have absent : Assoc.get h.broker.channels channel = none := refused.1
            have capacity := refused.2
            simp only [BrokerCall.activity, absent, capacity]
        | publishWithOptions channel payload options stamp now => exact refused.elim
        | dropSubscriber sender => rfl
        | unsubscribe channel => rfl
        | cleanupInactiveChannels now => rfl
        | snapshot now => rfl
      rw [nothing]
      refine redated_nil fun key stats held => ?_
      rwa [agrees.stats] at held
    · have effect := @redated_effect _ serde gzip config sharding _ call linked accepted
      intro key stats held
      rw [agrees.stats] at held
      exact effect key stats held
  intro key stats' held
  rcases redated key stats' held with ⟨stats, was, same, nothing⟩ | done
  · obtain ⟨member, latest⟩ := dated key stats was
    rw [same] at member latest
    refine ⟨List.mem_append_left _ member, fun t event => ?_⟩
    rcases List.mem_append.mp event with before | now
    · exact latest t before
    · exact absurd now (nothing t)
  · refine ⟨List.mem_append_right _ done, fun t event => ?_⟩
    have clock := BrokerCall.time_of_activity done
    rcases List.mem_append.mp event with before | now
    · exact onTime _ before _ clock
    · have same := (BrokerCall.time_of_activity now).symm.trans clock
      exact (Option.some.inj same).le

namespace History

variable {h h' : History}

/-- The keys that a cleanup collects are those of the expired channels, where the counts are those
of the living receivers. -/
theorem mem_idleKeys_iff_expired (linked : h.broker.Linked) (counts : h.broker.CountsLive)
    (dated : h.Dated) {ttl : Nat} (lives : config.channelTtl = some ttl) (now : Nat) (key : Str) :
    key ∈ h.broker.idleKeys sharding ttl now ↔ h.Expired config now key := by
  rw [mem_idleKeys]
  constructor
  · rintro ⟨stats, member, unused, old⟩
    have known := Assoc.get_of_mem linked.statsKeys member
    have both := linked.tables key
    rw [known] at both
    obtain ⟨sender, held⟩ := Option.isSome_iff_exists.mp both.symm
    refine ⟨ttl, sender, lives, held, ?_, fun t event => ?_⟩
    · rw [counts key sender stats held known, unused]
    · have latest := (dated key stats known).2 t event
      omega
  · rintro ⟨ttl', sender, lives', held, unused, idle⟩
    obtain rfl := Option.some.inj (lives.symm.trans lives')
    obtain ⟨stats, known⟩ := linked.stats_of_channel held
    refine ⟨stats, Assoc.mem_of_get known, ?_, idle _ (dated key stats known).1⟩
    rw [← counts key sender stats held known, unused]

theorem cleansExactly (linked : h.broker.Linked) (counts : h.broker.CountsLive)
    (dated : h.Dated) (call : BrokerCall Json) :
    h.CleansExactly serde gzip config sharding call := by
  rintro now rfl
  obtain ⟨count, ran, counted⟩ := @cleanup_done config sharding h.broker linked.channelKeys now
  refine ⟨count, _, bind_done ran, ?_⟩
  unfold Broker.cleanup at counted ⊢
  cases lives : config.channelTtl with
  | none =>
      rw [lives] at counted
      refine ⟨fun key expired => ?_, fun _ _ => ⟨rfl, rfl⟩, counted⟩
      obtain ⟨ttl, -, lives', -⟩ := expired
      rw [lives] at lives'
      cases lives'
  | some ttl =>
      rw [lives] at counted
      have collects := @mem_idleKeys_iff_expired config sharding h linked counts dated ttl lives now
      refine ⟨fun key expired => ?_, fun key spared => ?_, counted⟩
      · have member := (collects key).mpr expired
        simp only [get_channels_closeChannels, linked.get_stats_closeChannels, member, if_true,
          and_self]
      · have absent : key ∉ h.broker.idleKeys sharding ttl now :=
          fun member => spared ((collects key).mp member)
        simp only [get_channels_closeChannels, linked.get_stats_closeChannels, absent, if_false,
          and_self]

theorem onTime_along {calls : List (BrokerCall Json)}
    (ordered : (calls.filterMap BrokerCall.time).Pairwise (· ≤ ·))
    (late : ∀ entry ∈ h.activity, ∀ now ∈ calls.filterMap BrokerCall.time, entry.2 ≤ now) :
    Runs.Along (step serde gzip config sharding) (fun h call => h.OnTime call) h calls := by
  induction calls generalizing h with
  | nil => trivial
  | cons call rest ih =>
      have here : ∀ now ∈ call.time, now ∈ (call :: rest).filterMap BrokerCall.time :=
        fun now clock => List.mem_filterMap.mpr ⟨call, List.mem_cons_self, clock⟩
      have there : ∀ now ∈ rest.filterMap BrokerCall.time,
          now ∈ (call :: rest).filterMap BrokerCall.time := by
        intro now member
        obtain ⟨later, found, clock⟩ := List.mem_filterMap.mp member
        exact List.mem_filterMap.mpr ⟨later, List.mem_cons_of_mem call found, clock⟩
      refine ⟨fun entry member now clock => late entry member now (here now clock), ?_⟩
      intro h' stepped
      obtain ⟨b', -, rfl⟩ := Option.map_eq_some_iff.mp stepped
      refine ih ?_ fun entry member now later => ?_
      · refine ordered.sublist ?_
        exact (List.sublist_cons_self call rest).filterMap BrokerCall.time
      · rcases List.mem_append.mp member with before | new
        · exact late entry before now (there now later)
        · have clock := BrokerCall.time_of_activity new
          rw [List.filterMap_cons_some clock, List.pairwise_cons] at ordered
          exact ordered.1 now later

end History

open History in
theorem countsLive_along_iff (calls : List (BrokerCall Json)) :
    Runs.Along (step serde gzip config sharding)
        (fun h call => ∀ h' ∈ h.step serde gzip config sharding call,
          h'.broker.TablesMatch ∧ h'.broker.CountsLive) new calls ↔
      Runs.Along (step serde gzip config sharding) (fun h call => ¬ call.DropsListed h.broker) new
        calls := by
  refine @Runs.along_congr_of_kept _ _ _ _ (fun h => h.broker.Linked ∧ h.broker.CountsLive) _
    (fun h call h' inv next stepped => ?_) (fun h call inv => ?_) _ _ ⟨linked_new, counted_new _⟩
  · obtain ⟨b', moved, rfl⟩ := Option.map_eq_some_iff.mp stepped
    exact ⟨linked_step inv.1 moved, (next _ stepped).2⟩
  · rw [← countsLive_step_iff inv.1 inv.2]
    constructor
    · intro next b' moved
      exact (next ⟨b', _⟩ (Option.map_eq_some_iff.mpr ⟨b', moved, rfl⟩)).2
    · intro next h' stepped
      obtain ⟨b', moved, rfl⟩ := Option.map_eq_some_iff.mp stepped
      exact ⟨(linked_step inv.1 moved).tables, next b' moved⟩

open History in
theorem cleansExactly_along {calls : List (BrokerCall Json)}
    (ordered : (calls.filterMap BrokerCall.time).Pairwise (· ≤ ·))
    (keeps : Runs.Along (step serde gzip config sharding)
      (fun h call => ¬ call.DropsListed h.broker) new calls) :
    Runs.Along (step serde gzip config sharding)
      (fun h call => h.CleansExactly serde gzip config sharding call) new calls := by
  have onTime := @onTime_along _ serde gzip config sharding new calls ordered
    fun entry member => by cases member
  refine @Runs.along_of_kept _ _ _ _
    (fun h => h.broker.Linked ∧ h.broker.CountsLive ∧ h.Dated) _
    (fun h call h' inv now stepped => ?_)
    (fun h call inv _ => cleansExactly inv.1 inv.2.1 inv.2.2 call) _ _
    ⟨linked_new, counted_new _, ?_⟩ (keeps.and onTime)
  · have dated := dated_step inv.1 inv.2.2 now.2 stepped
    obtain ⟨b', moved, rfl⟩ := Option.map_eq_some_iff.mp stepped
    exact ⟨linked_step inv.1 moved, (countsLive_step_iff inv.1 inv.2.1).mpr now.1 b' moved, dated⟩
  · intro key stats known
    cases known

open History in
/-- In a run whose clock does not go back the two tables belong together, the counts are those of
the living receivers and every cleanup is exact, exactly when no living subscriber of a channel in
the table goes away. -/
theorem cleanup_exact_iff (serde : SerdeJson Json) (gzip : Gzip) (config : BrokerConfig)
    (sharding : Table → Sharding) (calls : List (BrokerCall Json))
    (ordered : (calls.filterMap BrokerCall.time).Pairwise (· ≤ ·)) :
    ((∀ n h, Runs.run (step serde gzip config sharding) new (calls.take n) = some h →
        h.broker.TablesMatch ∧ h.broker.CountsLive) ∧
      Runs.Along (step serde gzip config sharding)
        (fun h call => h.CleansExactly serde gzip config sharding call) new calls) ↔
    Runs.Along (step serde gzip config sharding) (fun h call => ¬ call.DropsListed h.broker) new
      calls := by
  have always := @Runs.always_iff_along _ _ (step serde gzip config sharding)
    (fun h => h.broker.TablesMatch ∧ h.broker.CountsLive) new calls
  constructor
  · rintro ⟨held, -⟩
    exact (countsLive_along_iff calls).mp (always.mp held).2
  · intro keeps
    refine ⟨always.mpr ⟨⟨linked_new.tables, counted_new _⟩, ?_⟩, cleansExactly_along ordered keeps⟩
    exact (countsLive_along_iff calls).mpr keeps

/-- A channel with a living receiver outlives every cleanup, whatever the subscribers did. -/
theorem cleanup_keeps_served (calls : List (BrokerCall Json)) {b : Broker}
    (ran : Runs.run (BrokerCall.step serde gzip config sharding) .new calls = some b)
    {key : Str} {sender : Nat} (held : Assoc.get b.channels key = some sender)
    (living : 0 < b.receiverCount sender) (now : Nat) : ∃ count b',
    cleanupInactiveChannels config sharding now [] b = .done count b' ∧
      Assoc.get b'.channels key = some sender := by
  have inv : b.Linked ∧ b.Counted (· ≤ ·) := by
    refine @Runs.kept_run_always _ _ _ (fun b => b.Linked ∧ b.Counted (· ≤ ·))
      (fun b call b' inv stepped => ?_) _ _ _ ⟨linked_new, counted_new _⟩ ran
    exact ⟨linked_step inv.1 stepped, covered_step inv.1 inv.2 stepped⟩
  obtain ⟨count, swept, -⟩ := @cleanup_done config sharding b inv.1.channelKeys now
  refine ⟨count, _, swept, ?_⟩
  unfold Broker.cleanup
  split
  · exact held
  · rw [get_channels_closeChannels, if_neg]
    · exact held
    · rw [mem_idleKeys]
      rintro ⟨stats, member, unused, -⟩
      have covered := inv.2 key sender stats held (Assoc.get_of_mem inv.1.statsKeys member)
      omega

end

/-- The life of a channel: a subscriber comes and goes, and much later there is a cleanup. -/
def abandoned : List (BrokerCall Unit) :=
  [.subscribeWithOptions (Str.lit "news") .default 0, .dropSubscriber 0,
    .cleanupInactiveChannels 1000000]

theorem cleanup_keeps_served_news : ∃ b,
    Runs.run (BrokerCall.step nullSerde noGzip .default oneShard) .new
      (abandoned.take 1) = some b ∧
    ∀ now, ∃ count b', cleanupInactiveChannels .default oneShard now [] b = .done count b' ∧
      Assoc.get b'.channels (Str.lit "news") = some 0 :=
  ⟨_, rfl, @cleanup_keeps_served Unit nullSerde noGzip .default oneShard (abandoned.take 1) _ rfl
    _ _ rfl (by decide)⟩

/-- A subscription and a cleanup that leaves its channel. -/
theorem cleanup_exact_while_subscribed :
    (∀ n h, Runs.run (History.step nullSerde noGzip .default oneShard) .new
        (List.take n [.subscribeWithOptions (Str.lit "news") .default 0,
          .cleanupInactiveChannels 1000000]) = some h →
        h.broker.TablesMatch ∧ h.broker.CountsLive) ∧
      Runs.Along (History.step nullSerde noGzip .default oneShard)
        (fun h call => h.CleansExactly nullSerde noGzip .default oneShard call) .new
        [.subscribeWithOptions (Str.lit "news") .default 0, .cleanupInactiveChannels 1000000] := by
  refine (cleanup_exact_iff nullSerde noGzip .default oneShard _ (by decide)).mpr ?_
  exact ⟨id, fun _ _ => ⟨id, fun _ _ => trivial⟩⟩

/-- The channel that nobody listens to any more is not removed. -/
theorem abandoned_channel_stays :
    ¬ ∀ (serde : SerdeJson Unit) (gzip : Gzip) (config : BrokerConfig) (sharding : Table → Sharding)
      (calls : List (BrokerCall Unit)), (calls.filterMap BrokerCall.time).Pairwise (· ≤ ·) →
      (∀ n h, Runs.run (History.step serde gzip config sharding) .new (calls.take n) = some h →
        h.broker.TablesMatch ∧ h.broker.CountsLive) ∧
      Runs.Along (History.step serde gzip config sharding)
        (fun h call => h.CleansExactly serde gzip config sharding call) .new calls := by
  intro exactly
  obtain ⟨-, along⟩ := exactly nullSerde noGzip .default oneShard abandoned (by decide)
  obtain ⟨-, rest⟩ := along
  obtain ⟨-, rest⟩ := rest _ rfl
  obtain ⟨cleans, -⟩ := rest _ rfl
  obtain ⟨count, b', ran, cleaned⟩ := cleans 1000000 rfl
  have gone := (cleaned.removed (Str.lit "news") ⟨300000, 0, rfl, rfl, rfl, ?_⟩).1
  · cases ran
    cases gone
  · intro t event
    have time : t = 0 := congrArg Prod.snd (List.mem_singleton.mp event)
    subst time
    decide

end Zumic.Pubsub
