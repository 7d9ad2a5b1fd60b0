/- How the tables of the broker belong together, and how the living receivers of a channel relate to
their number in its statistics, under what the calls do to them. -/

import Zumic.Pubsub.BrokerTables

namespace Zumic.Pubsub

open Lib Lib.Utf8

namespace Broker

/-- The statistics have an entry exactly for the channels. -/
def TablesMatch (b : Broker) : Prop :=
  ∀ key, (Assoc.get b.stats key).isSome = (Assoc.get b.channels key).isSome

/-- How the living receivers of every channel relate to their number in the statistics. -/
def Counted (R : Nat → Nat → Prop) (b : Broker) : Prop :=
  ∀ key sender stats, Assoc.get b.channels key = some sender → Assoc.get b.stats key = some stats →
    R (b.receiverCount sender) stats.subscriberCount

/-- The statistics of every channel count its living receivers. -/
def CountsLive (b : Broker) : Prop := b.Counted (· = ·)

/-- What holds of the tables whatever the subscribers do; senders are new when they are made. -/
structure Linked (b : Broker) : Prop where
  channelKeys : (Assoc.keys b.channels).Nodup
  statsKeys : (Assoc.keys b.stats).Nodup
  tables : b.TablesMatch
  made : ∀ key sender, Assoc.get b.channels key = some sender → sender < b.nextSender
  alive : ∀ sender ∈ b.receivers, sender < b.nextSender
  apart : ∀ key key' sender, Assoc.get b.channels key = some sender →
    Assoc.get b.channels key' = some sender → key = key'

theorem linked_new : new.Linked where
  channelKeys := List.nodup_nil
  statsKeys := List.nodup_nil
  tables _ := rfl
  made _ _ known := by cases known
  alive _ member := by cases member
  apart _ _ _ known := by cases known

theorem counted_new (R : Nat → Nat → Prop) : new.Counted R := by
  intro _ _ _ known
  cases known

variable {b b' : Broker} {key : Str} {R : Nat → Nat → Prop}

theorem Agrees.counted (agrees : b.Agrees b') : b'.Counted R ↔ b.Counted R := by
  simp only [Counted, agrees.channels, agrees.stats, agrees.receiverCount]

theorem Agrees.linked (agrees : b.Agrees b') (linked : b.Linked) : b'.Linked where
  channelKeys := by simpa only [agrees.channels] using linked.channelKeys
  statsKeys := by simpa only [agrees.stats] using linked.statsKeys
  tables := by simpa only [TablesMatch, agrees.channels, agrees.stats] using linked.tables
  made := by simpa only [agrees.channels, agrees.nextSender] using linked.made
  alive := by simpa only [agrees.receivers, agrees.nextSender] using linked.alive
  apart := by simpa only [agrees.channels] using linked.apart

theorem Linked.receiverCount_next (linked : b.Linked) : b.receiverCount b.nextSender = 0 := by
  refine List.count_eq_zero.mpr fun member => ?_
  exact lt_irrefl _ (linked.alive _ member)

theorem Linked.stats_of_channel (linked : b.Linked) {sender : Nat}
    (known : Assoc.get b.channels key = some sender) :
    ∃ stats, Assoc.get b.stats key = some stats := by
  have both := linked.tables key
  rw [known] at both
  exact Option.isSome_iff_exists.mp both

theorem get_channels_openChannel (b : Broker) (key key' : Str) (now : Nat) :
    Assoc.get (b.openChannel key now).channels key' =
      if key = key' then some (b.senderOf key) else Assoc.get b.channels key' := by
  unfold openChannel senderOf
  cases known : Assoc.get b.channels key with
  | some sender =>
      by_cases same : key = key'
      · subst same
        simp [known]
      · simp [same]
  | none => simp [Assoc.get_insert]

theorem openChannel_of_some {sender : Nat} (known : Assoc.get b.channels key = some sender)
    (now : Nat) : b.openChannel key now = b := by
  unfold openChannel
  rw [known]

theorem openChannel_of_none (absent : Assoc.get b.channels key = none) (now : Nat) :
    b.openChannel key now = { b with
      channels := Assoc.insert b.channels key b.nextSender
      stats := Assoc.insert b.stats key (.default now)
      nextSender := b.nextSender + 1 } := by
  unfold openChannel
  rw [absent]

theorem Linked.openChannel (linked : b.Linked) (key : Str) (now : Nat) :
    (b.openChannel key now).Linked := by
  cases known : Assoc.get b.channels key with
  | some sender =>
      rw [openChannel_of_some known]
      exact linked
  | none =>
      rw [openChannel_of_none known]
      refine ⟨Assoc.nodup_keys_insert linked.channelKeys _ _,
        Assoc.nodup_keys_insert linked.statsKeys _ _, fun key' => ?_, fun key' sender held => ?_,
        fun sender member => Nat.lt_succ_of_lt (linked.alive sender member),
        fun key' key'' sender held held' => ?_⟩
      · simp only [Assoc.get_insert]
        split
        · rfl
        · exact linked.tables key'
      · rw [Assoc.get_insert] at held
        split at held
        · obtain rfl := Option.some.inj held
          exact Nat.lt_succ_self _
        · exact Nat.lt_succ_of_lt (linked.made key' sender held)
      · rw [Assoc.get_insert] at held held'
        split at held
        · rename_i same
          split at held'
          · rename_i same'
            exact same.symm.trans same'
          · obtain rfl := Option.some.inj held
            exact absurd (linked.made _ _ held') (lt_irrefl _)
        · split at held'
          · obtain rfl := Option.some.inj held'
            exact absurd (linked.made _ _ held) (lt_irrefl _)
          · exact linked.apart key' key'' sender held held'

theorem Counted.openChannel (reflexive : ∀ n, R n n) (counts : b.Counted R) (linked : b.Linked)
    (key : Str) (now : Nat) : (b.openChannel key now).Counted R := by
  cases known : Assoc.get b.channels key with
  | some sender =>
      rw [openChannel_of_some known]
      exact counts
  | none =>
      rw [openChannel_of_none known]
      intro key' sender stats held counted
      simp only [Assoc.get_insert] at held counted
      split at held
      · rename_i same
        rw [if_pos same] at counted
        obtain rfl := Option.some.inj held
        obtain rfl := Option.some.inj counted
        change R (b.receiverCount b.nextSender) 0
        rw [linked.receiverCount_next]
        exact reflexive 0
      · rename_i other
        rw [if_neg other] at counted
        exact counts key' sender stats held counted

theorem alterStats_of_some {stats : ChannelStats} (known : Assoc.get b.stats key = some stats)
    (change : ChannelStats → ChannelStats) :
    b.alterStats key change = { b with stats := Assoc.insert b.stats key (change stats) } := by
  unfold alterStats
  rw [known]

theorem alterStats_of_none (absent : Assoc.get b.stats key = none)
    (change : ChannelStats → ChannelStats) : b.alterStats key change = b := by
  unfold alterStats
  rw [absent]

theorem get_stats_alterStats (b : Broker) (key key' : Str) (change : ChannelStats → ChannelStats) :
    Assoc.get (b.alterStats key change).stats key' =
      if key = key' then (Assoc.get b.stats key).map change else Assoc.get b.stats key' := by
  cases known : Assoc.get b.stats key with
  | some stats => simp [alterStats_of_some known, Assoc.get_insert]
  | none =>
      rw [alterStats_of_none known]
      split
      · rename_i same
        rw [← same, known]
        rfl
      · rfl

@[simp] theorem channels_alterStats (b : Broker) (key : Str)
    (change : ChannelStats → ChannelStats) : (b.alterStats key change).channels = b.channels := by
  unfold alterStats
  split <;> rfl

@[simp] theorem receivers_alterStats (b : Broker) (key : Str)
    (change : ChannelStats → ChannelStats) : (b.alterStats key change).receivers = b.receivers := by
  unfold alterStats
  split <;> rfl

@[simp] theorem nextSender_alterStats (b : Broker) (key : Str)
    (change : ChannelStats → ChannelStats) :
    (b.alterStats key change).nextSender = b.nextSender := by
  unfold alterStats
  split <;> rfl

theorem nodup_keys_stats_alterStats (distinct : (Assoc.keys b.stats).Nodup) (key : Str)
    (change : ChannelStats → ChannelStats) :
    (Assoc.keys (b.alterStats key change).stats).Nodup := by
  unfold alterStats
  split
  · exact Assoc.nodup_keys_insert distinct _ _
  · exact distinct

theorem tablesMatch_alterStats (tables : b.TablesMatch) (key : Str)
    (change : ChannelStats → ChannelStats) : (b.alterStats key change).TablesMatch := by
  intro key'
  rw [get_stats_alterStats, channels_alterStats, ← tables key']
  split
  · rename_i same
    rw [same, Option.isSome_map]
  · rfl

theorem Linked.alterStats (linked : b.Linked) (key : Str) (change : ChannelStats → ChannelStats) :
    (b.alterStats key change).Linked where
  channelKeys := by simpa using linked.channelKeys
  statsKeys := nodup_keys_stats_alterStats linked.statsKeys key change
  tables := tablesMatch_alterStats linked.tables key change
  made := by simpa using linked.made
  alive := by simpa using linked.alive
  apart := by simpa using linked.apart

theorem counted_alterStats {change : ChannelStats → ChannelStats}
    (here : ∀ sender stats, Assoc.get b.channels key = some sender →
      Assoc.get b.stats key = some stats →
        R (b.receiverCount sender) (change stats).subscriberCount)
    (elsewhere : ∀ key' sender stats, key ≠ key' → Assoc.get b.channels key' = some sender →
      Assoc.get b.stats key' = some stats → R (b.receiverCount sender) stats.subscriberCount) :
    (b.alterStats key change).Counted R := by
  intro key' sender stats held counted
  rw [channels_alterStats] at held
  rw [get_stats_alterStats] at counted
  rw [receiverCount, receivers_alterStats]
  by_cases same : key = key'
  · subst same
    rw [if_pos rfl] at counted
    obtain ⟨old, was, rfl⟩ := Option.map_eq_some_iff.mp counted
    exact here sender old held was
  · rw [if_neg same] at counted
    exact elsewhere key' sender stats same held counted

theorem Linked.publish (linked : b.Linked) (key : Str) (messageSize now : Nat) :
    (b.publish key messageSize now).Linked :=
  linked.alterStats key _

theorem Counted.publish (counts : b.Counted R) (key : Str) (messageSize now : Nat) :
    (b.publish key messageSize now).Counted R := by
  refine counted_alterStats (fun sender stats held counted => ?_) fun key' sender stats _ => ?_
  · rw [ChannelStats.subscriberCount_publish]
    exact counts key sender stats held counted
  · exact counts key' sender stats

theorem receiverCount_cons (b : Broker) (sender other : Nat) :
    receiverCount { b with receivers := sender :: b.receivers } other =
      b.receiverCount other + if sender = other then 1 else 0 := by
  by_cases same : sender = other
  · simp [same, receiverCount]
  · simp [same, receiverCount]

theorem Linked.join (linked : b.Linked) {sender : Nat}
    (held : Assoc.get b.channels key = some sender) : (b.join key sender).Linked := by
  refine Linked.alterStats ?_ key _
  refine ⟨linked.channelKeys, linked.statsKeys, linked.tables, linked.made, ?_, linked.apart⟩
  intro other member
  rcases List.mem_cons.mp member with rfl | member
  · exact linked.made key other held
  · exact linked.alive other member

theorem Counted.join (reflexive : ∀ n, R n n) (counts : b.Counted R) (linked : b.Linked)
    {sender : Nat} (held : Assoc.get b.channels key = some sender) :
    (b.join key sender).Counted R := by
  refine counted_alterStats (fun other stats held' _ => ?_)
    fun key' other stats apart held' was => ?_
  · obtain rfl := Option.some.inj (held.symm.trans held')
    rw [receiverCount_cons, if_pos rfl]
    exact reflexive _
  · have different : sender ≠ other := by
      rintro rfl
      exact apart (linked.apart key key' sender held held')
    rw [receiverCount_cons, if_neg different]
    exact counts key' other stats held' was

theorem get_senderOf (b : Broker) (key : Str) (now : Nat) :
    Assoc.get (b.openChannel key now).channels key = some (b.senderOf key) := by
  rw [get_channels_openChannel, if_pos rfl]

theorem Linked.subscribe (linked : b.Linked) (config : BrokerConfig) (key : Str) (now : Nat) :
    (b.subscribe config key now).Linked := by
  unfold Broker.subscribe
  have opened := linked.openChannel key now
  split
  · exact opened
  · exact opened.join (get_senderOf b key now)

theorem Counted.subscribe (reflexive : ∀ n, R n n) (counts : b.Counted R) (linked : b.Linked)
    (config : BrokerConfig) (key : Str) (now : Nat) : (b.subscribe config key now).Counted R := by
  unfold Broker.subscribe
  have opened := counts.openChannel reflexive linked key now
  split
  · exact opened
  · exact opened.join reflexive (linked.openChannel key now) (get_senderOf b key now)

theorem get_channels_closeChannel (b : Broker) (key key' : Str) :
    Assoc.get (b.closeChannel key).channels key' =
      if key = key' then none else Assoc.get b.channels key' := by
  unfold closeChannel
  split
  · rw [Assoc.get_erase]
  · rename_i absent
    split
    · rename_i same
      rw [← same, absent]
    · rfl

theorem TablesMatch.get_stats_closeChannel (tables : b.TablesMatch) (key key' : Str) :
    Assoc.get (b.closeChannel key).stats key' =
      if key = key' then none else Assoc.get b.stats key' := by
  unfold closeChannel
  split
  · rw [Assoc.get_erase]
  · rename_i absent
    have none := tables key
    rw [absent] at none
    split
    · rename_i same
      rw [← same]
      exact Option.isSome_eq_false_iff.mp none |> Option.isNone_iff_eq_none.mp
    · rfl

@[simp] theorem receivers_closeChannel (b : Broker) (key : Str) :
    (b.closeChannel key).receivers = b.receivers := by
  unfold closeChannel
  split <;> rfl

@[simp] theorem nextSender_closeChannel (b : Broker) (key : Str) :
    (b.closeChannel key).nextSender = b.nextSender := by
  unfold closeChannel
  split <;> rfl

theorem nodup_closeChannel (linked : b.Linked) (key : Str) :
    (Assoc.keys (b.closeChannel key).channels).Nodup ∧
      (Assoc.keys (b.closeChannel key).stats).Nodup := by
  unfold closeChannel
  split
  · exact ⟨Assoc.nodup_keys_erase linked.channelKeys key,
      Assoc.nodup_keys_erase linked.statsKeys key⟩
  · exact ⟨linked.channelKeys, linked.statsKeys⟩

theorem channel_of_closeChannel {key' : Str} {sender : Nat}
    (held : Assoc.get (b.closeChannel key).channels key' = some sender) :
    key ≠ key' ∧ Assoc.get b.channels key' = some sender := by
  rw [get_channels_closeChannel] at held
  split at held
  · cases held
  · rename_i other
    exact ⟨other, held⟩

theorem Linked.closeChannel (linked : b.Linked) (key : Str) : (b.closeChannel key).Linked where
  channelKeys := (nodup_closeChannel linked key).1
  statsKeys := (nodup_closeChannel linked key).2
  tables key' := by
    rw [get_channels_closeChannel, linked.tables.get_stats_closeChannel]
    split
    · rfl
    · exact linked.tables key'
  made key' sender held := by
    rw [nextSender_closeChannel]
    exact linked.made key' sender (channel_of_closeChannel held).2
  alive := by simpa using linked.alive
  apart key' key'' sender held held' :=
    linked.apart key' key'' sender (channel_of_closeChannel held).2
      (channel_of_closeChannel held').2

theorem Counted.closeChannel (counts : b.Counted R) (linked : b.Linked) (key : Str) :
    (b.closeChannel key).Counted R := by
  intro key' sender stats held counted
  obtain ⟨other, held⟩ := channel_of_closeChannel held
  rw [linked.tables.get_stats_closeChannel, if_neg other] at counted
  rw [receiverCount, receivers_closeChannel]
  exact counts key' sender stats held counted

theorem Linked.closeChannels (linked : b.Linked) (keys : List Str) :
    (b.closeChannels keys).Linked := by
  induction keys generalizing b with
  | nil => exact linked
  | cons key rest ih => exact ih (linked.closeChannel key)

theorem Counted.closeChannels (counts : b.Counted R) (linked : b.Linked) (keys : List Str) :
    (b.closeChannels keys).Counted R := by
  induction keys generalizing b with
  | nil => exact counts
  | cons key rest ih => exact ih (counts.closeChannel linked key) (linked.closeChannel key)

theorem get_channels_closeChannels (b : Broker) (keys : List Str) (key : Str) :
    Assoc.get (b.closeChannels keys).channels key =
      if key ∈ keys then none else Assoc.get b.channels key := by
  induction keys generalizing b with
  | nil => simp [Broker.closeChannels]
  | cons first rest ih =>
      change Assoc.get ((b.closeChannel first).closeChannels rest).channels key = _
      rw [ih, get_channels_closeChannel]
      by_cases later : key ∈ rest
      · simp [later]
      · by_cases same : first = key
        · simp [same]
        · simp [later, same, Ne.symm same]

theorem Linked.get_stats_closeChannels (linked : b.Linked) (keys : List Str) (key : Str) :
    Assoc.get (b.closeChannels keys).stats key =
      if key ∈ keys then none else Assoc.get b.stats key := by
  induction keys generalizing b with
  | nil => simp [Broker.closeChannels]
  | cons first rest ih =>
      change Assoc.get ((b.closeChannel first).closeChannels rest).stats key = _
      rw [ih (linked.closeChannel first), linked.tables.get_stats_closeChannel]
      by_cases later : key ∈ rest
      · simp [later]
      · by_cases same : first = key
        · simp [same]
        · simp [later, same, Ne.symm same]

theorem Linked.drop (linked : b.Linked) (sender : Nat) : (b.drop sender).Linked where
  channelKeys := linked.channelKeys
  statsKeys := linked.statsKeys
  tables := linked.tables
  made := linked.made
  alive other member := linked.alive other (List.mem_of_mem_erase member)
  apart := linked.apart

theorem receiverCount_drop (b : Broker) (sender other : Nat) :
    (b.drop sender).receiverCount other =
      b.receiverCount other - if sender = other then 1 else 0 := by
  unfold Broker.drop receiverCount
  rw [List.count_erase]
  by_cases same : sender = other
  · simp [same]
  · simp [same]

end Broker

end Zumic.Pubsub
