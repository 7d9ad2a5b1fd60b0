/- What each call of the broker makes of the tables of channels and of statistics, as a function of
the tables alone. -/

import Zumic.Pubsub.BrokerGuards

namespace Zumic.Pubsub

open Lib Lib.Guards Lib.Utf8

namespace Broker

/-- The same tables and receivers; the interned names and the metrics may differ. -/
structure Agrees (b b' : Broker) : Prop where
  channels : b'.channels = b.channels
  stats : b'.stats = b.stats
  receivers : b'.receivers = b.receivers
  nextSender : b'.nextSender = b.nextSender

theorem Agrees.refl (b : Broker) : b.Agrees b := ⟨rfl, rfl, rfl, rfl⟩

theorem Agrees.trans {b b' b'' : Broker} (first : b.Agrees b') (second : b'.Agrees b'') :
    b.Agrees b'' where
  channels := second.channels.trans first.channels
  stats := second.stats.trans first.stats
  receivers := second.receivers.trans first.receivers
  nextSender := second.nextSender.trans first.nextSender

theorem Agrees.receiverCount {b b' : Broker} (agrees : b.Agrees b') (sender : Nat) :
    b'.receiverCount sender = b.receiverCount sender := by
  rw [Broker.receiverCount, agrees.receivers, Broker.receiverCount]

def intern (b : Broker) (channel : Str) : Broker :=
  if channel ∈ b.interned then b else { b with interned := channel :: b.interned }

theorem agrees_intern (b : Broker) (channel : Str) : b.Agrees (b.intern channel) := by
  unfold intern
  split
  · exact Agrees.refl b
  · exact ⟨rfl, rfl, rfl, rfl⟩

/-- The sender of a channel, or the one that it gets. -/
def senderOf (b : Broker) (key : Str) : Nat := (Assoc.get b.channels key).getD b.nextSender

def openChannel (b : Broker) (key : Str) (now : Nat) : Broker :=
  match Assoc.get b.channels key with
  | some _ => b
  | none => { b with
      channels := Assoc.insert b.channels key b.nextSender
      stats := Assoc.insert b.stats key (.default now)
      nextSender := b.nextSender + 1 }

def alterStats (b : Broker) (key : Str) (change : ChannelStats → ChannelStats) : Broker :=
  match Assoc.get b.stats key with
  | some stats => { b with stats := Assoc.insert b.stats key (change stats) }
  | none => b

/-- One more receiver of a sender, and the count of its channel refreshed. -/
def join (b : Broker) (key : Str) (sender : Nat) : Broker :=
  alterStats { b with receivers := sender :: b.receivers } key fun stats =>
    { stats with subscriberCount := b.receiverCount sender + 1 }

def drop (b : Broker) (sender : Nat) : Broker := { b with receivers := b.receivers.erase sender }

def closeChannel (b : Broker) (key : Str) : Broker :=
  match Assoc.get b.channels key with
  | some _ => { b with
      channels := Assoc.erase b.channels key
      stats := Assoc.erase b.stats key }
  | none => b

def closeChannels (b : Broker) (keys : List Str) : Broker := keys.foldl closeChannel b

theorem Agrees.closeChannel {b b' : Broker} (agrees : b.Agrees b') (key : Str) :
    (b.closeChannel key).Agrees (b'.closeChannel key) := by
  unfold Broker.closeChannel
  rw [agrees.channels]
  cases Assoc.get b.channels key with
  | some sender => exact ⟨rfl, congrArg (Assoc.erase · key) agrees.stats, agrees.receivers,
      agrees.nextSender⟩
  | none => exact agrees

theorem Agrees.openChannel {b b' : Broker} (agrees : b.Agrees b') (key : Str) (now : Nat) :
    (b.openChannel key now).Agrees (b'.openChannel key now) := by
  unfold Broker.openChannel
  rw [agrees.channels, agrees.stats, agrees.nextSender]
  cases Assoc.get b.channels key with
  | some sender => exact agrees
  | none => exact ⟨rfl, rfl, agrees.receivers, rfl⟩

theorem Agrees.alterStats {b b' : Broker} (agrees : b.Agrees b') (key : Str)
    (change : ChannelStats → ChannelStats) :
    (b.alterStats key change).Agrees (b'.alterStats key change) := by
  unfold Broker.alterStats
  rw [agrees.stats]
  cases Assoc.get b.stats key with
  | some stats => exact ⟨agrees.channels, rfl, agrees.receivers, agrees.nextSender⟩
  | none => exact agrees

theorem Agrees.join {b b' : Broker} (agrees : b.Agrees b') (key : Str) (sender : Nat) :
    (b.join key sender).Agrees (b'.join key sender) := by
  unfold Broker.join
  rw [agrees.receiverCount]
  refine Agrees.alterStats ?_ key _
  exact ⟨agrees.channels, agrees.stats, congrArg (sender :: ·) agrees.receivers, agrees.nextSender⟩

theorem Agrees.senderOf {b b' : Broker} (agrees : b.Agrees b') (key : Str) :
    b'.senderOf key = b.senderOf key := by
  unfold Broker.senderOf
  rw [agrees.channels, agrees.nextSender]

end Broker

open Broker

section

variable {sharding : Table → Sharding} {held : List (Guard Shard)} {b : Broker}

theorem internChannel_done (clear : Clear .interned held) (channel : Str) :
    internChannel sharding channel held b = .done channel (b.intern channel) :=
  hold_granted clear.granted

theorem insertStats_done (clear : Clear .stats held) (key : Str) (stats : ChannelStats) :
    insertStats sharding key stats held b =
      .done () { b with stats := Assoc.insert b.stats key stats } :=
  hold_granted clear.granted

theorem updateStats_done (clear : Clear .stats held) (key : Str)
    (change : Broker → ChannelStats → ChannelStats) :
    updateStats sharding key change held b = .done () (b.alterStats key (change b)) := by
  have granted : Granted (guardOf sharding .stats key .write) held := clear.granted
  unfold updateStats alterStats
  cases known : Assoc.get b.stats key with
  | some stats => exact borrow_found granted known
  | none => exact borrow_absent granted known

theorem removeChannel_done (clear : Clear .channels held) (key : Str) :
    removeChannel sharding key held b =
      .done (Assoc.get b.channels key) { b with channels := Assoc.erase b.channels key } :=
  hold_granted clear.granted

theorem removeStats_done (clear : Clear .stats held) (key : Str) :
    removeStats sharding key held b =
      .done (Assoc.get b.stats key) { b with stats := Assoc.erase b.stats key } :=
  hold_granted clear.granted

theorem removeBoth_done {α : Type} (key : Str) (present absent : Guarded Shard Broker α)
    (unchanged : Assoc.get b.channels key = none → Assoc.erase b.channels key = b.channels) :
    (removeChannel sharding key >>= fun removed =>
      match removed with
      | some _ => removeStats sharding key >>= fun _ => present
      | none => absent) [] b =
      if (Assoc.get b.channels key).isSome then present [] (b.closeChannel key)
      else absent [] (b.closeChannel key) := by
  rw [bind_done (removeChannel_done (clear_nil .channels) key)]
  unfold Broker.closeChannel
  cases known : Assoc.get b.channels key with
  | some sender =>
      have dropped := @removeStats_done sharding []
        { b with channels := Assoc.erase b.channels key } (clear_nil .stats) key
      exact bind_done dropped
  | none => simp only [Option.isSome_none, Bool.false_eq_true, if_false, unchanged known]

end

theorem erase_of_get_none {α : Type} {m : List (Str × α)} {key : Str}
    (absent : Assoc.get m key = none) : Assoc.erase m key = m :=
  Assoc.erase_of_not_mem (Assoc.get_eq_none_iff.mp absent)

section

variable {Json : Type} {serde : SerdeJson Json} {gzip : Gzip} {config : BrokerConfig}
  {sharding : Table → Sharding} {b : Broker}

theorem entryChannel_done {key : Str} {options : SubscriptionOptions} (now : Nat)
    (accepted : ¬ Refused config b key options) :
    entryChannel config sharding key options now [] b =
      .done (b.senderOf key) (b.openChannel key now) := by
  have looked : (read fun b : Broker => Assoc.get b.channels key)
      [guardOf sharding .channels key .write] b = .done (Assoc.get b.channels key) b := rfl
  unfold entryChannel
  rw [hold_granted (granted_nil _), bind_done looked]
  unfold Broker.senderOf openChannel
  cases known : Assoc.get b.channels key with
  | some sender => rfl
  | none =>
      have capacity : refusesCapacity
          (options.bufferSize.getD config.defaultChannelCapacity) = false := by
        by_contra refused
        exact accepted ⟨known, eq_true_of_ne_false refused⟩
      have clear : Clear .stats [guardOf sharding .channels key .write] :=
        (clear_nil .stats).cons (by decide)
      simp only [capacity, Bool.false_eq_true, if_false]
      rw [bind_done (insertStats_done clear key _)]
      rfl

/-- Whether a channel has as many subscribers as it may have. -/
def full (config : BrokerConfig) (b : Broker) (sender : Nat) : Bool :=
  config.maxSubscribersPerChannel.any fun maxSubs => maxSubs ≤ b.receiverCount sender

theorem Broker.Agrees.full {b b' : Broker} (agrees : b.Agrees b') (sender : Nat) :
    full config b' sender = full config b sender := by
  unfold Pubsub.full
  rw [agrees.receiverCount]

theorem addReceiver_done (key : Str) (sender : Nat) :
    addReceiver config sharding key sender [] b =
      if full config b sender then .done (.error .subscriberLimitExceeded) b
      else .done (.ok sender) (b.join key sender) := by
  have counted : (read fun b : Broker => b.receiverCount sender) ([] : List (Guard Shard)) b =
      .done (b.receiverCount sender) b := rfl
  unfold addReceiver
  rw [bind_done counted]
  unfold full
  split
  · rfl
  · have added : (modify fun b : Broker => { b with receivers := sender :: b.receivers })
        ([] : List (Guard Shard)) b = .done () { b with receivers := sender :: b.receivers } := rfl
    rw [bind_done added, bind_done (updateStats_done (clear_nil .stats) key _)]
    unfold Broker.join
    simp only [Broker.receiverCount, List.count_cons_self]
    rfl

/-- The tables after a subscription. -/
def Broker.subscribe (config : BrokerConfig) (b : Broker) (key : Str) (now : Nat) : Broker :=
  if full config (b.openChannel key now) (b.senderOf key) then b.openChannel key now
  else (b.openChannel key now).join key (b.senderOf key)

theorem subscribe_done {channel : Str} {options : SubscriptionOptions} (now : Nat)
    (accepted : ¬ Refused config b channel options) : ∃ result b',
      subscribeWithOptions config sharding channel options now [] b = .done result b' ∧
        (b.subscribe config channel now).Agrees b' := by
  have named := agrees_intern b channel
  have kept : ¬ Refused config (b.intern channel) channel options := by
    unfold Refused
    rw [named.channels]
    exact accepted
  unfold subscribeWithOptions
  rw [bind_done (internChannel_done (clear_nil .interned) channel),
    bind_done (entryChannel_done now kept), addReceiver_done, named.senderOf]
  have opened := named.openChannel channel now
  rw [opened.full]
  cases limit : full config (b.openChannel channel now) (b.senderOf channel) with
  | true =>
      refine ⟨_, _, rfl, ?_⟩
      simpa only [Broker.subscribe, limit, if_true] using opened
  | false =>
      refine ⟨_, _, rfl, ?_⟩
      simpa only [Broker.subscribe, limit, Bool.false_eq_true, if_false] using
        opened.join channel (b.senderOf channel)

theorem sendTo_done {key : Str} (served : ¬ Stranded b key) :
    sendTo sharding key [] b =
      .done ((Assoc.get b.channels key).elim 0 b.receiverCount) b := by
  unfold sendTo
  cases known : Assoc.get b.channels key with
  | none =>
      have looked : channelOf key b = none := known
      rw [borrow_absent (granted_nil _) looked]
      rfl
  | some sender =>
      have looked : channelOf key b = some sender := known
      have some : b.receiverCount sender ≠ 0 := fun none => served ⟨sender, known, none⟩
      have counted : (read fun b : Broker => b.receiverCount sender)
          [guardOf sharding .channels key .read] b = .done (b.receiverCount sender) b := rfl
      rw [borrow_found (granted_nil _) looked, bind_done counted, if_neg some]
      rfl

theorem updateGlobalMetrics_done (messageSize : Nat) : ∃ b',
    updateGlobalMetrics sharding messageSize [] b = .done () b' ∧ b.Agrees b' := by
  have change : ∀ f : Broker → BrokerMetrics, Triple ([] : List (Guard Shard))
      (fun b' => b.Agrees b') (modify fun b' => { b' with metrics := f b' })
      fun _ b' => b.Agrees b' :=
    fun f => Triple.modify _ fun b' agrees => agrees.trans ⟨rfl, rfl, rfl, rfl⟩
  have measured : Triple [] (fun b' => b.Agrees b') (updateGlobalMetrics sharding messageSize)
      fun _ b' => b.Agrees b' := by
    refine Triple.bind (change fun b' => { b'.metrics with
      totalMessages := b'.metrics.totalMessages + 1
      totalBytes := b'.metrics.totalBytes + UInt64.ofNat messageSize }) fun _ => ?_
    refine Triple.bind (triple_countChannels (clear_nil .channels)) fun channels => ?_
    refine Triple.bind (change fun b' => { b'.metrics with totalChannels := channels }) fun _ => ?_
    refine Triple.bind (triple_countReceivers (clear_nil .channels)) fun subscribers => ?_
    exact change fun b' => { b'.metrics with activeSubscribers := subscribers }
  obtain ⟨_, b', ran, agrees⟩ := measured b (Agrees.refl b)
  exact ⟨b', ran, agrees⟩

/-- The statistics after a message. -/
def ChannelStats.publish (stats : ChannelStats) (messageSize : Nat) (delivered : Bool) (now : Nat) :
    ChannelStats :=
  if delivered then
    { stats with
      messagesSent := stats.messagesSent + 1
      bytesSent := stats.bytesSent + UInt64.ofNat messageSize
      lastActivity := now }
  else { stats with droppedMessages := stats.droppedMessages + 1, lastActivity := now }

@[simp] theorem ChannelStats.subscriberCount_publish (stats : ChannelStats) (messageSize : Nat)
    (delivered : Bool) (now : Nat) :
    (stats.publish messageSize delivered now).subscriberCount = stats.subscriberCount := by
  cases delivered <;> rfl

@[simp] theorem ChannelStats.lastActivity_publish (stats : ChannelStats) (messageSize : Nat)
    (delivered : Bool) (now : Nat) :
    (stats.publish messageSize delivered now).lastActivity = now := by
  cases delivered <;> rfl

/-- The tables after a message was sent to a channel. -/
def Broker.publish (b : Broker) (key : Str) (messageSize now : Nat) : Broker :=
  b.alterStats key fun stats => stats.publish messageSize
    (decide (0 < (Assoc.get b.channels key).elim 0 b.receiverCount)) now

theorem publishMessage_done {key : Str} (message : Message Json) (compressed : Bool) (now : Nat)
    (served : ¬ Stranded b key) : ∃ result b',
      publishMessage serde sharding key message compressed now [] b = .done result b' ∧
        (b.publish key (message.size serde) now).Agrees b' := by
  have named := agrees_intern b key
  have reached : (Assoc.get (b.intern key).channels key).elim 0 (b.intern key).receiverCount =
      (Assoc.get b.channels key).elim 0 b.receiverCount := by
    rw [named.channels]
    cases Assoc.get b.channels key with
    | none => rfl
    | some sender => exact named.receiverCount sender
  have kept : ¬ Stranded (b.intern key) key := by
    rintro ⟨sender, known, none⟩
    rw [named.channels] at known
    rw [named.receiverCount] at none
    exact served ⟨sender, known, none⟩
  unfold publishMessage
  rw [bind_done (internChannel_done (clear_nil .interned) key), bind_done (sendTo_done kept),
    reached]
  unfold updateChannelStats
  rw [bind_done (updateStats_done (clear_nil .stats) key _)]
  obtain ⟨b', ran, agrees⟩ := @updateGlobalMetrics_done sharding ((b.intern key).alterStats key
    fun stats => stats.publish (message.size serde)
      (decide (0 < (Assoc.get b.channels key).elim 0 b.receiverCount)) now) (message.size serde)
  refine ⟨_, b', bind_done ran, ?_⟩
  exact (named.alterStats key _).trans agrees

theorem publish_done {channel : Str} {payload : MessagePayload Json} {options : PublishOptions}
    {stamp : UInt64} (now : Nat) {message : Message Json} {compressed : Bool}
    (prepared : config.prepare serde gzip options channel stamp payload = .ok (message, compressed))
    (served : ¬ Stranded b channel) : ∃ result b',
      publishWithOptions serde gzip config sharding channel payload options stamp now [] b =
        .done result b' ∧ (b.publish channel (message.size serde) now).Agrees b' := by
  have named := agrees_intern b channel
  have kept : ¬ Stranded (b.intern channel) channel := by
    rintro ⟨sender, known, none⟩
    rw [named.channels] at known
    rw [named.receiverCount] at none
    exact served ⟨sender, known, none⟩
  obtain ⟨result, b', ran, agrees⟩ := @publishMessage_done _ serde sharding _ channel message
    compressed now kept
  unfold publishWithOptions
  rw [bind_done (internChannel_done (clear_nil .interned) channel), prepared]
  refine ⟨_, b', bind_done ran, ?_⟩
  refine Agrees.trans ?_ agrees
  unfold Broker.publish
  have reached : (Assoc.get (b.intern channel).channels channel).elim 0
      (b.intern channel).receiverCount = (Assoc.get b.channels channel).elim 0 b.receiverCount := by
    rw [named.channels]
    cases Assoc.get b.channels channel with
    | none => rfl
    | some sender => exact named.receiverCount sender
  rw [reached]
  exact named.alterStats channel _

theorem unsubscribe_done (channel : Str) : ∃ removed b',
    unsubscribe sharding channel [] b = .done removed b' ∧ (b.closeChannel channel).Agrees b' := by
  have closed := (agrees_intern b channel).closeChannel channel
  unfold unsubscribe
  rw [bind_done (internChannel_done (clear_nil .interned) channel)]
  have both := @removeBoth_done sharding (b.intern channel) Bool channel (pure true) (pure false)
    erase_of_get_none
  cases known : (Assoc.get (b.intern channel).channels channel).isSome with
  | true =>
      rw [known] at both
      exact ⟨true, _, both, closed⟩
  | false =>
      rw [known] at both
      exact ⟨false, _, both, closed⟩

theorem removeInactive_done (distinct : (Assoc.keys b.channels).Nodup) (keys : List Str) :
    ∃ count, removeInactive sharding keys [] b = .done count (b.closeChannels keys) ∧
      count + (b.closeChannels keys).channels.length = b.channels.length := by
  induction keys generalizing b with
  | nil => exact ⟨0, rfl, Nat.zero_add _⟩
  | cons key rest ih =>
      have both := @removeBoth_done sharding b Nat key
        (removeInactive sharding rest >>= fun others => pure (others + 1))
        (removeInactive sharding rest) erase_of_get_none
      have kept : (Assoc.keys (b.closeChannel key).channels).Nodup := by
        unfold closeChannel
        cases Assoc.get b.channels key with
        | some sender => exact Assoc.nodup_keys_erase distinct key
        | none => exact distinct
      obtain ⟨count, ran, counted⟩ := ih kept
      cases known : Assoc.get b.channels key with
      | some sender =>
          refine ⟨count + 1, ?_, ?_⟩
          · rw [known] at both
            exact both.trans (bind_done ran)
          · have shorter := Assoc.length_erase distinct key
            have closed : (b.closeChannel key).channels = Assoc.erase b.channels key := by
              unfold closeChannel
              rw [known]
            rw [closed] at counted
            rw [known] at shorter
            simp only [Option.isSome_some, if_true] at shorter
            change count + 1 + ((b.closeChannel key).closeChannels rest).channels.length = _
            omega
      | none =>
          refine ⟨count, ?_, ?_⟩
          · rw [known] at both
            exact both.trans ran
          · have closed : b.closeChannel key = b := by
              unfold closeChannel
              rw [known]
            rw [closed] at counted
            change count + ((b.closeChannel key).closeChannels rest).channels.length = _
            rw [closed]
            exact counted

/-- The channels that a cleanup takes for idle, shard by shard. -/
def Broker.idleKeys (sharding : Table → Sharding) (b : Broker) (ttl now : Nat) : List Str :=
  (shards sharding .stats).flatMap fun shard =>
    ((entriesOf sharding shard b.stats).filter fun entry =>
      entry.2.subscriberCount = 0 && decide (ttl < now - entry.2.lastActivity)).map Prod.fst

theorem Broker.mem_idleKeys {ttl now : Nat} {key : Str} :
    key ∈ b.idleKeys sharding ttl now ↔
      ∃ stats, (key, stats) ∈ b.stats ∧ stats.subscriberCount = 0 ∧
        ttl < now - stats.lastActivity := by
  simp only [Broker.idleKeys, shards, entriesOf, List.mem_flatMap, List.mem_map, List.mem_range]
  constructor
  · rintro ⟨_, ⟨number, -, rfl⟩, entry, found, rfl⟩
    simp only [List.mem_filter, Bool.and_eq_true, decide_eq_true_eq] at found
    exact ⟨entry.2, found.1.1, found.2⟩
  · rintro ⟨stats, member, unused, old⟩
    refine ⟨_, ⟨(sharding .stats).shardOf key, (sharding .stats).inRange key, rfl⟩,
      (key, stats), ?_, rfl⟩
    simp only [List.mem_filter, Bool.and_eq_true, decide_eq_true_eq]
    exact ⟨⟨member, trivial⟩, unused, old⟩

/-- The tables after a cleanup. -/
def Broker.cleanup (sharding : Table → Sharding) (config : BrokerConfig) (b : Broker) (now : Nat) :
    Broker :=
  match config.channelTtl with
  | none => b
  | some ttl => b.closeChannels (b.idleKeys sharding ttl now)

theorem cleanup_done (distinct : (Assoc.keys b.channels).Nodup) (now : Nat) : ∃ count,
    cleanupInactiveChannels config sharding now [] b =
      .done count (b.cleanup sharding config now) ∧
      count + (b.cleanup sharding config now).channels.length = b.channels.length := by
  unfold cleanupInactiveChannels Broker.cleanup
  cases config.channelTtl with
  | none => exact ⟨0, rfl, Nat.zero_add _⟩
  | some ttl =>
      have granted : ∀ lock ∈ shards sharding .stats, Granted ⟨lock, .read⟩ [] :=
        fun lock _ => granted_nil _
      have found := @sweep_read _ _ _ [] _ [] _ (fun shard b =>
        ((entriesOf sharding shard b.stats).filter fun entry =>
          entry.2.subscriberCount = 0 &&
            decide (ttl < now - entry.2.lastActivity)).map Prod.fst) granted b
      obtain ⟨count, ran, counted⟩ := @removeInactive_done sharding b distinct
        (b.idleKeys sharding ttl now)
      exact ⟨count, (bind_done found).trans ran, counted⟩

theorem snapshot_done (now : Nat) : ∃ s b',
    snapshot config sharding now [] b = .done s b' ∧ b.Agrees b' := by
  obtain ⟨s, b', ran, agrees⟩ := triple_snapshot (P := fun b' => b.Agrees b') now b (Agrees.refl b)
  exact ⟨s, b', ran, agrees⟩

/-- The tables after a call that returns. -/
def BrokerCall.effect (serde : SerdeJson Json) (gzip : Gzip) (config : BrokerConfig)
    (sharding : Table → Sharding) (b : Broker) : BrokerCall Json → Broker
  | .subscribeWithOptions channel _ now => b.subscribe config channel now
  | .dropSubscriber sender => b.drop sender
  | .publishWithOptions channel payload options stamp now =>
      match config.prepare serde gzip options channel stamp payload with
      | .ok (message, _) => b.publish channel (message.size serde) now
      | .error _ => b
  | .unsubscribe channel => b.closeChannel channel
  | .cleanupInactiveChannels now => b.cleanup sharding config now
  | .snapshot _ => b

theorem BrokerCall.outcome_done (distinct : (Assoc.keys b.channels).Nodup) {call : BrokerCall Json}
    (free : ¬ call.Sticks serde gzip config b) (accepted : ¬ call.Refused config b) :
    ∃ reply b', call.outcome serde gzip config sharding b = .done reply b' ∧
      (call.effect serde gzip config sharding b).Agrees b' := by
  cases call with
  | subscribeWithOptions channel options now =>
      obtain ⟨result, b', ran, agrees⟩ := @subscribe_done config sharding b _ _ now accepted
      exact ⟨_, b', bind_done ran, agrees⟩
  | dropSubscriber sender => exact ⟨_, _, rfl, Agrees.refl _⟩
  | publishWithOptions channel payload options stamp now =>
      cases prepared : config.prepare serde gzip options channel stamp payload with
      | error e =>
          have named := agrees_intern b channel
          have ran : Pubsub.publishWithOptions serde gzip config sharding channel payload options
              stamp now [] b = .done (.error e) (b.intern channel) := by
            unfold Pubsub.publishWithOptions
            rw [bind_done (internChannel_done (clear_nil .interned) channel), prepared]
            rfl
          refine ⟨_, _, bind_done ran, ?_⟩
          simpa only [effect, prepared] using named
      | ok sent =>
          have served : ¬ Stranded b channel := by
            intro stranded
            refine free ⟨?_, stranded⟩
            rw [prepared]
            rfl
          obtain ⟨result, b', ran, agrees⟩ := @publish_done _ serde gzip config sharding b channel
            payload options stamp now sent.1 sent.2 prepared served
          refine ⟨_, b', bind_done ran, ?_⟩
          simpa only [effect, prepared] using agrees
  | unsubscribe channel =>
      obtain ⟨removed, b', ran, agrees⟩ := @unsubscribe_done sharding b channel
      exact ⟨_, b', bind_done ran, agrees⟩
  | cleanupInactiveChannels now =>
      obtain ⟨count, ran, -⟩ := @cleanup_done config sharding b distinct now
      exact ⟨_, _, bind_done ran, Agrees.refl _⟩
  | snapshot now =>
      obtain ⟨s, b', ran, agrees⟩ := @snapshot_done config sharding b now
      exact ⟨_, b', bind_done ran, agrees⟩

/-- A capacity that is refused is found out before the tables change. -/
theorem BrokerCall.outcome_refused_agrees {call : BrokerCall Json}
    (refused : call.Refused config b) : ∃ b',
      call.outcome serde gzip config sharding b = .panicked b' ∧ b.Agrees b' := by
  cases call with
  | subscribeWithOptions channel options now =>
      have named := agrees_intern b channel
      have kept : Pubsub.Refused config (b.intern channel) channel options := by
        unfold Pubsub.Refused
        rw [named.channels]
        exact refused
      have ran : Pubsub.subscribeWithOptions config sharding channel options now [] b =
          .panicked (b.intern channel) := by
        unfold Pubsub.subscribeWithOptions
        rw [bind_done (internChannel_done (clear_nil .interned) channel)]
        exact bind_panicked (entryChannel_refused now kept)
      exact ⟨_, bind_panicked ran, named⟩
  | publishWithOptions channel payload options stamp now => exact refused.elim
  | dropSubscriber sender => exact refused.elim
  | unsubscribe channel => exact refused.elim
  | cleanupInactiveChannels now => exact refused.elim
  | snapshot now => exact refused.elim

theorem BrokerCall.step_effect (distinct : (Assoc.keys b.channels).Nodup) {call : BrokerCall Json}
    {b' : Broker} (stepped : call.step serde gzip config sharding b = some b') :
    (call.Refused config b ∧ b.Agrees b') ∨
      (¬ call.Refused config b ∧ (call.effect serde gzip config sharding b).Agrees b') := by
  unfold step at stepped
  by_cases sticks : call.Sticks serde gzip config b
  · rw [outcome_sticks sticks] at stepped
    cases stepped
  by_cases refused : call.Refused config b
  · obtain ⟨b₁, ran, agrees⟩ := @outcome_refused_agrees _ serde gzip config sharding b call
      refused
    rw [ran] at stepped
    obtain rfl := Option.some.inj stepped
    exact .inl ⟨refused, agrees⟩
  · obtain ⟨reply, b₁, ran, agrees⟩ := @outcome_done _ serde gzip config sharding b distinct call
      sticks refused
    rw [ran] at stepped
    obtain rfl := Option.some.inj stepped
    exact .inr ⟨refused, agrees⟩

end

end Zumic.Pubsub
