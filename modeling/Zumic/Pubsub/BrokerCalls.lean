/- The tables of the broker (`broker.rs`, `intern.rs`) and its calls, with the guards of each. -/

import Zumic.Lib.Guards
import Zumic.Pubsub.Broker

namespace Zumic.Pubsub

open Lib Lib.Guards Lib.Utf8

inductive Table where
  | channels
  | stats
  | interned
  deriving DecidableEq

/-- A shard of a table. -/
structure Shard where
  table : Table
  number : Nat
  deriving DecidableEq

/-- How a table spreads its keys over its shards. -/
structure Sharding where
  count : Nat
  shardOf : Str → Nat
  inRange : ∀ key, shardOf key < count

structure ChannelStats where
  messagesSent : UInt64
  bytesSent : UInt64
  subscriberCount : Nat
  createdAt : Nat
  lastActivity : Nat
  droppedMessages : UInt64
  deriving DecidableEq

/-- `ChannelStats::default` at a time. -/
def ChannelStats.default (now : Nat) : ChannelStats := ⟨0, 0, 0, now, now, 0⟩

structure BrokerMetrics where
  totalChannels : Nat
  totalMessages : UInt64
  totalBytes : UInt64
  activeSubscribers : Nat
  deriving DecidableEq

/-- The broker and the subscribers that are alive. A channel is known by the number of its sender;
`receivers` lists the senders that the living receivers belong to. -/
structure Broker where
  channels : List (Str × Nat)
  stats : List (Str × ChannelStats)
  interned : List Str
  metrics : BrokerMetrics
  receivers : List Nat
  nextSender : Nat

def Broker.new : Broker := ⟨[], [], [], ⟨0, 0, 0, 0⟩, [], 0⟩

def Broker.receiverCount (b : Broker) (sender : Nat) : Nat := b.receivers.count sender

structure PublishResult where
  subscribersReached : Nat
  messageId : Option Str
  messageSize : Nat
  compressed : Bool

structure ChannelSnapshot where
  name : Str
  subscriberCount : Nat
  stats : ChannelStats

structure BrokerSnapshot where
  channels : List ChannelSnapshot
  config : BrokerConfig
  metrics : BrokerMetrics

/-- The capacities that a broadcast channel panics on: zero, and those beyond half of a word. -/
def refusesCapacity (capacity : Nat) : Bool := capacity = 0 || decide (2 ^ 63 ≤ capacity)

section

variable (sharding : Table → Sharding)

def guardOf (table : Table) (key : Str) (mode : Mode) : Guard Shard :=
  ⟨⟨table, (sharding table).shardOf key⟩, mode⟩

def shards (table : Table) : List Shard :=
  (List.range (sharding table).count).map fun number => ⟨table, number⟩

/-- The entries of a table that one of its shards holds. -/
def entriesOf {α : Type} (shard : Shard) (entries : List (Str × α)) : List (Str × α) :=
  entries.filter fun entry => (sharding shard.table).shardOf entry.1 = shard.number

/-- An interned name has the text that it was asked for. -/
def internChannel (channel : Str) : Guarded Shard Broker Str :=
  hold (guardOf sharding .interned channel .write) <|
    act fun b => (channel, if channel ∈ b.interned then b
      else { b with interned := channel :: b.interned })

def insertStats (key : Str) (stats : ChannelStats) : Guarded Shard Broker Unit :=
  hold (guardOf sharding .stats key .write) <|
    modify fun b => { b with stats := Assoc.insert b.stats key stats }

/-- `get_mut` on the statistics, with what is done to them. -/
def updateStats (key : Str) (change : Broker → ChannelStats → ChannelStats) :
    Guarded Shard Broker Unit :=
  borrow (guardOf sharding .stats key .write) (fun b => Assoc.get b.stats key)
    (fun stats => modify fun b => { b with stats := Assoc.insert b.stats key (change b stats) })
    (pure ())

def removeChannel (key : Str) : Guarded Shard Broker (Option Nat) :=
  hold (guardOf sharding .channels key .write) <|
    act fun b => (Assoc.get b.channels key, { b with channels := Assoc.erase b.channels key })

def removeStats (key : Str) : Guarded Shard Broker (Option ChannelStats) :=
  hold (guardOf sharding .stats key .write) <|
    act fun b => (Assoc.get b.stats key, { b with stats := Assoc.erase b.stats key })

/-- The number of channels, counted shard by shard. -/
def countChannels : Guarded Shard Broker Nat := do
  let counts ← each .read
    (fun shard => read fun b => (entriesOf sharding shard b.channels).length)
    (shards sharding .channels)
  pure counts.sum

/-- The receivers of all channels, summed up in a walk over the table. -/
def countReceivers : Guarded Shard Broker Nat := do
  let counts ← sweep
    (fun shard => read fun b =>
      ((entriesOf sharding shard b.channels).map fun entry => b.receiverCount entry.2).sum)
    [] (shards sharding .channels)
  pure counts.sum

end

section

variable {Json : Type} (serde : SerdeJson Json) (gzip : Gzip) (config : BrokerConfig)
  (sharding : Table → Sharding)

/-- The sender of a channel; a new one is made, with fresh statistics, under the guard of the
entry. -/
def entryChannel (key : Str) (options : SubscriptionOptions) (now : Nat) :
    Guarded Shard Broker Nat :=
  hold (guardOf sharding .channels key .write) do
    let known ← read fun b => Assoc.get b.channels key
    match known with
    | some sender => pure sender
    | none =>
        if refusesCapacity (options.bufferSize.getD config.defaultChannelCapacity) then panic
        else do
          insertStats sharding key (.default now)
          act fun b => (b.nextSender, { b with
            channels := Assoc.insert b.channels key b.nextSender
            nextSender := b.nextSender + 1 })

/-- The second half of `subscribe_with_options`: a subscriber holds a receiver of the sender that is
returned. -/
def addReceiver (key : Str) (sender : Nat) : Guarded Shard Broker (Except RecvError Nat) := do
  let currentSubs ← read fun b => b.receiverCount sender
  if config.maxSubscribersPerChannel.any (fun maxSubs => maxSubs ≤ currentSubs) then
    pure (.error .subscriberLimitExceeded)
  else do
    modify fun b => { b with receivers := sender :: b.receivers }
    updateStats sharding key fun b stats =>
      { stats with subscriberCount := b.receiverCount sender }
    pure (.ok sender)

def subscribeWithOptions (channel : Str) (options : SubscriptionOptions) (now : Nat) :
    Guarded Shard Broker (Except RecvError Nat) := do
  let key ← internChannel sharding channel
  let sender ← entryChannel config sharding key options now
  addReceiver config sharding key sender

/-- The end of a subscriber takes its receiver away. -/
def dropSubscriber (sender : Nat) : Guarded Shard Broker Unit :=
  modify fun b => { b with receivers := b.receivers.erase sender }

def channelOf (key : Str) (b : Broker) : Option Nat := Assoc.get b.channels key

/-- Sends to a channel, where there is one. A sender without receivers refuses the message, and the
channel is removed while the guard of the look-up is still held. -/
def sendTo (key : Str) : Guarded Shard Broker Nat :=
  borrow (guardOf sharding .channels key .read) (channelOf key)
    (fun sender => do
      let subscriberCount ← read fun b => b.receiverCount sender
      if subscriberCount = 0 then do
        let _ ← removeChannel sharding key
        let _ ← removeStats sharding key
        pure 0
      else pure subscriberCount)
    (pure 0)

def updateChannelStats (channel : Str) (messageSize : Nat) (delivered : Bool) (now : Nat) :
    Guarded Shard Broker Unit :=
  updateStats sharding channel fun _ stats =>
    if delivered then
      { stats with
        messagesSent := stats.messagesSent + 1
        bytesSent := stats.bytesSent + UInt64.ofNat messageSize
        lastActivity := now }
    else { stats with droppedMessages := stats.droppedMessages + 1, lastActivity := now }

def updateGlobalMetrics (messageSize : Nat) : Guarded Shard Broker Unit := do
  modify fun b => { b with metrics := { b.metrics with
    totalMessages := b.metrics.totalMessages + 1
    totalBytes := b.metrics.totalBytes + UInt64.ofNat messageSize } }
  let channels ← countChannels sharding
  modify fun b => { b with metrics := { b.metrics with totalChannels := channels } }
  let subscribers ← countReceivers sharding
  modify fun b => { b with metrics := { b.metrics with activeSubscribers := subscribers } }

/-- The second half of `publish_with_options`, with the message; making it interns the name again. -/
def publishMessage (key : Str) (message : Message Json) (compressed : Bool) (now : Nat) :
    Guarded Shard Broker PublishResult := do
  let _ ← internChannel sharding key
  let subscribersReached ← sendTo sharding key
  updateChannelStats sharding key (message.size serde) (decide (0 < subscribersReached)) now
  updateGlobalMetrics sharding (message.size serde)
  pure ⟨subscribersReached, message.metadata.bind fun d => d.messageId, message.size serde,
    compressed⟩

/-- The clocks are read by the caller: `stamp` for the message, `now` for the statistics. -/
def publishWithOptions (channel : Str) (payload : MessagePayload Json) (options : PublishOptions)
    (stamp : UInt64) (now : Nat) : Guarded Shard Broker (Except RecvError PublishResult) := do
  let key ← internChannel sharding channel
  match config.prepare serde gzip options key stamp payload with
  | .error e => pure (.error e)
  | .ok (message, compressed) => do
      let result ← publishMessage serde sharding key message compressed now
      pure (.ok result)

def unsubscribe (channel : Str) : Guarded Shard Broker Bool := do
  let key ← internChannel sharding channel
  let removed ← removeChannel sharding key
  match removed with
  | some _ => do
      let _ ← removeStats sharding key
      pure true
  | none => pure false

/-- The channels of a shard that nobody used for longer than they live. -/
def inactive (ttl now : Nat) (shard : Shard) : Guarded Shard Broker (List Str) :=
  read fun b => ((entriesOf sharding shard b.stats).filter fun entry =>
    entry.2.subscriberCount = 0 && decide (ttl < now - entry.2.lastActivity)).map Prod.fst

def removeInactive : List Str → Guarded Shard Broker Nat
  | [] => pure 0
  | channel :: rest => do
      let removed ← removeChannel sharding channel
      match removed with
      | some _ => do
          let _ ← removeStats sharding channel
          let others ← removeInactive rest
          pure (others + 1)
      | none => removeInactive rest

def cleanupInactiveChannels (now : Nat) : Guarded Shard Broker Nat :=
  match config.channelTtl with
  | none => pure 0
  | some ttl => do
      let found ← sweep (inactive sharding ttl now) [] (shards sharding .stats)
      removeInactive sharding found.flatten

/-- The snapshots of the channels of a shard, each with a look at its statistics. -/
def snapshotEntries (now : Nat) : List (Str × Nat) → Guarded Shard Broker (List ChannelSnapshot)
  | [] => pure []
  | entry :: rest => do
      let subscriberCount ← read fun b => b.receiverCount entry.2
      let stats ← borrow (guardOf sharding .stats entry.1 .read)
        (fun b => Assoc.get b.stats entry.1) (fun stats => pure stats)
        (pure (ChannelStats.default now))
      let others ← snapshotEntries now rest
      pure (⟨entry.1, subscriberCount, stats⟩ :: others)

def snapshotShard (now : Nat) (shard : Shard) : Guarded Shard Broker (List ChannelSnapshot) := do
  let entries ← read fun b => entriesOf sharding shard b.channels
  snapshotEntries sharding now entries

def snapshot (now : Nat) : Guarded Shard Broker BrokerSnapshot := do
  let channels ← sweep (snapshotShard sharding now) [] (shards sharding .channels)
  let metrics ← read fun b => b.metrics
  pure ⟨channels.flatten, config, metrics⟩

end

inductive BrokerCall (Json : Type) where
  | subscribeWithOptions (channel : Str) (options : SubscriptionOptions) (now : Nat)
  | dropSubscriber (sender : Nat)
  | publishWithOptions (channel : Str) (payload : MessagePayload Json) (options : PublishOptions)
      (stamp : UInt64) (now : Nat)
  | unsubscribe (channel : Str)
  | cleanupInactiveChannels (now : Nat)
  | snapshot (now : Nat)

inductive BrokerReply where
  | subscribed (result : Except RecvError Nat)
  | dropped
  | published (result : Except RecvError PublishResult)
  | unsubscribed (removed : Bool)
  | cleaned (count : Nat)
  | snapshot (s : BrokerSnapshot)

def BrokerCall.run {Json : Type} (serde : SerdeJson Json) (gzip : Gzip) (config : BrokerConfig)
    (sharding : Table → Sharding) : BrokerCall Json → Guarded Shard Broker BrokerReply
  | .subscribeWithOptions channel options now => do
      let result ← Pubsub.subscribeWithOptions config sharding channel options now
      pure (.subscribed result)
  | .dropSubscriber sender => do
      Pubsub.dropSubscriber sender
      pure .dropped
  | .publishWithOptions channel payload options stamp now => do
      let result ← Pubsub.publishWithOptions serde gzip config sharding channel payload options
        stamp now
      pure (.published result)
  | .unsubscribe channel => do
      let removed ← Pubsub.unsubscribe sharding channel
      pure (.unsubscribed removed)
  | .cleanupInactiveChannels now => do
      let count ← Pubsub.cleanupInactiveChannels config sharding now
      pure (.cleaned count)
  | .snapshot now => do
      let s ← Pubsub.snapshot config sharding now
      pure (.snapshot s)

end Zumic.Pubsub
