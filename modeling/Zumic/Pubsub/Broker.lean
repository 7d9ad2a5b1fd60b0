/- The broker (`broker.rs`): what it makes of a payload that is published. -/

import Zumic.Pubsub.Subscriber

namespace Zumic.Pubsub

open Lib.Utf8

/-- Times are in milliseconds. -/
structure BrokerConfig where
  defaultChannelCapacity : Nat
  maxSubscribersPerChannel : Option Nat
  maxMessageSize : Option Nat
  channelTtl : Option Nat
  enableCompression : Bool
  compressionThreshold : Nat

/-- `BrokerConfig::default`. -/
def BrokerConfig.default : BrokerConfig where
  defaultChannelCapacity := 1024
  maxSubscribersPerChannel := some 10000
  maxMessageSize := some (1024 * 1024)
  channelTtl := some 300000
  enableCompression := false
  compressionThreshold := 1024

structure PublishOptions where
  forceCompression : Bool
  timeout : Option Nat
  addTimestamp : Bool
  headers : Option Headers

/-- `PublishOptions::default`. -/
def PublishOptions.default : PublishOptions where
  forceCompression := false
  timeout := some 5000
  addTimestamp := false
  headers := none

variable {Json : Type} (serde : SerdeJson Json) (gzip : Gzip)

/-- Compressed data forgets which kind of payload it was. -/
def compressPayload (payload : MessagePayload Json) : Except RecvError (MessagePayload Json) := do
  let bytes ← payload.toBytes serde
  pure (.serialized (gzip.encode bytes) (Str.lit "application/gzip"))

namespace BrokerConfig

/-- The check of `publish_with_options` on the size of the payload. -/
def checkSize (config : BrokerConfig) (size : Nat) : Except RecvError Unit :=
  match config.maxMessageSize with
  | none => .ok ()
  | some maxSize =>
      if maxSize < size then
        .error (.serializationError (Str.lit "Message size " ++ Str.ofNat size ++
          Str.lit " exceeds maximum " ++ Str.ofNat maxSize))
      else .ok ()

/-- Whether a payload of this size is worth compressing. -/
def overThreshold (config : BrokerConfig) (options : PublishOptions) (size : Nat) : Bool :=
  options.forceCompression || decide (config.compressionThreshold < size)

/-- The payload that is sent, and whether it was compressed. -/
def shrink (config : BrokerConfig) (options : PublishOptions) (payload : MessagePayload Json) :
    Except RecvError (MessagePayload Json × Bool) :=
  if config.enableCompression && config.overThreshold options (payload.len serde) then do
    let compressed ← compressPayload serde gzip payload
    pure (compressed, true)
  else .ok (payload, false)

end BrokerConfig

namespace PublishOptions

def stamp (options : PublishOptions) (now : UInt64) (m : Message Json) : Message Json :=
  if options.addTimestamp then m.withTimestamp now else m

def addHeaders (options : PublishOptions) (m : Message Json) : Message Json :=
  match options.headers with
  | none => m
  | some headers => headers.entries.foldl (fun m entry => m.withHeader entry.1 entry.2) m

/-- The message of a payload, with the timestamp and the headers that the options ask for. -/
def message (options : PublishOptions) (channel : Str) (now : UInt64)
    (payload : MessagePayload Json) : Message Json :=
  options.addHeaders (options.stamp now (Message.withPayload channel payload))

end PublishOptions

/-- The first half of `publish_with_options`: the message that goes to the channel, and whether it
was compressed. -/
def BrokerConfig.prepare (config : BrokerConfig) (options : PublishOptions) (channel : Str)
    (now : UInt64) (payload : MessagePayload Json) : Except RecvError (Message Json × Bool) := do
  config.checkSize (payload.len serde)
  let sent ← config.shrink serde gzip options payload
  pure (options.message channel now sent.1, sent.2)

end Zumic.Pubsub
