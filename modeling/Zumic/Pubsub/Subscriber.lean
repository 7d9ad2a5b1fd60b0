/- Subscribers (`subscriber.rs`): filters, decompression, and the calls that receive messages. -/

import Zumic.Lib.Broadcast
import Zumic.Pubsub.Message

namespace Zumic.Pubsub

open Lib.Broadcast Lib.ByteString Lib.Utf8

/-- What the program uses of `flate2`; decoding fails on what is no gzip stream. -/
structure Gzip where
  encode : Bytes → Bytes
  decode : Bytes → Option Bytes

inductive PayloadType where
  | bytes
  | string
  | json
  | serialized (contentType : Str)
  deriving DecidableEq

inductive MessageTypeFilter where
  | payloadType (types : List PayloadType)
  | withMetadata
  | withoutMetadata
  | combined (f1 f2 : MessageTypeFilter)

inductive LagHandling where
  | ignore
  | error
  | log
  | skip
  deriving DecidableEq

structure SubscriptionOptions where
  bufferSize : Option Nat
  enableMessageBuffer : Bool
  messageBufferSize : Nat
  autoDeserializeJson : Bool
  messageTypeFilter : Option MessageTypeFilter
  recvTimeout : Option Nat
  lagHandling : LagHandling
  enableCompression : Bool

/-- `SubscriptionOptions::default`. -/
def SubscriptionOptions.default : SubscriptionOptions where
  bufferSize := none
  enableMessageBuffer := false
  messageBufferSize := 100
  autoDeserializeJson := false
  messageTypeFilter := none
  recvTimeout := none
  lagHandling := .ignore
  enableCompression := true

structure SubscriberStats where
  messagesReceived : UInt64
  bytesReceived : UInt64
  messagesFiltered : UInt64
  laggedMessages : UInt64

structure SizeFilter where
  minSize : Option Nat
  maxSize : Option Nat

/-- A set of globs is the texts that it matches. -/
structure MetadataFilter where
  requiredHeaders : List Str
  messageIdPattern : Option (Str → Bool)
  timeRange : Option (UInt64 × UInt64)

structure ContentFilter where
  allowedPayloadTypes : List PayloadType
  stringPatterns : Option (Str → Bool)
  jsonKeyFilter : Option (List Str)

structure MessageFilters (Json : Type) where
  sizeFilter : Option SizeFilter
  metadataFilter : Option MetadataFilter
  contentFilter : Option ContentFilter
  customFilter : Option (Message Json → Bool)

def MessageFilters.default {Json : Type} : MessageFilters Json := ⟨none, none, none, none⟩

structure Subscriber (Json : Type) where
  receiver : Receiver (Message Json)
  channel : Str
  options : SubscriptionOptions
  messageBuffer : Option (List (Message Json))
  stats : SubscriberStats
  filters : MessageFilters Json

variable {Json : Type}

def payloadType : MessagePayload Json → PayloadType
  | .bytes _ => .bytes
  | .string _ => .string
  | .json _ => .json
  | .serialized _ contentType => .serialized contentType

def SizeFilter.check (f : SizeFilter) (size : Nat) : Bool :=
  f.minSize.all (fun minSize => minSize ≤ size) && f.maxSize.all (fun maxSize => size ≤ maxSize)

def checkMetadataFilter (m : Message Json) (f : MetadataFilter) : Bool :=
  match m.metadata with
  | none => false
  | some metadata =>
      f.requiredHeaders.all metadata.headers.containsKey &&
        f.messageIdPattern.all (fun isMatch => metadata.messageId.any isMatch) &&
        f.timeRange.all fun range =>
          metadata.timestamp.any fun t => range.1 ≤ t && t ≤ range.2

/-- Whether text matches; a value and serialized data never do. -/
def matchesPatterns (isMatch : Str → Bool) : MessagePayload Json → Bool
  | .string content => isMatch content
  | .bytes b =>
      match Str.fromUtf8 b with
      | some content => isMatch content
      | none => false
  | _ => false

variable (serde : SerdeJson Json)

/-- Whether the payload is an object with all the keys. -/
def hasKeys (required : List Str) : MessagePayload Json → Bool
  | .json v =>
      match serde.objectKeys v with
      | some keys => required.all fun key => keys.contains key
      | none => false
  | _ => false

def checkContentFilter (m : Message Json) (f : ContentFilter) : Bool :=
  (f.allowedPayloadTypes.isEmpty || f.allowedPayloadTypes.contains (payloadType m.payload)) &&
    f.stringPatterns.all (fun isMatch => matchesPatterns isMatch m.payload) &&
    f.jsonKeyFilter.all fun required => hasKeys serde required m.payload

/-- Both filters on metadata ask that there is none. -/
def checkMessageTypeFilter (m : Message Json) : MessageTypeFilter → Bool
  | .payloadType types => types.contains (payloadType m.payload)
  | .withMetadata => m.metadata.isNone
  | .withoutMetadata => m.metadata.isNone
  | .combined f1 f2 => checkMessageTypeFilter m f1 && checkMessageTypeFilter m f2

namespace Subscriber

def new (receiver : Receiver (Message Json)) (channel : Str) (options : SubscriptionOptions) :
    Subscriber Json where
  receiver := receiver
  channel := channel
  options := options
  messageBuffer := if options.enableMessageBuffer then some [] else none
  stats := ⟨0, 0, 0, 0⟩
  filters := .default

def shouldProcessMessage (s : Subscriber Json) (m : Message Json) : Bool :=
  s.filters.sizeFilter.all (fun f => f.check (m.size serde)) &&
    s.filters.metadataFilter.all (fun f => checkMetadataFilter m f) &&
    s.filters.contentFilter.all (fun f => checkContentFilter serde m f) &&
    s.filters.customFilter.all (fun f => f m) &&
    s.options.messageTypeFilter.all fun f => checkMessageTypeFilter m f

variable (gzip : Gzip)

/-- Decompressed data is plain bytes, whatever was compressed. -/
def decompressIfNeeded : MessagePayload Json → Except TryRecvError (MessagePayload Json)
  | .serialized data contentType =>
      if contentType = Str.lit "application/gzip" then
        match gzip.decode data with
        | some decompressed => .ok (.bytes decompressed)
        | none => .error .closed
      else .ok (.serialized data contentType)
  | payload => .ok payload

/-- The automatic conversion of a text that is a value. -/
def autoDeserialize (automatic : Bool) : MessagePayload Json → MessagePayload Json
  | .string content =>
      if automatic then
        match serde.fromStr content with
        | .ok v => .json v
        | .error _ => .string content
      else .string content
  | payload => payload

def processMessage (s : Subscriber Json) (m : Message Json) :
    Except TryRecvError (Message Json) := do
  let payload ← if s.options.enableCompression then decompressIfNeeded gzip m.payload
    else pure m.payload
  pure { m with payload := autoDeserialize serde s.options.autoDeserializeJson payload }

/-- Errors end the call only under `LagHandling::Error`. -/
def handleLagging (s : Subscriber Json) (count : UInt64) :
    Except TryRecvError Unit × Subscriber Json :=
  let stats := { s.stats with laggedMessages := s.stats.laggedMessages + count }
  let result := if s.options.lagHandling = .error then .error (.lagged count) else .ok ()
  (result, { s with stats := stats })

/-- The time of the last message is left out. -/
def updateStats (s : Subscriber Json) (m : Message Json) : Subscriber Json :=
  { s with stats := { s.stats with
      messagesReceived := s.stats.messagesReceived + 1
      bytesReceived := s.stats.bytesReceived + UInt64.ofNat (m.size serde) } }

def countFiltered (s : Subscriber Json) : Subscriber Json :=
  { s with stats := { s.stats with messagesFiltered := s.stats.messagesFiltered + 1 } }

/-- The subscriber after its receiver gave a message, and after it gave another report. -/
def took (s : Subscriber Json) (m : Message Json) (rest : List (Report (Message Json))) :
    Subscriber Json :=
  { s with receiver := s.receiver.take m rest }

def passed (s : Subscriber Json) (rest : List (Report (Message Json))) : Subscriber Json :=
  { s with receiver := s.receiver.pass rest }

/-- The message at the front of the local buffer, with the buffer after it. -/
def popBuffer (s : Subscriber Json) : Option (Message Json × Subscriber Json) :=
  match s.messageBuffer with
  | some (m :: buffer) => some (m, { s with messageBuffer := some buffer })
  | _ => none

/-- What a call comes to: a result, or it still waits, or it panics. -/
inductive Outcome (α : Type) where
  | returned (result : Except RecvError α)
  | waiting
  | panicked

/-- A message taken out of the receiver: processed, or filtered out. -/
def accept (s : Subscriber Json) (m : Message Json) :
    Option (Except TryRecvError (Message Json)) × Subscriber Json :=
  if s.shouldProcessMessage serde m then
    match s.processMessage serde gzip m with
    | .ok p => (some (.ok p), s.updateStats serde p)
    | .error e => (some (.error e), s)
  else (none, s.countFiltered)

/-- The loop of `recv_internal` over the coming reports; a timeout can end it where it waits. -/
def recvInternal (s : Subscriber Json) :
    List (Report (Message Json)) → Outcome (Message Json) × Subscriber Json
  | [] => (if s.receiver.closed then .returned (.error .closed) else .waiting, s)
  | .message m :: rest =>
      match (s.took m rest).accept serde gzip m with
      | (some (.ok p), s) => (.returned (.ok p), s)
      | (some (.error e), s) => (.returned (.error e.toRecvError), s)
      | (none, s) => recvInternal s rest
  | .lagged count :: rest =>
      match (s.passed rest).handleLagging count with
      | (.ok (), s) => recvInternal s rest
      | (.error e, s) => (.returned (.error e.toRecvError), s)
  | .closed :: rest => (.returned (.error .closed), s.passed rest)
  | .empty elapsed :: rest =>
      if elapsed && s.options.recvTimeout.isSome then (.returned (.error .timeout), s.passed rest)
      else recvInternal (s.passed rest) rest

def recv (s : Subscriber Json) : Outcome (Message Json) × Subscriber Json :=
  match s.popBuffer with
  | some (m, s) => (.returned (.ok m), s.updateStats serde m)
  | none => recvInternal serde gzip s s.receiver.coming

/-- The loop of `try_recv` over the coming reports. -/
def tryRecvInternal (s : Subscriber Json) :
    List (Report (Message Json)) → Except TryRecvError (Message Json) × Subscriber Json
  | [] => (.error (if s.receiver.closed then .closed else .empty), s)
  | .message m :: rest =>
      match (s.took m rest).accept serde gzip m with
      | (some result, s) => (result, s)
      | (none, s) => tryRecvInternal s rest
  | .lagged count :: rest =>
      match (s.passed rest).handleLagging count with
      | (.ok (), s) => tryRecvInternal s rest
      | (.error e, s) => (.error e, s)
  | .closed :: rest => (.error .closed, s.passed rest)
  | .empty _ :: rest => (.error .empty, s.passed rest)

def tryRecv (s : Subscriber Json) : Except TryRecvError (Message Json) × Subscriber Json :=
  match s.popBuffer with
  | some (m, s) => (.ok m, s.updateStats serde m)
  | none => tryRecvInternal serde gzip s s.receiver.coming

/-- The loop of `recv_batch`: an error other than an empty queue drops what was collected. -/
def recvMore : Nat → Subscriber Json → List (Message Json) →
    Except RecvError (List (Message Json)) × Subscriber Json
  | 0, s, messages => (.ok messages, s)
  | room + 1, s, messages =>
      match s.tryRecv serde gzip with
      | (.ok m, s) => recvMore room s (messages ++ [m])
      | (.error .empty, s) => (.ok messages, s)
      | (.error e, s) => (.error e.toRecvError, s)

/-- The first message is waited for, also when `max_messages` is zero. -/
def recvBatch (s : Subscriber Json) (maxMessages : Nat) :
    Outcome (List (Message Json)) × Subscriber Json :=
  match s.recv serde gzip with
  | (.returned (.ok first), s) =>
      let more := recvMore serde gzip (maxMessages - 1) s [first]
      (.returned more.1, more.2)
  | (.returned (.error e), s) => (.returned (.error e), s)
  | (.waiting, s) => (.waiting, s)
  | (.panicked, s) => (.panicked, s)

/-- The loop of `recv_all` over the subscribers from the given index on. -/
def recvEach : Nat → List (Subscriber Json) → List (Nat × Message Json) →
    Except RecvError (List (Nat × Message Json)) × List (Subscriber Json)
  | _, [], messages => (.ok messages, [])
  | index, s :: rest, messages =>
      match s.tryRecv serde gzip with
      | (.ok m, s) =>
          let others := recvEach (index + 1) rest (messages ++ [(index, m)])
          (others.1, s :: others.2)
      | (.error .empty, s) =>
          let others := recvEach (index + 1) rest messages
          (others.1, s :: others.2)
      | (.error e, s) => (.error e.toRecvError, s :: rest)

/-- Waits for the first subscriber, which must exist. -/
def recvFirst : List (Subscriber Json) → Outcome (List (Nat × Message Json)) × List (Subscriber Json)
  | [] => (.panicked, [])
  | s :: rest =>
      match s.recv serde gzip with
      | (.returned (.ok m), s) => (.returned (.ok [(0, m)]), s :: rest)
      | (.returned (.error e), s) => (.returned (.error e), s :: rest)
      | (.waiting, s) => (.waiting, s :: rest)
      | (.panicked, s) => (.panicked, s :: rest)

/-- `MultiSubscriber::recv_all`. -/
def recvAll (subscribers : List (Subscriber Json)) :
    Outcome (List (Nat × Message Json)) × List (Subscriber Json) :=
  match recvEach serde gzip 0 subscribers [] with
  | (.ok [], subscribers) => recvFirst serde gzip subscribers
  | (.ok messages, subscribers) => (.returned (.ok messages), subscribers)
  | (.error e, subscribers) => (.returned (.error e), subscribers)

end Subscriber

end Zumic.Pubsub
