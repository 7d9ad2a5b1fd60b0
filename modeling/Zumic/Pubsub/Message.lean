/- Messages of the publish and subscribe system (`message.rs`) and its errors (`pubsub.rs`). -/

import Zumic.Lib.Assoc
import Zumic.Lib.Utf8

namespace Zumic.Pubsub

open Lib Lib.ByteString Lib.Utf8

inductive RecvError where
  | closed
  | timeout
  | serializationError (message : Str)
  | lagged (count : UInt64)
  | invalidPattern (message : Str)
  | channelNotFound (channel : Str)
  | subscriberLimitExceeded
  deriving DecidableEq

inductive TryRecvError where
  | empty
  | closed
  | lagged (count : UInt64)
  deriving DecidableEq

/-- The conversion of the source; an empty queue becomes a timeout. -/
def TryRecvError.toRecvError : TryRecvError → RecvError
  | .empty => .timeout
  | .closed => .closed
  | .lagged count => .lagged count

/-- A hash map of strings, listed in its iteration order. -/
structure Headers where
  entries : List (Str × Str)
  distinct : (Assoc.keys entries).Nodup
  deriving DecidableEq

namespace Headers

def empty : Headers := ⟨[], List.nodup_nil⟩

def insert (h : Headers) (key value : Str) : Headers :=
  ⟨Assoc.insert h.entries key value, Assoc.nodup_keys_insert h.distinct key value⟩

def containsKey (h : Headers) (key : Str) : Bool := (Assoc.get h.entries key).isSome

/-- The equality of hash maps. -/
def Same (h h' : Headers) : Prop := ∀ key, Assoc.get h.entries key = Assoc.get h'.entries key

end Headers

structure MessageMetadata where
  messageId : Option Str
  timestamp : Option UInt64
  headers : Headers
  deriving DecidableEq

namespace MessageMetadata

/-- `MessageMetadata::default`. -/
def default : MessageMetadata := ⟨none, none, .empty⟩

structure Same (d d' : MessageMetadata) : Prop where
  messageId : d.messageId = d'.messageId
  timestamp : d.timestamp = d'.timestamp
  headers : d.headers.Same d'.headers

end MessageMetadata

/-- What the program uses of `serde_json`: the texts of values and of metadata and back, and the
keys of a value that is an object. -/
structure SerdeJson (Json : Type) where
  toString : Json → Except Str Str
  fromStr : Str → Except Str Json
  objectKeys : Json → Option (List Str)
  metadataToString : MessageMetadata → Except Str Str
  metadataFromStr : Str → Except Str MessageMetadata

inductive MessagePayload (Json : Type) where
  | bytes (b : Bytes)
  | string (s : Str)
  | json (v : Json)
  | serialized (data : Bytes) (contentType : Str)
  deriving DecidableEq

structure Message (Json : Type) where
  channel : Str
  payload : MessagePayload Json
  metadata : Option MessageMetadata
  deriving DecidableEq

variable {Json : Type}

namespace MessagePayload

variable (serde : SerdeJson Json)

def toBytes : MessagePayload Json → Except RecvError Bytes
  | bytes b => .ok b
  | string s => .ok s.bytes
  | json v =>
      match serde.toString v with
      | .ok text => .ok text.bytes
      | .error e => .error (.serializationError e)
  | serialized data _ => .ok data

/-- A value without a text counts as empty. -/
def len : MessagePayload Json → Nat
  | bytes b => b.length
  | string s => s.bytes.length
  | json v =>
      match serde.toString v with
      | .ok text => text.bytes.length
      | .error _ => 0
  | serialized data _ => data.length

end MessagePayload

namespace Message

/-- The channel name is interned, which keeps its text. -/
def withPayload (channel : Str) (payload : MessagePayload Json) : Message Json :=
  ⟨channel, payload, none⟩

def withMetadata (m : Message Json) (metadata : MessageMetadata) : Message Json :=
  { m with metadata := some metadata }

/-- The clock is read by the caller. -/
def withTimestamp (m : Message Json) (now : UInt64) : Message Json :=
  { m with metadata := some { m.metadata.getD .default with timestamp := some now } }

def withHeader (m : Message Json) (key value : Str) : Message Json :=
  let metadata := m.metadata.getD .default
  { m with metadata := some { metadata with headers := metadata.headers.insert key value } }

def size (serde : SerdeJson Json) (m : Message Json) : Nat :=
  m.payload.len serde + m.channel.bytes.length +
    match m.metadata with
    | none => 0
    | some metadata =>
        match serde.metadataToString metadata with
        | .ok text => text.bytes.length
        | .error _ => 0

/-- The equality of messages, with headers compared as hash maps. -/
structure Same (m m' : Message Json) : Prop where
  channel : m.channel = m'.channel
  payload : m.payload = m'.payload
  metadata : Option.Rel MessageMetadata.Same m.metadata m'.metadata

end Message

/-- The value and the metadata of a message survive their text. -/
structure SerdeJson.Keeps (serde : SerdeJson Json) (m : Message Json) : Prop where
  json : ∀ v, m.payload = .json v →
    ∃ text, serde.toString v = .ok text ∧ serde.fromStr text = .ok v
  metadata : ∀ d, m.metadata = some d → ∃ text d', serde.metadataToString d = .ok text ∧
    serde.metadataFromStr text = .ok d' ∧ d'.Same d

end Zumic.Pubsub
