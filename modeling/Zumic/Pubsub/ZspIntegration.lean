/- Messages as ZSP frames (`zsp_integration.rs`), and what repeated calls of the decoder read from
one buffer: the first message, over and over, because no call takes its frame off the buffer. -/

import Zumic.Pubsub.Message
import Zumic.Zsp.RoundTrip

namespace Zumic.Pubsub

open Lib.ByteString Lib.Utf8 Zsp

section

inductive ZspIntegrationError where
  | encode (e : ZspEncodeError)
  | decode (e : ZspDecodeError)
  | serialization (message : Str)
  deriving DecidableEq

/-- The `Debug` text of a string without characters that are escaped. -/
private def debugQuoted (s : Str) : Str := Str.lit "\"" ++ s ++ Str.lit "\""

def encodeErrorDebug : ZspEncodeError → Str
  | .invalidData m => Str.lit "InvalidData(" ++ debugQuoted m ++ Str.lit ")"

def decodeErrorDebug : ZspDecodeError → Str
  | .invalidData m => Str.lit "InvalidData(" ++ debugQuoted m ++ Str.lit ")"
  | .unexpectedEof m => Str.lit "UnexpectedEof(" ++ debugQuoted m ++ Str.lit ")"
  | .invalidUtf8 m => Str.lit "InvalidUtf8(" ++ debugQuoted m ++ Str.lit ")"

def ZspIntegrationError.toRecvError : ZspIntegrationError → RecvError
  | .encode e => .serializationError (Str.lit "Encode: " ++ encodeErrorDebug e)
  | .decode e => .serializationError (Str.lit "Decode: " ++ decodeErrorDebug e)
  | .serialization s => .serializationError s

/-- Where text stops being well formed, and the length of the ill-formed sequence there; no length
when the text ends within a character. -/
def utf8Error : Expect → Nat → Nat → Bytes → Option (Nat × Option Nat)
  | _, index, held, [] => if held = 0 then none else some (index, none)
  | q, index, held, b :: rest =>
      match q.next b with
      | some .lead => utf8Error .lead (index + held + 1) 0 rest
      | some q' => utf8Error q' index (held + 1) rest
      | none => some (index, some (max held 1))

/-- The text of a `FromUtf8Error`. -/
def utf8ErrorText (b : Bytes) : Str :=
  match utf8Error .lead 0 0 b with
  | some (index, some length) => Str.lit "invalid utf-8 sequence of " ++ Str.ofNat length ++
      Str.lit " bytes from index " ++ Str.ofNat index
  | some (index, none) => Str.lit "incomplete utf-8 byte sequence from index " ++ Str.ofNat index
  | none => Str.lit ""

variable {Json : Type}

/-- The components that carry a payload: its kind and its data. -/
def payloadComponents (serde : SerdeJson Json) : MessagePayload Json → List ZspFrame
  | .bytes b => [.inlineString (Str.lit "BYTES"), .binaryString (some b)]
  | .string s => [.inlineString (Str.lit "STRING"), .binaryString (some s.bytes)]
  | .json v =>
      let text := (serde.toString v).toOption.getD (Str.lit "")
      [.inlineString (Str.lit "JSON"), .binaryString (some text.bytes)]
  | .serialized data contentType =>
      [.inlineString (Str.lit "SERIALIZED"), .binaryString (some contentType.bytes),
        .binaryString (some data)]

/-- Metadata without a text is left out. -/
def metadataComponents (serde : SerdeJson Json) : Option MessageMetadata → List ZspFrame
  | none => []
  | some metadata =>
      match serde.metadataToString metadata with
      | .ok text => [.inlineString (Str.lit "METADATA"), .binaryString (some text.bytes)]
      | .error _ => []

def messageToZspFrame (serde : SerdeJson Json) (m : Message Json) : ZspFrame :=
  .array (.inlineString (Str.lit "MESSAGE") :: .binaryString (some m.channel.bytes) ::
    (payloadComponents serde m.payload ++ metadataComponents serde m.metadata))

def encodeMessage (serde : SerdeJson Json) (m : Message Json) : Except RecvError Bytes :=
  match encode (messageToZspFrame serde m) with
  | .ok encoded => .ok encoded
  | .error e => .error (ZspIntegrationError.encode e).toRecvError

def serializationError {α : Type} (message : String) : Except ZspIntegrationError α :=
  .error (.serialization (Str.lit message))

/-- A parser's error becomes a serialization error. -/
def orSerialization {α : Type} : Except Str α → Except ZspIntegrationError α
  | .ok a => .ok a
  | .error e => .error (.serialization e)

def stringFromUtf8 (b : Bytes) : Except ZspIntegrationError Str :=
  match Str.fromUtf8 b with
  | some s => .ok s
  | none => .error (.serialization (utf8ErrorText b))

def extractBinaryString : ZspFrame → Except ZspIntegrationError Bytes
  | .binaryString (some b) => .ok b
  | .inlineString s => .ok s.bytes
  | _ => serializationError "Expected binary string"

def extractText (frame : ZspFrame) : Except ZspIntegrationError Str := do
  let b ← extractBinaryString frame
  stringFromUtf8 b

def readSerialized (first : ZspFrame) :
    List ZspFrame → Except ZspIntegrationError (MessagePayload Json × List ZspFrame)
  | [] => serializationError "SERIALIZED requires content type and data"
  | second :: rest => do
      let contentType ← extractBinaryString first
      let data ← extractBinaryString second
      let contentType ← stringFromUtf8 contentType
      pure (.serialized data contentType, rest)

/-- The payload of the given kind, and the components that follow it. -/
def readPayload (serde : SerdeJson Json) (kind : Str) (first : ZspFrame) (rest : List ZspFrame) :
    Except ZspIntegrationError (MessagePayload Json × List ZspFrame) :=
  if kind = Str.lit "BYTES" then do
    let data ← extractBinaryString first
    pure (.bytes data, rest)
  else if kind = Str.lit "STRING" then do
    let s ← extractText first
    pure (.string s, rest)
  else if kind = Str.lit "JSON" then do
    let text ← extractText first
    let v ← orSerialization (serde.fromStr text)
    pure (.json v, rest)
  else if kind = Str.lit "SERIALIZED" then readSerialized first rest
  else .error (.serialization (Str.lit "Unknown payload type: " ++ kind))

/-- Metadata is read where its marker and one more component follow the payload. -/
def readMetadata (serde : SerdeJson Json) (m : Message Json) :
    List ZspFrame → Except ZspIntegrationError (Message Json)
  | .inlineString marker :: frame :: _ =>
      if marker = Str.lit "METADATA" then do
        let text ← extractText frame
        let metadata ← orSerialization (serde.metadataFromStr text)
        pure (m.withMetadata metadata)
      else pure m
  | _ => pure m

def expectMarker : ZspFrame → Except ZspIntegrationError Unit
  | .inlineString marker =>
      if marker ≠ Str.lit "MESSAGE" then serializationError "Expected MESSAGE marker" else .ok ()
  | _ => serializationError "Invalid message format"

def payloadKind : ZspFrame → Except ZspIntegrationError Str
  | .inlineString kind => .ok kind
  | _ => serializationError "Payload type must be inline string"

def zspFrameToMessage (serde : SerdeJson Json) :
    ZspFrame → Except ZspIntegrationError (Message Json)
  | .array (marker :: channel :: kind :: first :: rest) => do
      expectMarker marker
      let channel ← extractText channel
      let kind ← payloadKind kind
      let (payload, rest) ← readPayload serde kind first rest
      readMetadata serde (.withPayload channel payload) rest
  | _ => serializationError "Invalid message array"

/-- One call: its result, and what it leaves in the buffer. The decoder moves a reference made for
the call alone, so `slice` keeps its length and nothing is taken off the buffer. -/
def decodeMessage (serde : SerdeJson Json) (data : Bytes) :
    Except RecvError (Option (Message Json)) × Bytes :=
  if data = [] then (.ok none, data)
  else
    let slice := data
    match decode .initial slice with
    | .error e => (.error (ZspIntegrationError.decode e).toRecvError, data)
    | .ok ((none, _), _) => (.ok none, data)
    | .ok ((some frame, _), _) =>
        let consumed := data.length - slice.length
        let data := data.drop consumed
        match zspFrameToMessage serde frame with
        | .ok m => (.ok (some m), data)
        | .error e => (.error e.toRecvError, data)

/-- Calls on one buffer, one after another: their results, and what the last one leaves. -/
def decodeCalls (serde : SerdeJson Json) :
    Nat → Bytes → List (Except RecvError (Option (Message Json))) × Bytes
  | 0, data => ([], data)
  | calls + 1, data =>
      let call := decodeMessage serde data
      let others := decodeCalls serde calls call.2
      (call.1 :: others.1, others.2)

end

variable {Json : Type} {serde : SerdeJson Json}

/-- The concatenation of the encoded messages. -/
def encodeMessages (serde : SerdeJson Json) : List (Message Json) → Except RecvError Bytes
  | [] => .ok []
  | m :: messages => do
      let first ← encodeMessage serde m
      let rest ← encodeMessages serde messages
      pure (first ++ rest)

/-- A result that is the given message. -/
def Returned (m : Message Json) (result : Except RecvError (Option (Message Json))) : Prop :=
  ∃ m', result = .ok (some m') ∧ m'.Same m

/-- The calls return the messages in order, and one more call finds the buffer empty. -/
def Streams (serde : SerdeJson Json) (messages : List (Message Json)) (data : Bytes) : Prop :=
  ∃ results, decodeCalls serde messages.length data = (results, []) ∧
    List.Forall₂ Returned messages results ∧ decodeMessage serde [] = (.ok none, [])

theorem encode_of_encodeMessage {m : Message Json} {b : Bytes}
    (encoded : encodeMessage serde m = .ok b) : encode (messageToZspFrame serde m) = .ok b := by
  unfold encodeMessage at encoded
  split at encoded
  · rename_i b' frame
    rw [frame, Except.ok.inj encoded]
  · cases encoded

theorem cons_of_encodeMessages {m : Message Json} {messages : List (Message Json)} {data : Bytes}
    (encoded : encodeMessages serde (m :: messages) = .ok data) :
    ∃ first rest, encodeMessage serde m = .ok first ∧ data = first ++ rest := by
  unfold encodeMessages at encoded
  cases first : encodeMessage serde m with
  | error e =>
      rw [first] at encoded
      cases encoded
  | ok b =>
      cases others : encodeMessages serde messages with
      | error e =>
          rw [first, others] at encoded
          cases encoded
      | ok rest =>
          rw [first, others] at encoded
          exact ⟨b, rest, rfl, (Except.ok.inj encoded).symm⟩

theorem plain_messageToZspFrame (m : Message Json) :
    (messageToZspFrame serde m).Wf ∧ (messageToZspFrame serde m).all plainNode = true ∧
      (messageToZspFrame serde m).all shortKeysNode = true := by
  unfold messageToZspFrame
  cases m.payload <;> simp only [payloadComponents] <;> unfold metadataComponents <;>
    split <;> try split
  all_goals exact ⟨rfl, rfl, rfl⟩

theorem stringFromUtf8_bytes (s : Str) : stringFromUtf8 s.bytes = .ok s := by
  rw [stringFromUtf8, Str.fromUtf8_bytes]

theorem extractText_binary (s : Str) : extractText (.binaryString (some s.bytes)) = .ok s :=
  stringFromUtf8_bytes s

theorem readPayload_components {m : Message Json} (kept : serde.Keeps m)
    (tail : List ZspFrame) :
    ∃ kind first rest,
      payloadComponents serde m.payload ++ tail = .inlineString kind :: first :: rest ∧
      readPayload serde kind first rest = .ok (m.payload, tail) := by
  cases payload : m.payload with
  | bytes b =>
      refine ⟨_, _, _, rfl, ?_⟩
      rw [readPayload, if_pos rfl]
      rfl
  | string s =>
      refine ⟨_, _, _, rfl, ?_⟩
      rw [readPayload, if_neg (by decide), if_pos rfl, extractText_binary]
      rfl
  | json v =>
      obtain ⟨text, written, read⟩ := kept.json v payload
      refine ⟨Str.lit "JSON", .binaryString (some text.bytes), tail, ?_, ?_⟩
      · simp only [payloadComponents, written]
        rfl
      · rw [readPayload, if_neg (by decide), if_neg (by decide), if_pos rfl, extractText_binary,
          Lib.Buffer.ok_bind, read]
        rfl
  | serialized data contentType =>
      refine ⟨_, _, _, rfl, ?_⟩
      rw [readPayload, if_neg (by decide), if_neg (by decide), if_neg (by decide), if_pos rfl]
      simp only [List.append_eq, readSerialized, extractBinaryString, Lib.Buffer.ok_bind,
        stringFromUtf8_bytes]
      rfl

theorem readMetadata_components {m : Message Json} (kept : serde.Keeps m) :
    ∃ m', readMetadata serde (.withPayload m.channel m.payload)
      (metadataComponents serde m.metadata) = .ok m' ∧ m'.Same m := by
  cases metadata : m.metadata with
  | none =>
      refine ⟨.withPayload m.channel m.payload, rfl, rfl, rfl, ?_⟩
      rw [metadata]
      exact .none
  | some d =>
      obtain ⟨text, d', written, read, same⟩ := kept.metadata d metadata
      refine ⟨(Message.withPayload m.channel m.payload).withMetadata d', ?_, rfl, rfl, ?_⟩
      · simp only [metadataComponents, written]
        rw [readMetadata, if_pos rfl, extractText_binary, Lib.Buffer.ok_bind, read]
        rfl
      · rw [metadata]
        exact .some same

theorem zspFrameToMessage_frame {m : Message Json} (kept : serde.Keeps m) :
    ∃ m', zspFrameToMessage serde (messageToZspFrame serde m) = .ok m' ∧ m'.Same m := by
  obtain ⟨kind, first, rest, shape, payload⟩ :=
    readPayload_components kept (metadataComponents serde m.metadata)
  obtain ⟨m', metadata, same⟩ := readMetadata_components kept
  refine ⟨m', ?_, same⟩
  have marked : expectMarker (.inlineString (Str.lit "MESSAGE")) = .ok () := by
    rw [expectMarker, if_neg (not_not.mpr rfl)]
  simp only [messageToZspFrame, shape, zspFrameToMessage, marked, extractText_binary, payloadKind,
    payload, Lib.Buffer.ok_bind]
  exact metadata

theorem decodeMessage_encoded {m : Message Json} (kept : serde.Keeps m) {b : Bytes}
    (encoded : encodeMessage serde m = .ok b) :
    ∃ m', m'.Same m ∧ ∀ t, decodeMessage serde (b ++ t) = (.ok (some m'), b ++ t) := by
  obtain ⟨m', read, same⟩ := zspFrameToMessage_frame kept
  refine ⟨m', same, fun t => ?_⟩
  have frame := encode_of_encodeMessage encoded
  obtain ⟨wf, plain, keys⟩ := @plain_messageToZspFrame _ serde m
  have decoded := decode_encode wf plain keys frame t
  have started : b ++ t ≠ [] := by
    rintro empty
    rw [empty] at decoded
    cases decoded
  rw [decodeMessage, if_neg started]
  simp only [decoded, read, Nat.sub_self, List.drop_zero]

theorem ne_nil_of_encodeMessage {m : Message Json} {b : Bytes}
    (encoded : encodeMessage serde m = .ok b) : b ≠ [] := by
  obtain ⟨rfl, -⟩ := encodeFrame_ok (encode_of_encodeMessage encoded)
  exact wire_ne_nil _

theorem decodeMessage_nil : decodeMessage serde [] = (.ok none, []) := rfl

theorem decodeCalls_of_stays {data : Bytes} {result : Except RecvError (Option (Message Json))}
    (stays : decodeMessage serde data = (result, data)) (calls : Nat) :
    decodeCalls serde calls data = (List.replicate calls result, data) := by
  induction calls with
  | zero => rfl
  | succ calls ih => simp only [decodeCalls, stays, ih, List.replicate_succ]

theorem decodeCalls_encoded {m : Message Json} {messages : List (Message Json)} {data : Bytes}
    (kept : serde.Keeps m) (encoded : encodeMessages serde (m :: messages) = .ok data) :
    data ≠ [] ∧ ∃ m', m'.Same m ∧ ∀ calls,
      decodeCalls serde calls data = (List.replicate calls (.ok (some m')), data) := by
  obtain ⟨first, rest, written, rfl⟩ := cons_of_encodeMessages encoded
  obtain ⟨m', same, decoded⟩ := decodeMessage_encoded kept written
  refine ⟨fun empty => ?_, m', same, decodeCalls_of_stays (decoded rest)⟩
  exact ne_nil_of_encodeMessage written (List.append_eq_nil_iff.mp empty).1

/-- The messages come out in order only when there is none: otherwise every call returns the first
message again. -/
theorem decodes_stream_iff (serde : SerdeJson Json) (messages : List (Message Json)) (data : Bytes)
    (kept : ∀ m ∈ messages, serde.Keeps m) (encoded : encodeMessages serde messages = .ok data) :
    (Streams serde messages data ↔ messages = []) ∧
      ∀ m ∈ messages.head?, ∃ m', m'.Same m ∧ ∀ calls,
        decodeCalls serde calls data = (List.replicate calls (.ok (some m')), data) := by
  cases messages with
  | nil =>
      obtain rfl := Except.ok.inj encoded
      refine ⟨iff_of_true ⟨[], rfl, .nil, decodeMessage_nil⟩ rfl, ?_⟩
      simp
  | cons m messages =>
      obtain ⟨full, m', same, stays⟩ := decodeCalls_encoded (kept m (by simp)) encoded
      refine ⟨iff_of_false ?_ (List.cons_ne_nil _ _), ?_⟩
      · rintro ⟨results, drained, -⟩
        exact full (congrArg Prod.snd ((stays _).symm.trans drained))
      · intro head is
        obtain rfl : m = head := by simpa using is
        exact ⟨m', same, stays⟩

/-- The texts of two values and of one record of metadata. -/
def fewTexts : SerdeJson Bool where
  toString v := .ok (if v then Str.lit "true" else Str.lit "false")
  fromStr text :=
    if text = Str.lit "true" then .ok true
    else if text = Str.lit "false" then .ok false
    else .error (Str.lit "expected value at line 1 column 1")
  objectKeys _ := none
  metadataToString _ :=
    .ok (Str.lit "\x7b\"message_id\":null,\"timestamp\":null,\"headers\":\x7b\x7d\x7d")
  metadataFromStr _ := .ok .default

/-- A value with metadata, then serialized data. -/
def twoMessages : List (Message Bool) :=
  [⟨Str.lit "c", .json true, some .default⟩,
    ⟨Str.lit "c", .serialized [1] (Str.lit "application/msgpack"), none⟩]

theorem kept_twoMessages : ∀ m ∈ twoMessages, fewTexts.Keeps m := by
  intro m member
  simp only [twoMessages, List.mem_cons, List.not_mem_nil, or_false] at member
  rcases member with rfl | rfl
  · refine ⟨fun v is => ?_, fun d is => ?_⟩
    · obtain rfl := MessagePayload.json.inj is
      exact ⟨_, rfl, rfl⟩
    · obtain rfl := Option.some.inj is
      exact ⟨_, _, rfl, rfl, rfl, rfl, fun _ => rfl⟩
  · refine ⟨fun v is => ?_, fun d is => ?_⟩
    · cases is
    · cases is

theorem decodes_stream_first : ∃ data, encodeMessages fewTexts twoMessages = .ok data ∧
    ¬ Streams fewTexts twoMessages data := by
  refine ⟨_, rfl, fun streams => ?_⟩
  have empty := (decodes_stream_iff fewTexts twoMessages _ kept_twoMessages rfl).1.mp streams
  cases empty

/-- The buffer is as full after the second call as before the first. -/
theorem decodes_first_again :
    ¬ ∀ (serde : SerdeJson Bool) (messages : List (Message Bool)) (data : Bytes),
      (∀ m ∈ messages, serde.Keeps m) → encodeMessages serde messages = .ok data →
        Streams serde messages data := by
  intro always
  have encoded : encodeMessages fewTexts twoMessages = .ok _ := rfl
  obtain ⟨results, drained, -⟩ := always fewTexts twoMessages _ kept_twoMessages encoded
  obtain ⟨full, m', -, stays⟩ := decodeCalls_encoded (kept_twoMessages _ List.mem_cons_self) encoded
  exact full (congrArg Prod.snd ((stays 2).symm.trans drained))

end Zumic.Pubsub
