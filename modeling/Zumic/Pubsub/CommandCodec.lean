/- The commands of the publish and subscribe system as ZSP frames (`zsp_integration.rs`). -/

import Zumic.Pubsub.ZspIntegration

namespace Zumic.Pubsub

open Lib.ByteString Lib.Utf8 Zsp

inductive PubSubCommand (Json : Type) where
  | subscribe (channels : List Str)
  | unsubscribe (channels : List Str)
  | publish (channel : Str) (payload : MessagePayload Json)

/-- A slice of strings. A string takes 24 bytes and no slice more than `isize::MAX`. -/
structure Names where
  list : List Str
  fits : list.length * 24 < 2 ^ 63

variable {Json : Type} (serde : SerdeJson Json)

def encodeComponents (components : List ZspFrame) : Except RecvError Bytes :=
  match encode (.array components) with
  | .ok encoded => .ok encoded
  | .error e => .error (ZspIntegrationError.encode e).toRecvError

/-- The frame of a command on channels. -/
def channelComponents (command : String) (channels : List Str) : List ZspFrame :=
  .inlineString (Str.lit command) :: channels.map fun channel => .binaryString (some channel.bytes)

def encodeSubscribe (channels : Names) : Except RecvError Bytes :=
  encodeComponents (channelComponents "SUBSCRIBE" channels.list)

def encodeUnsubscribe (channels : Names) : Except RecvError Bytes :=
  encodeComponents (channelComponents "UNSUBSCRIBE" channels.list)

/-- The components of a payload. A value without a text fails the call. -/
def publishedComponents : MessagePayload Json → Except RecvError (List ZspFrame)
  | .bytes b => .ok [.inlineString (Str.lit "BYTES"), .binaryString (some b)]
  | .string s => .ok [.inlineString (Str.lit "STRING"), .binaryString (some s.bytes)]
  | .json v =>
      match serde.toString v with
      | .ok text => .ok [.inlineString (Str.lit "JSON"), .binaryString (some text.bytes)]
      | .error e => .error (.serializationError e)
  | .serialized data contentType =>
      .ok [.inlineString (Str.lit "SERIALIZED"), .binaryString (some contentType.bytes),
        .binaryString (some data)]

def encodePublish (channel : Str) (payload : MessagePayload Json) : Except RecvError Bytes := do
  let components ← publishedComponents serde payload
  encodeComponents (.inlineString (Str.lit "PUBLISH") :: .binaryString (some channel.bytes) ::
    components)

def commandError {α : Type} (message : String) : Except RecvError α :=
  .error (.serializationError (Str.lit message))

def extractBytes (frame : ZspFrame) : Except RecvError Bytes :=
  (extractBinaryString frame).mapError ZspIntegrationError.toRecvError

def utf8Text (b : Bytes) : Except RecvError Str :=
  match Str.fromUtf8 b with
  | some s => .ok s
  | none => .error (.serializationError (utf8ErrorText b))

def readChannels (frames : List ZspFrame) : Except RecvError (List Str) := do
  let names ← frames.mapM extractBytes
  pure (names.map Str.lossy)

/-- The payload of the given kind, in upper case. Components that follow it are passed over. -/
def readPublished (kind : Bytes) (first : ZspFrame) (rest : List ZspFrame) :
    Except RecvError (MessagePayload Json) :=
  if kind = bytesOf "BYTES" then do
    let d ← extractBytes first
    pure (.bytes d)
  else if kind = bytesOf "STRING" then do
    let d ← extractBytes first
    let s ← utf8Text d
    pure (.string s)
  else if kind = bytesOf "JSON" then do
    let d ← extractBytes first
    let s ← utf8Text d
    let v ← (serde.fromStr s).mapError .serializationError
    pure (.json v)
  else if kind = bytesOf "SERIALIZED" then
    match rest with
    | [] => commandError "SERIALIZED requires content_type and data"
    | second :: _ => do
        let ct ← extractBytes first
        let d ← extractBytes second
        pure (.serialized d (Str.lossy ct))
  else .error (.serializationError (Str.lit "Unknown payload type: " ++ Str.lossy kind))

def readPublish : List ZspFrame → Except RecvError (PubSubCommand Json)
  | channel :: payload :: rest => do
      let channel ← extractBytes channel
      match rest with
      | [] => do
          let d ← extractBytes payload
          pure (.publish (Str.lossy channel) (.bytes d))
      | first :: rest =>
          match payload with
          | .inlineString kind => do
              let payload ← readPublished serde (upper kind.bytes) first rest
              pure (.publish (Str.lossy channel) payload)
          | _ => commandError "Payload type must be string"
  | _ => commandError "PUBLISH requires channel and payload"

/-- The command of the given name, in upper case. -/
def readCommand (name : Bytes) (args : List ZspFrame) : Except RecvError (PubSubCommand Json) :=
  if name = bytesOf "SUBSCRIBE" then do
    let channels ← readChannels args
    pure (.subscribe channels)
  else if name = bytesOf "UNSUBSCRIBE" then do
    let channels ← readChannels args
    pure (.unsubscribe channels)
  else if name = bytesOf "PUBLISH" then readPublish serde args
  else .error (.serializationError (Str.lit "Unknown command: " ++ Str.lossy name))

def frameToCommand : ZspFrame → Except RecvError (PubSubCommand Json)
  | .array (.inlineString s :: args) => readCommand serde (upper s.bytes) args
  | .array (.binaryString (some b) :: args) => readCommand serde (upper (lossy b)) args
  | .array (_ :: _) => commandError "Invalid command format"
  | _ => commandError "Expected array command"

/-- One call: its result, and what it leaves in the buffer. -/
def decodeCommand (data : Bytes) : Except RecvError (Option (PubSubCommand Json)) × Bytes :=
  if data = [] then (.ok none, data)
  else
    match decode .initial data with
    | .error e => (.error (ZspIntegrationError.decode e).toRecvError, data)
    | .ok ((none, _), _) => (.ok none, data)
    | .ok ((some frame, _), slice) =>
        let consumed := data.length - slice.length
        match frameToCommand serde frame with
        | .ok command => (.ok (some command), data.drop consumed)
        | .error e => (.error e, data)

/-- A value is read back from its text. -/
def SerdeJson.RoundTrips : Prop :=
  ∀ v text, serde.toString v = .ok text → serde.fromStr text = .ok v

variable {serde}

/-- A component of a command is a string of either form. -/
def IsString (f : ZspFrame) : Prop := (∃ s, f = .inlineString s) ∨ ∃ b, f = .binaryString (some b)

theorem decode_components {components : List ZspFrame} (strings : ∀ f ∈ components, IsString f)
    (fits : components.length < 2 ^ 63) {b : Bytes} (encoded : encodeComponents components = .ok b)
    (t : Bytes) : decode .initial (b ++ t) = .ok ((some (.array components), .initial), t) := by
  have encoded' : encode (.array components) = .ok b := by
    unfold encodeComponents at encoded
    split at encoded
    · rename_i b' frame
      rw [frame, Except.ok.inj encoded]
    · cases encoded
  have every {p : ZspFrame → Bool} (whole : p (.array components) = true)
      (inline : ∀ s, p (.inlineString s) = true) (binary : ∀ b, p (.binaryString (some b)) = true) :
      (ZspFrame.array components).all p = true := by
    simp only [ZspFrame.all, whole, Bool.true_and, ZspFrame.allItems_iff]
    intro f member
    rcases strings f member with ⟨s, rfl⟩ | ⟨b, rfl⟩
    · exact inline s
    · exact binary b
  refine decode_encode ?_ ?_ ?_ encoded' t
  · exact every (by simpa [ZspFrame.wfNode] using fits) (fun _ => rfl) fun _ => rfl
  · exact every rfl (fun _ => rfl) fun _ => rfl
  · exact every rfl (fun _ => rfl) fun _ => rfl

theorem decodeCommand_components {components : List ZspFrame}
    (strings : ∀ f ∈ components, IsString f) (fits : components.length < 2 ^ 63) {b : Bytes}
    (encoded : encodeComponents components = .ok b) {command : PubSubCommand Json}
    (read : frameToCommand serde (.array components) = .ok command) (t : Bytes) :
    decodeCommand serde (b ++ t) = (.ok (some command), t) := by
  have decoded := decode_components strings fits encoded t
  have some' : b ++ t ≠ [] := by
    intro empty
    rw [empty] at decoded
    cases decoded
  have consumed : (b ++ t).length - t.length = b.length := by
    rw [List.length_append, Nat.add_sub_cancel]
  simp only [decodeCommand, if_neg some', decoded, read, consumed, List.drop_left]

theorem extractBytes_binary (b : Bytes) : extractBytes (.binaryString (some b)) = .ok b := rfl

theorem lossy_bytes (s : Str) : Str.lossy s.bytes = s :=
  Str.ext_bytes (lossy_of_valid s.valid)

theorem utf8Text_bytes (s : Str) : utf8Text s.bytes = .ok s := by
  rw [utf8Text, Str.fromUtf8_bytes]

theorem readChannels_binary (channels : List Str) :
    readChannels (channels.map fun channel => .binaryString (some channel.bytes)) =
      .ok channels := by
  have names : (channels.map fun channel => ZspFrame.binaryString (some channel.bytes)).mapM
      extractBytes = .ok (channels.map Str.bytes) := by
    induction channels with
    | nil => rfl
    | cons channel channels ih =>
        rw [List.map_cons, List.mapM_cons, ih]
        rfl
  have texts : (channels.map Str.bytes).map Str.lossy = channels := by
    rw [List.map_map]
    exact (List.map_congr_left fun s _ => lossy_bytes s).trans (List.map_id _)
  unfold readChannels
  rw [names]
  show Except.ok ((channels.map Str.bytes).map Str.lossy) = _
  rw [texts]

theorem strings_channelComponents (command : String) (channels : List Str) :
    ∀ f ∈ channelComponents command channels, IsString f := by
  intro f member
  rcases List.mem_cons.mp member with rfl | later
  · exact .inl ⟨_, rfl⟩
  · obtain ⟨channel, -, rfl⟩ := List.mem_map.mp later
    exact .inr ⟨_, rfl⟩

theorem length_channelComponents (command : String) (channels : Names) :
    (channelComponents command channels.list).length < 2 ^ 63 := by
  have fits := channels.fits
  simp only [channelComponents, List.length_cons, List.length_map]
  omega

theorem decodeCommand_subscribe (channels : Names) {b : Bytes}
    (encoded : encodeSubscribe channels = .ok b) (t : Bytes) :
    decodeCommand serde (b ++ t) = (.ok (some (.subscribe channels.list)), t) := by
  refine decodeCommand_components (strings_channelComponents _ _)
    (length_channelComponents _ channels) encoded ?_ t
  have name : upper (Str.lit "SUBSCRIBE").bytes = bytesOf "SUBSCRIBE" := by decide +kernel
  simp only [channelComponents, frameToCommand, name, readCommand, if_true, readChannels_binary]
  rfl

theorem decodeCommand_unsubscribe (channels : Names) {b : Bytes}
    (encoded : encodeUnsubscribe channels = .ok b) (t : Bytes) :
    decodeCommand serde (b ++ t) = (.ok (some (.unsubscribe channels.list)), t) := by
  refine decodeCommand_components (strings_channelComponents _ _)
    (length_channelComponents _ channels) encoded ?_ t
  have name : upper (Str.lit "UNSUBSCRIBE").bytes = bytesOf "UNSUBSCRIBE" := by decide +kernel
  have other : bytesOf "UNSUBSCRIBE" ≠ bytesOf "SUBSCRIBE" := by decide +kernel
  simp only [channelComponents, frameToCommand, name, readCommand, if_neg other, if_true,
    readChannels_binary]
  rfl

theorem upper_kinds : ∀ kind ∈ ["BYTES", "STRING", "JSON", "SERIALIZED"],
    upper (Str.lit kind).bytes = bytesOf kind := by
  decide +kernel

theorem kinds_apart : ["BYTES", "STRING", "JSON", "SERIALIZED"].Pairwise
    fun kind kind' => bytesOf kind' ≠ bytesOf kind := by
  decide +kernel

theorem readPublish_components (roundTrips : serde.RoundTrips) (channel : Str)
    {payload : MessagePayload Json} {components : List ZspFrame}
    (written : publishedComponents serde payload = .ok components) :
    readPublish serde (.binaryString (some channel.bytes) :: components) =
      .ok (.publish channel payload) := by
  have apart := kinds_apart
  simp only [List.pairwise_cons, List.mem_cons, List.not_mem_nil, or_false, forall_eq_or_imp,
    forall_eq] at apart
  obtain ⟨⟨string, json, serialized⟩, ⟨json', serialized'⟩, serialized'', -⟩ := apart
  unfold publishedComponents at written
  cases payload with
  | bytes d =>
      obtain rfl := Except.ok.inj written
      simp only [readPublish, extractBytes_binary, Lib.Buffer.ok_bind, lossy_bytes,
        upper_kinds "BYTES" (by simp), readPublished, if_true]
      rfl
  | string s =>
      obtain rfl := Except.ok.inj written
      simp only [readPublish, extractBytes_binary, Lib.Buffer.ok_bind, lossy_bytes, utf8Text_bytes,
        upper_kinds "STRING" (by simp), readPublished, if_neg string, if_true]
      rfl
  | json v =>
      cases text : serde.toString v with
      | error e =>
          simp only [text] at written
          cases written
      | ok text' =>
          simp only [text] at written
          obtain rfl := Except.ok.inj written
          simp only [readPublish, extractBytes_binary, Lib.Buffer.ok_bind, lossy_bytes, utf8Text_bytes,
            upper_kinds "JSON" (by simp), readPublished, if_neg json, if_neg json', if_true,
            roundTrips v text' text]
          rfl
  | serialized d contentType =>
      obtain rfl := Except.ok.inj written
      simp only [readPublish, extractBytes_binary, Lib.Buffer.ok_bind, lossy_bytes,
        upper_kinds "SERIALIZED" (by simp), readPublished, if_neg serialized, if_neg serialized',
        if_neg serialized'', if_true]
      rfl

theorem strings_publishedComponents {payload : MessagePayload Json} {components : List ZspFrame}
    (written : publishedComponents serde payload = .ok components) :
    (∀ f ∈ components, IsString f) ∧ components.length ≤ 3 := by
  unfold publishedComponents at written
  split at written <;> try split at written
  all_goals try cases written
  all_goals simp [IsString]

theorem decodeCommand_publish (roundTrips : serde.RoundTrips) (channel : Str)
    (payload : MessagePayload Json) {b : Bytes}
    (encoded : encodePublish serde channel payload = .ok b) (t : Bytes) :
    decodeCommand serde (b ++ t) = (.ok (some (.publish channel payload)), t) := by
  unfold encodePublish at encoded
  cases written : publishedComponents serde payload with
  | error e =>
      rw [written] at encoded
      cases encoded
  | ok components =>
      rw [written, Lib.Buffer.ok_bind] at encoded
      obtain ⟨strings, short⟩ := strings_publishedComponents written
      refine decodeCommand_components ?_ ?_ encoded ?_ t
      · intro f member
        rcases List.mem_cons.mp member with rfl | member
        · exact .inl ⟨_, rfl⟩
        rcases List.mem_cons.mp member with rfl | member
        · exact .inr ⟨_, rfl⟩
        · exact strings f member
      · simp only [List.length_cons]
        omega
      · have name : upper (Str.lit "PUBLISH").bytes = bytesOf "PUBLISH" := by decide +kernel
        have others : bytesOf "PUBLISH" ≠ bytesOf "SUBSCRIBE" ∧
            bytesOf "PUBLISH" ≠ bytesOf "UNSUBSCRIBE" := by decide +kernel
        simp only [frameToCommand, name, readCommand, if_neg others.1, if_neg others.2, if_true]
        exact readPublish_components roundTrips channel written

/-- Whatever was encoded is decoded as the same command, and what follows it is left in the
buffer. -/
theorem commands_round_trip (serde : SerdeJson Json) (roundTrips : serde.RoundTrips)
    (b t : Bytes) :
    (∀ (channel : Str) (payload : MessagePayload Json),
        encodePublish serde channel payload = .ok b →
          decodeCommand serde (b ++ t) = (.ok (some (.publish channel payload)), t)) ∧
      (∀ channels : Names, encodeSubscribe channels = .ok b →
        decodeCommand serde (b ++ t) = (.ok (some (.subscribe channels.list)), t)) ∧
      ∀ channels : Names, encodeUnsubscribe channels = .ok b →
        decodeCommand serde (b ++ t) = (.ok (some (.unsubscribe channels.list)), t) := by
  refine ⟨?_, ?_, ?_⟩
  · intro channel payload encoded
    exact decodeCommand_publish roundTrips channel payload encoded t
  · intro channels encoded
    exact decodeCommand_subscribe channels encoded t
  · intro channels encoded
    exact decodeCommand_unsubscribe channels encoded t

theorem roundTrips_fewTexts : fewTexts.RoundTrips := by
  intro v text written
  obtain rfl := Except.ok.inj written
  cases v <;> rfl

/-- A value is published, and the start of another frame follows it. -/
theorem commands_round_trip_json :
    ∃ b, encodePublish fewTexts (Str.lit "c") (.json true) = .ok b ∧
      decodeCommand fewTexts (b ++ bytesOf "*2\r\n") =
        (.ok (some (.publish (Str.lit "c") (.json true))), bytesOf "*2\r\n") := by
  obtain ⟨b, encoded⟩ : ∃ b, encodePublish fewTexts (Str.lit "c") (.json true) = .ok b := ⟨_, rfl⟩
  exact ⟨b, encoded, (commands_round_trip fewTexts roundTrips_fewTexts b _).1 _ _ encoded⟩

end Zumic.Pubsub
