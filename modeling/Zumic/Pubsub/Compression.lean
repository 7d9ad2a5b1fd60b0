/- When compression at the broker is visible to a subscriber that decompresses. -/

import Zumic.Pubsub.Broker
import Zumic.Pubsub.Conservation

namespace Zumic.Pubsub

open Lib.ByteString Lib.Utf8

/-- What is compressed can be restored. -/
def Gzip.Lawful (gzip : Gzip) : Prop := ∀ b, gzip.decode (gzip.encode b) = some b

variable {Json : Type} (serde : SerdeJson Json) (gzip : Gzip)

/-- The same configuration with compression enabled or disabled. -/
def BrokerConfig.compressing (config : BrokerConfig) (enabled : Bool) : BrokerConfig :=
  { config with enableCompression := enabled }

/-- A payload and how it is published. -/
structure Publication (Json : Type) where
  payload : MessagePayload Json
  options : PublishOptions
  now : UInt64

namespace Publication

def message (p : Publication Json) (channel : Str) (payload : MessagePayload Json) : Message Json :=
  p.options.message channel p.now payload

/-- The message with the payload as it was published. -/
def plain (p : Publication Json) (channel : Str) : Message Json := p.message channel p.payload

/-- The message with the bytes of the payload in gzip form. -/
def zipped (p : Publication Json) (channel : Str) (bytes : Bytes) : Message Json :=
  p.message channel (.serialized (gzip.encode bytes) (Str.lit "application/gzip"))

end Publication

namespace Subscriber

/-- The subscriber after its channel sent a message. -/
def deliver (s : Subscriber Json) (m : Message Json) : Subscriber Json :=
  { s with receiver := { s.receiver with coming := s.receiver.coming ++ [.message m] } }

/-- An open subscription with nothing to read. -/
structure Waits (s : Subscriber Json) : Prop where
  buffer : s.popBuffer = none
  coming : s.receiver.coming = []
  isOpen : s.receiver.closed = false

/-- The subscriber after a publication by a broker with this configuration. -/
def afterPublish (config : BrokerConfig) (s : Subscriber Json) (channel : Str)
    (p : Publication Json) : Subscriber Json :=
  match config.prepare serde gzip p.options channel p.now p.payload with
  | .ok sent => s.deliver sent.1
  | .error _ => s

/-- What the subscriber then gets when it waits, and when it only looks. -/
def awaited (config : BrokerConfig) (s : Subscriber Json) (channel : Str) (p : Publication Json) :
    Outcome (Message Json) :=
  ((afterPublish serde gzip config s channel p).recv serde gzip).1

def polled (config : BrokerConfig) (s : Subscriber Json) (channel : Str) (p : Publication Json) :
    Except TryRecvError (Message Json) :=
  ((afterPublish serde gzip config s channel p).tryRecv serde gzip).1

end Subscriber

/-- Whether decompression gives back the kind and the content of a payload. -/
def MessagePayload.Restored : MessagePayload Json → Prop
  | .bytes _ => True
  | .string _ => False
  | .json _ => False
  | .serialized data contentType =>
      contentType = Str.lit "application/gzip" ∧ gzip.decode data = some data

/-- The filters judge the payload and its gzip form alike, and what they let pass is restored. -/
structure Unnoticed (s : Subscriber Json) (channel : Str) (p : Publication Json) : Prop where
  judged : s.shouldProcessMessage serde (p.plain channel) = true ↔
    ∃ bytes, p.payload.toBytes serde = .ok bytes ∧
      s.shouldProcessMessage serde (p.zipped gzip channel bytes) = true
  restored : s.shouldProcessMessage serde (p.plain channel) = true → p.payload.Restored gzip

/-- The broker sends the payload as it is, whether compression is enabled or not. -/
def SentPlain (config : BrokerConfig) (p : Publication Json) : Prop :=
  config.checkSize (p.payload.len serde) ≠ .ok () ∨
    config.overThreshold p.options (p.payload.len serde) = false

namespace Message

theorem withHeader_payload (m : Message Json) (key value : Str) (payload : MessagePayload Json) :
    { m with payload := payload }.withHeader key value =
      { m.withHeader key value with payload := payload } := rfl

end Message

theorem foldl_withHeader_payload (entries : List (Str × Str)) (m : Message Json)
    (payload : MessagePayload Json) :
    entries.foldl (fun m entry => m.withHeader entry.1 entry.2) { m with payload := payload } =
      { entries.foldl (fun m entry => m.withHeader entry.1 entry.2) m with payload := payload } := by
  induction entries generalizing m with
  | nil => rfl
  | cons entry entries ih =>
      simp only [List.foldl_cons]
      rw [Message.withHeader_payload]
      exact ih (m.withHeader entry.1 entry.2)

namespace PublishOptions

theorem stamp_payload (options : PublishOptions) (now : UInt64) (m : Message Json)
    (payload : MessagePayload Json) :
    options.stamp now { m with payload := payload } =
      { options.stamp now m with payload := payload } := by
  unfold stamp
  cases options.addTimestamp with
  | true => rfl
  | false => rfl

theorem addHeaders_payload (options : PublishOptions) (m : Message Json)
    (payload : MessagePayload Json) :
    options.addHeaders { m with payload := payload } =
      { options.addHeaders m with payload := payload } := by
  unfold addHeaders
  cases options.headers with
  | none => rfl
  | some headers => exact foldl_withHeader_payload headers.entries m payload

theorem message_payload (options : PublishOptions) (channel : Str) (now : UInt64)
    (payload payload' : MessagePayload Json) :
    options.message channel now payload' =
      { options.message channel now payload with payload := payload' } := by
  have stamped := options.stamp_payload now (Message.withPayload channel payload) payload'
  have headed := options.addHeaders_payload
    (options.stamp now (Message.withPayload channel payload)) payload'
  exact (congrArg options.addHeaders stamped).trans headed

theorem payload_message (options : PublishOptions) (channel : Str) (now : UInt64)
    (payload : MessagePayload Json) : (options.message channel now payload).payload = payload :=
  congrArg Message.payload (options.message_payload channel now payload payload)

end PublishOptions

variable {serde gzip}

theorem Publication.payload_message (p : Publication Json) (channel : Str)
    (payload : MessagePayload Json) : (p.message channel payload).payload = payload :=
  p.options.payload_message channel p.now payload

theorem Publication.message_payload (p : Publication Json) (channel : Str)
    (payload payload' : MessagePayload Json) :
    { p.message channel payload with payload := payload' } = p.message channel payload' :=
  (p.options.message_payload channel p.now payload payload').symm

namespace BrokerConfig

variable (config : BrokerConfig) (p : Publication Json) (channel : Str)

theorem prepare_plain (size : config.checkSize (p.payload.len serde) = .ok ())
    (raw : (config.enableCompression &&
      config.overThreshold p.options (p.payload.len serde)) = false) :
    config.prepare serde gzip p.options channel p.now p.payload = .ok (p.plain channel, false) := by
  have shrunk : config.shrink serde gzip p.options p.payload = .ok (p.payload, false) := by
    unfold shrink
    rw [raw]
    rfl
  unfold prepare
  rw [size, shrunk]
  rfl

theorem prepare_zipped (size : config.checkSize (p.payload.len serde) = .ok ())
    (packs : (config.enableCompression &&
      config.overThreshold p.options (p.payload.len serde)) = true) {bytes : Bytes}
    (read : p.payload.toBytes serde = .ok bytes) :
    config.prepare serde gzip p.options channel p.now p.payload =
      .ok (p.zipped gzip channel bytes, true) := by
  have shrunk : config.shrink serde gzip p.options p.payload =
      .ok (.serialized (gzip.encode bytes) (Str.lit "application/gzip"), true) := by
    unfold shrink compressPayload
    rw [packs, read]
    rfl
  unfold prepare
  rw [size, shrunk]
  rfl

theorem prepare_unreadable (size : config.checkSize (p.payload.len serde) = .ok ())
    (packs : (config.enableCompression &&
      config.overThreshold p.options (p.payload.len serde)) = true) {e : RecvError}
    (unread : p.payload.toBytes serde = .error e) :
    config.prepare serde gzip p.options channel p.now p.payload = .error e := by
  have shrunk : config.shrink serde gzip p.options p.payload = .error e := by
    unfold shrink compressPayload
    rw [packs, unread]
    rfl
  unfold prepare
  rw [size, shrunk]
  rfl

theorem prepare_tooLarge {e : RecvError} (size : config.checkSize (p.payload.len serde) = .error e) :
    config.prepare serde gzip p.options channel p.now p.payload = .error e := by
  unfold prepare
  rw [size]
  rfl

end BrokerConfig

namespace Subscriber

variable {s : Subscriber Json}

theorem decompressIfNeeded_gzip (data : Bytes) :
    decompressIfNeeded gzip
      (.serialized data (Str.lit "application/gzip") : MessagePayload Json) =
        (gzip.decode data).elim (.error .closed) fun restored => .ok (.bytes restored) := by
  simp only [decompressIfNeeded, if_true]
  cases gzip.decode data with
  | none => rfl
  | some restored => rfl

theorem decompressIfNeeded_other (data : Bytes) {contentType : Str}
    (other : contentType ≠ Str.lit "application/gzip") :
    decompressIfNeeded gzip (.serialized data contentType : MessagePayload Json) =
      .ok (.serialized data contentType) := by
  simp only [decompressIfNeeded, if_neg other]

theorem decompressIfNeeded_zipped (lawful : gzip.Lawful) (bytes : Bytes) :
    decompressIfNeeded gzip
      (.serialized (gzip.encode bytes) (Str.lit "application/gzip") : MessagePayload Json) =
        .ok (.bytes bytes) := by
  rw [decompressIfNeeded_gzip, lawful bytes]
  rfl

theorem decompressIfNeeded_ne_empty (payload : MessagePayload Json) :
    decompressIfNeeded gzip payload ≠ .error .empty := by
  cases payload with
  | bytes b => simp [decompressIfNeeded]
  | string text => simp [decompressIfNeeded]
  | json v => simp [decompressIfNeeded]
  | serialized data contentType =>
      by_cases packed : contentType = Str.lit "application/gzip"
      · subst packed
        rw [decompressIfNeeded_gzip]
        cases gzip.decode data with
        | none => simp
        | some restored => simp
      · rw [decompressIfNeeded_other data packed]
        simp

theorem processMessage_ne_empty (s : Subscriber Json) (m : Message Json) :
    s.processMessage serde gzip m ≠ .error .empty := by
  unfold processMessage
  cases s.options.enableCompression with
  | false =>
      intro lost
      cases lost
  | true =>
      intro lost
      have nonempty : decompressIfNeeded gzip m.payload ≠ .error .empty :=
        decompressIfNeeded_ne_empty m.payload
      cases result : decompressIfNeeded gzip m.payload with
      | ok payload =>
          rw [result] at lost
          cases lost
      | error e =>
          rw [result] at lost nonempty
          simp only [if_true, bind, Except.bind, Except.error.injEq] at lost
          exact nonempty (congrArg Except.error lost)

theorem popBuffer_deliver (empty : s.popBuffer = none) (m : Message Json) :
    (s.deliver m).popBuffer = none := by
  have same : (s.deliver m).messageBuffer = s.messageBuffer := rfl
  unfold popBuffer at empty ⊢
  rw [same]
  cases buffered : s.messageBuffer with
  | none => rfl
  | some rest =>
      cases rest with
      | nil => rfl
      | cons first rest =>
          rw [buffered] at empty
          cases empty

theorem tryRecv_deliver (waits : s.Waits) (m : Message Json) :
    ((s.deliver m).tryRecv serde gzip).1 =
      if s.shouldProcessMessage serde m then s.processMessage serde gzip m else .error .empty := by
  have front : (s.deliver m).popBuffer = none := popBuffer_deliver waits.buffer m
  have coming : (s.deliver m).receiver.coming = [.message m] := by
    simp only [deliver, waits.coming, List.nil_append]
  have opened : (s.deliver m).receiver.closed = false := waits.isOpen
  unfold tryRecv
  rw [front, coming]
  have judged : ((s.deliver m).took m []).shouldProcessMessage serde m =
      s.shouldProcessMessage serde m := rfl
  have processed : ((s.deliver m).took m []).processMessage serde gzip m =
      s.processMessage serde gzip m := rfl
  unfold tryRecvInternal accept
  rw [judged, processed]
  cases s.shouldProcessMessage serde m with
  | true =>
      cases s.processMessage serde gzip m with
      | ok processed => rfl
      | error e => rfl
  | false =>
      have closed : (((s.deliver m).took m []).countFiltered).receiver.closed = false := opened
      simp [tryRecvInternal, closed]

/-- What a call that waits comes to where one that only looks has this result. -/
def Outcome.ofTry {α : Type} : Except TryRecvError α → Outcome α
  | .ok a => .returned (.ok a)
  | .error .empty => .waiting
  | .error .closed => .returned (.error .closed)
  | .error (.lagged count) => .returned (.error (.lagged count))

theorem recv_deliver (waits : s.Waits) (m : Message Json) :
    ((s.deliver m).recv serde gzip).1 = .ofTry ((s.deliver m).tryRecv serde gzip).1 := by
  have front : (s.deliver m).popBuffer = none := popBuffer_deliver waits.buffer m
  have coming : (s.deliver m).receiver.coming = [.message m] := by
    simp only [deliver, waits.coming, List.nil_append]
  have opened : (s.deliver m).receiver.closed = false := waits.isOpen
  have nonempty : s.processMessage serde gzip m ≠ .error .empty := processMessage_ne_empty s m
  have judged : ((s.deliver m).took m []).shouldProcessMessage serde m =
      s.shouldProcessMessage serde m := rfl
  have processed : ((s.deliver m).took m []).processMessage serde gzip m =
      s.processMessage serde gzip m := rfl
  unfold recv tryRecv
  rw [front, coming]
  unfold recvInternal tryRecvInternal accept
  rw [judged, processed]
  cases s.shouldProcessMessage serde m with
  | true =>
      cases result : s.processMessage serde gzip m with
      | ok payload => rfl
      | error e =>
          rw [result] at nonempty
          cases e with
          | empty => exact absurd rfl nonempty
          | closed => rfl
          | lagged count => rfl
  | false =>
      have closed : (((s.deliver m).took m []).countFiltered).receiver.closed = false := opened
      simp [recvInternal, tryRecvInternal, closed, Outcome.ofTry]

theorem recv_waits (waits : s.Waits) :
    (s.recv serde gzip).1 = .ofTry (s.tryRecv serde gzip).1 := by
  unfold recv tryRecv
  rw [waits.buffer, waits.coming]
  simp [recvInternal, tryRecvInternal, waits.isOpen, Outcome.ofTry]

theorem tryRecv_waits (waits : s.Waits) : (s.tryRecv serde gzip).1 = .error .empty := by
  unfold tryRecv
  rw [waits.buffer, waits.coming]
  simp [tryRecvInternal, waits.isOpen]

theorem processMessage_message (decompresses : s.options.enableCompression = true)
    (p : Publication Json) (channel : Str) (payload : MessagePayload Json) :
    s.processMessage serde gzip (p.message channel payload) =
      (decompressIfNeeded gzip payload).map fun restored =>
        p.message channel (autoDeserialize serde s.options.autoDeserializeJson restored) := by
  unfold processMessage
  rw [decompresses, p.payload_message]
  cases decompressIfNeeded gzip payload with
  | error e => rfl
  | ok restored =>
      exact congrArg Except.ok (p.message_payload channel payload
        (autoDeserialize serde s.options.autoDeserializeJson restored))

theorem restored_iff {payload : MessagePayload Json} {bytes : Bytes}
    (read : payload.toBytes serde = .ok bytes) (automatic : Bool) :
    (decompressIfNeeded gzip payload).map (autoDeserialize serde automatic) =
      .ok (.bytes bytes) ↔ payload.Restored gzip := by
  cases payload with
  | bytes b =>
      simp only [MessagePayload.toBytes, Except.ok.injEq] at read
      subst read
      simp [decompressIfNeeded, Except.map, autoDeserialize, MessagePayload.Restored]
  | string text =>
      have other : autoDeserialize serde automatic (.string text) ≠ .bytes bytes := by
        unfold autoDeserialize
        cases automatic with
        | false => simp
        | true =>
            simp only [if_true]
            cases serde.fromStr text with
            | ok v => simp
            | error e => simp
      simp [decompressIfNeeded, Except.map, other, MessagePayload.Restored]
  | json v =>
      simp [decompressIfNeeded, Except.map, autoDeserialize, MessagePayload.Restored]
  | serialized data contentType =>
      simp only [MessagePayload.toBytes, Except.ok.injEq] at read
      subst read
      by_cases packed : contentType = Str.lit "application/gzip"
      · subst packed
        rw [decompressIfNeeded_gzip]
        cases decoded : gzip.decode data with
        | none => simp [Except.map, MessagePayload.Restored, decoded]
        | some restored => simp [Except.map, autoDeserialize, MessagePayload.Restored, decoded]
      · rw [decompressIfNeeded_other data packed]
        simp [Except.map, autoDeserialize, MessagePayload.Restored, packed]

section

variable {config : BrokerConfig} {channel : Str} {p : Publication Json}

theorem polled_plain (waits : s.Waits)
    (size : config.checkSize (p.payload.len serde) = .ok ())
    (raw : (config.enableCompression &&
      config.overThreshold p.options (p.payload.len serde)) = false) :
    polled serde gzip config s channel p =
      if s.shouldProcessMessage serde (p.plain channel) then
        s.processMessage serde gzip (p.plain channel)
      else .error .empty := by
  unfold polled afterPublish
  rw [config.prepare_plain p channel size raw]
  exact tryRecv_deliver waits (p.plain channel)

theorem polled_zipped (lawful : gzip.Lawful) (waits : s.Waits)
    (decompresses : s.options.enableCompression = true)
    (size : config.checkSize (p.payload.len serde) = .ok ())
    (packs : (config.enableCompression &&
      config.overThreshold p.options (p.payload.len serde)) = true) {bytes : Bytes}
    (read : p.payload.toBytes serde = .ok bytes) :
    polled serde gzip config s channel p =
      if s.shouldProcessMessage serde (p.zipped gzip channel bytes) then
        .ok (p.message channel (.bytes bytes))
      else .error .empty := by
  have restored : s.processMessage serde gzip (p.zipped gzip channel bytes) =
      .ok (p.message channel (.bytes bytes)) := by
    have processed : s.processMessage serde gzip (p.zipped gzip channel bytes) = _ :=
      processMessage_message decompresses p channel
        (.serialized (gzip.encode bytes) (Str.lit "application/gzip"))
    rw [decompressIfNeeded_zipped lawful] at processed
    exact processed
  unfold polled afterPublish
  rw [config.prepare_zipped p channel size packs read, ← restored]
  exact tryRecv_deliver waits (p.zipped gzip channel bytes)

theorem polled_failed (waits : s.Waits) {e : RecvError}
    (failed : config.prepare serde gzip p.options channel p.now p.payload = .error e) :
    polled serde gzip config s channel p = .error .empty := by
  unfold polled afterPublish
  rw [failed]
  exact tryRecv_waits waits

end

theorem unnoticed_of_unreadable {channel : Str} {p : Publication Json} {e : RecvError}
    (unread : p.payload.toBytes serde = .error e) :
    Unnoticed serde gzip s channel p ↔ ¬ s.shouldProcessMessage serde (p.plain channel) = true := by
  constructor
  · intro unnoticed passes
    obtain ⟨bytes, read, -⟩ := unnoticed.judged.mp passes
    rw [unread] at read
    cases read
  · intro rejected
    refine ⟨⟨fun passes => absurd passes rejected, ?_⟩, fun passes => absurd passes rejected⟩
    rintro ⟨bytes, read, -⟩
    rw [unread] at read
    cases read

theorem unnoticed_of_readable {channel : Str} {p : Publication Json} {bytes : Bytes}
    (read : p.payload.toBytes serde = .ok bytes) :
    Unnoticed serde gzip s channel p ↔
      (s.shouldProcessMessage serde (p.plain channel) = true ↔
        s.shouldProcessMessage serde (p.zipped gzip channel bytes) = true) ∧
      (s.shouldProcessMessage serde (p.plain channel) = true → p.payload.Restored gzip) := by
  have only : (∃ bytes, p.payload.toBytes serde = .ok bytes ∧
      s.shouldProcessMessage serde (p.zipped gzip channel bytes) = true) ↔
      s.shouldProcessMessage serde (p.zipped gzip channel bytes) = true := by
    constructor
    · rintro ⟨bytes', read', passes⟩
      rw [read] at read'
      cases read'
      exact passes
    · intro passes
      exact ⟨bytes, read, passes⟩
  constructor
  · intro unnoticed
    exact ⟨unnoticed.judged.trans only, unnoticed.restored⟩
  · rintro ⟨alike, restored⟩
    exact ⟨alike.trans only.symm, restored⟩

theorem processMessage_plain_iff (decompresses : s.options.enableCompression = true)
    {channel : Str} {p : Publication Json} {bytes : Bytes}
    (read : p.payload.toBytes serde = .ok bytes) :
    s.processMessage serde gzip (p.plain channel) = .ok (p.message channel (.bytes bytes)) ↔
      p.payload.Restored gzip := by
  have restored : _ ↔ p.payload.Restored gzip :=
    restored_iff read s.options.autoDeserializeJson
  have processed : s.processMessage serde gzip (p.plain channel) = _ :=
    processMessage_message decompresses p channel p.payload
  rw [processed, ← restored]
  cases decompressIfNeeded gzip p.payload with
  | error e => simp [Except.map]
  | ok payload =>
      simp only [Except.map, Except.ok.injEq]
      constructor
      · intro same
        have payloads := congrArg Message.payload same
        rw [p.payload_message, p.payload_message] at payloads
        exact payloads
      · intro same
        rw [same]

theorem polled_compressing_iff (lawful : gzip.Lawful) {config : BrokerConfig} (waits : s.Waits)
    (decompresses : s.options.enableCompression = true) {channel : Str} {p : Publication Json}
    (size : config.checkSize (p.payload.len serde) = .ok ())
    (packs : config.overThreshold p.options (p.payload.len serde) = true) :
    polled serde gzip (config.compressing true) s channel p =
      polled serde gzip (config.compressing false) s channel p ↔
        Unnoticed serde gzip s channel p := by
  have plain : polled serde gzip (config.compressing false) s channel p = _ :=
    polled_plain waits size rfl
  have enabled : ((config.compressing true).enableCompression &&
      (config.compressing true).overThreshold p.options (p.payload.len serde)) = true := packs
  have nonempty : s.processMessage serde gzip (p.plain channel) ≠ .error .empty :=
    processMessage_ne_empty s (p.plain channel)
  rw [plain]
  cases read : p.payload.toBytes serde with
  | error e =>
      have failed : polled serde gzip (config.compressing true) s channel p = _ :=
        polled_failed waits ((config.compressing true).prepare_unreadable p channel size enabled read)
      rw [failed, unnoticed_of_unreadable read]
      constructor
      · intro same passes
        rw [if_pos passes] at same
        exact nonempty same.symm
      · intro rejected
        rw [if_neg rejected]
  | ok bytes =>
      have sized : (config.compressing true).checkSize (p.payload.len serde) = .ok () := size
      have zipped : polled serde gzip (config.compressing true) s channel p = _ :=
        polled_zipped lawful waits decompresses sized enabled read
      have processed : s.processMessage serde gzip (p.plain channel) =
          .ok (p.message channel (.bytes bytes)) ↔ p.payload.Restored gzip :=
        processMessage_plain_iff decompresses read
      rw [zipped, unnoticed_of_readable read, ← processed]
      by_cases before : s.shouldProcessMessage serde (p.plain channel) = true
      · by_cases after : s.shouldProcessMessage serde (p.zipped gzip channel bytes) = true
        · rw [if_pos before, if_pos after]
          exact ⟨fun same => ⟨iff_of_true before after, fun _ => same.symm⟩,
            fun unnoticed => (unnoticed.2 before).symm⟩
        · rw [if_pos before, if_neg after]
          constructor
          · intro same
            exact absurd same.symm nonempty
          · rintro ⟨alike, -⟩
            exact absurd (alike.mp before) after
      · by_cases after : s.shouldProcessMessage serde (p.zipped gzip channel bytes) = true
        · rw [if_neg before, if_pos after]
          constructor
          · intro same
            cases same
          · rintro ⟨alike, -⟩
            exact absurd (alike.mpr after) before
        · rw [if_neg before, if_neg after]
          exact ⟨fun _ => ⟨iff_of_false before after, fun passes => absurd passes before⟩,
            fun _ => rfl⟩

/-- No filters on messages and none on their kinds. -/
structure Unfiltered (s : Subscriber Json) : Prop where
  filters : s.filters = .default
  kinds : s.options.messageTypeFilter = none

theorem Unfiltered.passes (bare : s.Unfiltered) (m : Message Json) :
    s.shouldProcessMessage serde m = true := by
  unfold shouldProcessMessage
  rw [bare.filters, bare.kinds]
  rfl

theorem Unfiltered.unnoticed_iff (bare : s.Unfiltered) {channel : Str} {p : Publication Json}
    {bytes : Bytes} (read : p.payload.toBytes serde = .ok bytes) :
    Unnoticed serde gzip s channel p ↔ p.payload.Restored gzip := by
  rw [unnoticed_of_readable read]
  constructor
  · rintro ⟨-, restored⟩
    exact restored (bare.passes _)
  · intro restored
    exact ⟨iff_of_true (bare.passes _) (bare.passes _), fun _ => restored⟩

end Subscriber

theorem Subscriber.polled_alike_iff (lawful : gzip.Lawful) (config : BrokerConfig)
    {s : Subscriber Json} (waits : s.Waits) (decompresses : s.options.enableCompression = true)
    (channel : Str) (p : Publication Json) :
    Subscriber.polled serde gzip (config.compressing true) s channel p =
      Subscriber.polled serde gzip (config.compressing false) s channel p ↔
        SentPlain serde config p ∨ Unnoticed serde gzip s channel p := by
  cases size : config.checkSize (p.payload.len serde) with
  | error e =>
      have failed : ∀ enabled,
          Subscriber.polled serde gzip (config.compressing enabled) s channel p = .error .empty :=
        fun enabled => Subscriber.polled_failed waits
          ((config.compressing enabled).prepare_tooLarge p channel size)
      have plain : SentPlain serde config p := by
        left
        rw [size]
        simp
      rw [failed true, failed false]
      exact iff_of_true rfl (.inl plain)
  | ok _ =>
      cases packs : config.overThreshold p.options (p.payload.len serde) with
      | false =>
          have sent : ∀ enabled,
              Subscriber.polled serde gzip (config.compressing enabled) s channel p =
                if s.shouldProcessMessage serde (p.plain channel) then
                  s.processMessage serde gzip (p.plain channel)
                else .error .empty := by
            intro enabled
            have sized : (config.compressing enabled).checkSize (p.payload.len serde) = .ok () :=
              size
            have raw : ((config.compressing enabled).enableCompression &&
                (config.compressing enabled).overThreshold p.options (p.payload.len serde)) =
                  false := by
              have same : (config.compressing enabled).overThreshold p.options
                  (p.payload.len serde) = false := packs
              rw [same, Bool.and_false]
            exact Subscriber.polled_plain waits sized raw
          rw [sent true, sent false]
          exact iff_of_true rfl (.inl (.inr packs))
      | true =>
          have packed : ¬ SentPlain serde config p := by
            rintro (large | small)
            · exact large size
            · rw [packs] at small
              cases small
          have read : _ ↔ Unnoticed serde gzip s channel p :=
            Subscriber.polled_compressing_iff lawful waits decompresses size packs
          rw [read]
          constructor
          · exact .inr
          · rintro (plain | unnoticed)
            · exact absurd plain packed
            · exact unnoticed

theorem Subscriber.awaited_eq (config : BrokerConfig) {s : Subscriber Json} (waits : s.Waits)
    (channel : Str) (p : Publication Json) :
    awaited serde gzip config s channel p = .ofTry (polled serde gzip config s channel p) := by
  unfold awaited polled afterPublish
  cases config.prepare serde gzip p.options channel p.now p.payload with
  | ok sent => exact recv_deliver waits sent.1
  | error e => exact recv_waits waits

/-- Whether a broker compresses is invisible exactly when it sends the payload plain anyway, or the
filters judge both forms alike and what they let pass is raw bytes. -/
theorem compression_transparent_iff (lawful : gzip.Lawful) (config : BrokerConfig)
    {s : Subscriber Json} (waits : s.Waits) (decompresses : s.options.enableCompression = true)
    (channel : Str) (p : Publication Json) :
    (Subscriber.awaited serde gzip (config.compressing true) s channel p =
        Subscriber.awaited serde gzip (config.compressing false) s channel p ∧
      Subscriber.polled serde gzip (config.compressing true) s channel p =
        Subscriber.polled serde gzip (config.compressing false) s channel p) ↔
      SentPlain serde config p ∨ Unnoticed serde gzip s channel p := by
  have polled : _ ↔ SentPlain serde config p ∨ Unnoticed serde gzip s channel p :=
    Subscriber.polled_alike_iff lawful config waits decompresses channel p
  rw [← polled]
  constructor
  · rintro ⟨-, same⟩
    exact same
  · intro same
    refine ⟨?_, same⟩
    rw [Subscriber.awaited_eq _ waits, Subscriber.awaited_eq _ waits, same]

/-- The bytes of `hello` and the stream that gzip makes of them. -/
def hello : Bytes := [0x68, 0x65, 0x6C, 0x6C, 0x6F]

def zippedHello : Bytes := [0x1F, 0x8B, 0x08, 0x00, 0x00, 0x00, 0x00, 0x00, 0x00, 0xFF, 0xCB, 0x48,
  0xCD, 0xC9, 0xC9, 0x07, 0x00, 0x86, 0xA6, 0x10, 0x36, 0x05, 0x00, 0x00, 0x00]

/-- Gzip on `hello`; other data is framed by a zero. -/
def helloGzip : Gzip where
  encode b := if b = hello then zippedHello else 0 :: b
  decode
    | 0 :: b => some b
    | data => if data = zippedHello then some hello else none

theorem helloGzip_lawful : helloGzip.Lawful := by
  intro b
  by_cases known : b = hello
  · subst known
    rfl
  · simp [helloGzip, known]

/-- A broker that compresses whatever is longer than one byte. -/
def eagerConfig : BrokerConfig := { BrokerConfig.default with compressionThreshold := 1 }

def idleSubscriber : Subscriber Unit := Subscriber.new ⟨[], false, []⟩ (Str.lit "c1") .default

theorem idleSubscriber_waits : idleSubscriber.Waits := ⟨rfl, rfl, rfl⟩

theorem idleSubscriber_unfiltered : idleSubscriber.Unfiltered := ⟨rfl, rfl⟩

def plainPublication (payload : MessagePayload Unit) : Publication Unit := ⟨payload, .default, 0⟩

theorem bytes_transparent :
    Subscriber.awaited nullSerde helloGzip (eagerConfig.compressing true) idleSubscriber
        (Str.lit "c1") (plainPublication (.bytes hello)) =
      Subscriber.awaited nullSerde helloGzip (eagerConfig.compressing false) idleSubscriber
        (Str.lit "c1") (plainPublication (.bytes hello)) ∧
    Subscriber.polled nullSerde helloGzip (eagerConfig.compressing true) idleSubscriber
        (Str.lit "c1") (plainPublication (.bytes hello)) =
      Subscriber.polled nullSerde helloGzip (eagerConfig.compressing false) idleSubscriber
        (Str.lit "c1") (plainPublication (.bytes hello)) :=
  (compression_transparent_iff helloGzip_lawful eagerConfig idleSubscriber_waits rfl (Str.lit "c1")
    (plainPublication (.bytes hello))).mpr
      (.inr ((idleSubscriber_unfiltered.unnoticed_iff rfl).mpr trivial))

/-- A text comes out as bytes. -/
theorem text_not_transparent :
    ¬ ∀ (serde : SerdeJson Unit) (gzip : Gzip) (config : BrokerConfig) (s : Subscriber Unit)
      (channel : Str) (p : Publication Unit),
      gzip.Lawful → s.Waits → s.options.enableCompression = true →
        Subscriber.awaited serde gzip (config.compressing true) s channel p =
            Subscriber.awaited serde gzip (config.compressing false) s channel p ∧
          Subscriber.polled serde gzip (config.compressing true) s channel p =
            Subscriber.polled serde gzip (config.compressing false) s channel p := by
  intro always
  have same := (always nullSerde helloGzip eagerConfig idleSubscriber (Str.lit "c1")
    (plainPublication (.string (Str.lit "hello"))) helloGzip_lawful idleSubscriber_waits rfl).2
  have noticed := (Subscriber.polled_alike_iff helloGzip_lawful eagerConfig idleSubscriber_waits rfl
    (Str.lit "c1") (plainPublication (.string (Str.lit "hello")))).mp same
  rcases noticed with (large | small) | unnoticed
  · exact large rfl
  · revert small
    decide
  · exact (idleSubscriber_unfiltered.unnoticed_iff rfl).mp unnoticed

end Zumic.Pubsub
