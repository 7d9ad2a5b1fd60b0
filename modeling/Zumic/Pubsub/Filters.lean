/- What the filters of a subscriber (`subscriber.rs`) accept, as sets of messages, against the
checks of the code; the leaf for messages with metadata has the polarity of its opposite. -/

import Zumic.Pubsub.Subscriber

namespace Zumic.Pubsub

open Lib.Utf8

variable {Json : Type}

/-- What a leaf of a filter asks of a message. -/
inductive TypeLeaf where
  | payloadType (types : List PayloadType)
  | withMetadata
  | withoutMetadata
  deriving DecidableEq

def TypeLeaf.Accepts (m : Message Json) : TypeLeaf → Prop
  | .payloadType types => Pubsub.payloadType m.payload ∈ types
  | .withMetadata => m.metadata.isSome
  | .withoutMetadata => m.metadata.isNone

namespace MessageTypeFilter

/-- The leaves from left to right. -/
def leaves : MessageTypeFilter → List TypeLeaf
  | .payloadType types => [.payloadType types]
  | .withMetadata => [.withMetadata]
  | .withoutMetadata => [.withoutMetadata]
  | .combined f1 f2 => f1.leaves ++ f2.leaves

def Accepts (f : MessageTypeFilter) (m : Message Json) : Prop :=
  ∀ leaf ∈ f.leaves, leaf.Accepts m

/-- Some leaf on the payload turns the message away. -/
def RejectsPayload (f : MessageTypeFilter) (m : Message Json) : Prop :=
  ∃ types, TypeLeaf.payloadType types ∈ f.leaves ∧ Pubsub.payloadType m.payload ∉ types

/-- Some leaf is on metadata, of either kind. -/
def OnMetadata (f : MessageTypeFilter) : Prop :=
  TypeLeaf.withMetadata ∈ f.leaves ∨ TypeLeaf.withoutMetadata ∈ f.leaves

theorem rejectsPayload_combined (f1 f2 : MessageTypeFilter) (m : Message Json) :
    (combined f1 f2).RejectsPayload m ↔ f1.RejectsPayload m ∨ f2.RejectsPayload m := by
  simp only [RejectsPayload, leaves, List.mem_append, or_and_right, exists_or]

theorem onMetadata_combined (f1 f2 : MessageTypeFilter) :
    (combined f1 f2).OnMetadata ↔ f1.OnMetadata ∨ f2.OnMetadata := by
  simp only [OnMetadata, leaves, List.mem_append]
  tauto

theorem accepts_iff (f : MessageTypeFilter) (m : Message Json) :
    f.Accepts m ↔ ¬ f.RejectsPayload m ∧
      (TypeLeaf.withMetadata ∈ f.leaves → m.metadata.isSome) ∧
      (TypeLeaf.withoutMetadata ∈ f.leaves → m.metadata.isNone) := by
  constructor
  · intro accepted
    refine ⟨?_, fun member => accepted _ member, fun member => accepted _ member⟩
    rintro ⟨types, member, missing⟩
    exact missing (accepted _ member)
  · rintro ⟨payload, present, absent⟩ leaf member
    cases leaf with
    | payloadType types =>
      by_contra missing
      exact payload ⟨types, member, missing⟩
    | withMetadata => exact present member
    | withoutMetadata => exact absent member

end MessageTypeFilter

open MessageTypeFilter in
/-- The check of the code; both leaves on metadata ask that there is none. -/
theorem checkMessageTypeFilter_iff (m : Message Json) (f : MessageTypeFilter) :
    checkMessageTypeFilter m f = true ↔
      ¬ f.RejectsPayload m ∧ (f.OnMetadata → m.metadata.isNone) := by
  induction f with
  | payloadType types =>
    simp [checkMessageTypeFilter, RejectsPayload, OnMetadata, leaves]
  | withMetadata => simp [checkMessageTypeFilter, RejectsPayload, OnMetadata, leaves]
  | withoutMetadata => simp [checkMessageTypeFilter, RejectsPayload, OnMetadata, leaves]
  | combined f1 f2 ih1 ih2 =>
    rw [checkMessageTypeFilter, Bool.and_eq_true, ih1, ih2, rejectsPayload_combined,
      onMetadata_combined]
    tauto

theorem checkMessageTypeFilter_correct_iff (m : Message Json) (f : MessageTypeFilter) :
    (checkMessageTypeFilter m f = true ↔ f.Accepts m) ↔
      TypeLeaf.withMetadata ∉ f.leaves ∨ f.RejectsPayload m ∨
        m.metadata.isSome ∧ TypeLeaf.withoutMetadata ∈ f.leaves := by
  rw [checkMessageTypeFilter_iff, MessageTypeFilter.accepts_iff, MessageTypeFilter.OnMetadata]
  cases metadata : m.metadata with
  | none =>
    simp only [Option.isNone_none, Option.isSome_none]
    tauto
  | some d =>
    simp only [Option.isNone_some, Option.isSome_some]
    tauto

structure SizeFilter.Accepts (f : SizeFilter) (size : Nat) : Prop where
  atLeast : ∀ minSize ∈ f.minSize, minSize ≤ size
  atMost : ∀ maxSize ∈ f.maxSize, size ≤ maxSize

theorem SizeFilter.check_iff (f : SizeFilter) (size : Nat) :
    f.check size = true ↔ f.Accepts size := by
  simp only [SizeFilter.check, Bool.and_eq_true, Option.all_eq_true, decide_eq_true_eq]
  exact ⟨fun ⟨least, most⟩ => ⟨least, most⟩, fun ⟨least, most⟩ => ⟨least, most⟩⟩

/-- What a filter asks of metadata. -/
structure MetadataFilter.Accepts (f : MetadataFilter) (d : MessageMetadata) : Prop where
  headers : ∀ header ∈ f.requiredHeaders, d.headers.containsKey header
  messageId : ∀ isMatch ∈ f.messageIdPattern, ∃ id, d.messageId = some id ∧ isMatch id
  time : ∀ range ∈ f.timeRange, ∃ t, d.timestamp = some t ∧ range.1 ≤ t ∧ t ≤ range.2

theorem checkMetadataFilter_iff (m : Message Json) (f : MetadataFilter) :
    checkMetadataFilter m f = true ↔ ∃ d, m.metadata = some d ∧ f.Accepts d := by
  unfold checkMetadataFilter
  cases m.metadata with
  | none => simp
  | some d =>
    simp only [Bool.and_eq_true, List.all_eq_true, Option.all_eq_true, Option.any_eq_true,
      decide_eq_true_eq, Option.some.injEq, exists_eq_left']
    constructor
    · rintro ⟨⟨headers, messageId⟩, time⟩
      exact ⟨headers, messageId, time⟩
    · rintro ⟨headers, messageId, time⟩
      exact ⟨⟨headers, messageId⟩, time⟩

/-- The text of a payload that patterns look at. -/
def patternText : MessagePayload Json → Option Str
  | .string content => some content
  | .bytes b => Str.fromUtf8 b
  | _ => none

theorem matchesPatterns_iff (isMatch : Str → Bool) (payload : MessagePayload Json) :
    matchesPatterns isMatch payload = true ↔
      ∃ content, patternText payload = some content ∧ isMatch content := by
  cases payload with
  | bytes b => cases text : Str.fromUtf8 b <;> simp [matchesPatterns, patternText, text]
  | string content => simp [matchesPatterns, patternText]
  | json v => simp [matchesPatterns, patternText]
  | serialized data contentType => simp [matchesPatterns, patternText]

variable (serde : SerdeJson Json)

/-- The keys of a payload that is an object. -/
def payloadKeys : MessagePayload Json → Option (List Str)
  | .json v => serde.objectKeys v
  | _ => none

theorem hasKeys_iff (required : List Str) (payload : MessagePayload Json) :
    hasKeys serde required payload = true ↔
      ∃ keys, payloadKeys serde payload = some keys ∧ ∀ key ∈ required, key ∈ keys := by
  cases payload with
  | json v => cases keys : serde.objectKeys v <;> simp [hasKeys, payloadKeys, keys]
  | bytes b => simp [hasKeys, payloadKeys]
  | string content => simp [hasKeys, payloadKeys]
  | serialized data contentType => simp [hasKeys, payloadKeys]

/-- No allowed kinds of payload are all kinds. -/
structure ContentFilter.Accepts (f : ContentFilter) (payload : MessagePayload Json) : Prop where
  kind : f.allowedPayloadTypes = [] ∨ payloadType payload ∈ f.allowedPayloadTypes
  text : ∀ isMatch ∈ f.stringPatterns,
    ∃ content, patternText payload = some content ∧ isMatch content
  keys : ∀ required ∈ f.jsonKeyFilter,
    ∃ keys, payloadKeys serde payload = some keys ∧ ∀ key ∈ required, key ∈ keys

theorem checkContentFilter_iff (m : Message Json) (f : ContentFilter) :
    checkContentFilter serde m f = true ↔ f.Accepts serde m.payload := by
  simp only [checkContentFilter, Bool.and_eq_true, Bool.or_eq_true, Option.all_eq_true,
    List.isEmpty_iff, List.contains_iff_mem, matchesPatterns_iff, hasKeys_iff]
  constructor
  · rintro ⟨⟨kind, text⟩, keys⟩
    exact ⟨kind, text, keys⟩
  · rintro ⟨kind, text, keys⟩
    exact ⟨⟨kind, text⟩, keys⟩

/-- A setting that is not made accepts every message. -/
structure MessageFilters.Accepts (f : MessageFilters Json) (m : Message Json) : Prop where
  size : ∀ filter ∈ f.sizeFilter, filter.Accepts (m.size serde)
  metadata : ∀ filter ∈ f.metadataFilter, ∃ d, m.metadata = some d ∧ filter.Accepts d
  content : ∀ filter ∈ f.contentFilter, filter.Accepts serde m.payload
  custom : ∀ filter ∈ f.customFilter, filter m = true

theorem Subscriber.shouldProcessMessage_iff (s : Subscriber Json) (m : Message Json) :
    s.shouldProcessMessage serde m = true ↔ s.filters.Accepts serde m ∧
      ∀ f ∈ s.options.messageTypeFilter, checkMessageTypeFilter m f = true := by
  simp only [Subscriber.shouldProcessMessage, Bool.and_eq_true, Option.all_eq_true,
    SizeFilter.check_iff, checkMetadataFilter_iff, checkContentFilter_iff]
  constructor
  · rintro ⟨⟨⟨⟨size, metadata⟩, content⟩, custom⟩, kind⟩
    exact ⟨⟨size, metadata, content, custom⟩, kind⟩
  · rintro ⟨⟨size, metadata, content, custom⟩, kind⟩
    exact ⟨⟨⟨⟨size, metadata⟩, content⟩, custom⟩, kind⟩

/-- The checks are what the filters say exactly where no leaf for messages with metadata decides. -/
theorem filters_mean_what_they_say_iff :
    (∀ (s : Subscriber Json) (m : Message Json),
      s.shouldProcessMessage serde m = true ↔ s.filters.Accepts serde m ∧
        ∀ f ∈ s.options.messageTypeFilter, checkMessageTypeFilter m f = true) ∧
    ∀ (m : Message Json) (f : MessageTypeFilter),
      (checkMessageTypeFilter m f = true ↔ f.Accepts m) ↔
        TypeLeaf.withMetadata ∉ f.leaves ∨ f.RejectsPayload m ∨
          m.metadata.isSome ∧ TypeLeaf.withoutMetadata ∈ f.leaves :=
  ⟨Subscriber.shouldProcessMessage_iff serde, checkMessageTypeFilter_correct_iff⟩

/-- A message without metadata passes the filter for messages with metadata. -/
theorem withMetadata_accepts_plain_message :
    ¬ ∀ (m : Message Unit) (f : MessageTypeFilter),
      checkMessageTypeFilter m f = true ↔ f.Accepts m := by
  intro correct
  have plain := correct ⟨Str.lit "news", .bytes [1], none⟩ .withMetadata
  have accepted := plain.mp rfl
  have metadata := accepted .withMetadata (List.mem_singleton_self _)
  cases metadata

end Zumic.Pubsub
