/- From a value to the frame of a reply (`serializer.rs`). -/

import Zumic.Database.Value
import Zumic.Lib.Masking
import Zumic.Zsp.RoundTrip

namespace Zumic.Server

open Database Lib Lib.ByteString Lib.Masking Lib.Utf8 Zsp

/-- What stands for a key that is not text. -/
def invalidUtf8Key : Str := Str.lit "<invalid utf8>"

/-- The text of a key of a hash or a sorted set. -/
def keyText (k : Sds) : Str := (Str.fromUtf8 k).getD invalidUtf8Key

/-- A member of a set: as an inline string where it can stand on a line. -/
def memberFrame (item : Sds) : ZspFrame :=
  match Str.fromUtf8 item with
  | some s => if 13 ∉ s.bytes ∧ 10 ∉ s.bytes then .inlineString s else .binaryString (some item)
  | none => .binaryString (some item)

mutual

def valueToFrame : Value → ZspFrame
  | .str s => .binaryString (some s)
  | .int i => .integer i
  | .float f => .float f
  | .bool b => .bool b
  | .null => .null
  | .list list => .array (list.map fun item => .binaryString (some item))
  | .array arr => .array (valuesToFrames arr)
  | .hash smart =>
      .dictionary (collect (smart.map fun e => (keyText e.1, .binaryString (some e.2))))
  | .zset dict _ => .zset (dict.map fun e => (keyText e.1, e.2))
  | .set set => .set ((set.map memberFrame).foldl ZspFrame.hashSetInsert [])
  | .bitmap bmp => .binaryString (some bmp)
  | .hyperLogLog _ => .inlineString (Str.lit "HLL(NotImplemented)")
  | .sstream _ => .inlineString (Str.lit "SStream(NotImplemented)")

def valuesToFrames : List Value → List ZspFrame
  | [] => []
  | v :: arr => valueToFrame v :: valuesToFrames arr

end

/-- Two values of one kind, of the kinds whose contents are sent. -/
def SameKind : Value → Value → Prop
  | .str _, .str _ => True
  | .list _, .list _ => True
  | .hash _, .hash _ => True
  | .set _, .set _ => True
  | .zset _ _, .zset _ _ => True
  | .bitmap _, .bitmap _ => True
  | _, _ => False

section

variable {γ : Type} (seen : F64 → γ)

/-- The same contents. Scores are compared by what is `seen` of them. -/
def SameContents : Value → Value → Prop
  | .str s, .str s' => s = s'
  | .list l, .list l' => l = l'
  | .hash m, .hash m' => ∀ k, Assoc.get m k = Assoc.get m' k
  | .set m, .set m' => ∀ item, item ∈ m ↔ item ∈ m'
  | .zset dict _, .zset dict' _ =>
      (dict.map fun e => (e.1, seen e.2)).Perm (dict'.map fun e => (e.1, seen e.2))
  | .bitmap b, .bitmap b' => b = b'
  | _, _ => False

/-- The same reply: dictionaries and sets as maps and sets, pairs as a multiset. -/
def SameValueFrame : ZspFrame → ZspFrame → Prop
  | .dictionary m, .dictionary m' => ∀ k, Assoc.get m k = Assoc.get m' k
  | .set m, .set m' => ∀ f, f ∈ m ↔ f ∈ m'
  | .zset l, .zset l' =>
      (l.map fun e => (e.1, seen e.2)).Perm (l'.map fun e => (e.1, seen e.2))
  | f, f' => f = f'

def Value.entryCount : Value → Nat
  | .str s => s.length
  | .list l => l.length
  | .hash m => m.length
  | .set m => m.length
  | .zset dict _ => dict.length
  | .bitmap b => b.length
  | _ => 0

def frameEntryCount : ZspFrame → Nat
  | .binaryString (some b) => b.length
  | .array items => items.length
  | .dictionary m => m.length
  | .set m => m.length
  | .zset l => l.length
  | _ => 0

/-- Nothing of the two values is lost in their replies. -/
structure Lossless (v w : Value) : Prop where
  injective : SameValueFrame seen (valueToFrame v) (valueToFrame w) → SameContents seen v w
  count : frameEntryCount (valueToFrame v) = Value.entryCount v
  count' : frameEntryCount (valueToFrame w) = Value.entryCount w

/-- A key that is not text, or is the text that stands for such keys. -/
def illegible (k : Sds) : Bool := Str.fromUtf8 k = none ∨ k = invalidUtf8Key.bytes

/-- Of the keys of a hash at most one is illegible, and the two hashes, or sorted sets, do not
differ in the names of such keys alone. -/
def Legible : Value → Value → Prop
  | .hash m, .hash m' =>
      (masked illegible m).length ≤ 1 ∧ (masked illegible m').length ≤ 1 ∧
        ¬ MaskedApart illegible m m'
  | .zset dict _, .zset dict' _ =>
      ¬ MaskedApart illegible (dict.map fun e => (e.1, seen e.2))
        (dict'.map fun e => (e.1, seen e.2))
  | _, _ => True

end

theorem masks_keyText : Masks illegible keyText invalidUtf8Key Str.bytes := by
  constructor
  · intro k
    simp only [illegible, keyText, decide_eq_true_eq]
    cases read : Str.fromUtf8 k with
    | none => simp
    | some s =>
        have bytes := Str.bytes_of_fromUtf8 read
        subst bytes
        simp only [reduceCtorEq, false_or, Option.getD_some]
        exact ⟨Str.ext_bytes, congrArg Str.bytes⟩
  · intro k legible
    simp only [illegible, decide_eq_false_iff_not, not_or] at legible
    obtain ⟨s, read⟩ := Option.ne_none_iff_exists'.mp legible.1
    rw [keyText, read, Option.getD_some, Str.bytes_of_fromUtf8 read]

/-- The bytes of a string frame. -/
def frameBytes : ZspFrame → Bytes
  | .inlineString s => s.bytes
  | .binaryString (some b) => b
  | _ => []

theorem frameBytes_memberFrame (item : Sds) : frameBytes (memberFrame item) = item := by
  unfold memberFrame
  split
  · rename_i s read
    split_ifs
    · exact Str.bytes_of_fromUtf8 read
    · rfl
  · rfl

theorem memberFrame_injective : Function.Injective memberFrame :=
  Function.LeftInverse.injective frameBytes_memberFrame

/-- A hash set takes the frames of different members for different members. -/
theorem sameMember_memberFrame {a b : Sds} (different : a ≠ b) :
    ZspFrame.sameMember (memberFrame a) (memberFrame b) = false := by
  have form (item : Sds) : (∃ s, memberFrame item = .inlineString s) ∨
      memberFrame item = .binaryString (some item) := by
    unfold memberFrame
    split
    · split_ifs
      · exact .inl ⟨_, rfl⟩
      · exact .inr rfl
    · exact .inr rfl
  have apart : memberFrame a ≠ memberFrame b := memberFrame_injective.ne different
  rcases form a with ⟨s, left⟩ | left <;> rcases form b with ⟨t, right⟩ | right
  all_goals
    rw [left, right] at apart ⊢
    simp_all [ZspFrame.sameMember, ZspFrame.sameHash]

theorem valueToFrame_set {members : List Sds} (distinct : members.Nodup) :
    valueToFrame (.set members) = .set (members.map memberFrame) := by
  have apart : ([] ++ members.map memberFrame).Pairwise
      fun a b => ZspFrame.sameMember a b = false := by
    rw [List.nil_append, List.pairwise_map]
    exact distinct.imp sameMember_memberFrame
  rw [valueToFrame, foldl_hashSetInsert apart, List.nil_append]

/-- The entries of the dictionary of a hash, before they are collected. -/
def dictionaryEntries (m : List (Sds × Sds)) : List (Str × ZspFrame) :=
  m.map fun e => (keyText e.1, .binaryString (some e.2))

theorem dictionaryEntries_eq (m : List (Sds × Sds)) :
    dictionaryEntries m = (m.map (named keyText)).map fun e => (e.1, .binaryString (some e.2)) := by
  simp [dictionaryEntries, named, Function.comp_def]

theorem dictionaryEntries_perm {m m' : List (Sds × Sds)} :
    (dictionaryEntries m).Perm (dictionaryEntries m') ↔
      (m.map (named keyText)).Perm (m'.map (named keyText)) := by
  have injective : Function.Injective
      fun e : Str × Sds => (e.1, ZspFrame.binaryString (some e.2)) := by
    rintro ⟨k, b⟩ ⟨k', b'⟩ same
    simpa using same
  rw [dictionaryEntries_eq, dictionaryEntries_eq, List.map_perm_map_iff injective]

theorem keys_dictionaryEntries {m : List (Sds × Sds)} (distinct : (Assoc.keys m).Nodup) :
    (Assoc.keys (dictionaryEntries m)).Nodup ↔ (masked illegible m).length ≤ 1 := by
  have keys : Assoc.keys (dictionaryEntries m) = Assoc.keys (m.map (named keyText)) := by
    simp [dictionaryEntries, Assoc.keys, named, Function.comp_def]
  rw [keys, nodup_named_iff masks_keyText distinct]

theorem frameEntryCount_hash {m : List (Sds × Sds)} (distinct : (Assoc.keys m).Nodup) :
    frameEntryCount (valueToFrame (.hash m)) = m.length ↔ (masked illegible m).length ≤ 1 := by
  have listed : (dictionaryEntries m).length = m.length := List.length_map _
  rw [← keys_dictionaryEntries distinct, ← length_collect_iff, listed]
  rfl

theorem hash_told_iff {m m' : List (Sds × Sds)} (distinct : (Assoc.keys m).Nodup)
    (distinct' : (Assoc.keys m').Nodup) (alone : (masked illegible m).length ≤ 1)
    (alone' : (masked illegible m').length ≤ 1) :
    ((∀ k, Assoc.get (collect (dictionaryEntries m)) k =
        Assoc.get (collect (dictionaryEntries m')) k) → ∀ k, Assoc.get m k = Assoc.get m' k) ↔
      ¬ MaskedApart illegible m m' := by
  have names := (keys_dictionaryEntries distinct).mpr alone
  have names' := (keys_dictionaryEntries distinct').mpr alone'
  rw [collect_eq names, collect_eq names', ← told_apart_iff masks_keyText]
  have replies : (∀ k, Assoc.get (dictionaryEntries m) k = Assoc.get (dictionaryEntries m') k) ↔
      (m.map (named keyText)).Perm (m'.map (named keyText)) := by
    rw [← dictionaryEntries_perm]
    exact ⟨Assoc.perm_of_get names names', fun same k => Assoc.get_of_perm same names k⟩
  have contents : (∀ k, Assoc.get m k = Assoc.get m' k) ↔ m.Perm m' :=
    ⟨Assoc.perm_of_get distinct distinct', fun same k => Assoc.get_of_perm same distinct k⟩
  rw [replies, contents]

section

variable {γ : Type} (seen : F64 → γ)

theorem lossless_hash_iff {m m' : List (Sds × Sds)} (distinct : (Assoc.keys m).Nodup)
    (distinct' : (Assoc.keys m').Nodup) :
    Lossless seen (.hash m) (.hash m') ↔ Legible seen (.hash m) (.hash m') := by
  constructor
  · rintro ⟨injective, count, count'⟩
    have alone := (frameEntryCount_hash distinct).mp count
    have alone' := (frameEntryCount_hash distinct').mp count'
    exact ⟨alone, alone', (hash_told_iff distinct distinct' alone alone').mp injective⟩
  · rintro ⟨alone, alone', told⟩
    exact ⟨(hash_told_iff distinct distinct' alone alone').mpr told,
      (frameEntryCount_hash distinct).mpr alone, (frameEntryCount_hash distinct').mpr alone'⟩

theorem lossless_set {m m' : List Sds} (distinct : m.Nodup) (distinct' : m'.Nodup) :
    Lossless seen (.set m) (.set m') := by
  refine ⟨?_, ?_, ?_⟩
  · rw [valueToFrame_set distinct, valueToFrame_set distinct']
    intro same item
    have frames := same (memberFrame item)
    rwa [List.mem_map_of_injective memberFrame_injective,
      List.mem_map_of_injective memberFrame_injective] at frames
  · simp [valueToFrame_set distinct, frameEntryCount, Value.entryCount]
  · simp [valueToFrame_set distinct', frameEntryCount, Value.entryCount]

theorem lossless_zset_iff (dict dict' : List (Sds × F64)) (sorted sorted' : List (F64 × Sds)) :
    Lossless seen (.zset dict sorted) (.zset dict' sorted') ↔
      Legible seen (.zset dict sorted) (.zset dict' sorted') := by
  have pairs (dict : List (Sds × F64)) :
      (dict.map fun e => (keyText e.1, e.2)).map (fun e => (e.1, seen e.2)) =
        (dict.map fun e => (e.1, seen e.2)).map (named keyText) := by
    simp [named, Function.comp_def]
  have told := told_apart_iff masks_keyText (l := dict.map fun e => (e.1, seen e.2))
    (m := dict'.map fun e => (e.1, seen e.2))
  rw [← pairs, ← pairs] at told
  constructor
  · rintro ⟨injective, -, -⟩
    exact told.mp injective
  · intro legible
    exact ⟨told.mpr legible, List.length_map _, List.length_map _⟩

/-- Replies lose nothing, but for the names of the illegible keys of hashes and sorted sets. -/
theorem lossless_iff (v w : Value) (same : SameKind v w) (wf : v.wfNode = true)
    (wf' : w.wfNode = true) : Lossless seen v w ↔ Legible seen v w := by
  match v, w, same with
  | .str s, .str s', _ =>
      refine iff_of_true ⟨?_, rfl, rfl⟩ trivial
      intro reply
      simpa [valueToFrame, SameValueFrame, SameContents] using reply
  | .list l, .list l', _ =>
      refine iff_of_true ⟨?_, List.length_map _, List.length_map _⟩ trivial
      intro reply
      have injective : Function.Injective fun item : Sds => ZspFrame.binaryString (some item) := by
        intro a b equal
        simpa using equal
      have frames : l.map (fun item => ZspFrame.binaryString (some item)) =
          l'.map fun item => ZspFrame.binaryString (some item) := by
        simpa [valueToFrame, SameValueFrame] using reply
      exact injective.list_map frames
  | .hash m, .hash m', _ =>
      exact lossless_hash_iff seen (by simpa [Value.wfNode] using wf)
        (by simpa [Value.wfNode] using wf')
  | .set m, .set m', _ =>
      refine iff_of_true (lossless_set seen ?_ ?_) trivial
      · simpa [Value.wfNode] using wf
      · simpa [Value.wfNode] using wf'
  | .zset dict sorted, .zset dict' sorted', _ =>
      exact lossless_zset_iff seen dict dict' sorted sorted'
  | .bitmap b, .bitmap b', _ =>
      refine iff_of_true ⟨?_, rfl, rfl⟩ trivial
      intro reply
      simpa [valueToFrame, SameValueFrame, SameContents] using reply

end

/-- Two hashes of two entries, with one key each that is not text. -/
theorem lossless_iff_hash :
    Lossless id (.hash [([255], [1]), ([107], [2])]) (.hash [([255], [3]), ([107], [2])]) := by
  have legible : Legible id (.hash [([255], [1]), ([107], [2])])
      (.hash [([255], [3]), ([107], [2])]) := by
    refine ⟨by decide, by decide, ?_⟩
    intro apart
    exact absurd apart.2.1 (by decide)
  have same : SameKind (.hash [([255], [1]), ([107], [2])]) (.hash [([255], [3]), ([107], [2])]) :=
    trivial
  exact (lossless_iff id _ _ same (by decide) (by decide)).mpr legible

/-- Two keys that are not text are one key of the reply, and it does not tell apart two sorted sets
of one such member each. -/
theorem not_lossless_invalidUtf8 :
    ¬ Lossless id (.hash [([255], [1]), ([254], [2])]) (.hash [([255], [1]), ([254], [2])]) ∧
      ¬ Lossless id (.zset [([255], ⟨0⟩)] [(⟨0⟩, [255])])
        (.zset [([254], ⟨0⟩)] [(⟨0⟩, [254])]) := by
  constructor
  · intro lossless
    exact absurd lossless.count (by decide)
  · intro lossless
    have same : ([([255], ⟨0⟩)] : List (Sds × F64)).Perm [([254], ⟨0⟩)] :=
      lossless.injective (List.Perm.refl _)
    exact absurd same (by decide)

end Zumic.Server
