/- Which values the decoder reads back, and as what. -/

import Zumic.Zdb.Codec

namespace Zumic.Zdb

open Database Lib Lib.ByteString Lib.Reader

/-- What is assumed of the compressor. -/
structure Zstd.Lossless (zstd : Zstd) : Prop where
  decompress_compress : ∀ b, zstd.decompress (zstd.compress b) = some b
  compress_ne_nil : ∀ b, zstd.compress b ≠ []

/-- Nodes whose lengths are within the limits of the decoder. -/
def fitsNode : Value → Bool
  | .str s => s.length ≤ maxStringSize
  | .array items => items.length ≤ maxCollectionSize
  | .hash entries => entries.length ≤ maxCollectionSize
      && entries.all fun e => e.1.length ≤ maxStringSize && e.2.length ≤ maxStringSize
  | .zset dict _ => dict.length ≤ maxCollectionSize
      && dict.all fun e => e.1.length ≤ maxStringSize
  | .set members => members.length ≤ maxCollectionSize
      && members.all fun m => m.length ≤ maxStringSize
  | .hyperLogLog hll => hll.encoding.denseData.length ≤ denseArraySize * 2
  | .bitmap bytes => bytes.length ≤ maxBitmapSize
  | _ => true

/-- Sorted sets whose two halves hold the same pairs. -/
def halvesNode : Value → Bool
  | .zset dict sorted => decide (dict.Perm (sorted.map Prod.swap))
  | _ => true

/-- Nodes that are read in the way they are written. The format before the version byte has scores
of four bytes, which are never written, and lower limits. -/
def matchedNode (version : FormatVersion) : Value → Bool
  | .zset dict _ => version ≠ .legacy || dict.isEmpty
  | .hyperLogLog hll => version ≠ .legacy || hll.encoding.denseData.length ≤ denseArraySize
  | .bitmap bytes => version ≠ .legacy || bytes.length ≤ 1024 * 1024
  | _ => true

/-- A sketch as the decoder rebuilds it. -/
def rereadHll (hll : Hll) : Hll :=
  let data := hll.encoding.denseData
  ⟨.dense (data.take denseArraySize ++ List.replicate (denseArraySize - data.length) 0),
    hllSerializationVersion, 0⟩

mutual

/-- What the decoder makes of an encoded value. -/
def reread : Value → Option Value
  | .list _ => none
  | .sstream _ => none
  | .hyperLogLog hll => some (.hyperLogLog (rereadHll hll))
  | .zset _ sorted => some (.zset (sorted.map Prod.swap) sorted)
  | .array items => (rereadItems items).map .array
  | v => some v

def rereadItems : List Value → Option (List Value)
  | [] => some []
  | v :: l => (reread v).bind fun w => (rereadItems l).map fun m => w :: m

end

theorem rereadItems_eq_mapM (l : List Value) : rereadItems l = l.mapM reread := by
  induction l with
  | nil => rfl
  | cons v l ih =>
      rw [rereadItems, ih, List.mapM_cons]
      cases reread v with
      | none => rfl
      | some w => cases l.mapM reread <;> rfl

theorem writeItems_eq_flatMap (version : FormatVersion) (l : List Value) :
    writeItems version l = l.flatMap (writeValueInner version) := by
  induction l with
  | nil => rfl
  | cons v l ih => rw [writeItems, ih, List.flatMap_cons]

theorem ensureSize_of_le {what : String} {index : Option Nat} {size limit : Nat}
    (fits : size ≤ limit) (b : Bytes) : ensureSize what index size limit b = .ok ((), b) := by
  rw [ensureSize, if_pos fits]
  rfl

theorem reads_ensureSize {what : String} {index : Option Nat} {size limit : Nat}
    (fits : size ≤ limit) : Reads (ensureSize what index size limit) [] () :=
  ensureSize_of_le fits

section

variable {version : FormatVersion}

theorem reads_readBlob {b : Bytes} {limit : Nat} (what : String) (index : Option Nat)
    (context : String) (fits : b.length ≤ limit) (word : limit < 2 ^ 32) :
    Reads (readBlob version what index limit context) (writeBlob version b) b := by
  have length := reads_readLength (lt_of_le_of_lt fits word) version
  have checked : Reads (ensureSize what index b.length limit >>= fun _ =>
      Reader.take b.length (ZdbError.io context)) ([] ++ b) b :=
    (reads_ensureSize fits).bind (reads_take _ b)
  exact length.bind checked

theorem reads_readString {b : Bytes} (what : String) (index : Option Nat) (context : String)
    (fits : b.length ≤ maxStringSize) :
    Reads (readBlob version what index maxStringSize context) (writeBlob version b) b :=
  reads_readBlob what index context fits (by decide)

theorem reads_readCount {n : Nat} (what : String) (fits : n ≤ maxCollectionSize) :
    Reads (readCount version what) (writeLength version n) n := by
  have length := reads_readLength (lt_of_le_of_lt fits (by decide)) version
  have checked : Reads (ensureSize what none n maxCollectionSize >>= fun _ =>
      (pure n : ZdbReader Nat)) ([] ++ []) n :=
    (reads_ensureSize fits).bind (reads_pure n)
  have whole : Reads (readCount version what) (writeLength version n ++ ([] ++ [])) n :=
    length.bind checked
  rw [List.append_nil, List.append_nil] at whole
  exact whole

theorem reads_readF64 (f : F64) (context : String) : Reads (readF64 context) (writeF64 f) f := by
  have word : beNat (beBytes 8 f.bits.toNat) = f.bits.toNat :=
    beNat_beBytes_of_lt (by simpa using f.bits.toNat_lt)
  have bits : (⟨UInt64.ofNat (beNat (writeF64 f))⟩ : F64) = f := by
    rw [writeF64, word, UInt64.ofNat_toNat]
  have read := (reads_take_of_length (e := ZdbError.io context)
    (length_beBytes 8 f.bits.toNat)).bind_pure (f := fun b => (⟨UInt64.ofNat (beNat b)⟩ : F64))
  change Reads _ _ (⟨UInt64.ofNat (beNat (writeF64 f))⟩ : F64) at read
  rw [bits] at read
  exact read

theorem reads_readIntValue (i : Int64) :
    Reads readIntValue (beBytes 8 i.toUInt64.toNat) (.int i) := by
  have word : beNat (beBytes 8 i.toUInt64.toNat) = i.toUInt64.toNat :=
    beNat_beBytes_of_lt (by simpa using i.toUInt64.toNat_lt)
  have read := (reads_take_of_length (e := ZdbError.io "Failed to read int value")
    (length_beBytes 8 i.toUInt64.toNat)).bind_pure
      (f := fun b => Value.int (UInt64.ofNat (beNat b)).toInt64)
  rw [word, UInt64.ofNat_toNat, Int64.toInt64_toUInt64] at read
  exact read

theorem reads_readHllValue {hll : Hll}
    (matched : matchedNode version (.hyperLogLog hll) = true)
    (fits : hll.encoding.denseData.length ≤ denseArraySize * 2) :
    Reads (readHllValue version) (writeBlob version hll.encoding.denseData)
      (.hyperLogLog (rereadHll hll)) := by
  have length := reads_readLength (lt_of_le_of_lt fits (by decide)) version
  have data := reads_take (ZdbError.io "Failed to read HLL data") hll.encoding.denseData
  intro t
  rw [writeBlob, List.append_assoc, readHllValue, bind_of_ok (length _)]
  cases version with
  | legacy =>
      have fits' : hll.encoding.denseData.length ≤ denseArraySize := by
        simpa [matchedNode] using matched
      simp only []
      rw [bind_of_ok (ensureSize_of_le fits' _), bind_of_ok (data t)]
      rfl
  | _ =>
      simp only []
      rw [bind_of_ok (ensureSize_of_le fits _), bind_of_ok (data t)]
      rfl

theorem reads_readBitmapValue {b : Bytes} (matched : matchedNode version (.bitmap b) = true)
    (fits : b.length ≤ maxBitmapSize) :
    Reads (readBitmapValue version) (writeBlob version b) (.bitmap b) := by
  have length := reads_readLength (lt_of_le_of_lt fits (by decide)) version
  have data := reads_take (ZdbError.io "Failed to read bitmap data") b
  intro t
  rw [writeBlob, List.append_assoc, readBitmapValue, bind_of_ok (length _)]
  cases version with
  | legacy =>
      have fits' : b.length ≤ 1024 * 1024 := by simpa [matchedNode] using matched
      simp only []
      rw [bind_of_ok (ensureSize_of_le fits' _), bind_of_ok (data t)]
      rfl
  | _ =>
      simp only []
      rw [bind_of_ok (ensureSize_of_le fits _), bind_of_ok (data t)]
      rfl

theorem foldl_members {l set : List Sds} (distinct : (set ++ l).Nodup) :
    l.foldl (fun set m => if m ∈ set then set else set ++ [m]) set = set ++ l := by
  induction l generalizing set with
  | nil => simp
  | cons m l ih =>
      have fresh : m ∉ set := fun member =>
        (List.nodup_append.mp distinct).2.2 _ member _ (by simp) rfl
      rw [List.foldl_cons, if_neg fresh, ih (by simpa using distinct)]
      simp

theorem reads_readSetValue {members : List Sds} (distinct : members.Nodup)
    (count : members.length ≤ maxCollectionSize)
    (fits : ∀ m ∈ members, m.length ≤ maxStringSize) :
    Reads (readSetValue version)
      (writeLength version members.length ++ members.flatMap (writeBlob version))
      (.set members) := by
  have items : Reads (readMany (fun i => readBlob version "Set element at index" (some i)
      maxStringSize "Failed to read set element bytes") members.length)
      (members.flatMap (writeBlob version)) (members.map id) :=
    reads_readMany members fun m member i => reads_readString _ _ _ (fits m member)
  rw [List.map_id] at items
  have folds : members.foldl (fun set m => if m ∈ set then set else set ++ [m]) [] = members :=
    foldl_members distinct
  intro t
  rw [List.append_assoc, readSetValue, bind_of_ok (reads_readCount "Set" count _),
    bind_of_ok (items t), folds]
  rfl

theorem sortedInsert_last {l : List (F64 × Sds)} {score : F64} {member : Sds}
    (above : ∀ e ∈ l, e.1.orderKey < score.orderKey) :
    Value.sortedInsert l score member = l ++ [(score, member)] := by
  induction l with
  | nil => rfl
  | cons e l ih =>
      rw [Value.sortedInsert, if_pos (above e (by simp)),
        ih fun g hg => above g (List.mem_cons_of_mem _ hg)]
      rfl

theorem foldl_sortedInsert {l sorted : List (F64 × Sds)}
    (ascending : (sorted ++ l).Pairwise fun a b => a.1.orderKey < b.1.orderKey) :
    (l.map Prod.swap).foldl (fun sorted e => Value.sortedInsert sorted e.2 e.1) sorted =
      sorted ++ l := by
  induction l generalizing sorted with
  | nil => simp
  | cons e l ih =>
      have above : ∀ g ∈ sorted, g.1.orderKey < e.1.orderKey := fun g hg =>
        (List.pairwise_append.mp ascending).2.2 g hg e (by simp)
      have step : Value.sortedInsert sorted e.1 e.2 = sorted ++ [e] := sortedInsert_last above
      rw [List.map_cons, List.foldl_cons, Prod.fst_swap, Prod.snd_swap, step,
        ih (by simpa using ascending)]
      simp

theorem reads_readZSetScore (modern : version ≠ .legacy) (f : F64) :
    Reads (readZSetScore version) (writeF64 f) f := by
  cases version with
  | legacy => exact absurd rfl modern
  | _ => exact reads_readF64 f _

theorem reads_readZSetValue {dict : List (Sds × F64)} {sorted : List (F64 × Sds)}
    (matched : matchedNode version (.zset dict sorted) = true)
    (halves : dict.Perm (sorted.map Prod.swap)) (distinct : (Assoc.keys dict).Nodup)
    (ascending : sorted.Pairwise fun a b => a.1.orderKey < b.1.orderKey)
    (count : dict.length ≤ maxCollectionSize)
    (fits : ∀ e ∈ dict, e.1.length ≤ maxStringSize) :
    Reads (readZSetValue version)
      (writeLength version dict.length
        ++ sorted.flatMap fun e => writeBlob version e.2 ++ writeF64 e.1)
      (.zset (sorted.map Prod.swap) sorted) := by
  have size : dict.length = sorted.length := by simpa using halves.length_eq
  have entry : ∀ e ∈ sorted, ∀ i, Reads (readZSetEntry version i)
      (writeBlob version e.2 ++ writeF64 e.1) (Prod.swap e) := by
    intro e member i
    have listed : Prod.swap e ∈ dict := halves.symm.subset (List.mem_map_of_mem member)
    have modern : version ≠ .legacy := by
      rintro rfl
      have empty : dict = [] := by simpa [matchedNode] using matched
      rw [empty] at listed
      cases listed
    exact (reads_readString _ _ _ (fits (Prod.swap e) listed)).bind
      (reads_readZSetScore modern e.1).bind_pure
  have items := reads_readMany sorted entry
  have distinct' : (Assoc.keys (sorted.map Prod.swap)).Nodup :=
    (halves.map Prod.fst).nodup_iff.mp distinct
  have dictFolds : (sorted.map Prod.swap).foldl
      (fun dict (e : Sds × F64) => Assoc.insert dict e.1 e.2) [] = sorted.map Prod.swap :=
    Assoc.foldl_insert distinct'
  have sortedFolds : (sorted.map Prod.swap).foldl
      (fun sorted e => Value.sortedInsert sorted e.2 e.1) [] = sorted :=
    foldl_sortedInsert ascending
  intro t
  rw [List.append_assoc, readZSetValue, bind_of_ok (reads_readCount "Zset" count _), size,
    bind_of_ok (items t), dictFolds, sortedFolds]
  rfl

end

/-- A value the source can build, within the limits of the decoder. -/
structure Sound (v : Value) : Prop where
  wf : v.all Value.wfNode = true
  fits : v.all fitsNode = true
  halves : v.all halvesNode = true

theorem Sound.mem_array {l : List Value} {v : Value} (sound : Sound (.array l)) (member : v ∈ l) :
    Sound v := by
  obtain ⟨wf, fits, halves⟩ := sound
  simp only [Value.all, Bool.and_eq_true, Value.allItems_iff] at *
  exact ⟨wf.2 v member, fits.2 v member, halves.2 v member⟩

section

variable {version : FormatVersion} {zstd : Zstd}

theorem reads_tagged {tag : UInt8} {body : Bytes} {w : Value} {depth : Nat}
    (read : Reads (readTagged version zstd (readValueWithVersion version zstd depth) tag) body w) :
    Reads (readValueWithVersion version zstd (depth + 1)) (tag :: body) w :=
  (reads_next _ tag).bind read

theorem fails_tagged {tag : UInt8} {body : Bytes} {depth : Nat}
    (fails : Fails (readTagged version zstd (readValueWithVersion version zstd depth) tag) body) :
    Fails (readValueWithVersion version zstd (depth + 1)) (tag :: body) :=
  (reads_next _ tag).bind_fails fails

theorem reads_str {s : Sds} (fits : s.length ≤ maxStringSize) (depth : Nat) :
    Reads (readValueWithVersion version zstd (depth + 1)) (writeStr version s) (.str s) :=
  reads_tagged (reads_readString _ _ _ fits).bind_pure

theorem reads_readHashValue {entries : List (Sds × Sds)} {depth : Nat}
    (distinct : (Assoc.keys entries).Nodup) (count : entries.length ≤ maxCollectionSize)
    (fits : ∀ e ∈ entries, e.1.length ≤ maxStringSize ∧ e.2.length ≤ maxStringSize) :
    Reads (readHashValue version (readValueWithVersion version zstd (depth + 1)))
      (writeLength version entries.length
        ++ entries.flatMap fun e => writeBlob version e.1 ++ writeStr version e.2)
      (.hash entries) := by
  have items : Reads (readMany (readHashEntry version
      (readValueWithVersion version zstd (depth + 1))) entries.length)
      (entries.flatMap fun e => writeBlob version e.1 ++ writeStr version e.2)
      (entries.map id) := by
    refine reads_readMany entries fun e member i => ?_
    have short := fits e member
    refine (reads_readString _ _ _ short.1).bind fun t => ?_
    rw [bind_of_ok (reads_str short.2 depth t)]
    rfl
  have folds : entries.foldl (fun map e => Assoc.insert map e.1 e.2) [] = entries :=
    Assoc.foldl_insert distinct
  rw [List.map_id] at items
  intro t
  rw [List.append_assoc, readHashValue, bind_of_ok (reads_readCount "Hash" count _),
    bind_of_ok (items t), folds]
  rfl

theorem length_lt_of_item {l : List Value} {v : Value} (member : v ∈ l) (tag : UInt8)
    (head : Bytes) :
    (writeValueInner version v).length < (tag :: head ++ writeItems version l).length := by
  have inside : (writeValueInner version v).length ≤ (writeItems version l).length := by
    rw [writeItems_eq_flatMap]
    exact (List.sublist_flatten_of_mem (List.mem_map_of_mem member)).length_le
  simp only [List.length_append, List.length_cons]
  omega

theorem depth_succ {v : Value} {depth : Nat}
    (enough : (writeValueInner version v).length ≤ depth) : ∃ n, depth = n + 1 := by
  have positive : 0 < (writeValueInner version v).length := by
    cases v <;> simp [writeValueInner, writeStr]
  exact ⟨depth - 1, by omega⟩

theorem length_writeLength_pos {len : Nat} : 0 < (writeLength version len).length := by
  unfold writeLength
  split
  · unfold writeVarint maxVarintLen varintBytes
    split <;> simp
  · simp

theorem matched_of_modern (modern : version ≠ .legacy) (v : Value) :
    v.all (matchedNode version) = true := by
  induction v using Value.induct with
  | array items ih =>
      simp only [Value.all, matchedNode, Bool.true_and, Value.allItems_iff]
      exact ih
  | _ => simp [Value.all, matchedNode, modern]

/-- Given a call for each byte, the decoder makes of an encoded value what `reread` says. -/
theorem reads_writeValueInner {v : Value} (matched : v.all (matchedNode version) = true)
    (sound : Sound v) {depth : Nat} (enough : (writeValueInner version v).length ≤ depth) :
    (∀ w, reread v = some w →
      Reads (readValueWithVersion version zstd depth) (writeValueInner version v) w) ∧
    (reread v = none →
      Fails (readValueWithVersion version zstd depth) (writeValueInner version v)) := by
  obtain ⟨n, rfl⟩ := depth_succ enough
  induction v using Value.induct generalizing n with
  | str s =>
      have fits : s.length ≤ maxStringSize := by
        simpa [Value.all, fitsNode] using sound.fits
      refine ⟨fun w image => ?_, fun none' => absurd none' (by simp [reread])⟩
      obtain rfl : Value.str s = w := by simpa [reread] using image
      rw [writeValueInner]
      exact reads_str fits n
  | int i =>
      refine ⟨fun w image => ?_, fun none' => absurd none' (by simp [reread])⟩
      obtain rfl : Value.int i = w := by simpa [reread] using image
      rw [writeValueInner]
      exact reads_tagged (reads_readIntValue i)
  | float f =>
      refine ⟨fun w image => ?_, fun none' => absurd none' (by simp [reread])⟩
      obtain rfl : Value.float f = w := by simpa [reread] using image
      rw [writeValueInner]
      exact reads_tagged (reads_readF64 f _).bind_pure
  | bool b =>
      refine ⟨fun w image => ?_, fun none' => absurd none' (by simp [reread])⟩
      obtain rfl : Value.bool b = w := by simpa [reread] using image
      rw [writeValueInner]
      cases b with
      | true => exact reads_tagged (reads_next _ 1).bind_pure
      | false => exact reads_tagged (reads_next _ 0).bind_pure
  | null =>
      refine ⟨fun w image => ?_, fun none' => absurd none' (by simp [reread])⟩
      obtain rfl : Value.null = w := by simpa [reread] using image
      rw [writeValueInner]
      exact reads_tagged (reads_pure _)
  | list items =>
      refine ⟨fun w image => absurd image (by simp [reread]), fun _ => ?_⟩
      rw [writeValueInner]
      exact fails_tagged fun t => ⟨_, rfl⟩
  | array items ih =>
      have count : items.length ≤ maxCollectionSize := by
        have fits := sound.fits
        simp only [Value.all, fitsNode, Bool.and_eq_true, decide_eq_true_eq] at fits
        exact fits.1
      have length : Reads (readCount version "Array") (writeLength version items.length)
          items.length := reads_readCount "Array" count
      rw [writeValueInner] at enough ⊢
      have inner : ∀ v ∈ items, (∀ w, reread v = some w →
          Reads (readValueWithVersion version zstd n) (writeValueInner version v) w) ∧
          (reread v = none →
            Fails (readValueWithVersion version zstd n) (writeValueInner version v)) := by
        intro v member
        have shorter : (writeValueInner version v).length <
            (tagArray :: writeLength version items.length ++ writeItems version items).length :=
          length_lt_of_item member _ _
        have short : (writeValueInner version v).length ≤ n := by omega
        obtain ⟨m, rfl⟩ := depth_succ short
        simp only [Value.all, Bool.and_eq_true, Value.allItems_iff] at matched
        exact ih v member (matched.2 v member) (sound.mem_array member) m short
      rw [writeItems_eq_flatMap, reread, rereadItems_eq_mapM]
      constructor
      · intro w image
        obtain ⟨l, images, rfl⟩ := Option.map_eq_some_iff.mp image
        have read := reads_readMany_mapM items
          (fun v member w' image' _ => (inner v member).1 w' image') images
        exact reads_tagged (length.bind read.bind_pure)
      · intro image
        have read := fails_readMany items
          (fun v member w' image' _ => (inner v member).1 w' image')
          (fun v member none' _ => (inner v member).2 none') (Option.map_eq_none_iff.mp image)
        have last := read.bind (f := fun l => (pure (.array l) : ZdbReader Value)) []
        rw [List.append_nil] at last
        exact fails_tagged (length.bind_fails last)
  | hash entries =>
      have wf := sound.wf
      have fits := sound.fits
      simp only [Value.all, Value.wfNode, decide_eq_true_eq] at wf
      simp only [Value.all, fitsNode, Bool.and_eq_true, decide_eq_true_eq, List.all_eq_true] at fits
      refine ⟨fun w image => ?_, fun none' => absurd none' (by simp [reread])⟩
      obtain rfl : Value.hash entries = w := by simpa [reread] using image
      rw [writeValueInner] at enough ⊢
      obtain ⟨m, rfl⟩ : ∃ m, n = m + 1 := by
        have long : 0 < (writeLength version entries.length).length := length_writeLength_pos
        simp only [List.length_append, List.length_cons] at enough
        exact ⟨n - 1, by omega⟩
      exact reads_tagged (reads_readHashValue wf fits.1 fits.2)
  | zset dict sorted =>
      have wf := sound.wf
      have fits := sound.fits
      have halves := sound.halves
      simp only [Value.all, Value.wfNode, Bool.and_eq_true, decide_eq_true_eq] at wf
      simp only [Value.all, fitsNode, Bool.and_eq_true, decide_eq_true_eq, List.all_eq_true] at fits
      simp only [Value.all, halvesNode, decide_eq_true_eq] at halves
      refine ⟨fun w image => ?_, fun none' => absurd none' (by simp [reread])⟩
      obtain rfl : Value.zset (sorted.map Prod.swap) sorted = w := by simpa [reread] using image
      rw [writeValueInner]
      exact reads_tagged (reads_readZSetValue matched halves wf.1 wf.2 fits.1 fits.2)
  | set members =>
      have wf := sound.wf
      have fits := sound.fits
      simp only [Value.all, Value.wfNode, decide_eq_true_eq] at wf
      simp only [Value.all, fitsNode, Bool.and_eq_true, decide_eq_true_eq, List.all_eq_true] at fits
      refine ⟨fun w image => ?_, fun none' => absurd none' (by simp [reread])⟩
      obtain rfl : Value.set members = w := by simpa [reread] using image
      rw [writeValueInner]
      exact reads_tagged (reads_readSetValue wf fits.1 fits.2)
  | hyperLogLog hll =>
      have fits : hll.encoding.denseData.length ≤ denseArraySize * 2 := by
        simpa [Value.all, fitsNode] using sound.fits
      refine ⟨fun w image => ?_, fun none' => absurd none' (by simp [reread])⟩
      obtain rfl : Value.hyperLogLog (rereadHll hll) = w := by simpa [reread] using image
      rw [writeValueInner]
      exact reads_tagged (reads_readHllValue matched fits)
  | sstream entries =>
      refine ⟨fun w image => absurd image (by simp [reread]), fun _ => ?_⟩
      rw [writeValueInner]
      exact fails_tagged fun t => ⟨_, rfl⟩
  | bitmap b =>
      have fits : b.length ≤ maxBitmapSize := by
        simpa [Value.all, fitsNode] using sound.fits
      refine ⟨fun w image => ?_, fun none' => absurd none' (by simp [reread])⟩
      obtain rfl : Value.bitmap b = w := by simpa [reread] using image
      rw [writeValueInner]
      exact reads_tagged (reads_readBitmapValue matched fits)

theorem reads_writeValueVersioned (lossless : zstd.Lossless) (modern : version ≠ .legacy)
    {v : Value} (sound : Sound v)
    (block : (zstd.compress (writeValueInner version v)).length ≤ maxCompressedSize)
    {depth : Nat} (enough : (writeValueInner version v).length < depth) :
    (∀ w, reread v = some w →
      Reads (readValueWithVersion version zstd depth) (writeValueVersioned version zstd v) w) ∧
    (reread v = none →
      Fails (readValueWithVersion version zstd depth) (writeValueVersioned version zstd v)) := by
  unfold writeValueVersioned
  simp only []
  split
  · obtain ⟨n, rfl⟩ : ∃ n, depth = n + 1 := ⟨depth - 1, by omega⟩
    have inner : (∀ w, reread v = some w →
        Reads (readValueWithVersion version zstd n) (writeValueInner version v) w) ∧
        (reread v = none →
          Fails (readValueWithVersion version zstd n) (writeValueInner version v)) :=
      reads_writeValueInner (matched_of_modern modern v) sound (by omega)
    have length := reads_readLength (lt_of_le_of_lt block (by decide)) version
    have some' : (zstd.compress (writeValueInner version v)).length ≠ 0 := by
      simpa using lossless.compress_ne_nil (writeValueInner version v)
    have unpacked : ∀ t, readCompressedValue version zstd (readValueWithVersion version zstd n)
        (writeBlob version (zstd.compress (writeValueInner version v)) ++ t) =
        (readValueWithVersion version zstd n (writeValueInner version v)).map
          fun r => (r.1, t) := by
      intro t
      have data : (takeUpTo (zstd.compress (writeValueInner version v)).length : ZdbReader Bytes)
          (zstd.compress (writeValueInner version v) ++ t) =
          .ok (zstd.compress (writeValueInner version v), t) := by
        simp [takeUpTo]
      rw [writeBlob, List.append_assoc, readCompressedValue, bind_of_ok (length _), if_neg some',
        bind_of_ok (ensureSize_of_le block _), bind_of_ok data,
        lossless.decompress_compress]
      simp only []
      cases readValueWithVersion version zstd n (writeValueInner version v) with
      | error e => rfl
      | ok r => rfl
    constructor
    · intro w image
      have read := inner.1 w image []
      rw [List.append_nil] at read
      refine reads_tagged fun t => ?_
      exact (unpacked t).trans (by rw [read, Except.map])
    · intro image
      obtain ⟨e, read⟩ := inner.2 image []
      rw [List.append_nil] at read
      refine fails_tagged fun t => ⟨e, ?_⟩
      exact (unpacked t).trans (by rw [read, Except.map])
  · exact reads_writeValueInner (matched_of_modern modern v) sound enough.le

end

/-- Equality of values with sets and maps compared as sets and maps. -/
inductive Same : Value → Value → Prop
  | refl (v : Value) : Same v v
  | hash {a b : List (Sds × Sds)} (same : a.Perm b) : Same (.hash a) (.hash b)
  | set {a b : List Sds} (same : a.Perm b) : Same (.set a) (.set b)
  | zset {a b : List (Sds × F64)} {sorted : List (F64 × Sds)} (same : a.Perm b) :
      Same (.zset a sorted) (.zset b sorted)
  | array {a b : List Value} (same : List.Forall₂ Same a b) : Same (.array a) (.array b)

/-- The constructors the decoder reads back unchanged. -/
def codecNode : Value → Bool
  | .list _ => false
  | .sstream _ => false
  | .hyperLogLog _ => false
  | _ => true

theorem reread_same {v : Value} (codec : v.all codecNode = true)
    (halves : v.all halvesNode = true) : ∃ w, reread v = some w ∧ Same v w := by
  induction v using Value.induct with
  | list items => exact absurd codec (by simp [Value.all, codecNode])
  | sstream entries => exact absurd codec (by simp [Value.all, codecNode])
  | hyperLogLog hll => exact absurd codec (by simp [Value.all, codecNode])
  | zset dict sorted =>
      simp only [Value.all, halvesNode, decide_eq_true_eq] at halves
      exact ⟨_, rfl, Same.zset halves⟩
  | array items ih =>
      simp only [Value.all, Bool.and_eq_true, Value.allItems_iff] at codec halves
      have each : ∀ v ∈ items, ∃ w, reread v = some w ∧ Same v w := fun v member =>
        ih v member (codec.2 v member) (halves.2 v member)
      have images : ∃ l, items.mapM reread = some l ∧ List.Forall₂ Same items l := by
        clear ih codec halves
        induction items with
        | nil => exact ⟨[], rfl, List.Forall₂.nil⟩
        | cons v items ih =>
            obtain ⟨w, head, same⟩ := each v (by simp)
            obtain ⟨l, tail, sames⟩ := ih fun u hu => each u (List.mem_cons_of_mem _ hu)
            exact ⟨w :: l, by simp [List.mapM_cons, head, tail], List.Forall₂.cons same sames⟩
      obtain ⟨l, image, sames⟩ := images
      exact ⟨.array l, by rw [reread, rereadItems_eq_mapM, image]; rfl, Same.array sames⟩
  | _ => exact ⟨_, rfl, Same.refl _⟩

/-- Reading back what was written gives the value back and leaves what follows unread, in every
version with a version byte and with or without compression. -/
theorem readValue_writeValue {zstd : Zstd} (lossless : zstd.Lossless) {version : FormatVersion}
    (modern : version ≠ .legacy) {v : Value} (codec : v.all codecNode = true) (sound : Sound v)
    (block : (zstd.compress (writeValueInner version v)).length ≤ maxCompressedSize)
    {depth : Nat} (enough : (writeValueInner version v).length < depth) (t : Bytes) :
    ∃ w, readValueWithVersion version zstd depth (writeValueVersioned version zstd v ++ t) =
      .ok (w, t) ∧ Same v w := by
  obtain ⟨w, image, same⟩ := reread_same codec sound.halves
  exact ⟨w, (reads_writeValueVersioned lossless modern sound block enough).1 w image t, same⟩

/-- A compressor that stores blocks behind the magic number of its format. -/
def storing : Zstd where
  compress b := [0x28, 0xB5, 0x2F, 0xFD] ++ b
  decompress b := if b.take 4 = [0x28, 0xB5, 0x2F, 0xFD] then some (b.drop 4) else none

theorem storing_lossless : storing.Lossless where
  decompress_compress b := by simp [storing]
  compress_ne_nil b := by simp [storing]

theorem readValue_writeValue_array :
    ∃ w, readValueWithVersion .v3 storing 64 (writeValueVersioned .v3 storing
        (.array [.str [1, 2], .zset [([3], ⟨1⟩), ([4], ⟨0⟩)] [(⟨0⟩, [4]), (⟨1⟩, [3])],
          .hash [([5], [6])], .array [.int (-1), .set [[], [7]]]]) ++ [9]) = .ok (w, [9]) ∧
      Same (.array [.str [1, 2], .zset [([3], ⟨1⟩), ([4], ⟨0⟩)] [(⟨0⟩, [4]), (⟨1⟩, [3])],
        .hash [([5], [6])], .array [.int (-1), .set [[], [7]]]]) w :=
  readValue_writeValue storing_lossless (by decide) (by decide)
    ⟨by decide, by decide, by decide⟩ (by decide) (by decide) [9]

mutual

/-- The value with its sketches in their dense form. -/
def denseForm : Value → Value
  | .hyperLogLog hll => .hyperLogLog { hll with encoding := .dense hll.encoding.denseData }
  | .array items => .array (denseItems items)
  | v => v

def denseItems : List Value → List Value
  | [] => []
  | v :: l => denseForm v :: denseItems l

end

/-- Nodes that come back from the decoder equal to themselves. -/
def storableNode : Value → Bool
  | .list _ => false
  | .sstream _ => false
  | .hyperLogLog ⟨.dense data, version, seed⟩ =>
      data.length = denseArraySize && version = hllSerializationVersion && seed = 0
  | .hyperLogLog ⟨.sparse _ _, _, _⟩ => false
  | _ => true

theorem denseItems_eq_map (l : List Value) : denseItems l = l.map denseForm := by
  induction l with
  | nil => rfl
  | cons v l ih => rw [denseItems, ih, List.map_cons]

theorem length_fromSparse (registers : List (Nat × UInt8)) :
    (HllEncoding.fromSparse registers).length = denseSize := by
  have keeps : ∀ (l : List (Nat × UInt8)) (data : Bytes),
      (l.foldl (fun data r => HllEncoding.setRegister data r.1 r.2) data).length = data.length := by
    intro l
    induction l with
    | nil => intro data; rfl
    | cons r l ih =>
        intro data
        rw [List.foldl_cons, ih]
        simp [HllEncoding.setRegister]
  rw [HllEncoding.fromSparse, keeps, List.length_replicate]

theorem rereadHll_eq_iff (hll : Hll) :
    ({ hll with encoding := .dense hll.encoding.denseData } : Hll) = rereadHll hll ↔
      storableNode (.hyperLogLog hll) = true := by
  obtain ⟨encoding, version, seed⟩ := hll
  have padded : ∀ data : Bytes,
      (data.take denseArraySize ++ List.replicate (denseArraySize - data.length) 0).length =
        denseArraySize := by
    intro data
    simp only [List.length_append, List.length_take, List.length_replicate]
    omega
  cases encoding with
  | sparse registers threshold =>
      simp only [storableNode, Bool.false_eq_true, iff_false]
      intro same
      have data := (HllEncoding.dense.inj (Hll.mk.inj same).1)
      have size := congrArg List.length data
      rw [padded, HllEncoding.denseData, length_fromSparse] at size
      exact absurd size (by decide)
  | dense data =>
      simp only [storableNode, Bool.and_eq_true, decide_eq_true_eq, rereadHll,
        HllEncoding.denseData]
      constructor
      · intro same
        obtain ⟨encodings, versions, seeds⟩ := Hll.mk.inj same
        have size := congrArg List.length (HllEncoding.dense.inj encodings)
        rw [padded] at size
        exact ⟨⟨size, versions⟩, seeds⟩
      · rintro ⟨⟨size, rfl⟩, rfl⟩
        rw [size, Nat.sub_self, List.replicate_zero, List.append_nil,
          List.take_of_length_le size.le]

theorem forall₂_of_same {a b : List Value} (same : Same (.array a) (.array b)) :
    List.Forall₂ Same a b := by
  cases same with
  | refl => exact List.forall₂_same.mpr fun v _ => Same.refl v
  | array sames => exact sames

theorem hll_of_same {a b : Hll} (same : Same (.hyperLogLog a) (.hyperLogLog b)) : a = b := by
  generalize left : Value.hyperLogLog a = v at same
  generalize right : Value.hyperLogLog b = w at same
  cases same with
  | refl => exact Value.hyperLogLog.inj (left.trans right.symm)
  | _ => cases left

theorem images_iff {l : List Value}
    (each : ∀ v ∈ l, (∃ w, reread v = some w ∧ Same (denseForm v) w) ↔
      v.all storableNode = true) :
    (∃ m, l.mapM reread = some m ∧ List.Forall₂ Same (l.map denseForm) m) ↔
      ∀ v ∈ l, v.all storableNode = true := by
  induction l with
  | nil => exact ⟨fun _ v member => absurd member List.not_mem_nil,
      fun _ => ⟨[], rfl, List.Forall₂.nil⟩⟩
  | cons v l ih =>
      have rest := ih fun u hu => each u (List.mem_cons_of_mem v hu)
      have first := each v List.mem_cons_self
      rw [List.forall_mem_cons, ← first, ← rest]
      constructor
      · rintro ⟨m, images, same⟩
        rw [List.mapM_cons] at images
        obtain ⟨w, head, images⟩ := Option.bind_eq_some_iff.mp images
        obtain ⟨n, tail, images⟩ := Option.bind_eq_some_iff.mp images
        obtain rfl := Option.some.inj images
        obtain ⟨sameHead, sameTail⟩ := List.forall₂_cons.mp same
        exact ⟨⟨w, head, sameHead⟩, n, tail, sameTail⟩
      · rintro ⟨⟨w, head, sameHead⟩, n, tail, sameTail⟩
        refine ⟨w :: n, ?_, List.Forall₂.cons sameHead sameTail⟩
        rw [List.mapM_cons, head, tail]
        rfl

theorem reread_same_iff {v : Value} (halves : v.all halvesNode = true) :
    (∃ w, reread v = some w ∧ Same (denseForm v) w) ↔ v.all storableNode = true := by
  induction v using Value.induct with
  | list items => simp [reread, Value.all, storableNode]
  | sstream entries => simp [reread, Value.all, storableNode]
  | hyperLogLog hll =>
      have node : (Value.hyperLogLog hll).all storableNode = storableNode (.hyperLogLog hll) := rfl
      rw [node, ← rereadHll_eq_iff]
      constructor
      · rintro ⟨w, image, same⟩
        obtain rfl := Option.some.inj image
        rw [denseForm] at same
        exact hll_of_same same
      · intro same
        refine ⟨_, rfl, ?_⟩
        rw [denseForm, same]
        exact Same.refl _
  | zset dict sorted =>
      simp only [Value.all, halvesNode, decide_eq_true_eq] at halves
      exact ⟨fun _ => rfl, fun _ => ⟨_, rfl, Same.zset halves⟩⟩
  | array items ih =>
      simp only [Value.all, Bool.and_eq_true, Value.allItems_iff] at halves ⊢
      have node : storableNode (.array items) = true := rfl
      rw [reread, rereadItems_eq_mapM, denseForm, denseItems_eq_map, ← images_iff
        fun v member => ih v member (halves.2 v member)]
      constructor
      · rintro ⟨w, images, same⟩
        obtain ⟨m, image, rfl⟩ := Option.map_eq_some_iff.mp images
        exact ⟨node, m, image, forall₂_of_same same⟩
      · rintro ⟨-, m, image, same⟩
        refine ⟨.array m, ?_, Same.array same⟩
        rw [image]
        rfl
  | _ => exact ⟨fun _ => rfl, fun _ => ⟨_, rfl, Same.refl _⟩⟩

end Zumic.Zdb
