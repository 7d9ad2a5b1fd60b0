/- The two halves of a sorted set that is read (`read_zset_value` in `decode.rs`). -/

import Zumic.Lib.LastWrite
import Zumic.Zdb.RoundTrip
import Zumic.Zdb.Skip

namespace Zumic.Zdb

open Database Lib Lib.ByteString Lib.Reader

variable (version : FormatVersion) (zstd : Zstd)

/-- The entries of a sorted set, as they stand in the bytes after its tag. -/
def readZSetEntries : ZdbReader (List (Sds × F64)) := do
  let n ← readCount version "Zset"
  Reader.readMany (readZSetEntry version) n

/-- The entries that a value has which is read as a sorted set, possibly from inside of compressed
blocks. -/
inductive ZSetAt : Bytes → List (Sds × F64) → Prop
  | plain {s rest : Bytes} {entries : List (Sds × F64)}
      (read : readZSetEntries version s = .ok (entries, rest)) : ZSetAt (tagZSet :: s) entries
  | block {s tail inner : Bytes} {len : Nat} {entries : List (Sds × F64)}
      (length : readLength version s = .ok (len, tail))
      (unpacked : zstd.decompress (tail.take len) = some inner) (inside : ZSetAt inner entries) :
      ZSetAt (tagCompressed :: s) entries

def dictOf (entries : List (Sds × F64)) : List (Sds × F64) :=
  entries.foldl (fun dict e => Assoc.insert dict e.1 e.2) []

def sortedOf (entries : List (Sds × F64)) : List (F64 × Sds) :=
  entries.foldl (fun sorted e => Value.sortedInsert sorted e.2 e.1) []

/-- Members with their scores, which count as equal when they have the same place in the order. -/
def keyed (entries : List (Sds × F64)) : List (Sds × Int) :=
  entries.map fun e => (e.1, e.2.orderKey)

theorem keyed_cons (e : Sds × F64) (entries : List (Sds × F64)) :
    keyed (e :: entries) = (e.1, e.2.orderKey) :: keyed entries := rfl

/-- A skip list as a table of members. -/
private def view (sorted : List (F64 × Sds)) : List (Int × Sds) :=
  sorted.map fun e => (e.1.orderKey, e.2)

theorem view_cons (e : F64 × Sds) (sorted : List (F64 × Sds)) :
    view (e :: sorted) = (e.1.orderKey, e.2) :: view sorted := rfl

theorem get_dict (entries dict : List (Sds × F64)) (m : Sds) :
    (Assoc.get (entries.foldl (fun dict e => Assoc.insert dict e.1 e.2) dict) m).map F64.orderKey =
      (LastWrite.final (keyed entries) m).or ((Assoc.get dict m).map F64.orderKey) := by
  induction entries generalizing dict with
  | nil => rfl
  | cons e entries ih =>
      rw [List.foldl_cons, ih, Assoc.get_insert, keyed_cons, LastWrite.final, Option.or_assoc]
      split
      · rfl
      · rfl

theorem get_view_sortedInsert (sorted : List (F64 × Sds)) (score : F64) (member : Sds)
    (k : Int) :
    Assoc.get (view (Value.sortedInsert sorted score member)) k =
      if score.orderKey = k then some member else Assoc.get (view sorted) k := by
  induction sorted with
  | nil => rfl
  | cons e sorted ih =>
      rw [Value.sortedInsert]
      split
      · rename_i below
        rw [view_cons, view_cons, Assoc.get, Assoc.get, ih]
        by_cases here : e.1.orderKey = k
        · rw [if_pos here, if_neg (by omega), if_pos here]
        · rw [if_neg here, if_neg here]
      · split
        · rename_i same
          rw [view_cons, view_cons, Assoc.get, Assoc.get, same]
          split
          · rfl
          · rfl
        · rw [view_cons, Assoc.get]

theorem get_sorted (entries : List (Sds × F64)) (sorted : List (F64 × Sds)) (k : Int) :
    Assoc.get (view (entries.foldl (fun sorted e => Value.sortedInsert sorted e.2 e.1) sorted)) k =
      (LastWrite.final ((keyed entries).map Prod.swap) k).or (Assoc.get (view sorted) k) := by
  induction entries generalizing sorted with
  | nil => rfl
  | cons e entries ih =>
      rw [List.foldl_cons, ih, get_view_sortedInsert, keyed_cons, List.map_cons, LastWrite.final,
        Option.or_assoc, Prod.fst_swap, Prod.snd_swap]
      split
      · rfl
      · rfl

theorem mem_sortedInsert {sorted : List (F64 × Sds)} {score : F64} {member : Sds}
    {e : F64 × Sds} (found : e ∈ Value.sortedInsert sorted score member) :
    e.1.orderKey = score.orderKey ∨ e ∈ sorted := by
  induction sorted with
  | nil => exact Or.inl (List.mem_singleton.mp found ▸ rfl)
  | cons f sorted ih =>
      rw [Value.sortedInsert] at found
      split at found
      · rcases List.mem_cons.mp found with rfl | later
        · exact Or.inr List.mem_cons_self
        · exact (ih later).imp_right (List.mem_cons_of_mem f)
      · split at found
        · rename_i same
          rcases List.mem_cons.mp found with rfl | later
          · exact Or.inl same
          · exact Or.inr (List.mem_cons_of_mem f later)
        · rcases List.mem_cons.mp found with rfl | old
          · exact Or.inl rfl
          · exact Or.inr old

theorem ascending_sortedInsert {sorted : List (F64 × Sds)}
    (ascending : sorted.Pairwise fun a b => a.1.orderKey < b.1.orderKey) (score : F64)
    (member : Sds) : (Value.sortedInsert sorted score member).Pairwise
      fun a b => a.1.orderKey < b.1.orderKey := by
  induction sorted with
  | nil => exact List.pairwise_singleton _ _
  | cons e sorted ih =>
      obtain ⟨least, rest⟩ := List.pairwise_cons.mp ascending
      rw [Value.sortedInsert]
      split
      · rename_i below
        refine List.pairwise_cons.mpr ⟨fun f found => ?_, ih rest⟩
        rcases mem_sortedInsert found with same | old
        · exact same ▸ below
        · exact least f old
      · split
        · exact List.pairwise_cons.mpr ⟨least, rest⟩
        · rename_i notBelow other
          refine List.pairwise_cons.mpr ⟨fun f found => ?_, ascending⟩
          change score.orderKey < f.1.orderKey
          rcases List.mem_cons.mp found with rfl | later
          · omega
          · have above := least f later
            omega

theorem ascending_foldl (entries : List (Sds × F64)) {sorted : List (F64 × Sds)}
    (ascending : sorted.Pairwise fun a b => a.1.orderKey < b.1.orderKey) :
    (entries.foldl (fun sorted e => Value.sortedInsert sorted e.2 e.1) sorted).Pairwise
      fun a b => a.1.orderKey < b.1.orderKey := by
  induction entries generalizing sorted with
  | nil => exact ascending
  | cons e entries ih => exact ih (ascending_sortedInsert ascending e.2 e.1)

theorem distinct_foldl (entries : List (Sds × F64)) {dict : List (Sds × F64)}
    (distinct : (Assoc.keys dict).Nodup) :
    (Assoc.keys (entries.foldl (fun dict e => Assoc.insert dict e.1 e.2) dict)).Nodup := by
  induction entries generalizing dict with
  | nil => exact distinct
  | cons e entries ih => exact ih (Assoc.nodup_keys_insert distinct e.1 e.2)

theorem ascending_sortedOf (entries : List (Sds × F64)) :
    (sortedOf entries).Pairwise fun a b => a.1.orderKey < b.1.orderKey :=
  ascending_foldl entries List.Pairwise.nil

theorem distinct_dictOf (entries : List (Sds × F64)) : (Assoc.keys (dictOf entries)).Nodup :=
  distinct_foldl entries List.nodup_nil

theorem distinct_view (entries : List (Sds × F64)) :
    (Assoc.keys (view (sortedOf entries))).Nodup := by
  rw [Assoc.keys, view, List.map_map, List.Nodup, List.pairwise_map]
  exact (ascending_sortedOf entries).imp fun below => Int.ne_of_lt below

theorem final_iff_dict (entries : List (Sds × F64)) (m : Sds) :
    LastWrite.final (keyed entries) m = (Assoc.get (dictOf entries) m).map F64.orderKey := by
  rw [dictOf, get_dict]
  exact Option.or_none.symm

theorem final_iff_sorted (entries : List (Sds × F64)) (k : Int) :
    LastWrite.final ((keyed entries).map Prod.swap) k =
      Assoc.get (view (sortedOf entries)) k := by
  rw [sortedOf, get_sorted]
  exact Option.or_none.symm

/-- Scores with their members on both sides. -/
def Halves (dict : List (Sds × F64)) (sorted : List (F64 × Sds)) : Prop :=
  (keyed dict).Perm (sorted.map fun e => (e.2, e.1.orderKey))

theorem mem_iff_get {κ α : Type} [DecidableEq κ] {m : List (κ × α)}
    (distinct : (Assoc.keys m).Nodup) (p : κ × α) : p ∈ m ↔ Assoc.get m p.1 = some p.2 :=
  ⟨Assoc.get_of_mem distinct, Assoc.mem_of_get⟩

theorem halves_iff_settled (entries : List (Sds × F64)) :
    Halves (dictOf entries) (sortedOf entries) ↔ LastWrite.Settled (keyed entries) := by
  have distinct := distinct_dictOf entries
  have distinct' := distinct_view entries
  have nodup : (keyed (dictOf entries)).Nodup := by
    refine List.Nodup.of_map Prod.fst ?_
    rw [keyed, List.map_map]
    exact distinct
  have swapped : ((sortedOf entries).map fun e => (e.2, e.1.orderKey)) =
      (view (sortedOf entries)).map Prod.swap := by
    rw [view, List.map_map]
    rfl
  have nodup' : ((view (sortedOf entries)).map Prod.swap).Nodup := by
    refine List.Nodup.of_map Prod.snd ?_
    rw [List.map_map]
    exact distinct'
  rw [Halves, swapped, List.perm_ext_iff_of_nodup nodup nodup', ← LastWrite.inverse_iff_settled]
  have left : ∀ m k, (m, k) ∈ keyed (dictOf entries) ↔
      LastWrite.final (keyed entries) m = some k := by
    intro m k
    rw [final_iff_dict, Option.map_eq_some_iff, keyed, List.mem_map]
    constructor
    · rintro ⟨e, member, same⟩
      obtain ⟨rfl, rfl⟩ := Prod.mk.inj same
      exact ⟨e.2, (mem_iff_get distinct e).mp member, rfl⟩
    · rintro ⟨score, read, rfl⟩
      exact ⟨(m, score), (mem_iff_get distinct _).mpr read, rfl⟩
  have right : ∀ m k, (m, k) ∈ (view (sortedOf entries)).map Prod.swap ↔
      LastWrite.final ((keyed entries).map Prod.swap) k = some m := by
    intro m k
    rw [final_iff_sorted, ← mem_iff_get distinct' (k, m), List.mem_map]
    constructor
    · rintro ⟨e, member, same⟩
      obtain rfl : e = (k, m) := Prod.swap_injective same
      exact member
    · exact fun member => ⟨_, member, rfl⟩
  constructor
  · intro same m k
    rw [← left, ← right]
    exact same (m, k)
  · rintro inverse ⟨m, k⟩
    rw [left, right]
    exact inverse m k

theorem mem_keys_dictOf {entries : List (Sds × F64)} {m : Sds} :
    m ∈ Assoc.keys (dictOf entries) ↔ m ∈ entries.map Prod.fst := by
  have absent : Assoc.get (dictOf entries) m = none ↔ m ∉ entries.map Prod.fst := by
    rw [← Option.map_eq_none_iff, ← final_iff_dict, LastWrite.final_eq_none_iff, keyed,
      List.map_map]
    rfl
  rw [← not_iff_not, ← absent, Assoc.get_eq_none_iff]

theorem length_dictOf_le (entries : List (Sds × F64)) :
    (dictOf entries).length ≤ entries.length := by
  have within : Assoc.keys (dictOf entries) ⊆ entries.map Prod.fst :=
    fun m member => mem_keys_dictOf.mp member
  have most := (List.subperm_of_subset (distinct_dictOf entries) within).length_le
  rwa [Assoc.keys, List.length_map, List.length_map] at most

section

/-- Equality of dictionaries as the code compares them, with scores that count as equal when they
have the same place in the order. -/
def DictEq (a b : List (Sds × F64)) : Prop :=
  a.length = b.length ∧ ∀ e ∈ a, (Assoc.get b e.1).map F64.orderKey = some e.2.orderKey

/-- What is claimed of a sorted set with these entries: one half holds what the other holds, as many
entries are announced as are written, every member that was read is kept, and reading back what is
written gives an equal set. -/
structure Agree (entries dict : List (Sds × F64)) (sorted : List (F64 × Sds)) : Prop where
  halves : Halves dict sorted
  announced : dict.length = sorted.length
  kept : ∀ e ∈ entries, e.1 ∈ sorted.map Prod.snd
  again : ∀ version : FormatVersion, version ≠ .legacy → ∀ depth,
    (writeValueInner version (.zset dict sorted)).length ≤ depth → ∀ t, ∃ dict',
      readValueWithVersion version zstd depth (writeValueInner version (.zset dict sorted) ++ t) =
        .ok (.zset dict' sorted, t) ∧ DictEq dict' dict

variable {version zstd} {entries : List (Sds × F64)}

/-- The entries are within the limits of the decoder. -/
structure Limited (entries : List (Sds × F64)) : Prop where
  count : entries.length ≤ maxCollectionSize
  members : ∀ e ∈ entries, e.1.length ≤ maxStringSize

theorem agree_of_halves (limited : Limited entries)
    (halves : Halves (dictOf entries) (sortedOf entries)) :
    Agree zstd entries (dictOf entries) (sortedOf entries) := by
  have announced : (dictOf entries).length = (sortedOf entries).length := by
    have same := halves.length_eq
    rwa [keyed, List.length_map, List.length_map] at same
  have names : (Assoc.keys (dictOf entries)).Perm ((sortedOf entries).map Prod.snd) := by
    have firsts := halves.map Prod.fst
    rw [keyed, List.map_map, List.map_map] at firsts
    exact firsts
  have distinct : ((sortedOf entries).map Prod.snd).Nodup :=
    names.nodup_iff.mp (distinct_dictOf entries)
  have swapped : Assoc.keys ((sortedOf entries).map Prod.swap) =
      (sortedOf entries).map Prod.snd := by
    rw [Assoc.keys, List.map_map]
    rfl
  refine ⟨halves, announced, fun e member => ?_, fun version modern depth enough t => ?_⟩
  · exact names.subset (mem_keys_dictOf.mpr (List.mem_map_of_mem member))
  · have written : writeValueInner version (.zset (dictOf entries) (sortedOf entries)) =
        writeValueInner version (.zset ((sortedOf entries).map Prod.swap) (sortedOf entries)) := by
      rw [writeValueInner, writeValueInner, announced, List.length_map]
    have sound : Zdb.Sound (.zset ((sortedOf entries).map Prod.swap) (sortedOf entries)) := by
      refine ⟨?_, ?_, ?_⟩
      · simp only [Value.all, Value.wfNode, Bool.and_eq_true, decide_eq_true_eq]
        exact ⟨swapped ▸ distinct, ascending_sortedOf entries⟩
      · simp only [Value.all, fitsNode, Bool.and_eq_true, decide_eq_true_eq, List.all_eq_true]
        refine ⟨?_, fun e member => ?_⟩
        · rw [List.length_map, ← announced]
          exact Nat.le_trans (length_dictOf_le entries) limited.count
        · have named : e.1 ∈ Assoc.keys ((sortedOf entries).map Prod.swap) :=
            List.mem_map_of_mem member
          rw [swapped] at named
          obtain ⟨f, read, same⟩ :=
            List.mem_map.mp (mem_keys_dictOf.mp (names.symm.subset named))
          exact same ▸ limited.members f read
      · simp only [Value.all, halvesNode, decide_eq_true_eq]
        exact List.Perm.refl _
    rw [written] at enough ⊢
    have reads := (@reads_writeValueInner version zstd _ (matched_of_modern modern _) sound depth
      enough).1 _ rfl t
    refine ⟨_, reads, ?_, fun e member => ?_⟩
    · rw [List.length_map, announced]
    · obtain ⟨f, listed, rfl⟩ := List.mem_map.mp member
      have paired : (f.2, f.1.orderKey) ∈ keyed (dictOf entries) :=
        halves.symm.subset (List.mem_map_of_mem (f := fun e => (e.2, e.1.orderKey)) listed)
      obtain ⟨g, found, same⟩ := List.mem_map.mp paired
      obtain ⟨name, score⟩ := Prod.mk.inj same
      rw [Prod.fst_swap, ← name, Assoc.get_of_mem (distinct_dictOf entries) found, Option.map_some,
        score]
      rfl

end

section

variable {version zstd}

/-- A value that is no sorted set. -/
private def NotZSet (v : Value) : Prop := ∀ dict sorted, v ≠ .zset dict sorted

theorem notZSet_string : Yields NotZSet (readStringValue version) :=
  yields_bind fun _ => yields_pure nofun

theorem notZSet_int : Yields NotZSet readIntValue :=
  yields_bind fun _ => yields_pure nofun

theorem notZSet_float : Yields NotZSet readFloatValue :=
  yields_bind fun _ => yields_pure nofun

theorem notZSet_bool : Yields NotZSet readBoolValue :=
  yields_bind fun _ => yields_pure nofun

theorem notZSet_hash (readValue : ZdbReader Value) :
    Yields NotZSet (readHashValue version readValue) :=
  yields_bind fun _ => yields_bind fun _ => yields_pure nofun

theorem notZSet_set : Yields NotZSet (readSetValue version) :=
  yields_bind fun _ => yields_bind fun _ => yields_pure nofun

theorem notZSet_array (readValue : ZdbReader Value) :
    Yields NotZSet (readArrayValue version readValue) :=
  yields_bind fun _ => yields_bind fun _ => yields_pure nofun

theorem notZSet_hll : Yields NotZSet (readHllValue version) := by
  cases version with
  | _ => exact yields_bind fun _ => yields_bind fun _ => yields_bind fun _ => yields_pure nofun

theorem notZSet_bitmap : Yields NotZSet (readBitmapValue version) := by
  cases version with
  | _ => exact yields_bind fun _ => yields_bind fun _ => yields_bind fun _ => yields_pure nofun

theorem limited_entries {s rest : Bytes} {entries : List (Sds × F64)}
    (read : readZSetEntries version s = .ok (entries, rest)) : Limited entries := by
  obtain ⟨n, tail, counted, many⟩ := bind_eq_ok read
  have short : ∀ i, Yields (fun e : Sds × F64 => e.1.length ≤ maxStringSize)
      (readZSetEntry version i) := by
    intro i b e rest' got
    obtain ⟨member, tail', first, later⟩ := bind_eq_ok got
    obtain ⟨score, tail'', -, made⟩ := bind_eq_ok later
    obtain ⟨rfl, -⟩ := Prod.mk.inj (Except.ok.inj made)
    exact length_readBlob_le version first
  refine ⟨?_, yields_readMany short n _ _ _ many⟩
  rw [length_of_readMany many]
  exact (readCount_eq_ok counted).2

theorem ZSetAt.unique {b : Bytes} {entries entries' : List (Sds × F64)}
    (here : ZSetAt version zstd b entries) (there : ZSetAt version zstd b entries') :
    entries = entries' := by
  induction here with
  | plain read =>
      cases there with
      | plain read' => exact (Prod.mk.inj (Except.ok.inj (read.symm.trans read'))).1
  | block length unpacked _ ih =>
      cases there with
      | block length' unpacked' inside' =>
          obtain ⟨rfl, rfl⟩ := Prod.mk.inj (Except.ok.inj (length.symm.trans length'))
          obtain rfl := Option.some.inj (unpacked.symm.trans unpacked')
          exact ih inside'

theorem readCompressedValue_eq_ok {readValue : ZdbReader Value} {s rest : Bytes} {v : Value}
    (read : readCompressedValue version zstd readValue s = .ok (v, rest)) :
    ∃ len tail inner, readLength version s = .ok (len, tail) ∧
      zstd.decompress (tail.take len) = some inner ∧ ∃ rest', readValue inner = .ok (v, rest') := by
  obtain ⟨len, tail, length, later⟩ := bind_eq_ok read
  split at later
  · cases later
  · obtain ⟨done, tail', checked, later'⟩ := bind_eq_ok later
    obtain ⟨-, rfl⟩ := ensureSize_eq_ok checked
    obtain ⟨packed, tail'', taken, later''⟩ := bind_eq_ok later'
    obtain ⟨rfl, -⟩ := Prod.mk.inj (Except.ok.inj taken)
    cases unpacked : zstd.decompress (tail'.take len) with
    | none =>
        rw [unpacked] at later''
        cases later''
    | some inner =>
        cases inside : readValue inner with
        | error e =>
            rw [unpacked] at later''
            simp only [inside] at later''
            cases later''
        | ok r =>
            obtain ⟨v', rest'⟩ := r
            rw [unpacked] at later''
            simp only [inside] at later''
            obtain ⟨rfl, -⟩ := Prod.mk.inj (Except.ok.inj later'')
            exact ⟨len, _, inner, length, unpacked, rest', inside⟩

theorem readZSetValue_eq_ok {s rest : Bytes} {dict : List (Sds × F64)}
    {sorted : List (F64 × Sds)} (read : readZSetValue version s = .ok (.zset dict sorted, rest)) :
    ∃ entries, readZSetEntries version s = .ok (entries, rest) ∧ dict = dictOf entries ∧
      sorted = sortedOf entries := by
  obtain ⟨n, tail, counted, later⟩ := bind_eq_ok read
  obtain ⟨entries, tail', many, made⟩ := bind_eq_ok later
  obtain ⟨image, rfl⟩ := Prod.mk.inj (Except.ok.inj made)
  obtain ⟨rfl, rfl⟩ := Value.zset.inj image
  refine ⟨entries, ?_, rfl, rfl⟩
  rw [readZSetEntries, bind_of_ok counted]
  exact many

theorem zsetAt_of_read {depth : Nat} {b rest : Bytes} {dict : List (Sds × F64)}
    {sorted : List (F64 × Sds)}
    (read : readValueWithVersion version zstd depth b = .ok (.zset dict sorted, rest)) :
    ∃ entries, ZSetAt version zstd b entries ∧ Limited entries ∧ dict = dictOf entries ∧
      sorted = sortedOf entries := by
  induction depth generalizing b rest with
  | zero => cases read
  | succ depth ih =>
      obtain ⟨tag, s, first, body⟩ := bind_eq_ok read
      obtain rfl : b = tag :: s := by
        cases b with
        | nil => cases first
        | cons x b =>
            obtain ⟨rfl, rfl⟩ := Prod.mk.inj (Except.ok.inj first)
            rfl
      rw [readTagged] at body
      by_cases str : tag = tagStr
      · rw [if_pos str] at body
        exact absurd rfl (notZSet_string _ _ _ body dict sorted)
      rw [if_neg str] at body
      by_cases int : tag = tagInt
      · rw [if_pos int] at body
        exact absurd rfl (notZSet_int _ _ _ body dict sorted)
      rw [if_neg int] at body
      by_cases float : tag = tagFloat
      · rw [if_pos float] at body
        exact absurd rfl (notZSet_float _ _ _ body dict sorted)
      rw [if_neg float] at body
      by_cases bool : tag = tagBool
      · rw [if_pos bool] at body
        exact absurd rfl (notZSet_bool _ _ _ body dict sorted)
      rw [if_neg bool] at body
      by_cases null : tag = tagNull
      · rw [if_pos null] at body
        cases body
      rw [if_neg null] at body
      by_cases compressed : tag = tagCompressed
      · rw [if_pos compressed] at body
        subst compressed
        obtain ⟨len, tail, inner, length, unpacked, rest', inside⟩ := readCompressedValue_eq_ok body
        obtain ⟨entries, standing, facts⟩ := ih inside
        exact ⟨entries, ZSetAt.block length unpacked standing, facts⟩
      rw [if_neg compressed] at body
      by_cases hash : tag = tagHash
      · rw [if_pos hash] at body
        exact absurd rfl (notZSet_hash _ _ _ _ body dict sorted)
      rw [if_neg hash] at body
      by_cases zset : tag = tagZSet
      · rw [if_pos zset] at body
        subst zset
        obtain ⟨entries, got, rfl, rfl⟩ := readZSetValue_eq_ok body
        exact ⟨entries, ZSetAt.plain got, limited_entries got, rfl, rfl⟩
      rw [if_neg zset] at body
      by_cases set : tag = tagSet
      · rw [if_pos set] at body
        exact absurd rfl (notZSet_set _ _ _ body dict sorted)
      rw [if_neg set] at body
      by_cases hll : tag = tagHll
      · rw [if_pos hll] at body
        exact absurd rfl (notZSet_hll _ _ _ body dict sorted)
      rw [if_neg hll] at body
      by_cases array : tag = tagArray
      · rw [if_pos array] at body
        exact absurd rfl (notZSet_array _ _ _ _ body dict sorted)
      rw [if_neg array] at body
      by_cases bitmap : tag = tagBitmap
      · rw [if_pos bitmap] at body
        exact absurd rfl (notZSet_bitmap _ _ _ body dict sorted)
      · rw [if_neg bitmap] at body
        cases body

/-- The halves of a sorted set that is read agree, and it is written and read back, exactly where
the last entry of every member is the last one of its score and the other way around. -/
theorem zset_agrees_iff {depth : Nat} {b rest : Bytes} {dict : List (Sds × F64)}
    {sorted : List (F64 × Sds)}
    (read : readValueWithVersion version zstd depth b = .ok (.zset dict sorted, rest)) :
    (∃ entries, ZSetAt version zstd b entries) ∧ ∀ entries, ZSetAt version zstd b entries →
      (Agree zstd entries dict sorted ↔ LastWrite.Settled (keyed entries)) := by
  obtain ⟨entries, standing, limited, rfl, rfl⟩ := zsetAt_of_read read
  refine ⟨⟨entries, standing⟩, fun entries' there => ?_⟩
  obtain rfl := standing.unique there
  rw [← halves_iff_settled]
  exact ⟨Agree.halves, agree_of_halves limited⟩

/-- The scores 1 and 2. -/
theorem zset_agrees_two : Agree storing
    [([97], ⟨0x3FF0000000000000⟩), ([98], ⟨0x4000000000000000⟩)]
    [([97], ⟨0x3FF0000000000000⟩), ([98], ⟨0x4000000000000000⟩)]
    [(⟨0x3FF0000000000000⟩, [97]), (⟨0x4000000000000000⟩, [98])] :=
  ((@zset_agrees_iff .v3 storing 1
    (tagZSet :: [2, 1, 97, 0x3F, 0xF0, 0, 0, 0, 0, 0, 0, 1, 98, 0x40, 0, 0, 0, 0, 0, 0, 0]) []
    _ _ (by rfl)).2 _ (@ZSetAt.plain _ _ _ [] _ (by rfl))).mpr (by decide)

/-- Two members with the score 1: the skip list keeps the second one only, while two entries are
announced, so that what is written is not read back. -/
theorem zset_equal_scores : ∃ dict sorted, readValueWithVersion .v3 storing 1
    (tagZSet :: [2, 1, 97, 0x3F, 0xF0, 0, 0, 0, 0, 0, 0, 1, 98, 0x3F, 0xF0, 0, 0, 0, 0, 0, 0]) =
      .ok (.zset dict sorted, []) ∧
    dict = [([97], ⟨0x3FF0000000000000⟩), ([98], ⟨0x3FF0000000000000⟩)] ∧
    sorted = [(⟨0x3FF0000000000000⟩, [98])] ∧
    ¬ Agree storing dict dict sorted ∧
    ∃ e, readValueWithVersion .v3 storing 64 (writeValueInner .v3 (.zset dict sorted)) =
      .error e := by
  refine ⟨_, _, by rfl, rfl, rfl, fun agree => ?_, ?_⟩
  · exact absurd agree.announced (by decide)
  · exact ⟨_, rfl⟩

end

end Zumic.Zdb
