/- Saving a store to a dump file and loading it back (`zdb_protocol.rs`). -/

import Zumic.Engine.Memory
import Zumic.Engine.Persistent
import Zumic.Zdb.StreamDump

namespace Zumic.Engine

open Database Lib Lib.ByteString Lib.Utf8 Zdb

section

variable {γ : Type} (zstd : Zstd)

/-- The file written for a store, whose table lists its entries in an order of its own. -/
def saveToZdb (order : IterationOrder (Sds × Value)) (store : InMemoryStore γ) : Bytes :=
  writeStream zstd (order.order store.data)

/-- Sets a record that was read in the store. -/
def setLoaded (key : Sds) (value : Value) (store : InMemoryStore γ) :
    Except ParseError Unit × InMemoryStore γ :=
  match InMemoryStore.set key value store with
  | (.ok (), store) => (.ok (), store)
  | (.error e, store) => (.error (.handler (Str.lit "store.set failed: " ++ e.toStr)), store)

def loadFromZdb (depth : Nat) (file : Bytes) (store : InMemoryStore γ) :
    Except ParseError Unit × InMemoryStore γ :=
  parse FormatVersion.current zstd depth (callbackHandler setLoaded) file store

end

section

variable {γ : Type} {zstd : Zstd} {depth : Nat}

theorem setLoaded_takes :
    (callbackHandler (@setLoaded γ)).Takes fun store e =>
      { store with data := Assoc.insert store.data e.1 e.2 } :=
  callbackHandler_takes fun _ _ => rfl

theorem foldl_data (items : List (Sds × Value)) (store : InMemoryStore γ) :
    (items.foldl (fun store e => { store with data := Assoc.insert store.data e.1 e.2 })
      store).data = items.foldl (fun data e => Assoc.insert data e.1 e.2) store.data := by
  induction items generalizing store with
  | nil => rfl
  | cons e items ih => rw [List.foldl_cons, ih, List.foldl_cons]

theorem keys_of_sameEntries {a b : List (Sds × Value)} (same : SameEntries a b) :
    Assoc.keys a = Assoc.keys b := by
  induction same with
  | nil => rfl
  | cons first _ ih => rw [Assoc.keys_cons, Assoc.keys_cons, first.1, ih]

theorem get_of_sameEntries {a b : List (Sds × Value)} (same : SameEntries a b) (key : Sds) :
    Option.Rel Same (Assoc.get a key) (Assoc.get b key) := by
  induction same with
  | nil => exact Option.Rel.none
  | @cons x y a b first _ ih =>
      rw [Assoc.get, Assoc.get, first.1]
      split
      · exact Option.Rel.some first.2
      · exact ih

/-- The records before the first false end mark are what a new store holds after loading. -/
theorem loadFromZdb_saveToZdb (lossless : zstd.Lossless) {store : InMemoryStore γ}
    (dumpable : Dumpable zstd depth .v3 store.data) (distinct : (Assoc.keys store.data).Nodup)
    (order : IterationOrder (Sds × Value)) (geo : γ) (rng : Rng) :
    ∃ loaded, loadFromZdb zstd depth (saveToZdb zstd order store) (InMemoryStore.new geo rng) =
        (.ok (), loaded) ∧
      SameEntries (beforeMark .v3 (order.order store.data)) loaded.data := by
  have perm := order.perm store.data
  have listed : Dumpable zstd depth .v3 (order.order store.data) := dumpable.perm perm
  obtain ⟨b, items, shape, same, met⟩ := entries_writeStream lossless (by decide) listed
  have known : FormatVersion.v3.canRead .v3 = true := rfl
  have keys : (Assoc.keys items).Nodup := by
    rw [← keys_of_sameEntries same]
    exact (List.takeWhile_sublist _).map Prod.fst |>.nodup ((perm.map Prod.fst).nodup_iff.mpr distinct)
  refine ⟨_, by rw [loadFromZdb, saveToZdb, writeStream, FormatVersion.current, shape,
    parse_of_takes setLoaded_takes known, met]; rfl, ?_⟩
  have folded : items.foldl (fun data e => Assoc.insert data e.1 e.2) [] = items :=
    Assoc.foldl_insert keys
  rw [foldl_data]
  exact folded.symm ▸ same

theorem restores_iff (lossless : zstd.Lossless) {store : InMemoryStore γ}
    (dumpable : Dumpable zstd depth .v3 store.data) (distinct : (Assoc.keys store.data).Nodup)
    (order : IterationOrder (Sds × Value)) (geo : γ) (rng : Rng) :
    (∃ loaded, loadFromZdb zstd depth (saveToZdb zstd order store) (InMemoryStore.new geo rng) =
        (.ok (), loaded) ∧
      ∀ key, Option.Rel Same (Assoc.get store.data key) (Assoc.get loaded.data key)) ↔
      ∀ e ∈ store.data, marksEnd .v3 e.1.length = false := by
  have perm := order.perm store.data
  obtain ⟨loaded, run, same⟩ := loadFromZdb_saveToZdb lossless dumpable distinct order geo rng
  constructor
  · rintro ⟨loaded', run', restored⟩ e member
    obtain rfl : loaded = loaded' := (Prod.mk.inj (run.symm.trans run')).2
    by_contra marked
    -- The key of a marked record is not before the first mark, so it is not loaded.
    have absent : Assoc.get loaded.data e.1 = none := by
      rw [Assoc.get_eq_none_iff, ← keys_of_sameEntries same]
      intro key
      obtain ⟨e', before, equal⟩ := List.mem_map.mp key
      have unmarked := List.mem_takeWhile_imp before
      rw [equal] at unmarked
      simp [marked] at unmarked
    have kept := restored e.1
    rw [Assoc.get_of_mem distinct member, absent] at kept
    cases kept
  · intro unmarked
    refine ⟨loaded, run, fun key => ?_⟩
    have whole : beforeMark .v3 (order.order store.data) = order.order store.data :=
      beforeMark_eq_iff.mpr fun e member => unmarked e (perm.mem_iff.mp member)
    rw [whole] at same
    rw [← Assoc.get_of_perm perm ((perm.map Prod.fst).nodup_iff.mpr distinct) key]
    exact get_of_sameEntries same key

/-- Stream dumps come back whole, list by list and store by store, exactly when no key length
looks like the end mark. -/
theorem stream_dump_restores_iff (lossless : zstd.Lossless) :
    (∀ (version : FormatVersion) (kvs : List (Sds × Value)), version ≠ .legacy →
      Dumpable zstd depth version kvs →
      ((∃ items, parse .v3 zstd depth collectHandler (writeStreamVersioned version zstd kvs) [] =
          (.ok (), items) ∧ SameEntries kvs items) ↔
        ∀ e ∈ kvs, marksEnd version e.1.length = false)) ∧
    (∀ (store : InMemoryStore γ) (order : IterationOrder (Sds × Value)) (geo : γ) (rng : Rng),
      Dumpable zstd depth .v3 store.data → (Assoc.keys store.data).Nodup →
      ((∃ loaded, loadFromZdb zstd depth (saveToZdb zstd order store)
          (InMemoryStore.new geo rng) = (.ok (), loaded) ∧
        ∀ key, Option.Rel Same (Assoc.get store.data key) (Assoc.get loaded.data key)) ↔
        ∀ e ∈ store.data, marksEnd .v3 e.1.length = false)) :=
  ⟨fun _ _ modern dumpable => parse_writeStream_iff lossless modern dumpable,
    fun _ order geo rng dumpable distinct => restores_iff lossless dumpable distinct order geo rng⟩

/-- Two records, one with a key of two length bytes. -/
def twoRecords : List (Sds × Value) := [(List.replicate 128 107, .int 5), ([], .str [2])]

theorem stream_dump_restores_two :
    Dumpable storing 64 .v3 twoRecords ∧
      ∃ items, parse .v3 storing 64 collectHandler (writeStreamVersioned .v3 storing twoRecords) [] =
        (.ok (), items) ∧ SameEntries twoRecords items := by
  have dumpable : Dumpable storing 64 .v3 twoRecords := by
    refine ⟨by decide +kernel, by decide +kernel, fun e member => ?_, by decide +kernel,
      by decide +kernel⟩
    rcases List.mem_cons.mp member with rfl | later
    · exact ⟨by decide, by decide, by decide⟩
    · obtain rfl := List.mem_singleton.mp later
      exact ⟨by decide, by decide, by decide⟩
  exact ⟨dumpable, ((@stream_dump_restores_iff Unit storing 64 storing_lossless).1 .v3 twoRecords
    (by decide) dumpable).mpr (by decide +kernel)⟩

/-- A key of 255 bytes ends the dump before its first record. -/
theorem stream_dump_long_key :
    Dumpable storing 64 .v3 [(List.replicate 255 107, .null)] ∧
      parse .v3 storing 64 collectHandler
        (writeStreamVersioned .v3 storing [(List.replicate 255 107, .null)]) [] = (.ok (), []) ∧
      ¬∃ items, parse .v3 storing 64 collectHandler
          (writeStreamVersioned .v3 storing [(List.replicate 255 107, .null)]) [] =
        (.ok (), items) ∧ SameEntries [(List.replicate 255 107, .null)] items := by
  have dumpable : Dumpable storing 64 .v3 [(List.replicate 255 107, .null)] := by
    refine ⟨by decide +kernel, by decide, fun e member => ?_, by decide, by decide⟩
    obtain rfl := List.mem_singleton.mp member
    exact ⟨by decide, by decide, by decide⟩
  have parsed : parse .v3 storing 64 collectHandler
      (writeStreamVersioned .v3 storing [(List.replicate 255 107, .null)]) [] = (.ok (), []) := by
    obtain ⟨b, items, shape, same, met⟩ := entries_writeStream storing_lossless (by decide) dumpable
    have cut : beforeMark .v3 [(List.replicate 255 107, Value.null)] = [] :=
      List.takeWhile_cons_of_neg (by decide +kernel)
    rw [cut] at same
    cases same
    rw [shape, parse_collect rfl, met]
    rfl
  refine ⟨dumpable, parsed, ?_⟩
  rintro ⟨items, run, same⟩
  obtain rfl : [] = items := (Prod.mk.inj (parsed.symm.trans run)).2
  cases same

end

end Zumic.Engine
