/- The geographic sets of the persistent store (`persistent.rs`): what a stored set gives back. -/

import Zumic.Engine.Persistent

namespace Zumic.Engine.InPersistentStore

open Database Lib Lib.ByteString Lib.Reader Lib.Utf8 Zdb

variable (rt : Runtime)

/-- The value under which a point is stored. -/
def pointValue (point : GeoPoint) : Value := .array [.float point.lon, .float point.lat]

def valuePoint : Value → Option GeoPoint
  | .array [.float lon, .float lat] => some ⟨lon, lat⟩
  | _ => none

/-- The records of a stored set, up to the first that has the name or cannot be read. -/
def findPoint (version : FormatVersion) (member : Sds) : Nat → Bytes →
    Except StoreError (Option GeoPoint)
  | 0, _ => .ok none
  | fuel + 1, b =>
      match streamNext version rt.zstd rt.depth b with
      | .ok (some (m, value), rest) => do
          let name ← asStr rt m
          let wanted ← asStr rt member
          let here := if name = wanted then valuePoint value else none
          if here.isSome then pure here else findPoint version member fuel rest
      | _ => .ok none

def geoPos (key member : Sds) : StoreRead InPersistentStore (Option GeoPoint) := fun s =>
  match s.index.get key with
  | none => .ok none
  | some raw =>
      match streamHeader raw with
      | .error e => .error (.io (rt.decodeText e))
      | .ok (version, rest) => findPoint rt version member raw.length rest

/-- A record as it is stored. -/
def pointRecord (e : Str × GeoPoint) : Bytes :=
  writeBlob .v3 e.1.bytes ++ writeValueVersioned .v3 rt.zstd (pointValue e.2)

/-- The points in the order of their names. -/
def byName (points : GeoPoints) : GeoPoints :=
  points.mergeSort fun a b => decide (a.1.bytes ≤ b.1.bytes)

theorem encodePoints_eq (points : GeoPoints) : encodePoints rt points =
    fileMagic ++ 3 :: ((byName points).flatMap (pointRecord rt) ++ [tagEof]) := by
  unfold encodePoints writeStream writeStreamVersioned
  dsimp only
  rw [List.flatMap_map, List.append_assoc]
  rfl

theorem streamHeader_encodePoints (points : GeoPoints) :
    streamHeader (encodePoints rt points) =
      .ok (.v3, (byName points).flatMap (pointRecord rt) ++ [tagEof]) := by
  rw [encodePoints_eq]
  rfl

section

variable {rt}

theorem writeValueInner_point (point : GeoPoint) : writeValueInner .v3 (pointValue point) =
    tagArray :: (writeLength .v3 2 ++
      [point.lon, point.lat].flatMap fun f => tagFloat :: writeF64 f) := by
  unfold pointValue
  simp only [writeValueInner, writeItems, List.flatMap_cons, List.flatMap_nil]
  rfl

theorem length_writeValueInner_point (point : GeoPoint) :
    (writeValueInner .v3 (pointValue point)).length = 20 := by
  rw [writeValueInner_point]
  simp [writeF64, writeLength, FormatVersion.usesVarint, writeVarint, varintBytes, maxVarintLen]

theorem writeValueVersioned_point (point : GeoPoint) :
    writeValueVersioned .v3 rt.zstd (pointValue point) =
      writeValueInner .v3 (pointValue point) := by
  unfold writeValueVersioned
  dsimp only
  rw [length_writeValueInner_point]
  rfl

theorem reads_point (deep : 2 ≤ rt.depth) (point : GeoPoint) :
    Reads (readValueWithVersion .v3 rt.zstd rt.depth)
      (writeValueVersioned .v3 rt.zstd (pointValue point)) (pointValue point) := by
  obtain ⟨n, depth⟩ : ∃ n, rt.depth = n + 2 := ⟨rt.depth - 2, by omega⟩
  have float : ∀ f : F64, Reads (readValueWithVersion .v3 rt.zstd (n + 1))
      (tagFloat :: writeF64 f) (.float f) := by
    intro f
    have body : Reads (readTagged .v3 rt.zstd (readValueWithVersion .v3 rt.zstd n) tagFloat)
        (writeF64 f) (.float f) := (reads_readF64 f _).bind_pure (f := Value.float)
    exact (reads_next _ tagFloat).bind body
  have count := @reads_readCount .v3 2 "Array" (by decide)
  have items := reads_readMany [point.lon, point.lat] fun f _ _ => float f
  have body : Reads (readTagged .v3 rt.zstd (readValueWithVersion .v3 rt.zstd (n + 1)) tagArray)
      (writeLength .v3 2 ++ [point.lon, point.lat].flatMap fun f => tagFloat :: writeF64 f)
      (pointValue point) := count.bind (items.bind_pure (f := Value.array))
  rw [writeValueVersioned_point, writeValueInner_point, depth]
  exact (reads_next _ tagArray).bind body

/-- The length of a short name is one byte, and no end mark. -/
theorem writeLength_short {n : Nat} (short : n < 128) : writeLength .v3 n = [UInt8.ofNat n] := by
  have word : n % 2 ^ 32 = n := Nat.mod_eq_of_lt (by omega)
  have last : n / 128 = 0 := by omega
  have low : n % 128 = n := Nat.mod_eq_of_lt short
  unfold writeLength writeVarint
  rw [word]
  show varintBytes 5 n = _
  rw [varintBytes, if_pos last, low]

theorem streamNext_point (deep : 2 ≤ rt.depth) {e : Str × GeoPoint} (short : e.1.bytes.length < 128)
    (t : Bytes) : streamNext .v3 rt.zstd rt.depth (pointRecord rt e ++ t) =
      .ok (some (e.1.bytes, pointValue e.2), t) := by
  have byte : (UInt8.ofNat e.1.bytes.length).toNat = e.1.bytes.length := by
    rw [UInt8.toNat_ofNat']
    omega
  have shape : pointRecord rt e ++ t = UInt8.ofNat e.1.bytes.length ::
      (e.1.bytes ++ (writeValueVersioned .v3 rt.zstd (pointValue e.2) ++ t)) := by
    unfold pointRecord writeBlob
    rw [writeLength_short short, List.append_assoc, List.append_assoc]
    rfl
  have open' : UInt8.ofNat e.1.bytes.length ≠ tagEof := by
    intro same
    rw [same] at byte
    have eof : tagEof.toNat = 255 := rfl
    omega
  have length : keyLength .v3 (UInt8.ofNat e.1.bytes.length) = pure e.1.bytes.length := by
    have small : (UInt8.ofNat e.1.bytes.length).toNat < 128 := by omega
    have varint : FormatVersion.v3.usesVarint = true := rfl
    unfold keyLength
    rw [if_pos varint, if_pos small, byte]
  have fits : e.1.bytes.length ≤ maxStringSize := le_trans (Nat.le_of_lt short) (by decide)
  have head : ∀ s, Reader.next (ZdbError.unexpectedEof "reading next entry")
      (UInt8.ofNat e.1.bytes.length :: s) = .ok (UInt8.ofNat e.1.bytes.length, s) := fun _ => rfl
  rw [shape, streamNext, bind_of_ok (head _), if_neg open', length]
  rw [bind_of_ok (pure_apply _ _), bind_of_ok (ensureSize_of_le fits _),
    bind_of_ok (reads_take _ e.1.bytes _), bind_of_ok (reads_point deep e.2 t)]
  rfl

theorem streamNext_eof (t : Bytes) :
    streamNext .v3 rt.zstd rt.depth (tagEof :: t) = .ok (none, t) := by
  rw [streamNext, bind_of_ok (show Reader.next _ (tagEof :: t) = .ok (tagEof, t) from rfl),
    if_pos rfl]
  rfl

theorem asStr_bytes (name : Str) : asStr rt name.bytes = .ok name := by
  unfold asStr
  rw [Str.fromUtf8_bytes]

/-- Names that the reader takes, and coordinates that a set takes. -/
structure Storable (e : Str × GeoPoint) : Prop where
  short : e.1.bytes.length < 128
  valid : validateCoords e.2.lon e.2.lat = true

theorem readPoints_records (deep : 2 ≤ rt.depth) {fuel : Nat} {records points : GeoPoints}
    (each : ∀ e ∈ records, Storable e) (enough : records.length < fuel) :
    readPoints rt .v3 fuel (records.flatMap (pointRecord rt) ++ [tagEof]) points =
      .ok (records.foldl (fun points e => Assoc.insert points e.1 e.2) points) := by
  induction records generalizing fuel points with
  | nil =>
      obtain ⟨n, rfl⟩ : ∃ n, fuel = n + 1 := ⟨fuel - 1, by simp at enough; omega⟩
      rw [List.flatMap_nil, List.nil_append, readPoints, streamNext_eof]
      rfl
  | cons e records ih =>
      obtain ⟨n, rfl⟩ : ∃ n, fuel = n + 1 := ⟨fuel - 1, by simp at enough; omega⟩
      have storable := each e List.mem_cons_self
      rw [List.flatMap_cons, List.append_assoc, readPoints,
        streamNext_point deep storable.short]
      have rest := @ih n (Assoc.insert points e.1 e.2)
        (fun e' member => each e' (List.mem_cons_of_mem e member)) (by simp at enough; omega)
      change (asStr rt e.1.bytes).bind (fun member => readPoints rt .v3 n _
        (addPoint points member e.2.lon e.2.lat)) = _
      rw [asStr_bytes]
      change readPoints rt .v3 n _ (addPoint points e.1 e.2.lon e.2.lat) = _
      unfold addPoint
      rw [if_pos storable.valid]
      exact rest

theorem findPoint_records (deep : 2 ≤ rt.depth) (wanted : Str) {fuel : Nat} {records : GeoPoints}
    (each : ∀ e ∈ records, Storable e) (enough : records.length < fuel) :
    findPoint rt .v3 wanted.bytes fuel (records.flatMap (pointRecord rt) ++ [tagEof]) =
      .ok (Assoc.get records wanted) := by
  induction records generalizing fuel with
  | nil =>
      obtain ⟨n, rfl⟩ : ∃ n, fuel = n + 1 := ⟨fuel - 1, by simp at enough; omega⟩
      rw [List.flatMap_nil, List.nil_append, findPoint, streamNext_eof]
      rfl
  | cons e records ih =>
      obtain ⟨n, rfl⟩ : ∃ n, fuel = n + 1 := ⟨fuel - 1, by simp at enough; omega⟩
      have storable := each e List.mem_cons_self
      have rest := @ih n (fun e' member => each e' (List.mem_cons_of_mem e member))
        (by simp at enough; omega)
      rw [List.flatMap_cons, List.append_assoc, findPoint, streamNext_point deep storable.short]
      dsimp only
      rw [asStr_bytes, asStr_bytes, Assoc.get]
      by_cases here : e.1 = wanted
      · rw [if_pos here]
        have found : (if e.1 = wanted then valuePoint (pointValue e.2) else none) = some e.2 :=
          if_pos here
        change (if (if e.1 = wanted then valuePoint (pointValue e.2) else none).isSome then
          Except.ok (if e.1 = wanted then valuePoint (pointValue e.2) else none) else _) = _
        rw [found]
        rfl
      · rw [if_neg here, ← rest]
        have other : (if e.1 = wanted then valuePoint (pointValue e.2) else none) = none :=
          if_neg here
        change (if (if e.1 = wanted then valuePoint (pointValue e.2) else none).isSome then
          Except.ok (if e.1 = wanted then valuePoint (pointValue e.2) else none) else _) = _
        rw [other]
        rfl

theorem length_le_flatMap_pointRecord (records : GeoPoints) :
    records.length ≤ (records.flatMap (pointRecord rt)).length := by
  induction records with
  | nil => exact Nat.le_refl 0
  | cons e records ih =>
      have head : 0 < (pointRecord rt e).length := by
        have mark := @length_writeLength_pos .v3 e.1.bytes.length
        unfold pointRecord writeBlob
        rw [List.length_append, List.length_append]
        omega
      rw [List.flatMap_cons, List.length_append, List.length_cons]
      omega

end

section

/-- Points that the reader gives back, under distinct names. -/
structure ReadablePoints (points : GeoPoints) : Prop where
  distinct : (Assoc.keys points).Nodup
  each : ∀ e ∈ points, Storable e

variable {rt} {points : GeoPoints}

theorem byName_perm (points : GeoPoints) : (byName points).Perm points :=
  List.mergeSort_perm _ _

theorem ReadablePoints.byName (readable : ReadablePoints points) :
    ReadablePoints (byName points) where
  distinct := ((byName_perm points).symm.map Prod.fst).nodup readable.distinct
  each e member := readable.each e ((byName_perm points).mem_iff.mp member)

theorem ReadablePoints.insert (readable : ReadablePoints points) {e : Str × GeoPoint}
    (storable : Storable e) : ReadablePoints (Assoc.insert points e.1 e.2) where
  distinct := Assoc.nodup_keys_insert readable.distinct _ _
  each e' member := by
    rcases Assoc.mem_insert member with rfl | old
    · exact storable
    · exact readable.each e' old

theorem length_byName_lt (points : GeoPoints) :
    (byName points).length < (encodePoints rt points).length := by
  have records := @length_le_flatMap_pointRecord rt (byName points)
  rw [encodePoints_eq, List.length_append, List.length_cons, List.length_append]
  omega

variable (deep : 2 ≤ rt.depth) {s : InPersistentStore} {key : Sds}
include deep

theorem storedPoints_encodePoints (readable : ReadablePoints points)
    (stored : s.index.get key = some (encodePoints rt points)) :
    storedPoints rt s key = .ok (byName points) := by
  have enough := @length_byName_lt rt points
  have read := @readPoints_records rt deep _ _ [] readable.byName.each enough
  rw [Assoc.foldl_insert (by simpa using readable.byName.distinct), List.nil_append] at read
  unfold storedPoints
  rw [stored]
  dsimp only
  rw [streamHeader_encodePoints]
  exact read

theorem geoPos_encodePoints (readable : ReadablePoints points)
    (stored : s.index.get key = some (encodePoints rt points)) (name : Str) :
    geoPos rt key name.bytes s = .ok (Assoc.get points name) := by
  have enough := @length_byName_lt rt points
  have read := findPoint_records deep name readable.byName.each enough
  rw [Assoc.get_of_perm (byName_perm points) readable.byName.distinct] at read
  unfold geoPos
  rw [stored]
  dsimp only
  rw [streamHeader_encodePoints]
  exact read

omit deep in
theorem geoAdd_of_storedPoints (found : storedPoints rt s key = .ok points)
    {e : Str × GeoPoint} (storable : Storable e) :
    geoAdd rt key e.2.lon e.2.lat e.1.bytes s =
      (.ok (!(Assoc.get points e.1).isSome),
        s.put key (encodePoints rt (Assoc.insert points e.1 e.2))) := by
  have added : addPoint points e.1 e.2.lon e.2.lat = Assoc.insert points e.1 e.2 :=
    if_pos storable.valid
  unfold geoAdd
  rw [found, asStr_bytes, ← added]
  rfl

omit deep in
theorem get_put (s : InPersistentStore) (key value : Bytes) :
    (s.put key value).index.get key = some value := by
  rw [put, ShardedIndex.get_insert]
  exact if_pos rfl

/-- The set under the key after the additions `given`: for every name the point given last. -/
def Stores (rt : Runtime) (s : InPersistentStore) (key : Sds) (given : GeoPoints) : Prop :=
  (given = [] ∧ s.index.get key = none) ∨
    ∃ points, ReadablePoints points ∧ s.index.get key = some (encodePoints rt points) ∧
      ∀ name, Assoc.get points name = Assoc.get given.reverse name

theorem Stores.storedPoints {given : GeoPoints} (stores : Stores rt s key given) :
    ∃ points, ReadablePoints points ∧ InPersistentStore.storedPoints rt s key = .ok points ∧
      ∀ name, Assoc.get points name = Assoc.get given.reverse name := by
  rcases stores with ⟨rfl, absent⟩ | ⟨points, readable, stored, last⟩
  · refine ⟨[], ⟨List.nodup_nil, fun e member => absurd member List.not_mem_nil⟩, ?_, fun _ => rfl⟩
    unfold InPersistentStore.storedPoints
    rw [absent]
  · refine ⟨byName points, readable.byName, storedPoints_encodePoints deep readable stored, ?_⟩
    intro name
    rw [Assoc.get_of_perm (byName_perm points) readable.byName.distinct, last]

theorem Stores.geoPos {given : GeoPoints} (stores : Stores rt s key given) (name : Str) :
    InPersistentStore.geoPos rt key name.bytes s = .ok (Assoc.get given.reverse name) := by
  rcases stores with ⟨rfl, absent⟩ | ⟨points, readable, stored, last⟩
  · unfold InPersistentStore.geoPos
    rw [absent]
    rfl
  · rw [geoPos_encodePoints deep readable stored, last]

theorem Stores.geoAdd {given : GeoPoints} (stores : Stores rt s key given) {e : Str × GeoPoint}
    (storable : Storable e) :
    (InPersistentStore.geoAdd rt key e.2.lon e.2.lat e.1.bytes s).1 =
        .ok (decide (e.1 ∉ Assoc.keys given)) ∧
      Stores rt (InPersistentStore.geoAdd rt key e.2.lon e.2.lat e.1.bytes s).2 key
        (given ++ [e]) := by
  obtain ⟨points, readable, found, last⟩ := stores.storedPoints deep
  rw [geoAdd_of_storedPoints found storable]
  constructor
  · have known : e.1 ∈ Assoc.keys given ↔ (Assoc.get points e.1).isSome = true := by
      rw [last, ← Assoc.mem_keys_iff_isSome]
      simp [Assoc.keys]
    by_cases old : e.1 ∈ Assoc.keys given
    · simp [old, known.mp old]
    · have fresh : (Assoc.get points e.1).isSome = false := by
        rw [← Bool.not_eq_true, ← known]
        exact old
      simp [old, fresh]
  · refine Or.inr ⟨Assoc.insert points e.1 e.2, readable.insert storable, get_put s key _, ?_⟩
    intro name
    rw [Assoc.get_insert, last, List.reverse_append]
    rfl

omit deep in
/-- The answers of additions to one set, and the store after them. -/
def geoAdds (rt : Runtime) (key : Sds) :
    GeoPoints → InPersistentStore → List (Except StoreError Bool) × InPersistentStore
  | [], s => ([], s)
  | e :: calls, s =>
      let added := InPersistentStore.geoAdd rt key e.2.lon e.2.lat e.1.bytes s
      let later := geoAdds rt key calls added.2
      (added.1 :: later.1, later.2)

theorem Stores.geoAdds {given calls : GeoPoints} (stores : Stores rt s key given)
    (each : ∀ e ∈ calls, Storable e) :
    Stores rt (InPersistentStore.geoAdds rt key calls s).2 key (given ++ calls) ∧
      ∀ i : Nat, (InPersistentStore.geoAdds rt key calls s).1[i]? = calls[i]?.map fun e =>
        .ok (decide (e.1 ∉ Assoc.keys (given ++ calls.take i))) := by
  induction calls generalizing s given with
  | nil =>
      rw [List.append_nil]
      exact ⟨stores, fun i => rfl⟩
  | cons e calls ih =>
      obtain ⟨answer, after⟩ := stores.geoAdd deep (each e List.mem_cons_self)
      obtain ⟨kept, answers⟩ := ih after fun e' member => each e' (List.mem_cons_of_mem e member)
      rw [List.append_assoc] at kept
      refine ⟨kept, fun i => ?_⟩
      cases i with
      | zero =>
          rw [List.take_zero, List.append_nil]
          exact congrArg some answer
      | succ i =>
          rw [List.take_succ_cons, List.getElem?_cons_succ]
          have later := answers i
          simp only [List.append_assoc, List.singleton_append] at later
          exact later

/-- Names shorter than a varint of two bytes are never lost: additions to a new set are told apart
by their names, and every name has the point given last. -/
theorem geoAdds_keep (absent : s.index.get key = none) {calls : GeoPoints}
    (each : ∀ e ∈ calls, Storable e) :
    (∀ i : Nat, (InPersistentStore.geoAdds rt key calls s).1[i]? = calls[i]?.map fun e =>
        .ok (decide (e.1 ∉ Assoc.keys (calls.take i)))) ∧
      ∀ (n : Nat) (name : Str),
        InPersistentStore.geoPos rt key name.bytes
            (InPersistentStore.geoAdds rt key (calls.take n) s).2 =
          .ok (Assoc.get (calls.take n).reverse name) := by
  have start : Stores rt s key [] := Or.inl ⟨rfl, absent⟩
  refine ⟨(start.geoAdds deep each).2, fun n name => ?_⟩
  have taken : ∀ e ∈ calls.take n, Storable e :=
    fun e member => each e (List.mem_of_mem_take member)
  exact Stores.geoPos deep (start.geoAdds deep taken).1 name

end

def origin : GeoPoint := ⟨F64.ofInt 0, F64.ofInt 0⟩

theorem geoAdds_keep_twice :
    geoPos storingRuntime [103] (Str.lit "a").bytes
        (geoAdds storingRuntime [103] [(Str.lit "a", origin), (Str.lit "b", origin),
          (Str.lit "a", ⟨F64.ofInt 1, F64.ofInt 2⟩)] emptyStore).2 =
      .ok (some ⟨F64.ofInt 1, F64.ofInt 2⟩) :=
  (@geoAdds_keep storingRuntime (by decide) emptyStore [103] rfl
    [(Str.lit "a", origin), (Str.lit "b", origin), (Str.lit "a", ⟨F64.ofInt 1, F64.ofInt 2⟩)]
    (by
      intro e member
      simp only [List.mem_cons, List.not_mem_nil, or_false] at member
      rcases member with rfl | rfl | rfl
      · exact ⟨by decide, by decide⟩
      · exact ⟨by decide, by decide⟩
      · exact ⟨by decide, by decide⟩)).2 3 (Str.lit "a")

section

variable {rt}

theorem writeLength_long {n : Nat} (long : 128 ≤ n) (word : n < 2 ^ 32) :
    ∃ peek t, writeLength .v3 n = peek :: t ∧ ¬ peek.toNat < 128 ∧ t.length ≤ 4 := by
  have same : n % 2 ^ 32 = n := Nat.mod_eq_of_lt word
  have more : n / 128 ≠ 0 := by omega
  have high : ¬ (UInt8.ofNat (n % 128 + 128)).toNat < 128 := by
    rw [toNat_continued]
    omega
  refine ⟨UInt8.ofNat (n % 128 + 128), varintBytes 4 (n / 128), ?_, high,
    length_varintBytes_le 4 _⟩
  unfold writeLength writeVarint
  rw [same]
  show varintBytes 5 n = _
  rw [varintBytes, if_neg more]

/-- Behind the length of a long name too little is left of the last record. -/
theorem streamNext_long {e : Str × GeoPoint} (long : 128 ≤ e.1.bytes.length)
    (fits : e.1.bytes.length ≤ maxStringSize) {entry : Sds × Value} {rest : Bytes} :
    streamNext .v3 rt.zstd rt.depth (pointRecord rt e ++ [tagEof]) ≠ .ok (some entry, rest) := by
  have word : e.1.bytes.length < 2 ^ 32 := lt_of_le_of_lt fits (by decide)
  obtain ⟨peek, t, head, high, few⟩ := writeLength_long long word
  obtain ⟨after, tail⟩ : ∃ after, after =
      e.1.bytes ++ writeValueVersioned .v3 rt.zstd (pointValue e.2) ++ [tagEof] := ⟨_, rfl⟩
  have shape : pointRecord rt e ++ [tagEof] = peek :: (t ++ after) := by
    unfold pointRecord writeBlob
    rw [head, tail]
    simp
  have left : ((t ++ after).drop readAhead).length < e.1.bytes.length := by
    have value : (writeValueVersioned .v3 rt.zstd (pointValue e.2)).length = 20 := by
      rw [writeValueVersioned_point, length_writeValueInner_point]
    have ahead : readAhead = 8192 := rfl
    rw [List.length_drop, tail]
    simp only [List.length_append, value, List.length_singleton, ahead]
    omega
  have varint : readVarint (peek :: (t ++ after)) = .ok (e.1.bytes.length, after) := by
    have read := reads_readLength word .v3 after
    rw [head] at read
    exact read
  have length : keyLength .v3 peek (t ++ after) =
      .ok (e.1.bytes.length, (t ++ after).drop readAhead) := by
    have usesVarint : FormatVersion.v3.usesVarint = true := rfl
    unfold keyLength
    rw [if_pos usesVarint, if_neg high, varint]
    rfl
  have next : Reader.next (ZdbError.unexpectedEof "reading next entry") (peek :: (t ++ after)) =
      .ok (peek, t ++ after) := rfl
  intro read
  rw [shape, streamNext, bind_of_ok next] at read
  by_cases mark : peek = tagEof
  · rw [if_pos mark] at read
    cases read
  · rw [if_neg mark, bind_of_ok length, bind_of_ok (ensureSize_of_le fits _)] at read
    obtain ⟨key, rest', taken, -⟩ := bind_eq_ok read
    rw [Reader.take, if_neg (Nat.not_le.mpr left)] at taken
    cases taken

theorem geoPos_long {s : InPersistentStore} {key : Sds} (absent : s.index.get key = none)
    {e : Str × GeoPoint} (long : 128 ≤ e.1.bytes.length) (fits : e.1.bytes.length ≤ maxStringSize)
    (valid : validateCoords e.2.lon e.2.lat = true) :
    geoPos rt key e.1.bytes (geoAdd rt key e.2.lon e.2.lat e.1.bytes s).2 = .ok none := by
  have found : storedPoints rt s key = .ok [] := by
    unfold storedPoints
    rw [absent]
  have added : addPoint [] e.1 e.2.lon e.2.lat = [e] := if_pos valid
  have stored : (geoAdd rt key e.2.lon e.2.lat e.1.bytes s).2 =
      s.put key (encodePoints rt [e]) := by
    unfold geoAdd
    rw [found, asStr_bytes, ← added]
    rfl
  have one : (byName [e]).flatMap (pointRecord rt) ++ [tagEof] = pointRecord rt e ++ [tagEof] := by
    rw [byName, List.mergeSort_singleton, List.flatMap_singleton]
  have lost : ∀ fuel,
      findPoint rt .v3 e.1.bytes fuel (pointRecord rt e ++ [tagEof]) = .ok none := by
    intro fuel
    cases fuel with
    | zero => rfl
    | succ fuel =>
        rw [findPoint]
        split
        · rename_i read
          exact absurd read (streamNext_long long fits)
        · rfl
  rw [stored]
  unfold geoPos
  rw [get_put]
  dsimp only
  rw [streamHeader_encodePoints, one]
  exact lost _

end

def longName : Str := ⟨List.replicate 128 97, by decide⟩

theorem length_longName : longName.bytes.length = 128 := List.length_replicate

theorem geoAdds_loses_long :
    emptyStore.index.get [103] = none ∧ validateCoords origin.lon origin.lat = true ∧
      geoPos storingRuntime [103] longName.bytes
        (geoAdds storingRuntime [103] [(longName, origin)] emptyStore).2 = .ok none ∧
      Assoc.get [(longName, origin)] longName = some origin :=
  ⟨rfl, by decide, @geoPos_long storingRuntime emptyStore [103] rfl (longName, origin)
    (Nat.le_of_eq length_longName.symm) (by rw [length_longName]; decide) (by decide), by decide⟩

end Zumic.Engine.InPersistentStore
