/- Stream dumps that end early. -/

import Zumic.Zdb.Counted

namespace Zumic.Zdb

open Database Lib Lib.ByteString Lib.Reader

section

variable {version : FormatVersion} {zstd : Zstd}

theorem decides_ensureSize (what : String) (index : Option Nat) (size limit : Nat) :
    Decides (ensureSize what index size limit) [] := by
  unfold ensureSize
  split
  · exact decides_pure ()
  · exact Or.inr (fails_throw _ _)

theorem decides_sized {α : Type} {b : Bytes} (fits : b.length < 2 ^ 32)
    {checks : Nat → ZdbReader Unit} (checked : ∀ n, Decides (checks n) []) {e : ZdbError}
    {f : Bytes → ZdbReader α} (made : ∀ a, Decides (f a) []) :
    Decides (do let n ← readLength version; checks n; let a ← Reader.take n e; f a)
      (writeBlob version b) := by
  have data : Decides (do let a ← Reader.take b.length e; f a) b :=
    (reads_take e b).decides.mapped made
  have body : Decides (do checks b.length; let a ← Reader.take b.length e; f a) ([] ++ b) :=
    (checked b.length).bind fun _ => data
  exact (reads_readLength fits version).bind_decides body

theorem decides_readBlob {b : Bytes} (fits : b.length < 2 ^ 32) (what : String)
    (index : Option Nat) (limit : Nat) (context : String) :
    Decides (readBlob version what index limit context) (writeBlob version b) := by
  have data : Decides (do
      ensureSize what index b.length limit
      Reader.take b.length (.io context) : ZdbReader Bytes) ([] ++ b) :=
    (decides_ensureSize what index b.length limit).bind fun _ => (reads_take _ b).decides
  exact (reads_readLength fits version).bind_decides data

theorem decides_counted {α β : Type} {l : List β} (fits : l.length < 2 ^ 32)
    {p : Nat → ZdbReader α} {encode : β → Bytes} (each : ∀ x ∈ l, ∀ i, Decides (p i) (encode x))
    (what : String) (f : List α → Value) :
    Decides (do let n ← readCount version what; let items ← readMany p n; pure (f items))
      (writeLength version l.length ++ l.flatMap encode) := by
  have items : Decides (do let items ← readMany p l.length; pure (f items)) (l.flatMap encode) :=
    (decides_readMany l each).mapped fun items => decides_pure (f items)
  have body : Decides (do
      ensureSize what none l.length maxCollectionSize
      let items ← readMany p l.length
      pure (f items)) ([] ++ l.flatMap encode) :=
    (decides_ensureSize what none l.length maxCollectionSize).bind fun _ => items
  unfold readCount
  simp only [bind_assoc, pure_bind]
  exact (reads_readLength fits version).bind_decides body

theorem decides_readF64 (f : F64) (context : String) :
    Decides (readF64 context) (writeF64 f) :=
  (reads_readF64 f context).decides

theorem decides_readZSetEntry (modern : version ≠ .legacy) {e : F64 × Sds}
    (fits : e.2.length < 2 ^ 32) (i : Nat) :
    Decides (readZSetEntry version i) (writeBlob version e.2 ++ writeF64 e.1) := by
  refine (decides_readBlob fits _ _ _ _).bind fun member => Decides.mapped ?_ fun score =>
    decides_pure (member, score)
  cases version with
  | legacy => exact absurd rfl modern
  | _ => exact decides_readF64 e.1 _

/-- Sorted sets whose two halves have as many entries, as their count is that of the one half and
their entries are those of the other. -/
def evenNode : Value → Bool
  | .zset dict sorted => dict.length = sorted.length
  | _ => true

theorem decides_tagged {tag : UInt8} {body : Bytes}
    (decides : ∀ n, Decides (readTagged version zstd (readValueWithVersion version zstd n) tag) body)
    (depth : Nat) : Decides (readValueWithVersion version zstd depth) (tag :: body) := by
  cases depth with
  | zero => exact Or.inr (fails_throw _ _)
  | succ n => exact (reads_next _ tag).bind_decides (decides n)

theorem decides_str {s : Sds} (fits : s.length < 2 ^ 32) (depth : Nat) :
    Decides (readValueWithVersion version zstd depth) (writeStr version s) := by
  refine decides_tagged (fun n => ?_) depth
  exact (decides_readBlob fits _ _ _ _).mapped fun s => decides_pure _

theorem decides_readHashEntry {e : Sds × Sds} (key : e.1.length < 2 ^ 32)
    (value : e.2.length < 2 ^ 32) (depth i : Nat) :
    Decides (readHashEntry version (readValueWithVersion version zstd depth) i)
      (writeBlob version e.1 ++ writeStr version e.2) := by
  refine (decides_readBlob key _ _ _ _).bind fun k => (decides_str value depth).mapped fun v => ?_
  cases v with
  | str s => exact decides_pure (k, s)
  | _ => exact Or.inr (fails_throw _ _)

theorem decides_readHllValue {b : Bytes} (fits : b.length < 2 ^ 32) :
    Decides (readHllValue version) (writeBlob version b) := by
  cases version with
  | _ => exact decides_sized fits (fun n => decides_ensureSize _ _ n _) fun a => decides_pure _

theorem decides_readBitmapValue {b : Bytes} (fits : b.length < 2 ^ 32) :
    Decides (readBitmapValue version) (writeBlob version b) := by
  cases version with
  | _ => exact decides_sized fits (fun n => decides_ensureSize _ _ n _) fun a => decides_pure _

theorem length_writeBlob_le (version : FormatVersion) (b : Bytes) : b.length ≤ (writeBlob version b).length := by
  rw [writeBlob, List.length_append]
  omega

theorem writeBlob_ne_nil (b : Bytes) : writeBlob version b ≠ [] := by
  have field : 0 < (writeLength version b.length).length := length_writeLength_pos
  intro none'
  rw [(List.append_eq_nil_iff.mp none').1] at field
  exact absurd field (Nat.lt_irrefl 0)

theorem writeValueInner_ne_nil (v : Value) : writeValueInner version v ≠ [] := by
  cases v <;> simp [writeValueInner, writeStr]

theorem decides_writeValueInner (modern : version ≠ .legacy) {v : Value}
    (even : v.all evenNode = true) (fits : (writeValueInner version v).length < 2 ^ 32)
    (depth : Nat) : Decides (readValueWithVersion version zstd depth) (writeValueInner version v) := by
  induction v using Value.induct generalizing depth with
  | str s =>
      rw [writeValueInner, writeStr, List.length_cons] at fits
      rw [writeValueInner]
      exact decides_str ((length_writeBlob_le version s).trans_lt (by omega)) depth
  | int i =>
      rw [writeValueInner]
      refine decides_tagged (fun _ => ?_) depth
      exact (reads_take_of_length (length_beBytes 8 _)).decides.mapped fun b => decides_pure _
  | float f =>
      rw [writeValueInner]
      refine decides_tagged (fun _ => ?_) depth
      exact (decides_readF64 f _).mapped fun f => decides_pure _
  | bool b =>
      rw [writeValueInner]
      refine decides_tagged (fun _ => ?_) depth
      exact (reads_next _ _).decides.mapped fun b => decides_pure _
  | null =>
      rw [writeValueInner]
      exact decides_tagged (fun _ => decides_pure _) depth
  | list items =>
      rw [writeValueInner, List.cons_append]
      exact decides_tagged (fun _ => Or.inr fun t => ⟨_, rfl⟩) depth
  | array items ih =>
      simp only [Value.all, Bool.and_eq_true, Value.allItems_iff] at even
      rw [writeValueInner, writeItems_eq_flatMap] at fits ⊢
      rw [List.cons_append, List.length_cons, List.length_append] at fits
      have count : items.length ≤ (items.flatMap (writeValueInner version)).length :=
        length_le_flatMap _ fun v _ => writeValueInner_ne_nil v
      refine decides_tagged (fun n => ?_) depth
      refine decides_counted (by omega) (fun v member _ => ih v member (even.2 v member) ?_ n) _ _
      have inside : (writeValueInner version v).length ≤
          (items.flatMap (writeValueInner version)).length := length_le_of_mem_flatMap _ member
      omega
  | hash entries =>
      rw [writeValueInner] at fits ⊢
      rw [List.cons_append, List.length_cons, List.length_append] at fits
      have count := length_le_flatMap (l := entries)
        (fun e => writeBlob version e.1 ++ writeStr version e.2)
        fun e _ none' => writeBlob_ne_nil e.1 (List.append_eq_nil_iff.mp none').1
      refine decides_tagged (fun n => ?_) depth
      refine decides_counted (by omega) (fun e member i => ?_) _ _
      have inside := length_le_of_mem_flatMap
        (fun e => writeBlob version e.1 ++ writeStr version e.2) member
      have key := length_writeBlob_le version e.1
      have value := length_writeBlob_le version e.2
      rw [List.length_append, writeStr, List.length_cons] at inside
      change _ ≤ (entries.flatMap fun e => writeBlob version e.1 ++ writeStr version e.2).length
        at inside
      exact decides_readHashEntry (by omega) (by omega) n i
  | zset dict sorted =>
      simp only [Value.all, evenNode, decide_eq_true_eq] at even
      rw [writeValueInner] at fits ⊢
      rw [List.cons_append, List.length_cons, List.length_append] at fits
      have count := length_le_flatMap (l := sorted)
        (fun e => writeBlob version e.2 ++ writeF64 e.1)
        fun e _ none' => writeBlob_ne_nil e.2 (List.append_eq_nil_iff.mp none').1
      rw [even]
      refine decides_tagged (fun n => ?_) depth
      refine decides_counted (by omega) (fun e member i => ?_) _ _
      have inside := length_le_of_mem_flatMap
        (fun e => writeBlob version e.2 ++ writeF64 e.1) member
      have key := length_writeBlob_le version e.2
      rw [List.length_append] at inside
      exact decides_readZSetEntry modern (by omega) i
  | set members =>
      rw [writeValueInner] at fits ⊢
      rw [List.cons_append, List.length_cons, List.length_append] at fits
      have count := length_le_flatMap (l := members) (writeBlob version)
        fun m _ => writeBlob_ne_nil m
      refine decides_tagged (fun n => ?_) depth
      refine decides_counted (by omega) (fun m member i => ?_) _ _
      have inside := length_le_of_mem_flatMap (writeBlob version) member
      have key := length_writeBlob_le version m
      exact decides_readBlob (by omega) _ _ _ _
  | hyperLogLog hll =>
      rw [writeValueInner, List.length_cons] at fits
      rw [writeValueInner]
      have data := length_writeBlob_le version hll.encoding.denseData
      refine decides_tagged (fun _ => ?_) depth
      exact decides_readHllValue (data.trans_lt (by omega))
  | sstream entries =>
      rw [writeValueInner, List.cons_append]
      exact decides_tagged (fun _ => Or.inr fun t => ⟨_, rfl⟩) depth
  | bitmap bytes =>
      rw [writeValueInner, List.length_cons] at fits
      rw [writeValueInner]
      have data := length_writeBlob_le version bytes
      refine decides_tagged (fun _ => ?_) depth
      exact decides_readBitmapValue (data.trans_lt (by omega))

theorem reads_takeUpTo (b : Bytes) : Reads (takeUpTo b.length : ZdbReader Bytes) b b := by
  intro t
  simp [takeUpTo]

theorem decides_writeValueVersioned (modern : version ≠ .legacy) {v : Value}
    (even : v.all evenNode = true)
    (block : (zstd.compress (writeValueInner version v)).length < 2 ^ 32) (depth : Nat) :
    Decides (readValueWithVersion version zstd depth) (writeValueVersioned version zstd v) := by
  unfold writeValueVersioned
  simp only []
  by_cases long : shouldCompress (writeValueInner version v).length = true
  · rw [if_pos long]
    refine decides_tagged (fun n => ?_) depth
    refine (reads_readLength block version).bind_decides ?_
    by_cases empty : (zstd.compress (writeValueInner version v)).length = 0
    · rw [if_pos empty]
      exact Or.inr (fails_throw _ _)
    · rw [if_neg empty]
      refine Decides.bind (b := []) (decides_ensureSize _ _ _ _) fun _ => ?_
      refine (reads_takeUpTo _).decides.mapped fun block => ?_
      cases zstd.decompress block with
      | none => exact Or.inr (fails_throw _ _)
      | some inner =>
          dsimp only
          split
          · exact decides_pure _
          · exact Or.inr (fails_throw _ _)
  · rw [if_neg long]
    have small : (writeValueInner version v).length < 64 := by
      by_contra big
      exact long (decide_eq_true (not_lt.mp big))
    exact decides_writeValueInner modern even (by omega) depth

theorem streamRecord_head (version : FormatVersion) (zstd : Zstd) (e : Sds × Value) :
    ∃ peek head, writeLength version e.1.length = peek :: head ∧
      streamRecord version zstd e = peek :: (head ++ (e.1 ++ writeValueVersioned version zstd e.2)) := by
  cases field : writeLength version e.1.length with
  | nil =>
      have positive : 0 < (writeLength version e.1.length).length := length_writeLength_pos
      rw [field] at positive
      exact absurd positive (Nat.lt_irrefl 0)
  | cons peek head =>
      refine ⟨peek, head, rfl, ?_⟩
      rw [streamRecord, writeBlob, field]
      simp

theorem decides_readEntryFrom (modern : version ≠ .legacy) {e : Sds × Value}
    (key : e.1.length < 2 ^ 32) (even : e.2.all evenNode = true)
    (block : (zstd.compress (writeValueInner version e.2)).length < 2 ^ 32) {peek : UInt8}
    {rest : Bytes} (record : streamRecord version zstd e = peek :: rest) (depth : Nat) :
    Decides (readEntryFrom version zstd depth peek) rest := by
  obtain ⟨first, head, field, shape⟩ := streamRecord_head version zstd e
  obtain ⟨rfl, rfl⟩ := List.cons.inj (record.symm.trans shape)
  have length : Reads (parserKeyLength version peek) head e.1.length := by
    intro t
    rw [parserKeyLength_eq_ok, ← List.cons_append, ← field]
    exact reads_readLength key version t
  refine length.bind_decides (Decides.bind (b := []) (decides_ensureSize _ _ _ _) fun _ => ?_)
  refine (reads_take _ e.1).bind_decides ?_
  exact (decides_writeValueVersioned modern even block depth).mapped fun v => decides_pure _

end

/-- Records whose lengths fit their fields, with whole sorted sets. -/
structure Writable (version : FormatVersion) (zstd : Zstd) (kvs : List (Sds × Value)) : Prop where
  keys : ∀ e ∈ kvs, e.1.length < 2 ^ 32
  blocks : ∀ e ∈ kvs, (zstd.compress (writeValueInner version e.2)).length < 2 ^ 32
  even : ∀ e ∈ kvs, e.2.all evenNode = true

/-- No record that begins within the first `n` bytes begins with the byte of the end mark. -/
def Unmarked (version : FormatVersion) (zstd : Zstd) (n : Nat) (kvs : List (Sds × Value)) : Prop :=
  ∀ before e after, kvs = before ++ e :: after →
    (before.flatMap (streamRecord version zstd)).length < n →
      (writeLength version e.1.length).head? ≠ some tagEof

section

variable {version : FormatVersion} {zstd : Zstd} {depth : Nat}

theorem Writable.tail {e : Sds × Value} {kvs : List (Sds × Value)}
    (writable : Writable version zstd (e :: kvs)) : Writable version zstd kvs where
  keys e' member := writable.keys e' (List.mem_cons_of_mem _ member)
  blocks e' member := writable.blocks e' (List.mem_cons_of_mem _ member)
  even e' member := writable.even e' (List.mem_cons_of_mem _ member)

theorem not_streamLike_cut (modern : version ≠ .legacy) {kvs : List (Sds × Value)}
    (writable : Writable version zstd kvs) {c t : Bytes}
    (cut : c ++ t = kvs.flatMap (streamRecord version zstd) ++ [tagEof]) (proper : t ≠ [])
    (unmarked : Unmarked version zstd c.length kvs) : ¬ StreamLike version zstd depth c := by
  induction kvs generalizing c with
  | nil =>
      intro like
      have size := congrArg List.length cut
      have left := List.length_pos_iff.mpr proper
      rw [List.length_append] at size
      have empty : c = [] := List.eq_nil_of_length_eq_zero (by simp at size; omega)
      rw [empty] at like
      exact not_streamLike_nil like
  | cons e kvs ih =>
      intro like
      rw [List.flatMap_cons, List.append_assoc] at cut
      obtain ⟨first, head, field, record⟩ := streamRecord_head version zstd e
      rw [record, List.cons_append] at cut
      cases like with
      | mark s =>
          -- The record would begin with the mark.
          obtain ⟨same, -⟩ := List.cons.inj cut
          exact unmarked [] e kvs rfl (by simp) (by rw [field, ← same]; rfl)
      | @record peek s rest e' open' read later =>
          have more : rest ≠ [] := by
            rintro rfl
            exact not_streamLike_nil later
          obtain ⟨rfl, cut'⟩ := List.cons.inj cut
          have taken := decides_readEntryFrom modern (writable.keys e (by simp))
            (writable.even e (by simp)) (writable.blocks e (by simp)) record depth
          have next := (composed_readEntryFrom version zstd depth peek).settled.of_cut taken cut'
            read more
          have size : (streamRecord version zstd e).length + rest.length = (peek :: s).length := by
            have whole : (peek :: s) ++ t = streamRecord version zstd e ++ (rest ++ t) := by
              rw [record, next, cut]
              rfl
            have lengths := congrArg List.length whole
            simp only [List.length_append] at lengths ⊢
            omega
          refine ih writable.tail next (fun before e'' after split within => ?_) later
          refine unmarked (e :: before) e'' after (by rw [split]; rfl) ?_
          rw [List.flatMap_cons, List.length_append]
          omega

theorem reportError_fails {σ : Type} (handler : ParseHandler σ) (error : ParseError)
    (key : Option Sds) (s : σ) : ∃ e, (reportError handler error key s).1 = .error e := by
  unfold reportError
  split
  · exact ⟨_, rfl⟩
  · exact ⟨_, rfl⟩

theorem entries_of_parseLoop {σ : Type} {handler : ParseHandler σ}
    {fuel recordsParsed : Nat} {b : Bytes} {s : σ}
    (run : (parseLoop version zstd depth handler fuel recordsParsed b s).1 = .ok ()) :
    (entries version zstd depth fuel recordsParsed b).2 = .ok () := by
  induction fuel generalizing recordsParsed b s with
  | zero => rfl
  | succ fuel ih =>
      rw [parseLoop] at run
      rw [entries]
      cases next : readNextEntry version zstd depth recordsParsed b with
      | error e =>
          rw [next] at run
          obtain ⟨e', failed⟩ := reportError_fails handler (.zdb e) none s
          exact absurd (failed.symm.trans run) (by simp)
      | ok r =>
          obtain ⟨entry, rest⟩ := r
          rw [next] at run
          cases entry with
          | none => rfl
          | some e =>
              dsimp only at run ⊢
              cases handled : handler.handleEvent (.entry e.1 e.2) s with
              | mk outcome s' =>
                  rw [handled] at run
                  cases outcome with
                  | ok _ => exact ih run
                  | error e' =>
                      obtain ⟨e'', failed⟩ := reportError_fails handler e' (some e.1) s'
                      exact absurd (failed.symm.trans run) (by simp)

theorem parse_ok {σ : Type} {handler : ParseHandler σ} {readerVersion : FormatVersion}
    {b : Bytes} {s : σ} (run : (parse readerVersion zstd depth handler b s).1 = .ok ()) :
    ∃ version rest, readAndValidateHeader b = .ok (version, rest) ∧
      (entries version zstd depth (rest.length + 1) 0 rest).2 = .ok () := by
  rw [parse] at run
  cases header : readAndValidateHeader b with
  | error e =>
      rw [header] at run
      cases run
  | ok r =>
      obtain ⟨version, rest⟩ := r
      refine ⟨version, rest, rfl, ?_⟩
      rw [header] at run
      dsimp only at run
      split at run
      · split at run
        · exact entries_of_parseLoop run
        · cases run
      · cases run

theorem readAndValidateHeader_short {b : Bytes} (short : b.length < 4) :
    ∃ e, readAndValidateHeader b = .error e := by
  unfold readAndValidateHeader
  by_cases magic : 3 ≤ b.length
  · have taken : Reader.take 3 (.unexpectedEof "reading magic number") b =
        (.ok (b.take 3, b.drop 3) : Except ZdbError _) := if_pos magic
    rw [bind_of_ok taken]
    split
    · exact ⟨_, rfl⟩
    · have over' : b.drop 3 = [] := List.drop_of_length_le (by omega)
      rw [over']
      exact ⟨_, rfl⟩
  · have missing : Reader.take 3 (.unexpectedEof "reading magic number") b =
        (.error (.unexpectedEof "reading magic number") : Except ZdbError (Bytes × Bytes)) :=
      if_neg magic
    rw [bind_of_error missing]
    exact ⟨_, rfl⟩

theorem writeStreamVersioned_eq (kvs : List (Sds × Value)) :
    writeStreamVersioned version zstd kvs =
      fileMagic ++ [version.code] ++ (kvs.flatMap (streamRecord version zstd) ++ [tagEof]) := by
  unfold writeStreamVersioned
  rw [← List.append_assoc, List.append_assoc fileMagic [version.code]]
  rfl

theorem take_writeStreamVersioned (kvs : List (Sds × Value)) {n : Nat} (after : 4 ≤ n) :
    (writeStreamVersioned version zstd kvs).take n = fileMagic ++ version.code ::
      (kvs.flatMap (streamRecord version zstd) ++ [tagEof]).take (n - 4) := by
  have size : (fileMagic ++ [version.code]).length = 4 := rfl
  rw [writeStreamVersioned_eq, List.take_append, size, List.take_of_length_le (by rw [size]; omega),
    List.append_assoc]
  rfl

end

/-- A cut of a stream dump is noticed by every handler that stops at errors, but for the cut right
after the header, which is the dump of no records. -/
theorem parse_cut {version readerVersion : FormatVersion} {zstd : Zstd} (modern : version ≠ .legacy)
    (known : readerVersion.canRead version = true) {kvs : List (Sds × Value)}
    (writable : Writable version zstd kvs) {n : Nat}
    (proper : n < (writeStreamVersioned version zstd kvs).length)
    (unmarked : Unmarked version zstd (n - 4) kvs) (depth : Nat) :
    (n ≠ 4 → ∀ {σ : Type} (handler : ParseHandler σ) (s : σ),
      ∃ e, (parse readerVersion zstd depth handler
        ((writeStreamVersioned version zstd kvs).take n) s).1 = .error e) ∧
    (n = 4 → parse readerVersion zstd depth collectHandler
      ((writeStreamVersioned version zstd kvs).take n) [] = (.ok (), [])) := by
  constructor
  · intro other σ handler s
    cases run : (parse readerVersion zstd depth handler
        ((writeStreamVersioned version zstd kvs).take n) s).1 with
    | error e => exact ⟨e, rfl⟩
    | ok done =>
        exfalso
        obtain ⟨version', rest, header, met⟩ := parse_ok run
        by_cases short : n < 4
        · obtain ⟨e, failed⟩ := readAndValidateHeader_short
            (b := (writeStreamVersioned version zstd kvs).take n) (by rw [List.length_take]; omega)
          rw [failed] at header
          cases header
        · rw [take_writeStreamVersioned kvs (not_lt.mp short),
            readAndValidateHeader_header] at header
          obtain ⟨rfl, rfl⟩ := Prod.mk.inj (Except.ok.inj header)
          have size : n - 4 < (kvs.flatMap (streamRecord version zstd) ++ [tagEof]).length := by
            have header : (fileMagic ++ [version.code]).length = 4 := rfl
            rw [writeStreamVersioned_eq, List.length_append, header] at proper
            omega
          have kept : ((kvs.flatMap (streamRecord version zstd) ++ [tagEof]).take (n - 4)).length =
              n - 4 := List.length_take_of_le size.le
          have begun : (kvs.flatMap (streamRecord version zstd) ++ [tagEof]).take (n - 4) ≠ [] := by
            apply List.length_pos_iff.mp
            omega
          have like := (entries_ok_iff (Nat.lt_succ_self _) (Or.inl begun)).mp met
          refine not_streamLike_cut modern writable (List.take_append_drop (n - 4) _) ?_
            (by rw [kept]; exact unmarked) like
          intro whole
          exact absurd (List.drop_eq_nil_iff.mp whole) (by omega)
  · rintro rfl
    rw [take_writeStreamVersioned kvs (Nat.le_refl 4), parse_collect known]
    rfl

theorem unmarked_of_marksEnd {version : FormatVersion} {zstd : Zstd} {kvs : List (Sds × Value)}
    (fits : ∀ e ∈ kvs, e.1.length ≤ maxKeySize)
    (plain : ∀ e ∈ kvs, marksEnd version e.1.length = false) (n : Nat) :
    Unmarked version zstd n kvs := by
  intro before e after split _ marked
  have member : e ∈ kvs := by
    rw [split]
    simp
  obtain ⟨peek, t, field, mark⟩ := writeLength_head (fits e member) version
  rw [field] at marked
  obtain rfl := Option.some.inj marked
  exact absurd (plain e member) (by simp [mark.mp rfl])

/-- Two records, cut in the value of the first one. -/
theorem parse_cut_value :
    ∃ e, (parse .v3 storing 64 collectHandler
      ((writeStreamVersioned .v3 storing [([107], .int 7), ([2], .null)]).take 10) []).1 =
        .error e :=
  (@parse_cut .v3 .v3 storing (by decide) rfl [([107], .int 7), ([2], .null)]
    ⟨by decide, by decide, by decide⟩ 10 (by decide)
    (unmarked_of_marksEnd (by decide) (by decide) 6) 64).1 (by decide) collectHandler []

/-- The header of a dump with one record is accepted as a dump. -/
theorem parse_header_only :
    4 < (writeStreamVersioned .v3 storing [([107], .int 7)]).length ∧
      parse .v3 storing 64 collectHandler
        ((writeStreamVersioned .v3 storing [([107], .int 7)]).take 4) [] = (.ok (), []) :=
  ⟨by decide, rfl⟩

end Zumic.Zdb
