/- Binary-safe strings that are kept inline while short (`sds_base.rs`), for words of 64 bits. -/

import Zumic.Lib.Buffer
import Zumic.Database.Value

namespace Zumic.Database.Sds

open Lib Lib.Buffer Lib.ByteString Lib.Utf8

/-- Three words less the byte of the length. -/
def inlineCap : Nat := 8 * 3 - 1

/-- The two forms of a string. An inline buffer may hold stale bytes behind the length. -/
inductive Repr where
  | inline (len : UInt8) (buf : Bytes)
  | heap (buf : Bytes)
  deriving DecidableEq

def zeroed : Bytes := List.replicate inlineCap 0

def default : Repr := .inline 0 zeroed

/-- A copy at the start of an empty inline buffer. -/
def inlined (bytes : Bytes) : Except Fault Repr := do
  let buf ← Buffer.write zeroed 0 bytes
  pure (.inline (UInt8.ofNat bytes.length) buf)

def fromVec (vec : Bytes) : Except Fault Repr :=
  if vec.length ≤ inlineCap then inlined vec else .ok (.heap vec)

def fromBytes (slice : Bytes) : Except Fault Repr :=
  if slice.length ≤ inlineCap then inlined slice else .ok (.heap slice)

def fromStr (s : Str) : Except Fault Repr := fromBytes s.bytes

def fromString (s : Str) : Except Fault Repr :=
  if s.bytes.length ≤ inlineCap then fromVec s.bytes else .ok (.heap s.bytes)

def fromUtf8Lossy (bytes : Bytes) : Except Fault Repr := fromBytes (Str.lossy bytes).bytes

def withCapacity (cap : Nat) : Repr := if cap ≤ inlineCap then default else .heap []

def repeated (byte : UInt8) (n : Nat) : Except Fault Repr :=
  if n = 0 then .ok default
  else if n ≤ inlineCap then do
    let buf ← Buffer.write zeroed 0 (List.replicate n byte)
    pure (.inline (UInt8.ofNat n) buf)
  else .ok (.heap (List.replicate n byte))

variable (s : Repr)

def asSlice : Except Fault Bytes :=
  match s with
  | .inline len buf => Buffer.slice buf 0 len.toNat
  | .heap buf => .ok buf

def len : Nat :=
  match s with
  | .inline len _ => len.toNat
  | .heap buf => buf.length

def isEmpty : Bool := len s == 0

/-- The capacity of a heap buffer is not kept: nothing but `capacity` shows it. -/
def reserve (additional : Nat) : Except Fault Repr :=
  match s with
  | .inline len buf =>
      if len.toNat + additional ≤ inlineCap then .ok s
      else do
        let kept ← Buffer.slice buf 0 len.toNat
        pure (.heap kept)
  | .heap _ => .ok s

def clear : Repr :=
  match s with
  | .inline _ buf => .inline 0 buf
  | .heap _ => .heap []

def push (byte : UInt8) : Except Fault Repr :=
  match s with
  | .inline len buf =>
      if len.toNat < inlineCap then do
        let buf ← Buffer.write buf len.toNat [byte]
        pure (.inline (len + 1) buf)
      else do
        let kept ← Buffer.slice buf 0 len.toNat
        pure (.heap (kept ++ [byte]))
  | .heap buf => .ok (.heap (buf ++ [byte]))

def append (other : Bytes) : Except Fault Repr :=
  match s with
  | .inline len buf =>
      if len.toNat + other.length ≤ inlineCap then do
        let buf ← Buffer.write buf len.toNat other
        pure (.inline (UInt8.ofNat (len.toNat + other.length)) buf)
      else do
        let kept ← Buffer.slice buf 0 len.toNat
        pure (.heap (kept ++ other))
  | .heap buf => .ok (.heap (buf ++ other))

def inlineDowngrade : Except Fault Repr :=
  match s with
  | .inline _ _ => .ok s
  | .heap buf => if buf.length ≤ inlineCap then inlined buf else .ok s

def truncate (newLen : Nat) : Except Fault Repr :=
  inlineDowngrade (match s with
    | .inline len buf => if newLen < len.toNat then .inline (UInt8.ofNat newLen) buf else s
    | .heap buf => if newLen < buf.length then .heap (buf.take newLen) else s)

/-- An invalid range fails the assertion. -/
def sliceRange (start stop : Nat) : Except Fault (Option Repr) :=
  if start ≤ stop ∧ stop ≤ len s then do
    let bytes ← asSlice s
    let part ← Buffer.slice bytes start stop
    let sliced ← fromBytes part
    pure (some sliced)
  else .ok none

def extend (bytes : Bytes) : Except Fault Repr := bytes.foldlM push s

def fromIter (bytes : Bytes) : Except Fault Repr := extend default bytes

section

def hash {σ : Type} (hashSlice : σ → Bytes → σ) (state : σ) : Except Fault σ := do
  let bytes ← asSlice s
  pure (hashSlice state bytes)

variable (other : Repr)

def eq : Except Fault Bool := do
  let bytes ← asSlice s
  let bytes' ← asSlice other
  pure (bytes == bytes')

def cmp : Except Fault Ordering := do
  let bytes ← asSlice s
  let bytes' ← asSlice other
  pure (compare bytes bytes')

end

/-- How a string comes to be. -/
inductive Start where
  | default
  | fromVec (vec : Bytes)
  | fromBytes (slice : Bytes)
  | fromStr (s : Str)
  | fromString (s : Str)
  | fromUtf8Lossy (bytes : Bytes)
  | withCapacity (cap : Nat)
  | repeated (byte : UInt8) (n : Nat)
  | fromIter (bytes : Bytes)

def Start.build : Start → Except Fault Repr
  | .default => .ok Sds.default
  | .fromVec vec => Sds.fromVec vec
  | .fromBytes slice => Sds.fromBytes slice
  | .fromStr s => Sds.fromStr s
  | .fromString s => Sds.fromString s
  | .fromUtf8Lossy bytes => Sds.fromUtf8Lossy bytes
  | .withCapacity cap => .ok (Sds.withCapacity cap)
  | .repeated byte n => Sds.repeated byte n
  | .fromIter bytes => Sds.fromIter bytes

/-- The same construction of a list. -/
def Start.bytes : Start → Bytes
  | .default => []
  | .fromVec vec => vec
  | .fromBytes slice => slice
  | .fromStr s => s.bytes
  | .fromString s => s.bytes
  | .fromUtf8Lossy bytes => (Str.lossy bytes).bytes
  | .withCapacity _ => []
  | .repeated byte n => List.replicate n byte
  | .fromIter bytes => bytes

/-- A use of a string; a slice of it takes its place. -/
inductive Call where
  | push (byte : UInt8)
  | append (other : Bytes)
  | reserve (additional : Nat)
  | truncate (newLen : Nat)
  | clear
  | extend (bytes : Bytes)
  | sliceRange (start stop : Nat)

def step : Call → Except Fault (Option Repr)
  | .push byte => some <$> push s byte
  | .append other => some <$> append s other
  | .reserve additional => some <$> reserve s additional
  | .truncate newLen => some <$> truncate s newLen
  | .clear => .ok (some (clear s))
  | .extend bytes => some <$> extend s bytes
  | .sliceRange start stop => sliceRange s start stop

/-- The uses in their order, up to one that fails its assertion. -/
def run : Repr → List Call → Except Fault (Option Repr)
  | s, [] => .ok (some s)
  | s, call :: calls => do
      match ← step s call with
      | none => pure none
      | some s => run s calls

/-- The same use of a list. -/
def plainStep (l : Bytes) : Call → Option Bytes
  | .push byte => some (l ++ [byte])
  | .append other => some (l ++ other)
  | .reserve _ => some l
  | .truncate newLen => some (l.take newLen)
  | .clear => some []
  | .extend bytes => some (l ++ bytes)
  | .sliceRange start stop =>
      if start ≤ stop ∧ stop ≤ l.length then some ((l.take stop).drop start) else none

def plainRun (l : Bytes) (calls : List Call) : Option Bytes := calls.foldlM plainStep l

/-- The string reads as these bytes, and its inline form is within its bounds. -/
def Reads : Repr → Bytes → Prop
  | .inline len buf, l =>
      buf.length = inlineCap ∧ len.toNat ≤ inlineCap ∧ buf.take len.toNat = l
  | .heap buf, l => buf = l

/-- An operation ends without a fault in a string that reads as these bytes. -/
def Gives (x : Except Fault Repr) (l : Bytes) : Prop := ∃ s, x = .ok s ∧ Reads s l

section

variable {s : Repr} {l : Bytes}

theorem toNat_ofNat_len {n : Nat} (short : n ≤ inlineCap) : (UInt8.ofNat n).toNat = n := by
  have cap : inlineCap = 23 := rfl
  rw [UInt8.toNat_ofNat']
  exact Nat.mod_eq_of_lt (by omega)

theorem slice_inline {len : UInt8} {buf : Bytes} (reads : Reads (.inline len buf) l) :
    Buffer.slice buf 0 len.toNat = .ok l := by
  obtain ⟨full, short, rfl⟩ := reads
  rw [Buffer.slice, if_pos ⟨Nat.zero_le _, by omega⟩, List.drop_zero, Nat.sub_zero]

theorem length_inline {len : UInt8} {buf : Bytes} (reads : Reads (.inline len buf) l) :
    len.toNat = l.length := by
  obtain ⟨full, short, rfl⟩ := reads
  rw [List.length_take]
  omega

theorem Reads.asSlice (reads : Reads s l) : asSlice s = .ok l := by
  cases s with
  | inline len buf => exact slice_inline reads
  | heap buf => exact congrArg Except.ok reads

theorem Reads.len (reads : Reads s l) : len s = l.length := by
  cases s with
  | inline len buf => exact length_inline reads
  | heap buf => exact congrArg List.length reads

end

section

variable {s : Repr} {l : Bytes}

theorem reads_default : Reads default [] := ⟨List.length_replicate, by decide, rfl⟩

theorem gives_written {len : UInt8} {buf : Bytes} (reads : Reads (.inline len buf) l)
    (items : Bytes) {n : Nat} (sum : n = l.length + items.length) (short : n ≤ inlineCap) :
    ∃ buf', Buffer.write buf len.toNat items = .ok buf' ∧
      Reads (.inline (UInt8.ofNat n) buf') (l ++ items) := by
  have counted := length_inline reads
  obtain ⟨full, _, front⟩ := reads
  have inside : len.toNat + items.length ≤ buf.length := by omega
  refine ⟨_, Buffer.write_of_le inside, ?_, ?_, ?_⟩
  · simp only [List.length_append, List.length_take, List.length_drop]
    omega
  · rw [toNat_ofNat_len short]
    exact short
  · have whole : n = (buf.take len.toNat ++ items).length := by
      rw [front, List.length_append, sum]
    rw [toNat_ofNat_len short, whole, List.take_left, front]

theorem gives_inlined (short : l.length ≤ inlineCap) : Gives (inlined l) l := by
  obtain ⟨buf, written, reads⟩ :=
    gives_written reads_default l (Nat.zero_add _).symm short
  refine ⟨.inline (UInt8.ofNat l.length) buf, ?_, reads⟩
  have written' : Buffer.write zeroed 0 l = .ok buf := written
  rw [inlined, written', ok_bind]
  rfl

theorem gives_heap (l : Bytes) : Gives (.ok (.heap l)) l := ⟨_, rfl, rfl⟩

theorem gives_fromVec (l : Bytes) : Gives (fromVec l) l := by
  rw [fromVec]
  split
  · rename_i short
    exact gives_inlined short
  · exact gives_heap l

theorem gives_fromBytes (l : Bytes) : Gives (fromBytes l) l := gives_fromVec l

theorem gives_fromString (s : Str) : Gives (fromString s) s.bytes := by
  rw [fromString]
  split
  · exact gives_fromVec s.bytes
  · exact gives_heap s.bytes

theorem reads_withCapacity (cap : Nat) : Reads (withCapacity cap) [] := by
  rw [withCapacity]
  split
  · exact reads_default
  · rfl

theorem gives_repeated (byte : UInt8) (n : Nat) :
    Gives (repeated byte n) (List.replicate n byte) := by
  rw [repeated]
  split
  · rename_i none'
    subst none'
    exact ⟨_, rfl, reads_default⟩
  · split
    · rename_i short
      have copies := gives_inlined (l := List.replicate n byte) (by simpa using short)
      rwa [inlined, List.length_replicate] at copies
    · exact gives_heap _

theorem Reads.reserve (reads : Reads s l) (additional : Nat) : Gives (reserve s additional) l := by
  cases s with
  | heap buf => exact ⟨_, rfl, reads⟩
  | inline len buf =>
      rw [Sds.reserve]
      split
      · exact ⟨_, rfl, reads⟩
      · rw [slice_inline reads, ok_bind]
        exact gives_heap l

theorem Reads.clear (reads : Reads s l) : Reads (clear s) [] := by
  cases s with
  | heap buf => rfl
  | inline len buf => exact ⟨reads.1, Nat.zero_le _, rfl⟩

theorem Reads.append (reads : Reads s l) (other : Bytes) : Gives (append s other) (l ++ other) := by
  cases s with
  | heap buf =>
      obtain rfl := reads
      exact gives_heap _
  | inline len buf =>
      have counted := length_inline reads
      rw [Sds.append]
      rw [counted]
      split
      · rename_i short
        obtain ⟨buf', written, reads'⟩ := gives_written reads other rfl short
        rw [counted] at written
        rw [written, ok_bind]
        exact ⟨_, rfl, reads'⟩
      · have kept := slice_inline reads
        rw [counted] at kept
        rw [kept, ok_bind]
        exact gives_heap _

theorem Reads.push (reads : Reads s l) (byte : UInt8) : Gives (push s byte) (l ++ [byte]) := by
  cases s with
  | heap buf =>
      obtain rfl := reads
      exact gives_heap _
  | inline len buf =>
      have counted := length_inline reads
      rw [Sds.push]
      split
      · rename_i short
        have sum : len.toNat + 1 = l.length + [byte].length := by
          rw [counted]
          rfl
        obtain ⟨buf', written, reads'⟩ := gives_written reads [byte] sum short
        rw [written, ok_bind]
        refine ⟨_, rfl, ?_⟩
        rwa [UInt8.ofNat_add, UInt8.ofNat_toNat] at reads'
      · rw [slice_inline reads, ok_bind]
        exact gives_heap _

theorem Reads.inlineDowngrade (reads : Reads s l) : Gives (inlineDowngrade s) l := by
  cases s with
  | inline len buf => exact ⟨_, rfl, reads⟩
  | heap buf =>
      obtain rfl := reads
      rw [Sds.inlineDowngrade]
      split
      · rename_i short
        exact gives_inlined short
      · exact gives_heap buf

theorem Reads.truncate (reads : Reads s l) (newLen : Nat) :
    Gives (truncate s newLen) (l.take newLen) := by
  refine Reads.inlineDowngrade ?_
  cases s with
  | heap buf =>
      obtain rfl := reads
      dsimp only
      split
      · rfl
      · rename_i long
        exact (List.take_of_length_le (Nat.le_of_not_lt long)).symm
  | inline len buf =>
      have counted := length_inline reads
      dsimp only
      split
      · rename_i less
        obtain ⟨full, short, rfl⟩ := reads
        have exact' := toNat_ofNat_len (Nat.le_trans (Nat.le_of_lt less) short)
        refine ⟨full, ?_, ?_⟩
        · rw [exact']
          omega
        · rw [exact', List.take_take, Nat.min_eq_left (Nat.le_of_lt less)]
      · rename_i long
        rw [List.take_of_length_le (by omega)]
        exact reads

theorem Reads.extend (reads : Reads s l) (bytes : Bytes) : Gives (extend s bytes) (l ++ bytes) := by
  induction bytes generalizing s l with
  | nil =>
      rw [List.append_nil]
      exact ⟨s, rfl, reads⟩
  | cons byte bytes ih =>
      obtain ⟨s', pushed, reads'⟩ := reads.push byte
      rw [Sds.extend, List.foldlM_cons, pushed, ok_bind]
      have rest := ih reads'
      rwa [List.append_assoc, List.singleton_append] at rest

theorem Start.gives (start : Start) : Gives start.build start.bytes := by
  cases start with
  | default => exact ⟨_, rfl, reads_default⟩
  | fromVec vec => exact gives_fromVec vec
  | fromBytes slice => exact gives_fromBytes slice
  | fromStr s => exact gives_fromBytes s.bytes
  | fromString s => exact gives_fromString s
  | fromUtf8Lossy bytes => exact gives_fromBytes (Str.lossy bytes).bytes
  | withCapacity cap => exact ⟨_, rfl, reads_withCapacity cap⟩
  | repeated byte n => exact gives_repeated byte n
  | fromIter bytes => exact reads_default.extend bytes

theorem Reads.step (reads : Reads s l) (call : Call) :
    (plainStep l call = none → step s call = .ok none) ∧
    ∀ l', plainStep l call = some l' → ∃ s', step s call = .ok (some s') ∧ Reads s' l' := by
  have ofGives : ∀ {x : Except Fault Repr} {l' : Bytes}, Gives x l' →
      (some l' = none → some <$> x = .ok none) ∧
      ∀ l'', some l' = some l'' → ∃ s', some <$> x = .ok (some s') ∧ Reads s' l'' := by
    intro x l' gives
    refine ⟨fun refused => absurd refused (Option.some_ne_none l'), ?_⟩
    obtain ⟨s', rfl, reads'⟩ := gives
    rintro _ ⟨⟩
    exact ⟨s', rfl, reads'⟩
  cases call with
  | push byte => exact ofGives (reads.push byte)
  | append other => exact ofGives (reads.append other)
  | reserve additional => exact ofGives (reads.reserve additional)
  | truncate newLen => exact ofGives (reads.truncate newLen)
  | clear => exact ofGives ⟨_, rfl, reads.clear⟩
  | extend bytes => exact ofGives (reads.extend bytes)
  | sliceRange start stop =>
      rw [plainStep, Sds.step, sliceRange, reads.len]
      by_cases valid : start ≤ stop ∧ stop ≤ l.length
      · rw [if_pos valid, if_pos valid, reads.asSlice, ok_bind, Buffer.slice, if_pos valid,
          ok_bind, List.take_drop, Nat.add_sub_cancel' valid.1]
        refine ⟨fun refused => absurd refused (Option.some_ne_none _), ?_⟩
        rintro _ ⟨⟩
        obtain ⟨s', sliced, reads'⟩ := gives_fromBytes ((l.take stop).drop start)
        refine ⟨s', ?_, reads'⟩
        rw [sliced, ok_bind]
        rfl
      · rw [if_neg valid, if_neg valid]
        exact ⟨fun _ => rfl, fun l' done => absurd done.symm (Option.some_ne_none l')⟩

theorem Reads.run (reads : Reads s l) (calls : List Call) :
    (plainRun l calls = none → run s calls = .ok none) ∧
    ∀ l', plainRun l calls = some l' → ∃ s', run s calls = .ok (some s') ∧ Reads s' l' := by
  induction calls generalizing s l with
  | nil =>
      refine ⟨nofun, ?_⟩
      rintro _ ⟨⟩
      exact ⟨s, rfl, reads⟩
  | cons call calls ih =>
      obtain ⟨refused, done⟩ := reads.step call
      rw [plainRun, List.foldlM_cons, Sds.run]
      cases stepped : plainStep l call with
      | none =>
          rw [refused stepped]
          exact ⟨fun _ => rfl, nofun⟩
      | some l₁ =>
          obtain ⟨s₁, stepped', reads₁⟩ := done l₁ stepped
          rw [stepped']
          exact ih reads₁

end

/-- A history of a string, from its construction on. -/
def history (start : Start) (calls : List Call) : Except Fault (Option Repr) := do
  let s ← start.build
  run s calls

/-- A history ends without a fault in a string with the bytes of the same history of a list, and is
refused only where a range is invalid; comparisons and hashes see nothing but the bytes. -/
theorem sds_history :
    (∀ (start : Start) (calls : List Call),
      (plainRun start.bytes calls = none → history start calls = .ok none) ∧
      ∀ l, plainRun start.bytes calls = some l → ∃ s, history start calls = .ok (some s) ∧
        asSlice s = .ok l ∧ len s = l.length ∧
        ∀ inlineLen buf, s = .inline inlineLen buf → inlineLen.toNat ≤ inlineCap) ∧
    ∀ (s t : Repr) (l l' : Bytes), asSlice s = .ok l → asSlice t = .ok l' →
      eq s t = .ok (decide (l = l')) ∧ cmp s t = .ok (compare l l') ∧
      ∀ {σ : Type} (hashSlice : σ → Bytes → σ) (state : σ),
        hash s hashSlice state = .ok (hashSlice state l) := by
  constructor
  · intro start calls
    obtain ⟨s, built, reads⟩ := start.gives
    obtain ⟨refused, done⟩ := reads.run calls
    rw [history, built, ok_bind]
    refine ⟨refused, fun l ran => ?_⟩
    obtain ⟨s', ran', reads'⟩ := done l ran
    refine ⟨s', ran', reads'.asSlice, reads'.len, ?_⟩
    rintro inlineLen buf rfl
    exact reads'.2.1
  · intro s t l l' read read'
    refine ⟨?_, ?_, fun hashSlice state => ?_⟩
    · rw [eq, read, ok_bind, read', ok_bind]
      exact congrArg Except.ok (Bool.eq_iff_iff.mpr (by simp))
    · rw [cmp, read, ok_bind, read', ok_bind]
      rfl
    · rw [hash, read, ok_bind]
      rfl

/-- The same byte, inline after a truncation and on the heap after a reservation. -/
theorem sds_history_forms : ∃ s t, history (.fromVec [97]) [.truncate 1] = .ok (some s) ∧
    history (.withCapacity 24) [.push 97] = .ok (some t) ∧ s ≠ t ∧ eq s t = .ok true := by
  obtain ⟨s, ran, read, _⟩ := (sds_history.1 (.fromVec [97]) [.truncate 1]).2 [97] rfl
  obtain ⟨t, ran', read', _⟩ := (sds_history.1 (.withCapacity 24) [.push 97]).2 [97] rfl
  refine ⟨s, t, ran, ran', ?_, (sds_history.2 s t [97] [97] read read').1⟩
  rintro rfl
  exact absurd (ran.trans ran'.symm) (by decide +kernel)

end Zumic.Database.Sds
