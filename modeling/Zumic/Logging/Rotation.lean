/- Log files that are rotated by their size (`rotation.rs`). -/

import Zumic.Lib.Assoc
import Zumic.Lib.Runs
import Zumic.Lib.Utf8

namespace Zumic.Logging

open Lib Lib.ByteString Lib.Decimal Lib.Runs

inductive Component where
  | rootDir
  | curDir
  | parentDir
  | normal (name : Bytes)
  deriving DecidableEq

/-- A path of the standard library, by its components. -/
abbrev PathBuf := List Component

def fileName (path : PathBuf) : Option Bytes :=
  match path.getLast? with
  | some (.normal name) => some name
  | _ => none

/-- What follows the last dot, unless nothing stands before it. -/
def extension (path : PathBuf) : Option Bytes :=
  (fileName path).bind fun name =>
    let after := name.reverse.takeWhile (· ≠ 46)
    if after.length + 1 < name.length then some after.reverse else none

def withFileName (path : PathBuf) (name : Bytes) : PathBuf :=
  (if (fileName path).isSome then path.dropLast else path) ++ [.normal name]

def toStr (name : Bytes) : Option Bytes := if Utf8.validUtf8 name then some name else none

inductive FileNaming where
  | simple
  | dated
  | sequential
  | full
  deriving DecidableEq

/-- The files that were created, in the order in which their present contents were begun. -/
abbrev Disk := List (PathBuf × Bytes)

/-- An existing file is truncated. -/
def Disk.create (disk : Disk) (path : PathBuf) : Disk := Assoc.erase disk path ++ [(path, [])]

def Disk.contents (disk : Disk) (path : PathBuf) : Bytes := (Assoc.get disk path).getD []

/-- No file grows to 2^63 bytes. -/
def Disk.append (disk : Disk) (path : PathBuf) (buf : Bytes) : Option Disk :=
  if (disk.contents path).length + buf.length < 2 ^ 63 then
    some (Assoc.insert disk path (disk.contents path ++ buf))
  else none

/-- The decimal form of a number with at least three digits. -/
def threeDigits (n : Nat) : Bytes :=
  List.replicate (3 - (renderNat n).length) 48 ++ renderNat n

structure SizeRotatingWriter where
  basePath : PathBuf
  maxSize : UInt64
  currentSize : UInt64
  currentFile : Option PathBuf
  rotationCount : UInt64
  naming : FileNaming
  sequence : UInt64

/-- A writer and the files that it created. -/
structure Logs where
  writer : SizeRotatingWriter
  disk : Disk

namespace SizeRotatingWriter

variable (w : SizeRotatingWriter)

def baseName : Bytes := ((fileName w.basePath).bind toStr).getD (bytesOf "zumic")

def extensionName : Bytes := ((extension w.basePath).bind toStr).getD (bytesOf "log")

/-- The path that `get_next_filename` answers on a date; it also counts the sequence on. -/
def nextFilename (date : Bytes) : PathBuf :=
  let number := threeDigits (w.sequence + 1).toNat
  match w.naming with
  | .simple => w.basePath
  | .dated =>
      withFileName w.basePath (w.baseName ++ [45] ++ date ++ [46] ++ w.extensionName)
  | .sequential =>
      withFileName w.basePath (w.baseName ++ [45] ++ number ++ [46] ++ w.extensionName)
  | .full =>
      withFileName w.basePath
        (w.baseName ++ [45] ++ date ++ [45] ++ number ++ [46] ++ w.extensionName)

end SizeRotatingWriter

namespace Logs

variable (s : Logs)

def rotate (date : Bytes) : Logs :=
  let path := s.writer.nextFilename date
  ⟨{ s.writer with
      sequence := s.writer.sequence + 1
      currentFile := some path
      currentSize := 0
      rotationCount := s.writer.rotationCount + 1 }, s.disk.create path⟩

/-- A writer without a file. -/
def unopened (basePath : PathBuf) (maxSizeMb : UInt64) (naming : FileNaming) : Logs :=
  ⟨⟨basePath, maxSizeMb * 1024 * 1024, 0, none, 0, naming, 0⟩, []⟩

def new (basePath : PathBuf) (maxSizeMb : UInt64) (naming : FileNaming) (date : Bytes) : Logs :=
  (unopened basePath maxSizeMb naming).rotate date

/-- The buffer would not fit into the current file. -/
def Full (buf : Bytes) : Prop :=
  s.writer.maxSize < s.writer.currentSize + UInt64.ofNat buf.length

instance (buf : Bytes) : Decidable (s.Full buf) := inferInstanceAs (Decidable (_ < _))

/-- Writes to the current file. -/
def put (buf : Bytes) : Option Logs :=
  match s.writer.currentFile with
  | some path => do
      let disk ← s.disk.append path buf
      pure ⟨{ s.writer with
        currentSize := s.writer.currentSize + UInt64.ofNat buf.length }, disk⟩
  | none => some s

/-- A call of `write_all` with the date that it reads; nothing stands for an error. -/
def writeAll (call : Bytes × Bytes) : Option Logs :=
  (if s.Full call.2 then s.rotate call.1 else s).put call.2

/-- A rotation for this call picks no file that has bytes in it. -/
def Spares (call : Bytes × Bytes) : Prop :=
  s.Full call.2 → s.disk.contents (s.writer.nextFilename call.1) = []

instance (call : Bytes × Bytes) : Decidable (s.Spares call) :=
  inferInstanceAs (Decidable (_ → _))

end Logs

section

variable {disk front : Disk} {path : PathBuf} {content : Bytes}

/-- The bytes on the disk in the order of the files. -/
def Disk.all (disk : Disk) : Bytes := (disk.map Prod.snd).flatten

theorem Disk.all_append (disk disk' : Disk) : Disk.all (disk ++ disk') = disk.all ++ disk'.all := by
  unfold Disk.all
  rw [List.map_append, List.flatten_append]

theorem Disk.all_last (front : Disk) (path : PathBuf) (content : Bytes) :
    Disk.all (front ++ [(path, content)]) = front.all ++ content := by
  rw [Disk.all_append]
  exact congrArg _ (List.append_nil content)

theorem Disk.length_all_create (distinct : (Assoc.keys disk).Nodup) (path : PathBuf) :
    (disk.create path).all.length + (disk.contents path).length = disk.all.length := by
  unfold Disk.create Disk.contents
  rw [Disk.all_last, List.append_nil]
  cases read : Assoc.get disk path with
  | none => rw [Assoc.erase_of_not_mem (Assoc.get_eq_none_iff.mp read)]; rfl
  | some old =>
      obtain ⟨after, listed, erased⟩ := Assoc.split_of_get distinct read
      rw [erased]
      conv_rhs => rw [listed]
      simp only [Disk.all, List.map_append, List.map_cons, List.flatten_append, List.flatten_cons,
        List.length_append, Option.getD_some]
      omega

theorem Disk.all_create (distinct : (Assoc.keys disk).Nodup) (empty : disk.contents path = []) :
    (disk.create path).all = disk.all := by
  unfold Disk.contents at empty
  unfold Disk.create
  rw [Disk.all_last, List.append_nil]
  cases read : Assoc.get disk path with
  | none => rw [Assoc.erase_of_not_mem (Assoc.get_eq_none_iff.mp read)]
  | some old =>
      rw [read, Option.getD_some] at empty
      obtain ⟨after, listed, erased⟩ := Assoc.split_of_get distinct read
      rw [erased]
      conv_rhs => rw [listed]
      simp only [Disk.all, List.map_append, List.map_cons, List.flatten_append, List.flatten_cons,
        empty, List.nil_append]

theorem get_last (absent : path ∉ Assoc.keys front) :
    Assoc.get (front ++ [(path, content)]) path = some content := by
  induction front with
  | nil => exact if_pos rfl
  | cons file front ih =>
      rw [Assoc.keys_cons, List.mem_cons, not_or] at absent
      rw [List.cons_append, Assoc.get, if_neg (Ne.symm absent.1)]
      exact ih absent.2

theorem insert_last (absent : path ∉ Assoc.keys front) (content' : Bytes) :
    Assoc.insert (front ++ [(path, content)]) path content' = front ++ [(path, content')] := by
  induction front with
  | nil => exact if_pos rfl
  | cons file front ih =>
      rw [Assoc.keys_cons, List.mem_cons, not_or] at absent
      rw [List.cons_append, Assoc.insert, if_neg (Ne.symm absent.1), ih absent.2]
      rfl

end

namespace Logs

/-- A file is not longer than allowed, or it is a single buffer. -/
def Bounded (maxSize : Nat) (written : List Bytes) (content : Bytes) : Prop :=
  content.length ≤ maxSize ∨ ∃ buf ∈ written, content = buf ∧ maxSize < buf.length

/-- The writer knows the file that it writes to, the last one, and its size. -/
structure Holds (s : Logs) (written : List Bytes) (front : Disk) (path : PathBuf)
    (content : Bytes) : Prop where
  disk : s.disk = front ++ [(path, content)]
  distinct : (Assoc.keys s.disk).Nodup
  current : s.writer.currentFile = some path
  size : s.writer.currentSize = UInt64.ofNat content.length
  short : content.length < 2 ^ 63
  bounded : ∀ file ∈ s.disk, Bounded s.writer.maxSize.toNat written file.2

section

variable {s s' : Logs} {written : List Bytes} {front : Disk} {path : PathBuf} {content : Bytes}

theorem Bounded.more {maxSize : Nat} (bounded : Bounded maxSize written content) (buf : Bytes) :
    Bounded maxSize (written ++ [buf]) content := by
  rcases bounded with fits | ⟨single, member, same, large⟩
  · exact .inl fits
  · exact .inr ⟨single, List.mem_append_left _ member, same, large⟩

theorem Holds.absent (holds : s.Holds written front path content) :
    path ∉ Assoc.keys front := by
  have distinct := holds.distinct
  rw [holds.disk, Assoc.keys, List.map_append, List.nodup_append] at distinct
  exact fun member => distinct.2.2 path member path List.mem_cons_self rfl

theorem holds_rotate (distinct : (Assoc.keys s.disk).Nodup)
    (bounded : ∀ file ∈ s.disk, Bounded s.writer.maxSize.toNat written file.2) (date : Bytes) :
    (s.rotate date).Holds written (Assoc.erase s.disk (s.writer.nextFilename date))
      (s.writer.nextFilename date) [] where
  disk := rfl
  distinct := by
    have fresh : s.writer.nextFilename date ∉
        Assoc.keys (Assoc.erase s.disk (s.writer.nextFilename date)) := by
      rw [← Assoc.get_eq_none_iff, Assoc.get_erase, if_pos rfl]
    have kept := Assoc.nodup_keys_erase distinct (s.writer.nextFilename date)
    unfold rotate Disk.create
    rw [Assoc.keys, List.map_append, List.nodup_append]
    refine ⟨kept, List.nodup_singleton _, fun other member last new same => ?_⟩
    obtain rfl := List.mem_singleton.mp new
    rw [same] at member
    exact fresh member
  current := rfl
  size := rfl
  short := by decide
  bounded := by
    intro file member
    rcases List.mem_append.mp member with old | new
    · exact bounded file ((Assoc.erase_sublist _ _).subset old)
    · rw [List.mem_singleton.mp new]
      exact .inl (Nat.zero_le _)

theorem Holds.read (holds : s.Holds written front path content) :
    s.disk.contents path = content := by
  unfold Disk.contents
  rw [holds.disk, get_last holds.absent]
  rfl

theorem Holds.put_short (holds : s.Holds written front path content) {buf : Bytes}
    (short : content.length + buf.length < 2 ^ 63) :
    s.put buf = some ⟨{ s.writer with
      currentSize := s.writer.currentSize + UInt64.ofNat buf.length },
      front ++ [(path, content ++ buf)]⟩ := by
  unfold Logs.put Disk.append
  rw [holds.current]
  dsimp only
  rw [holds.read, if_pos short, holds.disk, insert_last holds.absent]
  rfl

theorem Holds.of_put (holds : s.Holds written front path content) {buf : Bytes}
    (done : s.put buf = some s') : content.length + buf.length < 2 ^ 63 ∧
      s' = ⟨{ s.writer with currentSize := s.writer.currentSize + UInt64.ofNat buf.length },
        front ++ [(path, content ++ buf)]⟩ := by
  by_cases short : content.length + buf.length < 2 ^ 63
  · rw [holds.put_short short] at done
    exact ⟨short, (Option.some.inj done).symm⟩
  · unfold Logs.put Disk.append at done
    rw [holds.current] at done
    dsimp only at done
    rw [holds.read, if_neg short] at done
    cases done

theorem Holds.keys (holds : s.Holds written front path content) :
    Assoc.keys s.disk = Assoc.keys front ++ [path] := by
  rw [holds.disk, Assoc.keys, List.map_append]
  rfl

theorem Holds.put (holds : s.Holds written front path content) {buf : Bytes}
    (bounded : content.length + buf.length < 2 ^ 63 →
      Bounded s.writer.maxSize.toNat (written ++ [buf]) (content ++ buf))
    (done : s.put buf = some s') :
    s'.Holds (written ++ [buf]) front path (content ++ buf) ∧
      s'.writer.maxSize = s.writer.maxSize := by
  obtain ⟨short, rfl⟩ := holds.of_put done
  have distinct := holds.distinct
  rw [holds.disk] at distinct
  refine ⟨⟨rfl, ?_, holds.current, ?_, ?_, ?_⟩, rfl⟩
  · rw [Assoc.keys, List.map_append] at distinct ⊢
    exact distinct
  · rw [holds.size, List.length_append, UInt64.ofNat_add]
  · rw [List.length_append]
    exact short
  · intro file member
    rcases List.mem_append.mp member with old | new
    · have kept : file ∈ s.disk := by
        rw [holds.disk]
        exact List.mem_append_left _ old
      exact (holds.bounded file kept).more buf
    · rw [List.mem_singleton.mp new]
      exact bounded short

theorem Holds.all (holds : s.Holds written front path content) :
    s.disk.all = front.all ++ content := by
  rw [holds.disk, Disk.all_last]

theorem Holds.fits (holds : s.Holds written front path content) {buf : Bytes}
    (room : ¬ s.Full buf) (short : content.length + buf.length < 2 ^ 63) :
    (content ++ buf).length ≤ s.writer.maxSize.toNat := by
  have sum : (s.writer.currentSize + UInt64.ofNat buf.length).toNat =
      content.length + buf.length := by
    rw [holds.size, ← UInt64.ofNat_add, UInt64.toNat_ofNat']
    exact Nat.mod_eq_of_lt (by omega)
  unfold Full at room
  rw [UInt64.lt_iff_toNat_lt, sum, Nat.not_lt] at room
  rw [List.length_append]
  exact room

/-- After a call all files are still bounded, and the bytes of the buffer are added to those
there were, less those of a file that is created again. -/
theorem Holds.writeAll (holds : s.Holds written front path content) {call : Bytes × Bytes}
    (done : s.writeAll call = some s') :
    (∃ front' path' content', s'.Holds (written ++ [call.2]) front' path' content') ∧
      s'.writer.maxSize = s.writer.maxSize ∧
      (s.Spares call → s'.disk.all = s.disk.all ++ call.2) ∧
      (¬ s.Spares call → s'.disk.all.length < s.disk.all.length + call.2.length) := by
  obtain ⟨date, buf⟩ := call
  unfold Logs.writeAll at done
  dsimp only at done ⊢
  by_cases full : s.Full buf
  · rw [if_pos full] at done
    have fresh := holds_rotate holds.distinct holds.bounded date
    have bounded : Bounded s.writer.maxSize.toNat (written ++ [buf]) ([] ++ buf) := by
      rw [List.nil_append]
      rcases Nat.lt_or_ge s.writer.maxSize.toNat buf.length with large | fits
      · exact .inr ⟨buf, by simp, rfl, large⟩
      · exact .inl fits
    obtain ⟨after, same⟩ := fresh.put (fun _ => bounded) done
    have sum : s'.disk.all = (s.disk.create (s.writer.nextFilename date)).all ++ buf := by
      rw [after.all]
      unfold Disk.create
      rw [Disk.all_last, List.append_nil, List.nil_append]
    refine ⟨⟨_, _, _, after⟩, same, fun spares => ?_, fun lost => ?_⟩
    · rw [sum, Disk.all_create holds.distinct (spares full)]
    · have some : s.disk.contents (s.writer.nextFilename date) ≠ [] := fun none =>
        lost fun _ => none
      have bytes := List.length_pos_iff.mpr some
      have total := Disk.length_all_create holds.distinct (s.writer.nextFilename date)
      rw [sum, List.length_append]
      omega
  · rw [if_neg full] at done
    obtain ⟨after, same⟩ := holds.put (fun short => .inl (holds.fits full short)) done
    refine ⟨⟨_, _, _, after⟩, same, fun _ => ?_, fun lost => ?_⟩
    · rw [after.all, holds.all, List.append_assoc]
    · exact absurd (fun inside => absurd inside full) lost

end

section

variable {s s' : Logs} {written : List Bytes} {front : Disk} {path : PathBuf} {content : Bytes}

theorem Holds.run (holds : s.Holds written front path content) {calls : List (Bytes × Bytes)}
    (ran : Runs.run Logs.writeAll s calls = some s') :
    (∃ front' path' content',
        s'.Holds (written ++ calls.map Prod.snd) front' path' content') ∧
      s'.writer.maxSize = s.writer.maxSize ∧
      (Along Logs.writeAll Spares s calls →
        s'.disk.all = s.disk.all ++ (calls.map Prod.snd).flatten) ∧
      (¬ Along Logs.writeAll Spares s calls →
        s'.disk.all.length < s.disk.all.length + (calls.map Prod.snd).flatten.length) ∧
      s'.disk.all.length ≤ s.disk.all.length + (calls.map Prod.snd).flatten.length := by
  induction calls generalizing s written front path content with
  | nil =>
      obtain rfl := Option.some.inj ran
      refine ⟨⟨front, path, content, ?_⟩, rfl, fun _ => ?_, fun lost => ?_, ?_⟩
      · rw [List.map_nil, List.append_nil]
        exact holds
      · exact (List.append_nil _).symm
      · exact absurd trivial lost
      · exact Nat.le_add_right _ _
  | cons call calls ih =>
      rw [Runs.run, List.foldlM_cons] at ran
      obtain ⟨next, stepped, ran⟩ := Option.bind_eq_some_iff.mp ran
      obtain ⟨⟨front', path', content', after⟩, same, kept, lost⟩ := holds.writeAll stepped
      obtain ⟨⟨front'', path'', content'', final⟩, same', keptAll, lostAny, most⟩ := ih after ran
      have step : next.disk.all.length ≤ s.disk.all.length + call.2.length := by
        by_cases spares : s.Spares call
        · rw [kept spares, List.length_append]
        · exact (lost spares).le
      have along : Along Logs.writeAll Spares s (call :: calls) ↔
          s.Spares call ∧ Along Logs.writeAll Spares next calls :=
        ⟨fun all => ⟨all.1, all.2 next stepped⟩, fun both => .cons both.1 stepped both.2⟩
      rw [along, List.map_cons, List.flatten_cons, List.length_append]
      refine ⟨⟨front'', path'', content'', ?_⟩, same'.trans same, fun both => ?_, fun either => ?_,
        by omega⟩
      · rw [List.append_cons]
        exact final
      · rw [keptAll both.2, kept both.1, List.append_assoc]
      · by_cases spares : s.Spares call
        · have later := lostAny fun rest => either ⟨spares, rest⟩
          omega
        · have now := lost spares
          omega

theorem holds_new (basePath : PathBuf) (maxSizeMb : UInt64) (naming : FileNaming) (date : Bytes) :
    (new basePath maxSizeMb naming date).Holds [] []
      ((unopened basePath maxSizeMb naming).writer.nextFilename date) [] :=
  @holds_rotate (unopened basePath maxSizeMb naming) [] List.nodup_nil
    (fun _ none => by cases none) date

/-- What was written is in the files, in the order of rotation, and every file is bounded, exactly
when no rotation truncates a file with bytes in it. -/
theorem rotation_keeps_iff {basePath : PathBuf} {maxSizeMb : UInt64} {naming : FileNaming}
    {date : Bytes} {calls : List (Bytes × Bytes)} {s : Logs}
    (ran : Runs.run Logs.writeAll (new basePath maxSizeMb naming date) calls = some s) :
    (s.disk.all = (calls.map Prod.snd).flatten ∧
      ∀ file ∈ s.disk, Bounded (maxSizeMb * 1024 * 1024).toNat (calls.map Prod.snd) file.2) ↔
      Along Logs.writeAll Spares (new basePath maxSizeMb naming date) calls := by
  have start := holds_new basePath maxSizeMb naming date
  obtain ⟨⟨front, path', content, final⟩, same, kept, lost, -⟩ := start.run ran
  have empty : (new basePath maxSizeMb naming date).disk.all = [] := start.all
  rw [empty, List.nil_append] at kept
  rw [empty, List.length_nil, Nat.zero_add] at lost
  have bounded := final.bounded
  rw [same, List.nil_append] at bounded
  constructor
  · rintro ⟨all, -⟩
    by_contra spoiled
    have less := lost spoiled
    rw [all] at less
    exact Nat.lt_irrefl _ less
  · exact fun along => ⟨kept along, bounded⟩

end

/-! Names with a number are never used again. -/

/-- Behind its last separator a name is known. -/
theorem last_part_unique {α : Type} {front front' part part' : List α} {sep : α}
    (absent : sep ∉ part) (absent' : sep ∉ part')
    (same : front ++ [sep] ++ part = front' ++ [sep] ++ part') : part = part' := by
  induction part using List.reverseRecOn generalizing part' with
  | nil =>
      cases part' using List.reverseRecOn with
      | nil => rfl
      | append_singleton rest x =>
          rw [List.append_nil, ← List.append_assoc] at same
          have last := (List.append_inj' same rfl).2
          exact absurd (by simp [(List.cons.inj last).1]) absent'
  | append_singleton rest x ih =>
      cases part' using List.reverseRecOn with
      | nil =>
          rw [List.append_nil, ← List.append_assoc] at same
          have last := (List.append_inj' same rfl).2
          exact absurd (by simp [(List.cons.inj last).1]) absent
      | append_singleton rest' x' =>
          rw [← List.append_assoc, ← List.append_assoc] at same
          obtain ⟨before, last⟩ := List.append_inj' same rfl
          rw [List.mem_append, not_or] at absent absent'
          rw [ih absent.1 absent'.1 before, last]

theorem isDigit_threeDigits (n : Nat) : ∀ x ∈ threeDigits n, isDigit x = true := by
  intro x member
  rcases List.mem_append.mp member with zero | digit
  · rw [(List.mem_replicate.mp zero).2]
    rfl
  · exact isDigit_renderNat n x digit

theorem threeDigits_injective : Function.Injective threeDigits := by
  have zeros : ∀ (k : Nat) (b : Bytes), (List.replicate k 48 ++ b).foldl
      (fun acc (x : UInt8) => acc * 10 + (x.toNat - 48)) 0 =
        b.foldl (fun acc x => acc * 10 + (x.toNat - 48)) 0 := by
    intro k b
    induction k with
    | zero => rfl
    | succ k ih => exact ih
  have value : ∀ n, (threeDigits n).foldl (fun acc x => acc * 10 + (x.toNat - 48)) 0 = n := by
    intro n
    have read := readNat_renderNat n
    unfold readNat at read
    split at read
    · exact (zeros _ _).trans (Option.some.inj read)
    · cases read
  intro n n' same
  rw [← value n, same, value n']

/-- The path for a date and a number. -/
def pathAt (w : SizeRotatingWriter) (date : Bytes) (n : Nat) : PathBuf :=
  match w.naming with
  | .simple => w.basePath
  | .dated => withFileName w.basePath (w.baseName ++ [45] ++ date ++ [46] ++ w.extensionName)
  | .sequential =>
      withFileName w.basePath (w.baseName ++ [45] ++ threeDigits n ++ [46] ++ w.extensionName)
  | .full =>
      withFileName w.basePath
        (w.baseName ++ [45] ++ date ++ [45] ++ threeDigits n ++ [46] ++ w.extensionName)

theorem nextFilename_eq (w : SizeRotatingWriter) (date : Bytes) :
    w.nextFilename date = pathAt w date (w.sequence + 1).toNat := rfl

theorem withFileName_injective (path : PathBuf) : Function.Injective (withFileName path) := by
  intro name name' same
  have last := List.append_cancel_left same
  exact Component.normal.inj (List.cons.inj last).1

theorem pathAt_injective {w : SizeRotatingWriter}
    (numbered : w.naming = .sequential ∨ w.naming = .full) {date date' : Bytes} {n n' : Nat}
    (same : pathAt w date n = pathAt w date' n') : n = n' := by
  have plain : ∀ n, (45 : UInt8) ∉ threeDigits n := fun n member =>
    absurd (isDigit_threeDigits n 45 member) (by decide)
  apply threeDigits_injective
  unfold pathAt at same
  rcases numbered with named | named
  all_goals
    rw [named] at same
    have name := withFileName_injective _ same
    rw [List.append_cancel_right_eq, List.append_cancel_right_eq] at name
    exact last_part_unique (plain n) (plain n') name

/-- All files have a number that was used. -/
structure Numbered (w : SizeRotatingWriter) (s : Logs) (count : Nat) : Prop where
  named : s.writer.naming = w.naming
  based : s.writer.basePath = w.basePath
  counted : s.writer.sequence.toNat ≤ count
  used : ∀ path ∈ Assoc.keys s.disk, ∃ date n, n ≤ s.writer.sequence.toNat ∧
    path = pathAt w date n

section

variable {w : SizeRotatingWriter} {s s' : Logs} {count : Nat}

theorem Numbered.next (numbered : Numbered w s count) (few : count + 1 < 2 ^ 64) (date : Bytes) :
    (s.writer.sequence + 1).toNat = s.writer.sequence.toNat + 1 ∧
      s.writer.nextFilename date = pathAt w date (s.writer.sequence.toNat + 1) := by
  have small := numbered.counted
  have one : (1 : UInt64).toNat = 1 := rfl
  have number : (s.writer.sequence + 1).toNat = s.writer.sequence.toNat + 1 := by
    rw [UInt64.toNat_add, one]
    exact Nat.mod_eq_of_lt (by omega)
  refine ⟨number, ?_⟩
  rw [nextFilename_eq, number]
  unfold pathAt SizeRotatingWriter.baseName SizeRotatingWriter.extensionName
  rw [numbered.named, numbered.based]

theorem Numbered.spares (numbered : Numbered w s count)
    (named : w.naming = .sequential ∨ w.naming = .full) (few : count + 1 < 2 ^ 64)
    (call : Bytes × Bytes) : s.Spares call := by
  intro _
  have fresh : s.writer.nextFilename call.1 ∉ Assoc.keys s.disk := by
    intro member
    obtain ⟨date, n, used, same⟩ := numbered.used _ member
    rw [(numbered.next few call.1).2] at same
    have equal := pathAt_injective named same
    omega
  unfold Disk.contents
  rw [Assoc.get_eq_none_iff.mpr fresh]
  rfl

theorem Numbered.rotate (numbered : Numbered w s count) (few : count + 1 < 2 ^ 64) (date : Bytes) :
    Numbered w (s.rotate date) (count + 1) := by
  obtain ⟨number, path⟩ := numbered.next few date
  have small := numbered.counted
  refine ⟨numbered.named, numbered.based, ?_, fun other member => ?_⟩
  · exact number.trans_le (by omega)
  · have split : Assoc.keys (s.rotate date).disk =
        Assoc.keys (Assoc.erase s.disk (s.writer.nextFilename date)) ++
          [s.writer.nextFilename date] := by
      unfold Logs.rotate Disk.create
      rw [Assoc.keys, List.map_append]
      rfl
    rw [split] at member
    have last : (s.rotate date).writer.sequence.toNat = s.writer.sequence.toNat + 1 := number
    rw [last]
    rcases List.mem_append.mp member with old | new
    · have kept := ((Assoc.erase_sublist s.disk _).map Prod.fst).subset old
      obtain ⟨date', n, used, same⟩ := numbered.used other kept
      exact ⟨date', n, by omega, same⟩
    · rw [List.mem_singleton.mp new]
      exact ⟨date, _, le_refl _, path⟩

theorem Numbered.put {written : List Bytes} {front : Disk} {path : PathBuf} {content buf : Bytes}
    (numbered : Numbered w s count) (holds : s.Holds written front path content)
    (done : s.put buf = some s') : Numbered w s' count := by
  obtain ⟨-, rfl⟩ := holds.of_put done
  refine ⟨numbered.named, numbered.based, numbered.counted, fun other member => ?_⟩
  have kept : other ∈ Assoc.keys s.disk := by
    rw [holds.keys]
    rwa [Assoc.keys, List.map_append] at member
  exact numbered.used other kept

theorem Numbered.writeAll {written : List Bytes} {front : Disk} {path : PathBuf}
    {content : Bytes} (numbered : Numbered w s count)
    (holds : s.Holds written front path content) (few : count + 1 < 2 ^ 64)
    {call : Bytes × Bytes} (done : s.writeAll call = some s') : Numbered w s' (count + 1) := by
  unfold Logs.writeAll at done
  by_cases full : s.Full call.2
  · rw [if_pos full] at done
    exact (numbered.rotate few call.1).put (holds_rotate holds.distinct holds.bounded call.1) done
  · rw [if_neg full] at done
    have same := numbered.put holds done
    exact ⟨same.named, same.based, same.counted.trans (Nat.le_succ _), same.used⟩

theorem Numbered.run {written : List Bytes} {front : Disk} {path : PathBuf} {content : Bytes}
    (numbered : Numbered w s count) (holds : s.Holds written front path content)
    (named : w.naming = .sequential ∨ w.naming = .full) {calls : List (Bytes × Bytes)}
    (few : count + calls.length < 2 ^ 64) : Along Logs.writeAll Spares s calls := by
  induction calls generalizing s count written front path content with
  | nil => trivial
  | cons call calls ih =>
      rw [List.length_cons] at few
      refine ⟨numbered.spares named (by omega) call, fun next stepped => ?_⟩
      obtain ⟨⟨_, _, _, after⟩, -⟩ := holds.writeAll stepped
      exact ih (numbered.writeAll holds (by omega) stepped) after (by omega)

/-- A writer that numbers its files loses nothing, whatever the dates. -/
theorem numbered_spares {basePath : PathBuf} {maxSizeMb : UInt64} {naming : FileNaming}
    {date : Bytes} {calls : List (Bytes × Bytes)} (named : naming = .sequential ∨ naming = .full)
    (few : calls.length + 1 < 2 ^ 64) :
    Along Logs.writeAll Spares (new basePath maxSizeMb naming date) calls := by
  have unused : Numbered (unopened basePath maxSizeMb naming).writer
      (unopened basePath maxSizeMb naming) 0 :=
    ⟨rfl, rfl, le_refl _, fun _ none => by cases none⟩
  exact (unused.rotate (by decide) date).run (holds_new basePath maxSizeMb naming date) named
    (by omega)

theorem numbered_spares_bytes :
    Along Logs.writeAll Spares (new [] 0 .sequential []) [([], [97]), ([], [98])] :=
  numbered_spares (.inl rfl) (by decide)

end

/-- `zumic.log`. -/
def zumicLog : PathBuf := [.normal [122, 117, 109, 105, 99, 46, 108, 111, 103]]

/-- `2025-10-06`. -/
def today : Bytes := [50, 48, 50, 53, 45, 49, 48, 45, 48, 54]

/-- The second of two files of one day is the first one, truncated. -/
theorem dated_truncates {a b : Bytes} (long : a.length = 600000) (long' : b.length = 600000) :
    ∃ s, Runs.run Logs.writeAll (new zumicLog 1 .dated today) [(today, a), (today, b)] = some s ∧
      s.disk.all = b := by
  have start := holds_new zumicLog 1 .dated today
  have short : ([] : Bytes).length + a.length < 2 ^ 63 := by
    rw [long]
    decide
  have short' : ([] : Bytes).length + b.length < 2 ^ 63 := by
    rw [long']
    decide
  have room : ¬ (new zumicLog 1 .dated today).Full a := by
    unfold Full
    rw [long]
    decide
  obtain ⟨next, first, after, limit, again⟩ : ∃ next,
      (new zumicLog 1 .dated today).writeAll (today, a) = some next ∧
        next.Holds [a] [] ((unopened zumicLog 1 .dated).writer.nextFilename today) a ∧
        next.writer.maxSize = 1048576 ∧
        next.writer.nextFilename today =
          (unopened zumicLog 1 .dated).writer.nextFilename today := by
    have written := start.put_short short
    obtain ⟨after, -⟩ := start.put (fun _ => .inl (start.fits room short)) written
    refine ⟨_, ?_, after, rfl, rfl⟩
    unfold Logs.writeAll
    rw [if_neg room]
    exact written
  have full : next.Full b := by
    unfold Full
    rw [limit, after.size, long, long']
    decide
  have second := (holds_rotate after.distinct after.bounded today).put_short short'
  have ran : Runs.run Logs.writeAll (new zumicLog 1 .dated today) [(today, a), (today, b)] =
      (next.rotate today).put b := by
    rw [Runs.run, List.foldlM_cons, first]
    change (next.writeAll (today, b)).bind some = _
    unfold Logs.writeAll
    rw [if_pos full]
    exact Option.bind_fun_some _
  have gone : Assoc.erase ([] ++ [((unopened zumicLog 1 .dated).writer.nextFilename today, a)])
      ((unopened zumicLog 1 .dated).writer.nextFilename today) = [] := if_pos rfl
  refine ⟨_, ran.trans second, ?_⟩
  rw [again, after.disk, Disk.all_last, gone]
  rfl

/-- Two buffers that do not fit into one file, written on the same day. -/
theorem dated_loses : ∃ s, Runs.run Logs.writeAll (new zumicLog 1 .dated today)
      [(today, List.replicate 600000 97), (today, List.replicate 600000 98)] = some s ∧
    s.disk.all ≠ List.replicate 600000 97 ++ List.replicate 600000 98 := by
  obtain ⟨s, ran, left⟩ := @dated_truncates (List.replicate 600000 97) (List.replicate 600000 98)
    List.length_replicate List.length_replicate
  refine ⟨s, ran, fun same => ?_⟩
  have sizes := congrArg List.length (left.symm.trans same)
  rw [List.length_append, List.length_replicate, List.length_replicate] at sizes
  omega

/-- Two files of one byte each. -/
theorem rotation_keeps_iff_bytes :
    ∃ s, Runs.run Logs.writeAll (new zumicLog 0 .sequential today)
        [(today, [97]), (today, [98])] = some s ∧
      ((s.disk.all = [97, 98] ∧ ∀ file ∈ s.disk, Bounded 0 [[97], [98]] file.2) ↔
        Along Logs.writeAll Spares (new zumicLog 0 .sequential today)
          [(today, [97]), (today, [98])]) :=
  ⟨_, rfl, @rotation_keeps_iff zumicLog 0 .sequential today [(today, [97]), (today, [98])] _ rfl⟩

end Logs

end Zumic.Logging
