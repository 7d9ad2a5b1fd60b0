/- Appending under `SyncPolicy::Always`: the buffered writer, the counter of pending operations and
the adaptive batch threshold. -/

import Zumic.Engine.TornTail
import Zumic.Lib.BufWriter

namespace Zumic.Engine

open Lib Lib.ByteString

/-- The capacity of the writer of a log. -/
def writerCapacity : Nat := 8192

def initialBatch : Nat := 32

/-- The threshold is halved when more than five seconds have passed since the last operation, but
never below four. -/
def adjustBatchSize (now lastActivity batchSize : Nat) : Nat :=
  if 5 < now - lastActivity ∧ 4 < batchSize then max (batchSize / 2) 4 else batchSize

/-- The parts of a record as `append_set` and `append_del` hand them to the writer. -/
def recordPieces (e : AofEntry) : List Bytes :=
  [[opCode e], beBytes 4 (Crc32.checksum (payload e)).toNat, payload e]

/-- Where an appending call is. From the counter on it holds the threshold that it loaded. -/
inductive AppendPhase where
  | idle
  | writing (e : AofEntry) (write : BufWriter.Write) (later : List Bytes)
  | count (e : AofEntry)
  | flush (e : AofEntry) (loaded : Nat)
  | adjust (e : AofEntry) (loaded : Nat)

namespace AppendPhase

/-- The operation that is being appended. -/
def current : AppendPhase → List AofEntry
  | .idle => []
  | .writing e _ _ => [e]
  | .count e => [e]
  | .flush e _ => [e]
  | .adjust e _ => [e]

/-- The bytes of its record that the writer has not taken. -/
def left : AppendPhase → Bytes
  | .writing _ write later => write.left ++ later.flatten
  | _ => []

end AppendPhase

/-- A log under `SyncPolicy::Always`. The last field keeps the threshold in force at the last
operation that was appended. -/
structure BatchedLog where
  writer : BufWriter
  pendingOps : Nat
  batchSize : Nat
  lastActivity : Nat
  phase : AppendPhase
  threshold : Nat

namespace BatchedLog

/-- A log just opened on a file. -/
def opened (file : Bytes) (now : Nat) : BatchedLog where
  writer := ⟨file, []⟩
  pendingOps := 0
  batchSize := initialBatch
  lastActivity := now
  phase := .idle
  threshold := initialBatch

/-- One step of an appending call, with the operation it has appended when it returns. Every
reading of the clock is possible. -/
inductive Step : BatchedLog → List AofEntry → BatchedLog → Prop
  | start {s : BatchedLog} (e : AofEntry) (idle : s.phase = .idle) :
      Step s [] { s with phase := .writing e .done (recordPieces e) }
  | piece {s : BatchedLog} {e : AofEntry} {p : Bytes} {later : List Bytes}
      (at' : s.phase = .writing e .done (p :: later)) :
      Step s [] { s with phase := .writing e (.start p) later }
  | write {s : BatchedLog} {e : AofEntry} {c c' : BufWriter.Write} {w : BufWriter}
      {later : List Bytes} (at' : s.phase = .writing e c later)
      (step : BufWriter.Step writerCapacity s.writer c w c') :
      Step s [] { s with writer := w, phase := .writing e c' later }
  | written {s : BatchedLog} {e : AofEntry} (at' : s.phase = .writing e .done []) :
      Step s [] { s with phase := .count e }
  | counted {s : BatchedLog} {e : AofEntry} (now : Nat) (at' : s.phase = .count e)
      (below : s.pendingOps + 1 < s.batchSize) :
      Step s [] { s with
        lastActivity := now, pendingOps := s.pendingOps + 1, phase := .adjust e s.batchSize }
  | full {s : BatchedLog} {e : AofEntry} (now : Nat) (at' : s.phase = .count e)
      (reached : s.batchSize ≤ s.pendingOps + 1) :
      Step s [] { s with
        lastActivity := now, pendingOps := s.pendingOps + 1, phase := .flush e s.batchSize }
  | drain {s : BatchedLog} {e : AofEntry} {loaded : Nat} (n : Nat)
      (at' : s.phase = .flush e loaded) : Step s [] { s with writer := s.writer.drain n }
  | flushed {s : BatchedLog} {e : AofEntry} {loaded : Nat} (at' : s.phase = .flush e loaded)
      (none' : s.writer.buffer = []) :
      Step s [] { s with pendingOps := 0, phase := .adjust e loaded }
  | return' {s : BatchedLog} {e : AofEntry} {loaded : Nat} (now : Nat)
      (at' : s.phase = .adjust e loaded) :
      Step s [e] { s with
        batchSize := adjustBatchSize now s.lastActivity s.batchSize
        phase := .idle
        threshold := loaded }

/-- The states that a log opened on a file can come to, with the operations appended so far. -/
inductive Run (file : Bytes) : List AofEntry → BatchedLog → Prop
  | opened (now : Nat) : Run file [] (opened file now)
  | step {ops out : List AofEntry} {s s' : BatchedLog} (before : Run file ops s)
      (step : Step s out s') : Run file (ops ++ out) s'

end BatchedLog

/-- The operations whose records are not completely on disk. -/
def missingOps (file : Bytes) (ops : List AofEntry) (disk : Bytes) : Nat :=
  ops.length - (completeBefore (disk.length - file.length) ops).length

section

theorem length_completeBefore_le (n : Nat) (ops : List AofEntry) :
    (completeBefore n ops).length ≤ ops.length := by
  induction ops generalizing n with
  | nil => exact le_rfl
  | cons e ops ih =>
      rw [completeBefore]
      split
      · exact Nat.succ_le_succ (ih _)
      · exact Nat.zero_le _

theorem length_completeBefore_mono {n m : Nat} (le : n ≤ m) (ops : List AofEntry) :
    (completeBefore n ops).length ≤ (completeBefore m ops).length := by
  induction ops generalizing n m with
  | nil => exact le_rfl
  | cons e ops ih =>
      rw [completeBefore, completeBefore]
      by_cases fits : (record e).length ≤ n
      · rw [if_pos fits, if_pos (fits.trans le)]
        exact Nat.succ_le_succ (ih (by omega))
      · rw [if_neg fits]
        exact Nat.zero_le _

theorem length_completeBefore_append (n : Nat) (ops later : List AofEntry) :
    (completeBefore n ops).length ≤ (completeBefore n (ops ++ later)).length := by
  induction ops generalizing n with
  | nil => exact Nat.zero_le _
  | cons e ops ih =>
      rw [List.cons_append, completeBefore, completeBefore]
      split
      · exact Nat.succ_le_succ (ih _)
      · exact le_rfl

theorem completeBefore_of_le {n : Nat} {ops : List AofEntry}
    (whole : (ops.flatMap record).length ≤ n) : completeBefore n ops = ops := by
  induction ops generalizing n with
  | nil => rfl
  | cons e ops ih =>
      rw [List.flatMap_cons, List.length_append] at whole
      rw [completeBefore, if_pos (by omega), ih (by omega)]

variable {file : Bytes} {ops : List AofEntry} {disk disk' : Bytes}

theorem missingOps_of_front (grown : disk <+: disk') :
    missingOps file ops disk' ≤ missingOps file ops disk := by
  have longer := grown.length_le
  have more := length_completeBefore_mono
    (show disk.length - file.length ≤ disk'.length - file.length by omega) ops
  rw [missingOps, missingOps]
  omega

theorem missingOps_append (e : AofEntry) :
    missingOps file (ops ++ [e]) disk ≤ missingOps file ops disk + 1 := by
  have more := length_completeBefore_append (disk.length - file.length) ops [e]
  have fewer := length_completeBefore_le (disk.length - file.length) ops
  rw [missingOps, missingOps, List.length_append, List.length_singleton]
  omega

theorem missingOps_of_whole (whole : disk = file ++ ops.flatMap record) :
    missingOps file ops disk = 0 := by
  have enough : (ops.flatMap record).length ≤ disk.length - file.length := by
    rw [whole, List.length_append]
    omega
  rw [missingOps, completeBefore_of_le enough, Nat.sub_self]

end

namespace BatchedLog

/-- What the counter of pending operations bounds, phase by phase. -/
def Counted (file : Bytes) (ops : List AofEntry) (s : BatchedLog) : Prop :=
  match s.phase with
  | .flush _ loaded => 0 < loaded
  | .adjust e loaded =>
      missingOps file (ops ++ [e]) s.writer.disk ≤ s.pendingOps ∧ s.pendingOps < loaded
  | _ => missingOps file ops s.writer.disk ≤ s.pendingOps ∧ s.pendingOps < s.threshold

/-- The writer is in order during a writing call. -/
def Ordered (s : BatchedLog) : Prop :=
  match s.phase with
  | .writing _ c _ => BufWriter.Ordered writerCapacity s.writer c
  | _ => True

/-- Every byte is on disk, in the buffer or about to be written, the threshold stays in its bounds,
and fewer operations are missing than the last threshold. -/
structure Inv (file : Bytes) (ops : List AofEntry) (s : BatchedLog) : Prop where
  bytes : s.writer.total ++ s.phase.left = file ++ (ops ++ s.phase.current).flatMap record
  ordered : s.Ordered
  batch : 4 ≤ s.batchSize ∧ s.batchSize ≤ initialBatch
  lost : missingOps file ops s.writer.disk < s.threshold
  counted : s.Counted file ops

variable {file : Bytes} {ops out : List AofEntry} {s s' : BatchedLog}

theorem flatten_recordPieces (e : AofEntry) : (recordPieces e).flatten = record e := by
  simp [recordPieces, record]

theorem adjustBatchSize_bounds {now lastActivity batchSize : Nat}
    (bounds : 4 ≤ batchSize ∧ batchSize ≤ initialBatch) :
    4 ≤ adjustBatchSize now lastActivity batchSize ∧
      adjustBatchSize now lastActivity batchSize ≤ initialBatch := by
  have limit : initialBatch = 32 := rfl
  rw [adjustBatchSize]
  split
  · omega
  · exact bounds

theorem inv_opened (file : Bytes) (now : Nat) : Inv file [] (opened file now) where
  bytes := by simp [opened, BufWriter.total, AppendPhase.left, AppendPhase.current]
  ordered := trivial
  batch := ⟨show 4 ≤ initialBatch by decide, le_rfl⟩
  lost := Nat.succ_pos _
  counted := ⟨le_rfl, Nat.succ_pos _⟩

theorem inv_start (inv : Inv file ops s) (e : AofEntry) (idle : s.phase = .idle) :
    Inv file ops { s with phase := .writing e .done (recordPieces e) } := by
  obtain ⟨bytes, -, batch, lost, counted⟩ := inv
  simp only [idle, AppendPhase.left, AppendPhase.current, List.append_nil] at bytes
  simp only [Counted, idle] at counted
  refine ⟨?_, trivial, batch, lost, counted⟩
  simp only [AppendPhase.left, AppendPhase.current, BufWriter.Write.left, flatten_recordPieces,
    List.flatMap_append, List.flatMap_singleton, List.nil_append, bytes, List.append_assoc]

theorem inv_piece (inv : Inv file ops s) {e : AofEntry} {p : Bytes} {later : List Bytes}
    (at' : s.phase = .writing e .done (p :: later)) :
    Inv file ops { s with phase := .writing e (.start p) later } := by
  obtain ⟨bytes, -, batch, lost, counted⟩ := inv
  simp only [at', AppendPhase.left, AppendPhase.current, BufWriter.Write.left, List.nil_append,
    List.flatten_cons] at bytes
  simp only [Counted, at'] at counted
  exact ⟨bytes, trivial, batch, lost, counted⟩

theorem inv_write (inv : Inv file ops s) {e : AofEntry} {c c' : BufWriter.Write}
    {w : BufWriter} {later : List Bytes} (at' : s.phase = .writing e c later)
    (step : BufWriter.Step writerCapacity s.writer c w c') :
    Inv file ops { s with writer := w, phase := .writing e c' later } := by
  obtain ⟨bytes, ordered, batch, lost, counted⟩ := inv
  simp only [at', AppendPhase.left, AppendPhase.current, ← List.append_assoc] at bytes
  simp only [Ordered, at'] at ordered
  simp only [Counted, at'] at counted
  have fewer : missingOps file ops w.disk ≤ missingOps file ops s.writer.disk :=
    missingOps_of_front step.disk_prefix
  refine ⟨?_, step.ordered ordered, batch, lt_of_le_of_lt fewer lost,
    fewer.trans counted.1, counted.2⟩
  simp only [AppendPhase.left, AppendPhase.current, ← List.append_assoc]
  rw [step.total_eq ordered, bytes]

theorem inv_written (inv : Inv file ops s) {e : AofEntry}
    (at' : s.phase = .writing e .done []) : Inv file ops { s with phase := .count e } := by
  obtain ⟨bytes, -, batch, lost, counted⟩ := inv
  simp only [at', AppendPhase.left, AppendPhase.current, BufWriter.Write.left,
    List.flatten_nil, List.append_nil] at bytes
  simp only [Counted, at'] at counted
  refine ⟨?_, trivial, batch, lost, counted⟩
  simp only [AppendPhase.left, AppendPhase.current, List.append_nil, bytes]

theorem inv_counted (inv : Inv file ops s) {e : AofEntry} (now : Nat)
    (at' : s.phase = .count e) (below : s.pendingOps + 1 < s.batchSize) :
    Inv file ops { s with
      lastActivity := now, pendingOps := s.pendingOps + 1, phase := .adjust e s.batchSize } := by
  obtain ⟨bytes, -, batch, lost, counted⟩ := inv
  simp only [at', AppendPhase.left, AppendPhase.current] at bytes
  simp only [Counted, at'] at counted
  refine ⟨bytes, trivial, batch, lost, ?_, below⟩
  exact (missingOps_append e).trans (Nat.succ_le_succ counted.1)

theorem inv_full (inv : Inv file ops s) {e : AofEntry} (now : Nat)
    (at' : s.phase = .count e) :
    Inv file ops { s with
      lastActivity := now, pendingOps := s.pendingOps + 1, phase := .flush e s.batchSize } := by
  obtain ⟨bytes, -, batch, lost, -⟩ := inv
  simp only [at', AppendPhase.left, AppendPhase.current] at bytes
  refine ⟨bytes, trivial, batch, lost, ?_⟩
  show 0 < s.batchSize
  omega

theorem inv_drain (inv : Inv file ops s) {e : AofEntry} {loaded : Nat} (n : Nat)
    (at' : s.phase = .flush e loaded) : Inv file ops { s with writer := s.writer.drain n } := by
  obtain ⟨bytes, -, batch, lost, counted⟩ := inv
  simp only [Counted, at'] at counted
  refine ⟨?_, ?_, batch, ?_, ?_⟩
  · rw [BufWriter.total_drain]
    exact bytes
  · simp only [Ordered, at']
  · exact lt_of_le_of_lt (missingOps_of_front (s.writer.disk_prefix_drain n)) lost
  · simp only [Counted, at']
    exact counted

theorem inv_flushed (inv : Inv file ops s) {e : AofEntry} {loaded : Nat}
    (at' : s.phase = .flush e loaded) (none' : s.writer.buffer = []) :
    Inv file ops { s with pendingOps := 0, phase := .adjust e loaded } := by
  obtain ⟨bytes, -, batch, lost, counted⟩ := inv
  simp only [at', AppendPhase.left, AppendPhase.current] at bytes
  simp only [Counted, at'] at counted
  have whole : s.writer.disk = file ++ (ops ++ [e]).flatMap record := by
    simpa [BufWriter.total, none'] using bytes
  refine ⟨bytes, trivial, batch, lost, ?_, counted⟩
  exact le_of_eq (missingOps_of_whole whole)

theorem inv_return (inv : Inv file ops s) {e : AofEntry} {loaded : Nat} (now : Nat)
    (at' : s.phase = .adjust e loaded) :
    Inv file (ops ++ [e]) { s with
      batchSize := adjustBatchSize now s.lastActivity s.batchSize
      phase := .idle
      threshold := loaded } := by
  obtain ⟨bytes, -, batch, -, counted⟩ := inv
  simp only [at', AppendPhase.left, AppendPhase.current] at bytes
  simp only [Counted, at'] at counted
  refine ⟨?_, trivial, adjustBatchSize_bounds batch, lt_of_le_of_lt counted.1 counted.2, counted⟩
  simp only [AppendPhase.left, AppendPhase.current, List.append_nil] at bytes ⊢
  exact bytes

theorem Step.inv (step : Step s out s') (inv : Inv file ops s) : Inv file (ops ++ out) s' := by
  cases step with
  | start e idle =>
      rw [List.append_nil]
      exact inv_start inv e idle
  | piece at' =>
      rw [List.append_nil]
      exact inv_piece inv at'
  | write at' step =>
      rw [List.append_nil]
      exact inv_write inv at' step
  | written at' =>
      rw [List.append_nil]
      exact inv_written inv at'
  | counted now at' below =>
      rw [List.append_nil]
      exact inv_counted inv now at' below
  | full now at' reached =>
      rw [List.append_nil]
      exact inv_full inv now at'
  | drain n at' =>
      rw [List.append_nil]
      exact inv_drain inv n at'
  | flushed at' none' =>
      rw [List.append_nil]
      exact inv_flushed inv at' none'
  | return' now at' => exact inv_return inv now at'

theorem Run.inv (run : Run file ops s) : Inv file ops s := by
  induction run with
  | opened now => exact inv_opened file now
  | step before step ih => exact step.inv ih

/-- In every state of every run the file is a prefix of what was appended, the operations that are
missing on disk are fewer than the threshold at the last one, and the threshold is in its bounds. -/
theorem bounded_loss (run : Run file ops s) :
    s.writer.disk <+: file ++ (ops ++ s.phase.current).flatMap record ∧
      missingOps file ops s.writer.disk < s.threshold ∧
      4 ≤ s.batchSize ∧ s.batchSize ≤ initialBatch := by
  have inv := run.inv
  refine ⟨?_, inv.lost, inv.batch⟩
  rw [← inv.bytes]
  exact s.writer.disk_prefix_total.trans (List.prefix_append _ _)

/-- One deletion, buffered in three parts; then the clock leaps. -/
theorem bounded_loss_one :
    ∃ s : BatchedLog, Run magic [.del [107]] s ∧ s.batchSize = 16 ∧ s.writer.disk = magic ∧
      missingOps magic [.del [107]] s.writer.disk < s.threshold ∧ 4 ≤ s.batchSize := by
  have run : Run magic [.del [107]] { opened magic 0 with
      writer := ⟨magic, (recordPieces (.del [107])).flatten⟩
      pendingOps := 1
      batchSize := 16
      threshold := 32 } := by
    refine @Run.step magic [] _ _ _ (Run.step (Run.step (Run.step (Run.step (Run.step (Run.step (Run.step
      (Run.step (Run.step (Run.opened 0) (Step.start (.del [107]) rfl)) (Step.piece rfl))
      (Step.write rfl (BufWriter.Step.buffered ?_))) (Step.piece rfl))
      (Step.write rfl (BufWriter.Step.buffered ?_))) (Step.piece rfl))
      (Step.write rfl (BufWriter.Step.buffered ?_))) (Step.written rfl))
      (Step.counted 0 rfl ?_)) (Step.return' 100 rfl)
    all_goals decide
  have loss := bounded_loss run
  exact ⟨_, run, rfl, rfl, loss.2.1, loss.2.2.1⟩

end BatchedLog

end Zumic.Engine
