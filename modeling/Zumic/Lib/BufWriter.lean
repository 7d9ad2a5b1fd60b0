/- A writer that collects bytes in a buffer before they go to a file. The file takes any part of
what it is offered at a time, and is observed at any time. -/

import Zumic.Lib.ByteString

namespace Zumic.Lib

open Lib.ByteString

structure BufWriter where
  disk : Bytes
  buffer : Bytes

namespace BufWriter

/-- How far a call that writes all of a byte string has come. -/
inductive Write where
  | start (piece : Bytes)
  | spill (piece : Bytes)
  | fill (piece : Bytes)
  | direct (rest : Bytes)
  | done

/-- The bytes that neither the buffer nor the file has taken. -/
def Write.left : Write → Bytes
  | .start piece => piece
  | .spill piece => piece
  | .fill piece => piece
  | .direct rest => rest
  | .done => []

/-- The file takes the first `n` bytes of the buffer. -/
def drain (w : BufWriter) (n : Nat) : BufWriter :=
  ⟨w.disk ++ w.buffer.take n, w.buffer.drop n⟩

/-- All bytes that the writer was given, in their order. -/
def total (w : BufWriter) : Bytes := w.disk ++ w.buffer

variable {capacity : Nat}

/-- One step of a writing call. What does not fit is preceded by the buffer's own bytes; what is as
long as the buffer is not buffered at all. -/
inductive Step (capacity : Nat) : BufWriter → Write → BufWriter → Write → Prop
  | buffered {w : BufWriter} {piece : Bytes} (room : w.buffer.length + piece.length < capacity) :
      Step capacity w (.start piece) ⟨w.disk, w.buffer ++ piece⟩ .done
  | full {w : BufWriter} {piece : Bytes} (exceeds : capacity < w.buffer.length + piece.length) :
      Step capacity w (.start piece) w (.spill piece)
  | exact {w : BufWriter} {piece : Bytes} (same : w.buffer.length + piece.length = capacity) :
      Step capacity w (.start piece) w (.fill piece)
  | drain {w : BufWriter} {piece : Bytes} (n : Nat) :
      Step capacity w (.spill piece) (w.drain n) (.spill piece)
  | drained {w : BufWriter} {piece : Bytes} (none' : w.buffer = []) :
      Step capacity w (.spill piece) w (.fill piece)
  | copy {w : BufWriter} {piece : Bytes} (short : piece.length < capacity) :
      Step capacity w (.fill piece) ⟨w.disk, w.buffer ++ piece⟩ .done
  | bypass {w : BufWriter} {piece : Bytes} (long : capacity ≤ piece.length) :
      Step capacity w (.fill piece) w (.direct piece)
  | write {w : BufWriter} {rest : Bytes} (n : Nat) :
      Step capacity w (.direct rest) ⟨w.disk ++ rest.take n, w.buffer⟩ (.direct (rest.drop n))
  | written {w : BufWriter} : Step capacity w (.direct []) w .done

/-- Nothing is buffered when bytes go past the buffer. -/
def Ordered (capacity : Nat) (w : BufWriter) : Write → Prop
  | .fill piece => capacity ≤ piece.length → w.buffer = []
  | .direct _ => w.buffer = []
  | _ => True

@[simp] theorem total_drain (w : BufWriter) (n : Nat) : (w.drain n).total = w.total := by
  simp [total, drain]

theorem disk_prefix_drain (w : BufWriter) (n : Nat) : w.disk <+: (w.drain n).disk :=
  List.prefix_append _ _

theorem disk_prefix_total (w : BufWriter) : w.disk <+: w.total :=
  List.prefix_append _ _

theorem Step.total_eq {w w' : BufWriter} {c c' : Write} (step : Step capacity w c w' c')
    (ordered : Ordered capacity w c) :
    w'.total ++ c'.left = w.total ++ c.left := by
  cases step with
  | write n =>
      have none' : w.buffer = [] := ordered
      simp [total, Write.left, none']
  | drain n => rw [total_drain]
  | _ => simp [total, Write.left]

theorem Step.ordered {w w' : BufWriter} {c c' : Write} (step : Step capacity w c w' c')
    (before : Ordered capacity w c) : Ordered capacity w' c' := by
  cases step with
  | exact same =>
      intro long
      exact List.length_eq_zero_iff.mp (by omega)
  | drained none' => exact fun _ => none'
  | bypass long => exact before long
  | write n => exact before
  | _ => trivial

theorem Step.disk_prefix {w w' : BufWriter} {c c' : Write} (step : Step capacity w c w' c') :
    w.disk <+: w'.disk := by
  cases step with
  | drain n => exact disk_prefix_drain w n
  | write n => exact List.prefix_append _ _
  | _ => exact List.prefix_refl _

end BufWriter

end Zumic.Lib
