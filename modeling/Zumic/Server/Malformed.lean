/- A malformed frame on a connection: the error is answered, and nothing is taken off the buffer. -/

import Zumic.Server.Reads
import Zumic.Zsp.Refusals

namespace Zumic.Server.Connection

open Engine Lib.ByteString Lib.Utf8 Zsp

variable {σ : Type}

/-- With this read the decoder fails, for a reason that no further input repairs. -/
structure Meets (c : Connection σ) (read : Bytes) (e : ZspDecodeError) : Prop where
  running : c.status = .running
  read_ne : read ≠ []
  input : (takeInput (c.recvBuf ++ read) c.decoder).1 = some (.failure e)
  final : e.isUnrepairable = true

/-- Closed, or the buffer is not any more what the decoder failed on. -/
def Recovers (buffer : Bytes) (c : Connection σ) : Prop := c.status = .closed ∨ c.recvBuf ≠ buffer

/-- The bytes of the reply to a decoding error. -/
def errorReply (e : ZspDecodeError) : Bytes :=
  line 45 (Str.lit "ERR zsp decode: " ++ e.toStr).bytes

variable (S : Storage σ) (validJson : Str → Bool)

/-- A turn of `run` whose reply to a decoding error is written or not. When the write fails or times
out, `process_buffer` returns that error and the loop ends. -/
def turn (written : Bool) (c : Connection σ) (read : Bytes) : Connection σ :=
  match takeInput (c.recvBuf ++ read) c.decoder with
  | (some (.failure e), recvBuf, decoder) =>
      if written then receive S validJson c read
      else
        { c with
          recvBuf := recvBuf
          decoder := decoder
          taken := c.taken ++ [.failure e]
          status := .closed }
  | _ => receive S validJson c read

variable {S validJson}

theorem turn_written (c : Connection σ) (read : Bytes) :
    turn S validJson true c read = receive S validJson c read := by
  unfold turn
  split <;> rfl

theorem takeInput_failure {buffer : Bytes} {decoder : ZspDecodeState} {e : ZspDecodeError}
    (input : (takeInput buffer decoder).1 = some (.failure e)) :
    takeInput buffer decoder = (some (.failure e), buffer, .initial) ∧
      ∃ x s, buffer = x :: s ∧ isZsp x = true ∧ decode decoder buffer = .error e := by
  cases buffer with
  | nil => cases input
  | cons x s =>
      unfold takeInput at input ⊢
      by_cases marker : isZsp x = true
      · simp only [if_pos marker] at input ⊢
        cases run : decode decoder (x :: s) with
        | ok r =>
            obtain ⟨⟨frame, next⟩, rest⟩ := r
            rw [run] at input
            cases frame <;> cases input
        | error e' =>
            rw [run] at input
            obtain rfl : e' = e := by simpa using input
            exact ⟨rfl, x, s, rfl, marker, rfl⟩
      · simp only [if_neg marker] at input
        split at input <;> cases input

theorem takeInput_of_error {x : UInt8} {s : Bytes} {decoder : ZspDecodeState} {e : ZspDecodeError}
    (marker : isZsp x = true) (failed : decode decoder (x :: s) = .error e) :
    takeInput (x :: s) decoder = (some (.failure e), x :: s, .initial) := by
  simp only [takeInput, if_pos marker, failed]

theorem encode_errorReply {decoder : ZspDecodeState} {buffer : Bytes} {e : ZspDecodeError}
    (failed : decode decoder buffer = .error e) :
    encode (.frameError (Str.lit "ERR zsp decode: " ++ e.toStr)) = .ok (errorReply e) := by
  obtain ⟨plain, -⟩ := refuses_decode decoder buffer e failed
  have front : hasLineBreak (Str.lit "ERR zsp decode: ") = false := by decide +kernel
  have whole : hasLineBreak (Str.lit "ERR zsp decode: " ++ e.toStr) = false := by
    simp only [ZspDecodeError.Plain, hasLineBreak, Bool.or_eq_false_iff, List.contains_eq_mem,
      decide_eq_false_iff_not, Str.bytes_append, List.mem_append, not_or] at *
    exact ⟨⟨front.1, plain.1⟩, front.2, plain.2⟩
  exact encode_scalar rfl (by simp [sendableNode, whole])

/-- What the connection is after a decoding error that was answered. -/
structure Stuck (c : Connection σ) (buffer : Bytes) (e : ZspDecodeError) (c' : Connection σ) :
    Prop where
  status : c'.status = .running
  recvBuf : c'.recvBuf = buffer
  decoder : c'.decoder = .initial
  store : c'.store = c.store
  taken : c'.taken = c.taken ++ [.failure e]
  sent : c'.sent = c.sent ++ [errorReply e]

theorem stuck_of_meets {c : Connection σ} {read : Bytes} {e : ZspDecodeError}
    (meets : Meets c read e) : Stuck c (c.recvBuf ++ read) e (receive S validJson c read) := by
  obtain ⟨input, x, s, -, -, failed⟩ := takeInput_failure meets.input
  rw [receive_of_running meets.running meets.read_ne, processBuffer]
  simp only [input, handleInput, handleFailure, encode_errorReply failed]
  exact ⟨meets.running, rfl, rfl, rfl, rfl, rfl⟩

/-- A malformed frame is got rid of exactly when the reply to it cannot be written. Otherwise the
connection stays open with all the bytes in its buffer. -/
theorem recovers_iff (c : Connection σ) (read : Bytes) (e : ZspDecodeError) (meets : Meets c read e)
    (written : Bool) :
    (Recovers (c.recvBuf ++ read) (turn S validJson written c read) ↔ written = false) ∧
      Stuck c (c.recvBuf ++ read) e (turn S validJson true c read) := by
  have stuck : Stuck c (c.recvBuf ++ read) e (receive S validJson c read) := stuck_of_meets meets
  rw [turn_written]
  refine ⟨?_, stuck⟩
  cases written with
  | true =>
      rw [turn_written]
      refine iff_of_false ?_ (by simp)
      rintro (closed | gone)
      · rw [stuck.status] at closed
        cases closed
      · exact gone stuck.recvBuf
  | false =>
      refine iff_of_true (.inl ?_) rfl
      obtain ⟨input, -⟩ := takeInput_failure meets.input
      simp only [turn, input, Bool.false_eq_true, if_false]

theorem meets_noNumber : Meets (new (InMemoryStore.new () fun _ => 0)) (bytesOf ":x\r\n")
    (.invalidData (Str.lit "Invalid integer")) :=
  ⟨rfl, by decide, by rfl, rfl⟩

theorem recovers_iff_noNumber :
    Recovers (bytesOf ":x\r\n") (turn (InMemoryStore.storage GeoIndex.empty) (fun _ => false) false
      (new (InMemoryStore.new () fun _ => 0)) (bytesOf ":x\r\n")) :=
  (recovers_iff _ _ _ meets_noNumber false).1.mpr rfl

/-- The number stays in the buffer, and the command behind it is answered by the same error. -/
theorem not_recovers_noNumber :
    ¬ (∀ (reads : List Bytes) (read : Bytes) (e : ZspDecodeError),
      Meets (run (InMemoryStore.storage GeoIndex.empty) (fun _ => false) reads
        (new (InMemoryStore.new () fun _ => 0))) read e →
      Recovers ((run (InMemoryStore.storage GeoIndex.empty) (fun _ => false) reads
          (new (InMemoryStore.new () fun _ => 0))).recvBuf ++ read)
        (receive (InMemoryStore.storage GeoIndex.empty) (fun _ => false)
          (run (InMemoryStore.storage GeoIndex.empty) (fun _ => false) reads
            (new (InMemoryStore.new () fun _ => 0))) read)) ∧
      (run (InMemoryStore.storage GeoIndex.empty) (fun _ => false)
        [bytesOf ":x\r\n", bytesOf "*2\r\n+GET\r\n+k\r\n"]
        (new (InMemoryStore.new () fun _ => 0))).sent =
          List.replicate 2 (errorReply (.invalidData (Str.lit "Invalid integer"))) := by
  constructor
  · intro always
    have gone := always [] (bytesOf ":x\r\n") _ meets_noNumber
    have stuck : Stuck _ _ _ (receive (InMemoryStore.storage GeoIndex.empty) (fun _ => false) _ _) :=
      stuck_of_meets meets_noNumber
    rcases gone with closed | gone
    · exact absurd (stuck.status.symm.trans closed) (by decide)
    · exact gone stuck.recvBuf
  · rfl

/-- A decoder that fails from the initial state fails on whatever is read behind, so that nothing
is executed any more and every read is answered by the same error. -/
theorem wedged (c : Connection σ) (e : ZspDecodeError) (running : c.status = .running)
    (fresh : c.decoder = .initial) (failed : (takeInput c.recvBuf .initial).1 = some (.failure e))
    (final : e.isUnrepairable = true) (reads : List Bytes) (some' : ∀ read ∈ reads, read ≠ []) :
    (run S validJson reads c).status = .running ∧
      (run S validJson reads c).taken = c.taken ++ List.replicate reads.length (.failure e) ∧
      (run S validJson reads c).sent = c.sent ++ List.replicate reads.length (errorReply e) := by
  induction reads generalizing c with
  | nil => simp [run, running]
  | cons read reads ih =>
      obtain ⟨-, x, s, shape, marker, error⟩ := takeInput_failure failed
      have stays : decode .initial ((x :: s) ++ read) = .error e := by
        rw [shape] at error
        exact (refuses_decode .initial (x :: s) e error).2 final read
      rw [List.cons_append] at stays
      have again : (takeInput (c.recvBuf ++ read) .initial).1 = some (.failure e) := by
        rw [shape, List.cons_append, takeInput_of_error marker stays]
      have stuck : Stuck c (c.recvBuf ++ read) e (receive S validJson c read) :=
        stuck_of_meets ⟨running, some' read (by simp), by rw [fresh]; exact again, final⟩
      have step : run S validJson (read :: reads) c =
          run S validJson reads (receive S validJson c read) := rfl
      obtain ⟨status, taken, sent⟩ := ih (receive S validJson c read) stuck.status stuck.decoder
        (by rw [stuck.recvBuf]; exact again) fun later member => some' later (by simp [member])
      rw [step]
      refine ⟨status, ?_, ?_⟩
      · rw [taken, stuck.taken, List.length_cons, List.replicate_succ, List.append_assoc]
        rfl
      · rw [sent, stuck.sent, List.length_cons, List.replicate_succ, List.append_assoc]
        rfl

/-- What is read behind a number that is none. -/
theorem wedged_noNumber :
    let S := InMemoryStore.storage GeoIndex.empty
    let c := receive S (fun _ => false) (new (InMemoryStore.new () fun _ => 0)) (bytesOf ":x\r\n")
    (run S (fun _ => false) [bytesOf "*1\r\n", bytesOf "+PING\r\n"] c).sent =
      c.sent ++ List.replicate 2 (errorReply (.invalidData (Str.lit "Invalid integer"))) :=
  (wedged _ _ rfl rfl rfl rfl _ (by decide)).2.2

end Zumic.Server.Connection
