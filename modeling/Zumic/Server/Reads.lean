/- Frames that are cut into reads, and what the connection dispatches. -/

import Zumic.Engine.Memory
import Zumic.Server.Connection
import Zumic.Zsp.Recursion
import Zumic.Zsp.RoundTrip

namespace Zumic.Server

open Engine Lib.ByteString Lib.Reader Lib.Utf8 Zsp

theorem isZsp_of_decode {x : UInt8} {s : Bytes} {r : Decoded × Bytes}
    (run : decode .initial (x :: s) = .ok r) : isZsp x = true := by
  rw [decode_eq] at run
  by_contra unknown
  simp only [isZsp, List.contains_cons, List.contains_nil, Bool.or_eq_true, beq_iff_eq,
    not_or] at unknown
  obtain ⟨h1, h2, h3, h4, h5, h6, h7, h8, h9, h10, h11, h12, -⟩ := unknown
  have refused : parseFrame decode x s = invalidData "Unknown ZSP/RESP3 type" s := by
    simp only [parseFrame, if_neg h1, if_neg h2, if_neg h3, if_neg h4, if_neg h5, if_neg h6,
      if_neg h7, if_neg h8, if_neg h9, if_neg h10, if_neg h11, if_neg h12]
  have failed : (invalidData "Unknown ZSP/RESP3 type" : FrameReader Decoded) s = .ok r :=
    refused.symm.trans run
  exact absurd failed (by simp [invalidData, throw, throwThe, MonadExceptOf.throw, StateT.lift])

theorem exists_marker {b : Bytes} {f : ZspFrame}
    (reads : Reads (decode .initial) b (some f, .initial)) :
    ∃ x s, b = x :: s ∧ isZsp x = true := by
  cases b with
  | nil => exact absurd (reads []) (by simp [decode, decodeWithin, decodeStep, initialDecode])
  | cons x s => exact ⟨x, s, rfl, isZsp_of_decode (reads [])⟩

theorem takeInput_frame {b : Bytes} {f : ZspFrame}
    (reads : Reads (decode .initial) b (some f, .initial)) (t : Bytes) :
    takeInput (b ++ t) .initial = (some (.frame f), t, .initial) := by
  obtain ⟨x, s, rfl, marker⟩ := exists_marker reads
  have run := reads t
  have left : ((x :: s) ++ t).drop (((x :: s) ++ t).length - t.length) = t := by
    rw [List.length_append, Nat.add_sub_cancel, List.drop_left]
  rw [List.cons_append] at run left ⊢
  simp only [takeInput, if_pos marker, run, left]

namespace Connection

variable {σ : Type} {S : Storage σ} {validJson : Str → Bool}

theorem receive_of_not_running {c : Connection σ} (stopped : c.status ≠ .running) (read : Bytes) :
    receive S validJson c read = c := by
  rw [receive, if_pos stopped]

theorem run_of_not_running {c : Connection σ} (stopped : c.status ≠ .running)
    (reads : List Bytes) : run S validJson reads c = c := by
  induction reads with
  | nil => rfl
  | cons read reads ih =>
      rw [run, List.foldl_cons, receive_of_not_running stopped]
      exact ih

theorem receive_of_running {c : Connection σ} (running : c.status = .running) {read : Bytes}
    (some' : read ≠ []) :
    receive S validJson c read =
      processBuffer S validJson { c with recvBuf := c.recvBuf ++ read } := by
  rw [receive, if_neg (by simp [running]), if_neg some']

theorem receive_frame {c : Connection σ} {read b t : Bytes} {f : ZspFrame}
    (running : c.status = .running) (fresh : c.decoder = .initial) (some' : read ≠ [])
    (reads : Reads (decode .initial) b (some f, .initial))
    (buffer : c.recvBuf ++ read = b ++ t) :
    receive S validJson c read = handleZspFrame S validJson f
      { c with recvBuf := t, decoder := .initial, taken := c.taken ++ [.frame f] } := by
  rw [receive_of_running running some', processBuffer]
  simp only [buffer, fresh, takeInput_frame reads t]
  rfl

@[simp] theorem handleZspFrame_taken (f : ZspFrame) (c : Connection σ) :
    (handleZspFrame S validJson f c).taken = c.taken := by
  unfold handleZspFrame
  split <;> rfl

@[simp] theorem handleZspFrame_recvBuf (f : ZspFrame) (c : Connection σ) :
    (handleZspFrame S validJson f c).recvBuf = c.recvBuf := by
  unfold handleZspFrame
  split <;> rfl

@[simp] theorem handleZspFrame_decoder (f : ZspFrame) (c : Connection σ) :
    (handleZspFrame S validJson f c).decoder = c.decoder := by
  unfold handleZspFrame
  split <;> rfl

end Connection

/-- A string as an argument of a command. -/
def isText : ZspFrame → Bool
  | .inlineString _ => true
  | .binaryString _ => true
  | _ => false

/-- A command frame: an array of strings. -/
def isCommand : ZspFrame → Bool
  | .array items => items.all isText
  | _ => false

theorem deliverable_of_command {f : ZspFrame} {b : Bytes} (wf : f.Wf)
    (command : isCommand f = true) (encoded : encode f = .ok b) : b = wire f ∧ Deliverable f := by
  obtain ⟨bytes, sendable⟩ := encodeFrame_ok encoded
  refine ⟨bytes, wf, sendable, ?_⟩
  cases f with
  | array items =>
      simp only [isCommand, List.all_eq_true] at command
      simp only [ZspFrame.all, readableNode, Bool.true_and, ZspFrame.allItems_iff]
      intro g member
      have text := command g member
      cases g with
      | inlineString s => rfl
      | binaryString o => rfl
      | _ => exact absurd text (by simp [isText])
  | _ => exact absurd command (by simp [isCommand])

theorem stream_of_commands {commands : List ZspFrame} {stream : List Bytes}
    (wf : ∀ f ∈ commands, f.Wf) (texts : ∀ f ∈ commands, isCommand f = true)
    (encoded : commands.mapM encode = .ok stream) :
    stream = commands.map wire ∧ ∀ f ∈ commands, Deliverable f := by
  induction commands generalizing stream with
  | nil =>
      rw [List.mapM_nil] at encoded
      exact ⟨(Except.ok.inj encoded).symm, by simp⟩
  | cons f commands ih =>
      rw [List.mapM_cons] at encoded
      obtain ⟨b, first, rest⟩ := Lib.Buffer.bind_eq_ok encoded
      obtain ⟨later, others, last⟩ := Lib.Buffer.bind_eq_ok rest
      obtain ⟨rfl, d⟩ := deliverable_of_command (wf f (by simp)) (texts f (by simp)) first
      obtain ⟨rfl, ds⟩ := ih (fun g hg => wf g (List.mem_cons_of_mem _ hg))
        (fun g hg => texts g (List.mem_cons_of_mem _ hg)) others
      refine ⟨(Except.ok.inj last).symm, fun g member => ?_⟩
      rcases List.mem_cons.mp member with rfl | later
      · exact d
      · exact ds g later

namespace Connection

variable {σ : Type} (S : Storage σ) (validJson : Str → Bool)

/-- What was taken off the buffer are the first of the commands, as they were sent. -/
def Dispatched (commands : List ZspFrame) (c : Connection σ) : Prop :=
  ∃ k, c.taken = (commands.take k).map Input.frame

/-- Each read completes a frame, or finds one in the buffer: it never leaves the call with a part
of a frame only. -/
def NeverShort (stream reads : List Bytes) : Prop :=
  ∀ k, (stream.take k).flatten.length ≤ (reads.take k).flatten.length

variable {S validJson}

theorem first_in_buffer {buffer read w rest tail : Bytes}
    (whole : buffer ++ (read ++ rest) = w ++ tail)
    (enough : w.length ≤ buffer.length + read.length) :
    ∃ left, buffer ++ read = w ++ left ∧ left ++ rest = tail := by
  have front : w <+: buffer ++ read ++ rest := by
    rw [List.append_assoc, whole]
    exact List.prefix_append w tail
  obtain ⟨left, split⟩ := List.prefix_of_prefix_length_le front (List.prefix_append _ rest)
    (by simpa using enough)
  refine ⟨left, split.symm, ?_⟩
  have same : w ++ (left ++ rest) = w ++ tail := by
    rw [← whole, ← List.append_assoc, split, List.append_assoc]
  exact List.append_cancel_left same

/-- Induction over the reads: the buffer holds the bytes that are read ahead of the frames taken
so far. -/
theorem taken_run {commands : List ZspFrame} {reads : List Bytes} {c : Connection σ}
    (deliverable : ∀ f ∈ commands, Deliverable f) (nonempty : ∀ read ∈ reads, read ≠ [])
    (cut : c.recvBuf ++ reads.flatten <+: (commands.map wire).flatten)
    (ahead : ∀ k ≤ reads.length, ((commands.map wire).take k).flatten.length ≤
      c.recvBuf.length + (reads.take k).flatten.length)
    (running : c.status = .running) (fresh : c.decoder = .initial) :
    ∃ k, (run S validJson reads c).taken = c.taken ++ (commands.take k).map Input.frame := by
  induction reads generalizing commands c with
  | nil => exact ⟨0, by simp [run]⟩
  | cons read reads ih =>
      have some' : read ≠ [] := nonempty read (by simp)
      cases commands with
      | nil =>
          have empty : read = [] := by
            have none' := List.prefix_nil.mp cut
            simp only [List.append_eq_nil_iff, List.flatten_cons] at none'
            exact none'.2.1
          exact absurd empty some'
      | cons f commands =>
          obtain ⟨unread, whole⟩ := cut
          have enough := ahead 1 (by simp)
          simp only [List.map_cons, List.take_succ_cons, List.take_zero, List.flatten_cons,
            List.flatten_nil, List.append_nil] at enough
          have shape : c.recvBuf ++ (read ++ (reads.flatten ++ unread)) =
              wire f ++ (commands.map wire).flatten := by
            simpa using whole
          obtain ⟨left, buffer, later⟩ := first_in_buffer shape enough
          have reads' := decode_wire (deliverable f (by simp))
          have step : receive S validJson c read = handleZspFrame S validJson f
              { c with recvBuf := left, decoder := .initial, taken := c.taken ++ [.frame f] } :=
            receive_frame running fresh some' reads' buffer
          have turn : run S validJson (read :: reads) c =
              run S validJson reads (receive S validJson c read) := rfl
          rw [turn, step]
          generalize next : handleZspFrame S validJson f { c with
            recvBuf := left, decoder := .initial, taken := c.taken ++ [.frame f] } = c'
          have taken : c'.taken = c.taken ++ [.frame f] := by rw [← next]; simp
          have buf : c'.recvBuf = left := by rw [← next]; simp
          have decoder : c'.decoder = .initial := by rw [← next]; simp
          by_cases alive : c'.status = .running
          · have size : left.length + (wire f).length = c.recvBuf.length + read.length := by
              have lengths := congrArg List.length buffer
              simp only [List.length_append] at lengths
              omega
            have ahead' : ∀ k ≤ reads.length, ((commands.map wire).take k).flatten.length ≤
                c'.recvBuf.length + (reads.take k).flatten.length := by
              intro k bound
              have more := ahead (k + 1) (by simpa using bound)
              simp only [List.map_cons, List.take_succ_cons, List.flatten_cons,
                List.length_append] at more
              rw [buf]
              omega
            obtain ⟨k, rest⟩ := ih (fun g hg => deliverable g (List.mem_cons_of_mem _ hg))
              (fun r hr => nonempty r (List.mem_cons_of_mem _ hr))
              ⟨unread, by rw [buf, List.append_assoc, later]⟩ ahead' alive decoder
            refine ⟨k + 1, ?_⟩
            rw [rest, taken]
            simp
          · refine ⟨1, ?_⟩
            rw [run_of_not_running alive, taken]
            simp

/-- As long as every read completes a frame, or finds one in the buffer, the commands are
dispatched one by one as they were sent, after every read. -/
theorem dispatched_run {commands : List ZspFrame} {stream reads : List Bytes}
    (wf : ∀ f ∈ commands, f.Wf) (texts : ∀ f ∈ commands, isCommand f = true)
    (encoded : commands.mapM encode = .ok stream) (nonempty : ∀ read ∈ reads, read ≠ [])
    (cut : reads.flatten = stream.flatten) (whole : NeverShort stream reads) (store : σ) (m : Nat) :
    Dispatched commands (run S validJson (reads.take m) (new store)) := by
  obtain ⟨rfl, deliverable⟩ := stream_of_commands wf texts encoded
  have front : (reads.take m).flatten <+: (commands.map wire).flatten := by
    rw [← cut]
    refine ⟨(reads.drop m).flatten, ?_⟩
    rw [← List.flatten_append, List.take_append_drop]
  have ahead : ∀ k ≤ (reads.take m).length, ((commands.map wire).take k).flatten.length ≤
      (new store).recvBuf.length + ((reads.take m).take k).flatten.length := by
    intro k bound
    have short : k ≤ m := bound.trans (List.length_take_le m reads)
    have enough := whole k
    rw [List.take_take, Nat.min_eq_left short]
    exact enough.trans (Nat.le_add_left _ _)
  obtain ⟨k, taken⟩ : ∃ k, (run S validJson (reads.take m) (new store)).taken =
      [] ++ (commands.take k).map Input.frame :=
    taken_run deliverable (fun read member => nonempty read (List.mem_of_mem_take member)) front
      ahead rfl rfl
  exact ⟨k, taken⟩

/-- The second frame is cut inside its length line, but the first one is there to be taken. -/
theorem dispatched_run_two :
    Dispatched [.array [.inlineString (Str.lit "PING")],
        .array [.binaryString (some (bytesOf "GET")), .inlineString (Str.lit "k")]]
      (run (InMemoryStore.storage GeoIndex.empty) (fun _ => false)
        ([bytesOf "*1\r\n+PING\r\n*2\r\n$3\r\nGE", bytesOf "T\r\n+k\r\n"].take 2)
        (new (InMemoryStore.new () fun _ => 0))) :=
  @dispatched_run _ _ _ _ [bytesOf "*1\r\n+PING\r\n", bytesOf "*2\r\n$3\r\nGET\r\n+k\r\n"] _
    (by decide) (by decide) (by rfl) (by decide) (by rfl)
    (fun k => match k with
      | 0 => by decide
      | 1 => by decide
      | k + 2 => by simp only [List.take_succ_cons, List.take_nil]; decide) _ 2

/-- A frame that is cut between its items stays in the buffer and in the decoder, and is dispatched
as an array that holds the command a second time. -/
theorem dispatched_run_cut :
    [ZspFrame.array [.inlineString (Str.lit "GET"), .inlineString (Str.lit "k")]].mapM encode =
        .ok [bytesOf "*2\r\n+GET\r\n+k\r\n"] ∧
      [bytesOf "*2\r\n+GET\r\n", bytesOf "+k\r\n"].flatten =
        [bytesOf "*2\r\n+GET\r\n+k\r\n"].flatten ∧
      ¬ Dispatched [.array [.inlineString (Str.lit "GET"), .inlineString (Str.lit "k")]]
        (run (InMemoryStore.storage GeoIndex.empty) (fun _ => false)
          [bytesOf "*2\r\n+GET\r\n", bytesOf "+k\r\n"]
          (new (InMemoryStore.new () fun _ => 0))) := by
  refine ⟨by rfl, by rfl, ?_⟩
  rintro ⟨k, taken⟩
  have twice : (run (InMemoryStore.storage GeoIndex.empty) (fun _ => false)
      [bytesOf "*2\r\n+GET\r\n", bytesOf "+k\r\n"]
      (new (InMemoryStore.new () fun _ => 0))).taken =
        [.frame (.array [.inlineString (Str.lit "GET"),
          .array [.inlineString (Str.lit "GET"), .inlineString (Str.lit "k")]])] := by rfl
  rw [twice] at taken
  cases k with
  | zero => simp at taken
  | succ k => simp at taken

end Connection

end Zumic.Server
