/- The client: commands as frames, frames as responses, and the calls of `ZumicClient`
(`client/connection.rs`, `client/core.rs`), which wait for replies that arrive in reads. -/

import Zumic.Server.Connection
import Zumic.Zsp.RoundTrip

namespace Zumic.Client

open Database Engine Lib Lib.ByteString Lib.Utf8 Server Zsp

/-- The errors of the client. What the source prints of a command or a value is kept as it is. -/
inductive ClientError where
  | connectionClosed
  | readTimeout
  | serverError (message : Str)
  | unknownCommand (command : Command)
  | unexpectedResponse
  | unsupportedValue (value : Value)
  | protocol (reason : Str)
  | encodingError (reason : Str)
  | decodingError (reason : Str)

inductive Response where
  | ok
  | value (v : Value)
  | error (message : Str)
  | notFound
  | integer (n : Int64)
  | float (f : F64)
  | bool (b : Bool)
  | string (s : Str)

def valueToFrame : Value → Except ClientError ZspFrame
  | .str s => .ok (.binaryString (some s))
  | .int i => .ok (.integer i)
  | .float f => .ok (.float f)
  | .bool b => .ok (.bool b)
  | .null => .ok .null
  | value => .error (.unsupportedValue value)

/-- A command as an array of its name and its arguments. -/
def commandFrame (name : String) (args : List ZspFrame) : ZspFrame :=
  .array (.inlineString (Str.lit name) :: args)

def commandToFrame : Command → Except ClientError ZspFrame
  | .ping => .ok (commandFrame "PING" [])
  | .echo message => .ok (commandFrame "ECHO" [.inlineString message])
  | .get key => .ok (commandFrame "GET" [.inlineString key])
  | .set key value => do
      let value ← valueToFrame value
      pure (commandFrame "SET" [.inlineString key, value])
  | .del key => .ok (commandFrame "DEL" [.inlineString key])
  | .auth user pass =>
      .ok (commandFrame "AUTH" ((user.map .inlineString).toList ++ [.inlineString pass]))
  | command => .error (.unknownCommand command)

def frameToResponse : ZspFrame → Except ClientError Response
  | .inlineString s =>
      if s = Str.lit "OK" ∨ s = Str.lit "PONG" then .ok .ok else .ok (.string s)
  | .frameError message => .ok (.error message)
  | .integer n => .ok (.integer n)
  | .float f => .ok (.float f)
  | .bool b => .ok (.bool b)
  | .null => .ok .notFound
  | .binaryString (some b) => .ok (.value (.str b))
  | .binaryString none => .ok .notFound
  | _ => .error .unexpectedResponse

/-- The bytes that are sent for a command. -/
def sendCommand (command : Command) : Except ClientError Bytes := do
  let frame ← commandToFrame command
  match encode frame with
  | .ok b => .ok b
  | .error e => .error (.encodingError e.toStr)

/-- The most bytes that a response may take (10 MB). -/
def maxResponse : Nat := 10 * 1024 * 1024

/-- What a try to decode the buffer gives: a result, or nothing yet, and the decoder after it. -/
def tryDecode (decoder : ZspDecodeState) (readBuf : Bytes) :
    Option (Except ClientError Response) × ZspDecodeState :=
  if readBuf = [] then (none, decoder)
  else
    match decode decoder readBuf with
    | .ok ((some frame, decoder), _) => (some (frameToResponse frame), decoder)
    | .ok ((none, decoder), _) => (none, decoder)
    | .error e => (some (.error (.decodingError e.toStr)), .initial)

/-- The loop of a call: it decodes what it has and reads on. The buffer belongs to the call, so
what is left in it is lost; `reads` are the reads to come, an empty one at the end of the stream. -/
def receiveLoop : ZspDecodeState → Bytes → List Bytes →
    Except ClientError Response × ZspDecodeState × List Bytes
  | decoder, readBuf, [] =>
      match tryDecode decoder readBuf with
      | (some result, decoder) => (result, decoder, [])
      | (none, decoder) => (.error .readTimeout, decoder, [])
  | decoder, readBuf, read :: reads =>
      match tryDecode decoder readBuf with
      | (some result, decoder) => (result, decoder, read :: reads)
      | (none, decoder) =>
          if read = [] then (.error .connectionClosed, decoder, reads)
          else if maxResponse < (readBuf ++ read).length then
            (.error (.protocol (Str.lit "Frame too large (>10MB)")), decoder, reads)
          else receiveLoop decoder (readBuf ++ read) reads

def receiveResponse (decoder : ZspDecodeState) (reads : List Bytes) :
    Except ClientError Response × ZspDecodeState × List Bytes :=
  receiveLoop decoder [] reads

/-- The results of `n` calls, one after another. -/
def receiveResponses : Nat → ZspDecodeState → List Bytes → List (Except ClientError Response)
  | 0, _, _ => []
  | n + 1, decoder, reads =>
      match receiveResponse decoder reads with
      | (result, decoder, reads) => result :: receiveResponses n decoder reads

section

variable {σ : Type} (S : Storage σ) (validJson : Str → Bool)

/-- The response in a reply that is delivered whole. -/
def responseOf (reply : Bytes) : Except ClientError Response :=
  match tryDecode .initial reply with
  | (some result, _) => result
  | (none, _) => .error .readTimeout

/-- A command on its way to the server and back, with every frame delivered whole. -/
def executeCommand (command : Command) (server : Connection σ) :
    Except ClientError Response × Connection σ :=
  match sendCommand command with
  | .error e => (.error e, server)
  | .ok request =>
      let served := Connection.receive S validJson server request
      (responseOf (served.sent.drop server.sent.length).flatten, served)

/-- What a call makes of an error response, or of one it does not expect. -/
def refused {α : Type} : Response → Except ClientError α
  | .error message => .error (.serverError message)
  | _ => .error .unexpectedResponse

def get (key : Str) (server : Connection σ) :
    Except ClientError (Option Value) × Connection σ :=
  let (response, server) := executeCommand S validJson (.get key) server
  (response.bind fun response =>
    match response with
    | .value v => .ok (some v)
    | .notFound => .ok none
    | response => refused response, server)

def set (key : Str) (value : Value) (server : Connection σ) :
    Except ClientError Unit × Connection σ :=
  let (response, server) := executeCommand S validJson (.set key value) server
  (response.bind fun response =>
    match response with
    | .ok => .ok ()
    | response => refused response, server)

def del (key : Str) (server : Connection σ) : Except ClientError Bool × Connection σ :=
  let (response, server) := executeCommand S validJson (.del key) server
  (response.bind fun response =>
    match response with
    | .integer n =>
        if n = 1 then .ok true else if n = 0 then .ok false else .error .unexpectedResponse
    | response => refused response, server)

end

end Zumic.Client

namespace Zumic.Client

open Lib Lib.ByteString Lib.Reader Lib.Utf8 Zsp

/-- The frame that the bytes of a reply carry: a number is sent with five decimal places. -/
def onWire : ZspFrame → ZspFrame
  | .float f => .float ((readFloat (floatText f)).getD f)
  | f => f

/-- Each call returns the response of its reply. -/
def Paired (replies : List ZspFrame) (reads : List Bytes) : Prop :=
  receiveResponses replies.length .initial reads =
    replies.map fun f => frameToResponse (onWire f)

theorem reads_onWire {f : ZspFrame} {r : Response} (accepted : frameToResponse f = .ok r)
    (sendable : f.all sendableNode = true) :
    Reads (decode .initial) (wire f) (some (onWire f), .initial) := by
  cases f with
  | float x =>
      obtain ⟨g, read⟩ := exists_readFloat_floatText x
      rw [wire, onWire, read]
      exact decode_float (lineText_floatText x) read
  | array items => exact absurd accepted (by simp [frameToResponse])
  | dictionary items => exact absurd accepted (by simp [frameToResponse])
  | set members => exact absurd accepted (by simp [frameToResponse])
  | push items => exact absurd accepted (by simp [frameToResponse])
  | zset entries => exact absurd accepted (by simp [frameToResponse])
  | _ => exact decode_wire ⟨rfl, sendable, rfl⟩

theorem tryDecode_of_reads {b : Bytes} {f : ZspFrame} (some' : b ≠ [])
    (reads : Reads (decode .initial) b (some f, .initial)) :
    tryDecode .initial b = (some (frameToResponse f), .initial) := by
  have read := reads []
  rw [List.append_nil] at read
  rw [tryDecode, if_neg some', read]

theorem receiveResponse_of_reads {b : Bytes} {f : ZspFrame} (some' : b ≠ [])
    (whole : Reads (decode .initial) b (some f, .initial)) (size : b.length ≤ maxResponse)
    (reads : List Bytes) :
    receiveResponse .initial (b :: reads) = (frameToResponse f, .initial, reads) := by
  have waiting : tryDecode .initial [] = (none, .initial) := rfl
  rw [receiveResponse, receiveLoop, waiting]
  simp only [if_neg some', List.nil_append, if_neg (not_lt.mpr size)]
  cases reads with
  | nil => rw [receiveLoop, tryDecode_of_reads some' whole]
  | cons read reads => rw [receiveLoop, tryDecode_of_reads some' whole]

/-- As long as every read carries one whole reply, the calls and the replies are paired. -/
theorem paired_of_whole_reads {replies : List ZspFrame} {reads : List Bytes}
    (accepted : ∀ f ∈ replies, ∃ r, frameToResponse f = .ok r)
    (whole : replies.mapM encode = .ok reads) (size : reads.flatten.length ≤ maxResponse) :
    Paired replies reads := by
  unfold Paired
  induction replies generalizing reads with
  | nil => rfl
  | cons f replies ih =>
      rw [List.mapM_cons] at whole
      obtain ⟨b, first, rest⟩ := Lib.Buffer.bind_eq_ok whole
      obtain ⟨later, others, last⟩ := Lib.Buffer.bind_eq_ok rest
      obtain rfl : b :: later = reads := Except.ok.inj last
      obtain ⟨rfl, sendable⟩ := encodeFrame_ok first
      obtain ⟨r, response⟩ := accepted f (by simp)
      rw [List.flatten_cons, List.length_append] at size
      have tail := ih (fun g member => accepted g (List.mem_cons_of_mem _ member)) others (by omega)
      have head := receiveResponse_of_reads (wire_ne_nil f) (reads_onWire response sendable)
        (by omega) later
      rw [List.length_cons, receiveResponses, head, List.map_cons]
      simp only [tail]

theorem paired_of_whole_reads_two :
    Paired [.binaryString (some (bytesOf "\r\n")), .integer (-1)]
      [bytesOf "$2\r\n\r\n\r\n", bytesOf ":-1\r\n"] :=
  paired_of_whole_reads (by simp [frameToResponse]) (by rfl) (by decide)

/-- The second of two replies in one read is lost with the buffer of the first call. -/
theorem paired_two_in_one_read :
    [ZspFrame.inlineString (Str.lit "OK"), .integer 1].mapM encode =
        .ok [bytesOf "+OK\r\n", bytesOf ":1\r\n"] ∧
      [bytesOf "+OK\r\n:1\r\n"].flatten = [bytesOf "+OK\r\n", bytesOf ":1\r\n"].flatten ∧
      ¬ Paired [.inlineString (Str.lit "OK"), .integer 1] [bytesOf "+OK\r\n:1\r\n"] := by
  refine ⟨by rfl, by rfl, fun paired => ?_⟩
  have lost : receiveResponses 2 .initial [bytesOf "+OK\r\n:1\r\n"] =
      [.ok .ok, .error .readTimeout] := by rfl
  have both := lost.symm.trans paired
  simp [frameToResponse, onWire] at both

end Zumic.Client
