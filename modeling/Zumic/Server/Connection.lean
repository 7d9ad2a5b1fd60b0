/- A connection of the server: what each read adds to the receive buffer, and what one call of
`process_buffer` takes off it and answers (`connection.rs`). -/

import Zumic.Server.Commands
import Zumic.Server.Parser
import Zumic.Zsp.Decoder

namespace Zumic.Server

open Database Engine Lib.ByteString Lib.Utf8 Zsp

/-- The bytes that start a frame: `+-:,#$_*%~>^`. -/
def isZsp (first : UInt8) : Bool :=
  [43, 45, 58, 44, 35, 36, 95, 42, 37, 126, 62, 94].contains first

/-- What a call takes off the receive buffer. -/
inductive Input where
  | line (text : Str)
  | frame (f : ZspFrame)
  | failure (e : ZspDecodeError)

/-- The input at the front of the buffer, with the buffer and the decoder after it. A frame that is
not complete stays in the buffer while the decoder keeps its part of it. -/
def takeInput (recvBuf : Bytes) (decoder : ZspDecodeState) :
    Option Input × Bytes × ZspDecodeState :=
  match recvBuf with
  | [] => (none, recvBuf, decoder)
  | first :: _ =>
      if isZsp first then
        match decode decoder recvBuf with
        | .ok ((some frame, decoder), slice) =>
            (some (.frame frame), recvBuf.drop (recvBuf.length - slice.length), decoder)
        | .ok ((none, decoder), _) => (none, recvBuf, decoder)
        | .error e => (some (.failure e), recvBuf, .initial)
      else if 10 ∈ recvBuf then
        (some (.line (Str.lossy (recvBuf.takeWhile (· != 10) ++ [10]))),
          (recvBuf.dropWhile (· != 10)).drop 1, decoder)
      else (none, recvBuf, decoder)

section

variable {σ : Type} (S : Storage σ)

/-- The frame for a call that changes the store. -/
def frameOf {α : Type} (call : StoreM σ α) (frame : α → ZspFrame) : StoreM σ ZspFrame := fun s =>
  match call s with
  | (.ok a, s) => (.ok (frame a), s)
  | (.error e, s) => (.error e, s)

/-- The frame for a call that reads the store. -/
def frameOfRead {α : Type} (call : StoreRead σ α) (frame : α → ZspFrame) : StoreM σ ZspFrame :=
  fun s =>
    match call s with
    | .ok a => (.ok (frame a), s)
    | .error e => (.error e, s)

/-- The frame of a value that was looked up. -/
def valueFrame (unsupported : String) : Option Value → ZspFrame
  | some (.str b) => .binaryString (some b)
  | some _ => .frameError (Str.lit unsupported)
  | none => .binaryString none

/-- Sets entry after entry, up to the first that fails. -/
def setEntries : List (Str × Value) → StoreM σ Unit
  | [] => fun s => (.ok (), s)
  | (key, value) :: rest => fun s =>
      match S.set key.bytes value s with
      | (.ok _, s) => setEntries rest s
      | (.error e, s) => (.error e, s)

def executeStoreCommand : StoreCommand → StoreM σ ZspFrame
  | .set key value => frameOf (S.set key.bytes value) fun _ => .inlineString (Str.lit "OK")
  | .get key => frameOfRead (S.get key.bytes) (valueFrame "ERR Unsupported type")
  | .del key => frameOf (S.del key.bytes) fun r => .integer (if r then 1 else 0)
  | .mset entries => frameOf (setEntries S entries) fun _ => .inlineString (Str.lit "OK")
  | .mget keys => frameOfRead (S.mget (keys.map Str.bytes)) fun values =>
      .array (values.map (valueFrame "ERR unsupported type"))
  | _ => fun s => (.ok (.frameError (Str.lit "ERR unsupported command")), s)

/-- What is written for a reply; one that cannot be encoded is not sent. -/
def writeFrame (reply : ZspFrame) : List Bytes :=
  match encode reply with
  | .ok b => [b]
  | .error _ => []

/-- What is written for a text; an empty one writes nothing. -/
def writeText (response : Bytes) : List Bytes := if response = [] then [] else [response]

/-- The reply frame for a frame from the client, `none` when the parser panics. -/
def frameReply (validJson : Str → Bool) (frame : ZspFrame) (s : σ) : Option ZspFrame × σ :=
  match parseCommand validJson frame with
  | .command c =>
      match executeStoreCommand S c s with
      | (.ok reply, s) => (some reply, s)
      | (.error e, s) => (some (.frameError (Str.lit "ERR exec: " ++ e.toStr)), s)
  | .error e => (some (.frameError (Str.lit "ERR parse: " ++ e.toStr)), s)
  | .panicked => (none, s)

end

inductive Status where
  | running
  | closed
  | panicked
  deriving DecidableEq

/-- A connection. `sent` lists what was written, `taken` what was taken off the buffer. -/
structure Connection (σ : Type) where
  recvBuf : Bytes
  decoder : ZspDecodeState
  store : σ
  sent : List Bytes
  taken : List Input
  status : Status

namespace Connection

variable {σ : Type} (S : Storage σ) (validJson : Str → Bool)

def new (store : σ) : Connection σ := ⟨[], .initial, store, [], [], .running⟩

def handleZspFrame (frame : ZspFrame) (c : Connection σ) : Connection σ :=
  match frameReply S validJson frame c.store with
  | (some reply, store) => { c with store := store, sent := c.sent ++ writeFrame reply }
  | (none, store) => { c with store := store, status := .panicked }

def isQuit (text : Str) (response : Bytes) : Bool :=
  response = okReply && upper (trim text.bytes) = bytesOf "QUIT"

def handleLine (text : Str) (c : Connection σ) : Connection σ :=
  match processCommand S text c.store with
  | (response, store) =>
      { c with
        store := store
        sent := c.sent ++ writeText response
        status := if isQuit text response then .closed else c.status }

def handleFailure (e : ZspDecodeError) (c : Connection σ) : Connection σ :=
  match encode (.frameError (Str.lit "ERR zsp decode: " ++ e.toStr)) with
  | .ok b => { c with sent := c.sent ++ [b] }
  | .error _ => { c with status := .closed }

def handleInput : Input → Connection σ → Connection σ
  | .line text => handleLine S text
  | .frame frame => handleZspFrame S validJson frame
  | .failure e => handleFailure e

/-- One call: at most one line or frame is taken and answered. -/
def processBuffer (c : Connection σ) : Connection σ :=
  match takeInput c.recvBuf c.decoder with
  | (some input, recvBuf, decoder) =>
      handleInput S validJson input
        { c with recvBuf := recvBuf, decoder := decoder, taken := c.taken ++ [input] }
  | (none, recvBuf, decoder) => { c with recvBuf := recvBuf, decoder := decoder }

/-- One turn of the loop: the bytes that were read, none at the end of the stream. -/
def receive (c : Connection σ) (read : Bytes) : Connection σ :=
  if c.status ≠ .running then c
  else if read = [] then { c with status := .closed }
  else processBuffer S validJson { c with recvBuf := c.recvBuf ++ read }

def run (reads : List Bytes) (c : Connection σ) : Connection σ :=
  reads.foldl (receive S validJson) c

end Connection

end Zumic.Server
