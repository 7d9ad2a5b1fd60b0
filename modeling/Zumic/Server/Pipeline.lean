/- Requests of both protocols in one stream, and the replies to them. -/

import Zumic.Server.Reads

namespace Zumic.Server

open Engine Lib.ByteString Lib.Reader Lib.Utf8 Zsp

/-- A request as it is sent: a line of text with its line feed, or the bytes of a frame. -/
inductive Request where
  | line (text : Bytes)
  | frame (bytes : Bytes) (f : ZspFrame)

namespace Request

def bytes : Request → Bytes
  | .line text => text
  | .frame bytes _ => bytes

/-- A line ends with its first line feed and does not look like a frame; the bytes of a frame are
exactly what the decoder takes for it. -/
def Complete : Request → Prop
  | .line text => ∃ body, text = body ++ [10] ∧ 10 ∉ body ∧ ∀ x ∈ text.head?, isZsp x = false
  | .frame bytes f => Reads (decode .initial) bytes (some f, .initial)

def blank : Request → Bool
  | .line text => splitWhitespace (lossy text) = []
  | .frame _ _ => false

variable {σ : Type} (S : Storage σ) (validJson : Str → Bool)

/-- The reply to a request, and the store after it. -/
def reply : Request → Reply σ
  | .line text => processCommand S (Str.lossy text)
  | .frame _ f => fun s =>
      match frameReply S validJson f s with
      | (some reply, s) => (wire reply, s)
      | (none, s) => ([], s)

/-- The replies to requests that are executed one after another, none for a blank line. -/
def replies : List Request → σ → List Bytes
  | [], _ => []
  | r :: rs, s =>
      (if r.blank then [] else [(reply S validJson r s).1]) ++ replies rs (reply S validJson r s).2

end Request

section

variable {σ : Type} (S : Storage σ) (validJson : Str → Bool)

/-- The strings that a command fetches can be sent, and so can the text of an error. -/
def CommandFits (c : StoreCommand) (s : σ) : Prop :=
  (∀ e, (executeStoreCommand S c s).1 = .error e → hasLineBreak e.toStr = false) ∧
    match c with
    | .get key => ∀ b, S.get key.bytes s = .ok (some (.str b)) → b.length ≤ maxBinaryLength
    | .mget keys => ∀ values, S.mget (keys.map Str.bytes) s = .ok values →
        ∀ b, some (.str b) ∈ values → b.length ≤ maxBinaryLength
    | _ => True

def Request.Fits : Request → σ → Prop
  | .line _, _ => True
  | .frame _ f, s => ∀ c, parseCommand validJson f = .command c → CommandFits S c s

/-- Every request fits the store it is executed on. -/
def AllFit : List Request → σ → Prop
  | [], _ => True
  | r :: rs, s => r.Fits S validJson s ∧ AllFit rs (r.reply S validJson s).2

end

section

variable {σ : Type} {S : Storage σ} {validJson : Str → Bool}

theorem valueFrame_sendable {text : String} (plain : hasLineBreak (Str.lit text) = false)
    {value : Option Database.Value} (fits : ∀ b, value = some (.str b) → b.length ≤ maxBinaryLength) :
    isScalar (valueFrame text value) = true ∧ sendableNode (valueFrame text value) = true := by
  unfold valueFrame
  split
  · exact ⟨rfl, by simpa [sendableNode] using fits _ rfl⟩
  · exact ⟨rfl, by simp [sendableNode, plain]⟩
  · exact ⟨rfl, rfl⟩

/-- The fixed texts of the frames. -/
private def frameTexts : List String :=
  ["OK", "ERR unsupported command", "ERR Unsupported type", "ERR unsupported type", "ERR exec: ",
    "ERR parse: "]

theorem hasLineBreak_frameTexts {text : String} (known : text ∈ frameTexts) :
    hasLineBreak (Str.lit text) = false := by
  have each : ∀ text ∈ frameTexts, hasLineBreak (Str.lit text) = false := by decide +kernel
  exact each text known

theorem encode_reply {c : StoreCommand} {s s' : σ} {f : ZspFrame}
    (fits : CommandFits S c s) (run : executeStoreCommand S c s = (.ok f, s')) :
    encode f = .ok (wire f) := by
  have ok : sendableNode (.inlineString (Str.lit "OK")) = true := by decide
  have unsupported : sendableNode (.frameError (Str.lit "ERR unsupported command")) = true := by
    rw [sendableNode, hasLineBreak_frameTexts (by simp [frameTexts])]
    rfl
  have single : hasLineBreak (Str.lit "ERR Unsupported type") = false :=
    hasLineBreak_frameTexts (by simp [frameTexts])
  have several : hasLineBreak (Str.lit "ERR unsupported type") = false :=
    hasLineBreak_frameTexts (by simp [frameTexts])
  cases c with
  | set key value =>
      simp only [executeStoreCommand, frameOf] at run
      split at run
      · obtain ⟨rfl, -⟩ := by simpa using run
        exact encode_scalar rfl ok
      · simp at run
  | get key =>
      simp only [executeStoreCommand, frameOfRead] at run
      split at run
      · rename_i value found
        obtain ⟨rfl, -⟩ := by simpa using run
        have fits' : ∀ b, value = some (.str b) → b.length ≤ maxBinaryLength := fun b str =>
          fits.2 b (by rw [found, str])
        obtain ⟨scalar, sendable⟩ := valueFrame_sendable single fits'
        exact encode_scalar scalar sendable
      · simp at run
  | del key =>
      simp only [executeStoreCommand, frameOf] at run
      split at run
      · obtain ⟨rfl, -⟩ := by simpa using run
        exact encode_scalar rfl rfl
      · simp at run
  | mset entries =>
      simp only [executeStoreCommand, frameOf] at run
      split at run
      · obtain ⟨rfl, -⟩ := by simpa using run
        exact encode_scalar rfl ok
      · simp at run
  | mget keys =>
      simp only [executeStoreCommand, frameOfRead] at run
      split at run
      · rename_i values found
        obtain ⟨rfl, -⟩ := by simpa using run
        refine encode_array_scalars fun g member => ?_
        obtain ⟨value, inside, rfl⟩ := List.mem_map.mp member
        exact valueFrame_sendable several fun b str => fits.2 values found b (str ▸ inside)
      · simp at run
  | _ =>
      obtain ⟨rfl, -⟩ := by simpa [executeStoreCommand] using run
      exact encode_scalar rfl unsupported

theorem hasLineBreak_append {s t : Str} (first : hasLineBreak s = false)
    (second : hasLineBreak t = false) : hasLineBreak (s ++ t) = false := by
  simp only [hasLineBreak, Bool.or_eq_false_iff, List.contains_eq_mem, decide_eq_false_iff_not,
    Str.bytes_append, List.mem_append, not_or] at *
  exact ⟨⟨first.1, second.1⟩, first.2, second.2⟩

theorem encode_frameReply {f reply : ZspFrame} {s s' : σ}
    (fits : ∀ c, parseCommand validJson f = .command c → CommandFits S c s)
    (run : frameReply S validJson f s = (some reply, s')) : encode reply = .ok (wire reply) := by
  have exec : hasLineBreak (Str.lit "ERR exec: ") = false :=
    hasLineBreak_frameTexts (by simp [frameTexts])
  have parse : hasLineBreak (Str.lit "ERR parse: ") = false :=
    hasLineBreak_frameTexts (by simp [frameTexts])
  unfold frameReply at run
  cases parsed : parseCommand validJson f with
  | command c =>
      simp only [parsed] at run
      split at run
      · rename_i executed
        obtain ⟨rfl, -⟩ := by simpa using run
        exact encode_reply (fits c parsed) executed
      · rename_i e s'' executed
        obtain ⟨rfl, -⟩ := by simpa using run
        have plain := (fits c parsed).1 e (by rw [executed])
        exact encode_scalar rfl (by simp [sendableNode, hasLineBreak_append exec plain])
  | error e =>
      simp only [parsed] at run
      obtain ⟨rfl, -⟩ := by simpa using run
      obtain ⟨cr, lf⟩ := parseCommand_error_plain parsed
      have plain : hasLineBreak e.toStr = false := by simp [hasLineBreak, cr, lf]
      exact encode_scalar rfl (by simp [sendableNode, hasLineBreak_append parse plain])
  | panicked =>
      simp only [parsed] at run
      simp at run

end

namespace Connection

variable {σ : Type} (S : Storage σ) (validJson : Str → Bool)

/-- As long as the connection is open, no request is left in the buffer and every request that is
not blank has its reply. -/
def CaughtUp (requests : List Request) (s : σ) (c : Connection σ) : Prop :=
  c.status = .running →
    (∀ r : Request, r.Complete → ¬ r.bytes <+: c.recvBuf) ∧
      c.sent = Request.replies S validJson requests s

/-- What one request does to an idle connection that stays open. -/
structure Served (r : Request) (c c' : Connection σ) : Prop where
  recvBuf : c'.recvBuf = []
  decoder : c'.decoder = .initial
  sent : c'.sent = c.sent ++ if r.blank then [] else [(r.reply S validJson c.store).1]
  store : c'.store = (r.reply S validJson c.store).2

variable {S validJson}

theorem Request.bytes_ne_nil {r : Request} (complete : r.Complete) : r.bytes ≠ [] := by
  cases r with
  | line text =>
      obtain ⟨body, rfl, -⟩ := complete
      simp [Request.bytes]
  | frame b f =>
      obtain ⟨x, s, rfl, -⟩ := exists_marker complete
      simp [Request.bytes]

theorem takeInput_line {body : Bytes} (one : 10 ∉ body)
    (text : ∀ x ∈ (body ++ [10]).head?, isZsp x = false) (decoder : ZspDecodeState) :
    takeInput (body ++ [10]) decoder = (some (.line (Str.lossy (body ++ [10]))), [], decoder) := by
  have before : ∀ x ∈ body, (x != 10) = true := by
    intro x hx
    simp only [bne_iff_ne, ne_eq]
    rintro rfl
    exact one hx
  have stop : [10].dropWhile (· != (10 : UInt8)) = [10] := rfl
  have none' : [10].takeWhile (· != (10 : UInt8)) = [] := rfl
  have taken : (body ++ [10]).takeWhile (· != (10 : UInt8)) ++ [10] = body ++ [10] := by
    rw [List.takeWhile_append_of_pos before, none', List.append_nil]
  have left : ((body ++ [10]).dropWhile (· != (10 : UInt8))).drop 1 = [] := by
    rw [List.dropWhile_append_of_pos before, stop]
    rfl
  have feed : (10 : UInt8) ∈ body ++ [10] := by simp
  cases shape : body ++ [10] with
  | nil => simp at shape
  | cons x s =>
      rw [shape] at taken left feed text
      have other : isZsp x = false := text x rfl
      simp only [takeInput, other, if_pos feed, taken, left]
      rfl

theorem writeText_processCommand (S : Storage σ) (text : Str) (s : σ) :
    writeText (processCommand S text s).1 =
      if splitWhitespace text.bytes = [] then [] else [(processCommand S text s).1] := by
  unfold processCommand
  cases words : splitWhitespace text.bytes with
  | nil => rfl
  | cons name args =>
      rw [if_neg (by simp)]
      exact if_neg (runCommand_ne_nil _ _ _)

theorem served_line {text : Bytes} {c : Connection σ} (complete : (Request.line text).Complete)
    (running : c.status = .running) (idle : c.recvBuf = []) (fresh : c.decoder = .initial)
    (alive : (receive S validJson c text).status = .running) :
    Served S validJson (.line text) c (receive S validJson c text) := by
  obtain ⟨body, rfl, one, first⟩ := complete
  have step : receive S validJson c (body ++ [10]) = handleLine S (Str.lossy (body ++ [10]))
      { c with
        recvBuf := []
        decoder := .initial
        taken := c.taken ++ [.line (Str.lossy (body ++ [10]))] } := by
    rw [receive_of_running running (by simp), processBuffer]
    simp only [idle, fresh, List.nil_append, takeInput_line one first]
    rfl
  rw [step]
  refine ⟨rfl, rfl, ?_, rfl⟩
  have written := writeText_processCommand S (Str.lossy (body ++ [10])) c.store
  simp only [handleLine, written, Request.blank, Request.reply, decide_eq_true_eq]
  rfl

theorem served_frame {b : Bytes} {f : ZspFrame} {c : Connection σ}
    (complete : (Request.frame b f).Complete)
    (fits : (Request.frame b f).Fits S validJson c.store) (running : c.status = .running)
    (idle : c.recvBuf = []) (fresh : c.decoder = .initial)
    (alive : (receive S validJson c b).status = .running) :
    Served S validJson (.frame b f) c (receive S validJson c b) := by
  have nonempty : b ≠ [] := Request.bytes_ne_nil complete
  have step : receive S validJson c b = handleZspFrame S validJson f
      { c with recvBuf := [], decoder := .initial, taken := c.taken ++ [.frame f] } :=
    receive_frame running fresh nonempty complete (by rw [idle, List.nil_append, List.append_nil])
  rw [step, handleZspFrame] at alive
  rw [step, handleZspFrame]
  generalize run : frameReply S validJson f c.store = answer at alive ⊢
  obtain ⟨o, store⟩ := answer
  cases o with
  | none => exact absurd alive (by simp)
  | some reply =>
      have encoded := encode_frameReply fits run
      refine ⟨rfl, rfl, ?_, ?_⟩
      · simp [writeFrame, encoded, Request.blank, Request.reply, run]
      · simp [Request.reply, run]

theorem served {r : Request} {c : Connection σ} (complete : r.Complete)
    (fits : r.Fits S validJson c.store) (running : c.status = .running) (idle : c.recvBuf = [])
    (fresh : c.decoder = .initial) (alive : (receive S validJson c r.bytes).status = .running) :
    Served S validJson r c (receive S validJson c r.bytes) := by
  cases r with
  | line text => exact served_line complete running idle fresh alive
  | frame b f => exact served_frame complete fits running idle fresh alive

theorem sent_run {requests : List Request} {c : Connection σ}
    (complete : ∀ r ∈ requests, r.Complete) (fits : AllFit S validJson requests c.store)
    (running : c.status = .running) (idle : c.recvBuf = []) (fresh : c.decoder = .initial)
    (alive : (run S validJson (requests.map Request.bytes) c).status = .running) :
    (run S validJson (requests.map Request.bytes) c).recvBuf = [] ∧
      (run S validJson (requests.map Request.bytes) c).sent =
        c.sent ++ Request.replies S validJson requests c.store := by
  induction requests generalizing c with
  | nil => exact ⟨idle, by simp [run, Request.replies]⟩
  | cons r requests ih =>
      have turn : run S validJson ((r :: requests).map Request.bytes) c =
          run S validJson (requests.map Request.bytes) (receive S validJson c r.bytes) := rfl
      rw [turn] at alive ⊢
      have open' : (receive S validJson c r.bytes).status = .running := by
        by_contra stopped
        rw [run_of_not_running stopped] at alive
        exact stopped alive
      obtain ⟨now, later⟩ := fits
      obtain ⟨buffer, decoder, sent, store⟩ :=
        served (complete r (by simp)) now running idle fresh open'
      obtain ⟨empty, all⟩ := ih (fun q hq => complete q (List.mem_cons_of_mem _ hq))
        (by rw [store]; exact later) open' buffer decoder alive
      refine ⟨empty, ?_⟩
      rw [all, sent, store, List.append_assoc]
      rfl

theorem allFit_append {first second : List Request} {s : σ}
    (fits : AllFit S validJson (first ++ second) s) : AllFit S validJson first s := by
  induction first generalizing s with
  | nil => trivial
  | cons r first ih => exact ⟨fits.1, ih fits.2⟩

/-- As long as every read carries one request, every request is answered in its turn. -/
theorem caughtUp_run {reads : List (List Request)} {s : σ}
    (complete : ∀ g ∈ reads, ∀ r ∈ g, r.Complete) (single : ∀ g ∈ reads, g.length = 1)
    (fits : AllFit S validJson reads.flatten s) (m : Nat) :
    CaughtUp S validJson (reads.take m).flatten s
      (run S validJson ((reads.take m).map fun g => g.flatMap Request.bytes) (new s)) := by
  have split : reads.flatten = (reads.take m).flatten ++ (reads.drop m).flatten := by
    rw [← List.flatten_append, List.take_append_drop]
  have bytes : ∀ groups : List (List Request), (∀ g ∈ groups, g.length = 1) →
      (groups.map fun g => g.flatMap Request.bytes) = groups.flatten.map Request.bytes := by
    intro groups ones
    induction groups with
    | nil => rfl
    | cons g groups ih =>
        obtain ⟨r, rfl⟩ := List.length_eq_one_iff.mp (ones g (by simp))
        rw [List.map_cons, ih fun h hh => ones h (List.mem_cons_of_mem _ hh)]
        simp
  rw [bytes _ fun g hg => single g (List.mem_of_mem_take hg)]
  intro running
  have complete' : ∀ r ∈ (reads.take m).flatten, r.Complete := by
    intro r member
    obtain ⟨g, inside, here⟩ := List.mem_flatten.mp member
    exact complete g (List.mem_of_mem_take inside) r here
  have fits' : AllFit S validJson (reads.take m).flatten s := by
    rw [split] at fits
    exact allFit_append fits
  obtain ⟨empty, sent⟩ := sent_run (c := new s) complete' fits' rfl rfl rfl running
  refine ⟨fun r whole front => ?_, by simpa [new] using sent⟩
  rw [empty] at front
  exact Request.bytes_ne_nil whole (List.prefix_nil.mp front)

/-- A line, a frame and a blank line, each in a read of its own. -/
theorem caughtUp_run_mixed :
    CaughtUp (InMemoryStore.storage GeoIndex.empty) (fun _ => false)
      [.line (bytesOf "SET k v\n"),
        .frame (bytesOf "*2\r\n+GET\r\n+k\r\n")
          (.array [.inlineString (Str.lit "GET"), .inlineString (Str.lit "k")]),
        .line (bytesOf "\n")]
      (InMemoryStore.new () fun _ => 0)
      (run (InMemoryStore.storage GeoIndex.empty) (fun _ => false)
        [bytesOf "SET k v\n", bytesOf "*2\r\n+GET\r\n+k\r\n", bytesOf "\n"]
        (new (InMemoryStore.new () fun _ => 0))) := by
  have deliverable :
      Deliverable (.array [.inlineString (Str.lit "GET"), .inlineString (Str.lit "k")]) :=
    ⟨by decide, by decide, by decide⟩
  have bytes : wire (.array [.inlineString (Str.lit "GET"), .inlineString (Str.lit "k")]) =
      bytesOf "*2\r\n+GET\r\n+k\r\n" := by decide +kernel
  have frame : (Request.frame (bytesOf "*2\r\n+GET\r\n+k\r\n")
      (.array [.inlineString (Str.lit "GET"), .inlineString (Str.lit "k")])).Complete := by
    rw [← bytes]
    exact decode_wire deliverable
  refine @caughtUp_run _ _ _
    [[.line (bytesOf "SET k v\n")],
      [.frame (bytesOf "*2\r\n+GET\r\n+k\r\n")
        (.array [.inlineString (Str.lit "GET"), .inlineString (Str.lit "k")])],
      [.line (bytesOf "\n")]] _ ?_ (by simp) ⟨trivial, fun c parsed => ?_, trivial, trivial⟩ 3
  · simp only [List.mem_cons, List.not_mem_nil, or_false, forall_eq_or_imp, forall_eq]
    exact ⟨⟨bytesOf "SET k v", by decide, by decide, by decide +kernel⟩, frame,
      [], by decide, by decide, by decide +kernel⟩
  · have command : parseCommand (fun _ => false)
        (.array [.inlineString (Str.lit "GET"), .inlineString (Str.lit "k")]) =
          .command (.get (Str.lit "k")) := by rfl
    obtain rfl : StoreCommand.get (Str.lit "k") = c := by simpa [command] using parsed
    refine ⟨fun e failed => absurd failed (by simp [executeStoreCommand, frameOfRead,
      InMemoryStore.storage, InMemoryStore.get]), fun b found => ?_⟩
    have value : (InMemoryStore.storage GeoIndex.empty).get (Str.lit "k").bytes
        ((Request.line (bytesOf "SET k v\n")).reply (InMemoryStore.storage GeoIndex.empty)
          (fun _ => false) (InMemoryStore.new () fun _ => 0)).2 =
        .ok (some (.str (bytesOf "v"))) := by rfl
    obtain rfl : bytesOf "v" = b := by simpa [value] using found
    decide

/-- Of two lines in one read, the second stays in the buffer and is not answered. -/
theorem caughtUp_run_two_lines :
    (∀ r ∈ [Request.line (bytesOf "PING\n"), .line (bytesOf "PING\n")], r.Complete) ∧
      ¬ CaughtUp (InMemoryStore.storage GeoIndex.empty) (fun _ => false)
        [.line (bytesOf "PING\n"), .line (bytesOf "PING\n")] (InMemoryStore.new () fun _ => 0)
        (run (InMemoryStore.storage GeoIndex.empty) (fun _ => false)
          [[Request.line (bytesOf "PING\n"), .line (bytesOf "PING\n")].flatMap Request.bytes]
          (new (InMemoryStore.new () fun _ => 0))) := by
  have complete : (Request.line (bytesOf "PING\n")).Complete :=
    ⟨bytesOf "PING", by decide, by decide, by decide +kernel⟩
  have left : (run (InMemoryStore.storage GeoIndex.empty) (fun _ => false)
      [[Request.line (bytesOf "PING\n"), .line (bytesOf "PING\n")].flatMap Request.bytes]
      (new (InMemoryStore.new () fun _ => 0))).recvBuf = bytesOf "PING\n" := by
    decide +kernel
  refine ⟨by simpa using complete, fun caught => ?_⟩
  obtain ⟨drained, -⟩ := caught (by decide +kernel)
  refine drained (.line (bytesOf "PING\n")) complete ?_
  rw [left]
  exact List.prefix_refl _

end Connection

end Zumic.Server
