/- A client and a server over one connection, as a map. -/

import Zumic.Client.Connection
import Zumic.Server.Reads

namespace Zumic.Client

open Database Engine Lib Lib.ByteString Lib.Utf8 Server Zsp

/-- A call of the client. -/
inductive Call where
  | set (key : Str) (value : Value)
  | get (key : Str)
  | del (key : Str)

inductive Outcome where
  | done
  | found (value : Option Value)
  | deleted (existed : Bool)

/-- The kinds of values that are considered. -/
def isPlainValue : Value → Bool
  | .str _ => true
  | .int _ => true
  | .bool _ => true
  | .null => true
  | _ => false

/-- Keys on one line, and plain values. -/
def Call.Sound : Call → Prop
  | .set key value => hasLineBreak key = false ∧ isPlainValue value = true
  | .get key => hasLineBreak key = false
  | .del key => hasLineBreak key = false

section

variable {σ : Type} (S : Storage σ) (validJson : Str → Bool)

def perform : Call → Connection σ → Except ClientError Outcome × Connection σ
  | .set key value, server =>
      let (r, server) := set S validJson key value server
      (r.map fun _ => .done, server)
  | .get key, server =>
      let (r, server) := get S validJson key server
      (r.map .found, server)
  | .del key, server =>
      let (r, server) := del S validJson key server
      (r.map .deleted, server)

def performAll : List Call → Connection σ → List (Except ClientError Outcome)
  | [], _ => []
  | call :: calls, server =>
      (perform S validJson call server).1 :: performAll calls (perform S validJson call server).2

end

/-- A map from keys to values. -/
abbrev Dict := Str → Option Value

/-- What the calls return on a plain map. -/
def plainStep : Call → Dict → Outcome × Dict
  | .set key value, m => (.done, Function.update m key (some value))
  | .get key, m => (.found (m key), m)
  | .del key, m => (.deleted (m key).isSome, Function.update m key none)

def plainAll : List Call → Dict → List (Except ClientError Outcome)
  | [], _ => []
  | call :: calls, m => .ok (plainStep call m).1 :: plainAll calls (plainStep call m).2

/-- The text of the error for a string that is too long to be sent. -/
def tooLong (b : Bytes) : Str :=
  ZspEncodeError.toStr (.invalidData (Str.lit "Binary string too long (" ++ Str.ofNat b.length
    ++ Str.lit " > " ++ Str.ofNat maxBinaryLength ++ Str.lit ")"))

/-- What the calls return: a string that is too long is not sent, and only strings can be fetched. -/
def mapStep : Call → Dict → Except ClientError Outcome × Dict
  | .set key value, m =>
      match value with
      | .str b =>
          if maxBinaryLength < b.length then (.error (.encodingError (tooLong b)), m)
          else (.ok .done, Function.update m key (some value))
      | _ => (.ok .done, Function.update m key (some value))
  | .get key, m =>
      match m key with
      | some (.str b) => (.ok (.found (some (.str b))), m)
      | some _ => (.error (.serverError (Str.lit "ERR Unsupported type")), m)
      | none => (.ok (.found none), m)
  | .del key, m => (.ok (.deleted (m key).isSome), Function.update m key none)

def mapAll : List Call → Dict → List (Except ClientError Outcome)
  | [], _ => []
  | call :: calls, m => (mapStep call m).1 :: mapAll calls (mapStep call m).2

section

variable {σ : Type} {S : Storage σ} {validJson : Str → Bool}

/-- A connection between two requests. -/
structure Idle (server : Connection σ) : Prop where
  running : server.status = .running
  recvBuf : server.recvBuf = []
  decoder : server.decoder = .initial

theorem executeCommand_of {command : Command} {frame reply : ZspFrame} {c : StoreCommand}
    {server : Connection σ} {store : σ} (idle : Idle server)
    (built : commandToFrame command = .ok frame) (encoded : encode frame = .ok (wire frame))
    (d : Deliverable frame) (parsed : parseCommand validJson frame = .command c)
    (executed : executeStoreCommand S c server.store = (.ok reply, store))
    (answered : encode reply = .ok (wire reply)) (d' : Deliverable reply) :
    ∃ server', executeCommand S validJson command server = (frameToResponse reply, server') ∧
      Idle server' ∧ server'.store = store := by
  have request : sendCommand command = .ok (wire frame) := by
    rw [sendCommand, built]
    simp only [bind, Except.bind, encoded]
  have buffer : server.recvBuf ++ wire frame = wire frame ++ [] := by
    rw [idle.recvBuf, List.nil_append, List.append_nil]
  have step : Connection.receive S validJson server (wire frame) =
      Connection.handleZspFrame S validJson frame { server with
        recvBuf := []
        decoder := .initial
        taken := server.taken ++ [.frame frame] } :=
    Connection.receive_frame idle.running idle.decoder (wire_ne_nil frame) (decode_wire d) buffer
  have handled : frameReply S validJson frame server.store = (some reply, store) := by
    rw [frameReply, parsed]
    simp only [executed]
  have written : writeFrame reply = [wire reply] := by rw [writeFrame, answered]
  have served : Connection.receive S validJson server (wire frame) = { server with
      recvBuf := []
      decoder := .initial
      taken := server.taken ++ [.frame frame]
      store := store
      sent := server.sent ++ [wire reply] } := by
    rw [step, Connection.handleZspFrame]
    simp only [handled, written]
  have new : ((server.sent ++ [wire reply]).drop server.sent.length).flatten = wire reply := by
    simp
  refine ⟨Connection.receive S validJson server (wire frame), ?_, ?_, by rw [served]⟩
  · rw [executeCommand, request]
    simp only [served, new]
    rw [responseOf, tryDecode_of_reads (wire_ne_nil reply) (decode_wire d')]
  · rw [served]
    exact ⟨idle.running, rfl, rfl⟩

end

theorem valueToFrame_plain {value : Value} (plain : isPlainValue value = true)
    (short : ∀ b, value = .str b → b.length ≤ maxBinaryLength) :
    ∃ f, valueToFrame value = .ok f ∧ isScalar f = true ∧ sendableNode f = true ∧ Deliverable f ∧
      parseValue f "SET" = .ok value := by
  cases value with
  | str b =>
      have fits : sendableNode (.binaryString (some b)) = true := by
        simpa [sendableNode] using short b rfl
      exact ⟨.binaryString (some b), rfl, rfl, fits, ⟨rfl, fits, rfl⟩, rfl⟩
  | int i => exact ⟨.integer i, rfl, rfl, rfl, ⟨rfl, rfl, rfl⟩, rfl⟩
  | bool b => exact ⟨.bool b, rfl, rfl, rfl, ⟨rfl, rfl, rfl⟩, rfl⟩
  | null => exact ⟨.null, rfl, rfl, rfl, ⟨rfl, rfl, rfl⟩, rfl⟩
  | _ => exact absurd plain (by simp [isPlainValue])

theorem text_sendable {s : Str} (clean : hasLineBreak s = false) :
    isScalar (.inlineString s) = true ∧ sendableNode (.inlineString s) = true ∧
      Deliverable (.inlineString s) := by
  have fits : sendableNode (.inlineString s) = true := by simp [sendableNode, clean]
  exact ⟨rfl, fits, rfl, fits, rfl⟩

theorem commandFrame_sendable {name : String} {args : List ZspFrame}
    (clean : hasLineBreak (Str.lit name) = false) (few : args.length < 3)
    (each : ∀ f ∈ args, isScalar f = true ∧ sendableNode f = true ∧ Deliverable f) :
    encode (commandFrame name args) = .ok (wire (commandFrame name args)) ∧
      Deliverable (commandFrame name args) := by
  have all : ∀ f ∈ ZspFrame.inlineString (Str.lit name) :: args,
      isScalar f = true ∧ sendableNode f = true ∧ Deliverable f := by
    intro f member
    rcases List.mem_cons.mp member with rfl | later
    · exact text_sendable clean
    · exact each f later
  refine ⟨encode_array_scalars fun f member => ⟨(all f member).1, (all f member).2.1⟩, ?_⟩
  refine Deliverable.array ?_ fun f member => (all f member).2.2
  simp only [List.length_cons]
  omega

theorem encode_tooLong {key : Str} {b : Bytes} (clean : hasLineBreak key = false)
    (long : maxBinaryLength < b.length) :
    sendCommand (.set key (.str b)) = .error (.encodingError (tooLong b)) := by
  have name : hasLineBreak (Str.lit "SET") = false := by decide
  obtain ⟨-, first, -⟩ := text_sendable name
  obtain ⟨-, second, -⟩ := text_sendable clean
  have one : encodeFrame (.inlineString (Str.lit "SET")) 1 = .ok (wire (.inlineString (Str.lit "SET"))) :=
    encodeFrame_scalar rfl first (by decide)
  have two : encodeFrame (.inlineString key) 1 = .ok (wire (.inlineString key)) :=
    encodeFrame_scalar rfl second (by decide)
  have frame : encode (commandFrame "SET" [.inlineString key, .binaryString (some b)]) =
      .error (.invalidData (Str.lit "Binary string too long (" ++ Str.ofNat b.length
        ++ Str.lit " > " ++ Str.ofNat maxBinaryLength ++ Str.lit ")")) := by
    have last : encodeFrame (.binaryString (some b)) 1 =
        .error (.invalidData (Str.lit "Binary string too long (" ++ Str.ofNat b.length
          ++ Str.lit " > " ++ Str.ofNat maxBinaryLength ++ Str.lit ")")) := by
      rw [encodeFrame, if_neg (by decide)]
      simp only [if_pos long]
    rw [encode, commandFrame, encodeFrame, if_neg (by decide), encodeItems, encodeItems, encodeItems,
      one, two, last]
    rfl
  have built : commandToFrame (.set key (.str b)) =
      .ok (commandFrame "SET" [.inlineString key, .binaryString (some b)]) := rfl
  rw [sendCommand, built]
  simp only [bind, Except.bind, frame]
  rfl

section

variable {γ : Type} {geo : GeoIndex γ} {validJson : Str → Bool}

/-- The store holds the map, and every string in it can be sent. -/
structure Holds (s : InMemoryStore γ) (m : Dict) : Prop where
  agrees : ∀ k : Str, Assoc.get s.data k.bytes = m k
  short : ∀ k b, m k = some (.str b) → b.length ≤ maxBinaryLength

theorem Holds.update {s s' : InMemoryStore γ} {m : Dict} {key : Str} {o : Option Value}
    (holds : Holds s m) (stored : ∀ k, Assoc.get s'.data k = if key.bytes = k then o
      else Assoc.get s.data k) (fits : ∀ b, o = some (.str b) → b.length ≤ maxBinaryLength) :
    Holds s' (Function.update m key o) := by
  refine ⟨fun k => ?_, fun k b found => ?_⟩
  · by_cases same : k = key
    · subst same
      rw [stored, if_pos rfl, Function.update_self]
    · rw [stored, if_neg fun equal => same (Str.ext_bytes equal.symm), Function.update_of_ne same,
        holds.agrees]
  · by_cases same : k = key
    · subst same
      rw [Function.update_self] at found
      exact fits b found
    · rw [Function.update_of_ne same] at found
      exact holds.short k b found

/-- One call keeps the store and the map in step and returns what the map says. -/
structure InStep (call : Call) (m : Dict)
    (after : Except ClientError Outcome × Connection (InMemoryStore γ)) : Prop where
  outcome : after.1 = (mapStep call m).1
  idle : Idle after.2
  holds : Holds after.2.store (mapStep call m).2

theorem inStep_set {key : Str} {value : Value} {m : Dict}
    {server : Connection (InMemoryStore γ)} (sound : (Call.set key value).Sound)
    (idle : Idle server) (holds : Holds server.store m) :
    InStep (.set key value) m
      (perform (InMemoryStore.storage geo) validJson (.set key value) server) := by
  obtain ⟨clean, plain⟩ := sound
  by_cases short : ∀ b, value = .str b → b.length ≤ maxBinaryLength
  · obtain ⟨f, frame, scalar, sendable, d, read⟩ := valueToFrame_plain plain short
    have each : ∀ g ∈ [ZspFrame.inlineString key, f],
        isScalar g = true ∧ sendableNode g = true ∧ Deliverable g := by
      simpa using ⟨text_sendable clean, scalar, sendable, d⟩
    have name : hasLineBreak (Str.lit "SET") = false := by decide
    obtain ⟨encoded, whole⟩ := commandFrame_sendable name (by simp) each
    have built : commandToFrame (.set key value) =
        .ok (commandFrame "SET" [.inlineString key, f]) := by
      rw [commandToFrame, frame]
      rfl
    have parsed : parseCommand validJson (commandFrame "SET" [.inlineString key, f]) =
        .command (.set key value) := by
      have raw : parseRawCommand validJson (commandFrame "SET" [.inlineString key, f]) =
          parseKeyValue "SET" .set [.inlineString key, f] := rfl
      rw [parseCommand, raw, parseKeyValue, read]
      rfl
    obtain ⟨server', run, idle', store⟩ := executeCommand_of (S := InMemoryStore.storage geo) idle
      built encoded whole parsed rfl (encode_scalar rfl (by decide)) ⟨rfl, by decide, rfl⟩
    have step : mapStep (.set key value) m = (.ok .done, Function.update m key (some value)) := by
      cases value with
      | str b => exact if_neg (not_lt.mpr (short b rfl))
      | _ => rfl
    have performed : perform (InMemoryStore.storage geo) validJson (.set key value) server =
        (.ok .done, server') := by
      rw [perform, set, run]
      rfl
    rw [performed]
    refine ⟨by rw [step], idle', ?_⟩
    rw [step, store]
    exact holds.update (fun k => Assoc.get_insert _ _ _ _) fun b same => short b (Option.some.inj same)
  · simp only [not_forall, not_le] at short
    obtain ⟨b, rfl, long⟩ := short
    have refused : perform (InMemoryStore.storage geo) validJson (.set key (.str b)) server =
        (.error (.encodingError (tooLong b)), server) := by
      rw [perform, set, executeCommand, encode_tooLong clean long]
      rfl
    have step : mapStep (.set key (.str b)) m = (.error (.encodingError (tooLong b)), m) :=
      if_pos long
    rw [refused]
    exact ⟨by rw [step], idle, by rw [step]; exact holds⟩

theorem executeCommand_key {name : String} {command : Command} {c : StoreCommand} {key : Str}
    {reply : ZspFrame} {server : Connection (InMemoryStore γ)} {store : InMemoryStore γ}
    (clean : hasLineBreak key = false) (idle : Idle server)
    (plain : hasLineBreak (Str.lit name) = false)
    (built : commandToFrame command = .ok (commandFrame name [.inlineString key]))
    (parsed : parseCommand validJson (commandFrame name [.inlineString key]) = .command c)
    (executed : executeStoreCommand (InMemoryStore.storage geo) c server.store = (.ok reply, store))
    (scalar : isScalar reply = true) (sendable : sendableNode reply = true) (d : Deliverable reply) :
    ∃ server', executeCommand (InMemoryStore.storage geo) validJson command server =
      (frameToResponse reply, server') ∧ Idle server' ∧ server'.store = store := by
  have each : ∀ g ∈ [ZspFrame.inlineString key],
      isScalar g = true ∧ sendableNode g = true ∧ Deliverable g := by
    simpa using text_sendable clean
  obtain ⟨encoded, whole⟩ := commandFrame_sendable plain (by simp) each
  exact executeCommand_of idle built encoded whole parsed executed (encode_scalar scalar sendable) d

theorem inStep_get {key : Str} {m : Dict} {server : Connection (InMemoryStore γ)}
    (clean : hasLineBreak key = false) (idle : Idle server) (holds : Holds server.store m) :
    InStep (.get key) m (perform (InMemoryStore.storage geo) validJson (.get key) server) := by
  have name : hasLineBreak (Str.lit "GET") = false := by decide
  have error : sendableNode (.frameError (Str.lit "ERR Unsupported type")) = true := by
    decide +kernel
  have executed : executeStoreCommand (InMemoryStore.storage geo) (.get key) server.store =
      (.ok (valueFrame "ERR Unsupported type" (m key)), server.store) := by
    rw [← holds.agrees key]
    rfl
  have reply : isScalar (valueFrame "ERR Unsupported type" (m key)) = true ∧
      sendableNode (valueFrame "ERR Unsupported type" (m key)) = true ∧
      Deliverable (valueFrame "ERR Unsupported type" (m key)) := by
    unfold valueFrame
    split
    · rename_i b found
      have fits : sendableNode (.binaryString (some b)) = true := by
        simpa [sendableNode] using holds.short key b found
      exact ⟨rfl, fits, rfl, fits, rfl⟩
    · exact ⟨rfl, error, rfl, error, rfl⟩
    · exact ⟨rfl, rfl, rfl, rfl, rfl⟩
  obtain ⟨server', run, idle', store⟩ :
      ∃ server', executeCommand (InMemoryStore.storage geo) validJson (.get key) server =
        (frameToResponse (valueFrame "ERR Unsupported type" (m key)), server') ∧ Idle server' ∧
        server'.store = server.store :=
    executeCommand_key clean idle name rfl rfl executed reply.1 reply.2.1 reply.2.2
  have performed : perform (InMemoryStore.storage geo) validJson (.get key) server =
      ((mapStep (.get key) m).1, server') := by
    rw [perform, get, run]
    simp only [mapStep]
    cases value : m key with
    | none => rfl
    | some v => cases v <;> rfl
  have same : (mapStep (.get key) m).2 = m := by
    simp only [mapStep]
    split <;> rfl
  rw [performed]
  exact ⟨rfl, idle', by rw [same, store]; exact holds⟩

theorem inStep_del {key : Str} {m : Dict} {server : Connection (InMemoryStore γ)}
    (clean : hasLineBreak key = false) (idle : Idle server) (holds : Holds server.store m) :
    InStep (.del key) m (perform (InMemoryStore.storage geo) validJson (.del key) server) := by
  have name : hasLineBreak (Str.lit "DEL") = false := by decide
  have executed : executeStoreCommand (InMemoryStore.storage geo) (.del key) server.store =
      (.ok (.integer (if (m key).isSome then 1 else 0)),
        { server.store with data := Assoc.erase server.store.data key.bytes }) := by
    rw [← holds.agrees key]
    rfl
  obtain ⟨server', run, idle', store⟩ :
      ∃ server', executeCommand (InMemoryStore.storage geo) validJson (.del key) server =
        (frameToResponse (.integer (if (m key).isSome then 1 else 0)), server') ∧ Idle server' ∧
        server'.store = { server.store with data := Assoc.erase server.store.data key.bytes } :=
    executeCommand_key clean idle name rfl rfl executed rfl rfl ⟨rfl, rfl, rfl⟩
  have performed : perform (InMemoryStore.storage geo) validJson (.del key) server =
      (.ok (.deleted (m key).isSome), server') := by
    rw [perform, del, run]
    cases (m key).isSome <;> rfl
  rw [performed]
  refine ⟨rfl, idle', ?_⟩
  rw [store]
  exact holds.update (fun k => Assoc.get_erase _ _ _) fun b impossible => by cases impossible

theorem inStep {call : Call} {m : Dict} {server : Connection (InMemoryStore γ)}
    (sound : call.Sound) (idle : Idle server) (holds : Holds server.store m) :
    InStep call m (perform (InMemoryStore.storage geo) validJson call server) := by
  cases call with
  | set key value => exact inStep_set sound idle holds
  | get key => exact inStep_get sound idle holds
  | del key => exact inStep_del sound idle holds

theorem performAll_of_holds {calls : List Call} {m : Dict}
    {server : Connection (InMemoryStore γ)} (sound : ∀ call ∈ calls, call.Sound)
    (idle : Idle server) (holds : Holds server.store m) :
    performAll (InMemoryStore.storage geo) validJson calls server = mapAll calls m := by
  induction calls generalizing m server with
  | nil => rfl
  | cons call calls ih =>
      obtain ⟨outcome, idle', holds'⟩ :
          InStep call m (perform (InMemoryStore.storage geo) validJson call server) :=
        inStep (sound call (by simp)) idle holds
      rw [performAll, mapAll, outcome,
        ih (fun c member => sound c (List.mem_cons_of_mem _ member)) idle' holds']

/-- The calls of a client on a new server return what the map says. -/
theorem performAll_eq_mapAll {calls : List Call} (sound : ∀ call ∈ calls, call.Sound) (g : γ)
    (rng : Rng) :
    performAll (InMemoryStore.storage geo) validJson calls
      (Connection.new (InMemoryStore.new g rng)) = mapAll calls fun _ => none := by
  refine performAll_of_holds sound ⟨rfl, rfl, rfl⟩ ⟨fun k => rfl, fun k b found => ?_⟩
  cases found

/-- Strings are fetched again, numbers are not. -/
theorem performAll_eq_mapAll_mixed :
    performAll (InMemoryStore.storage GeoIndex.empty) (fun _ => false)
        [.set (Str.lit "k") (.str [13, 10]), .get (Str.lit "k"), .del (Str.lit "k"),
          .get (Str.lit "k"), .set (Str.lit "n") (.int 1), .get (Str.lit "n")]
        (Connection.new (InMemoryStore.new () fun _ => 0)) =
      [.ok .done, .ok (.found (some (.str [13, 10]))), .ok (.deleted true), .ok (.found none),
        .ok .done, .error (.serverError (Str.lit "ERR Unsupported type"))] := by
  have sound : ∀ call ∈ [Call.set (Str.lit "k") (.str [13, 10]), .get (Str.lit "k"),
      .del (Str.lit "k"), .get (Str.lit "k"), .set (Str.lit "n") (.int 1), .get (Str.lit "n")],
      call.Sound := by
    simp only [List.mem_cons, List.not_mem_nil, or_false, forall_eq_or_imp, forall_eq, Call.Sound]
    decide
  rw [performAll_eq_mapAll sound () fun _ => 0]
  rfl

/-- A number that was set is not returned. -/
theorem performAll_int :
    (∀ call ∈ [Call.set (Str.lit "n") (.int 1), .get (Str.lit "n")], call.Sound) ∧
      performAll (InMemoryStore.storage GeoIndex.empty) (fun _ => false)
        [.set (Str.lit "n") (.int 1), .get (Str.lit "n")]
        (Connection.new (InMemoryStore.new () fun _ => 0)) ≠
      plainAll [.set (Str.lit "n") (.int 1), .get (Str.lit "n")] fun _ => none := by
  constructor
  · simp only [List.mem_cons, List.not_mem_nil, or_false, forall_eq_or_imp, forall_eq, Call.Sound]
    decide
  · intro same
    have refused : performAll (InMemoryStore.storage GeoIndex.empty) (fun _ => false)
        [.set (Str.lit "n") (.int 1), .get (Str.lit "n")]
        (Connection.new (InMemoryStore.new () fun _ => 0)) =
        [.ok .done, .error (.serverError (Str.lit "ERR Unsupported type"))] := by rfl
    rw [refused] at same
    simp [plainAll, plainStep] at same

end

end Zumic.Client
