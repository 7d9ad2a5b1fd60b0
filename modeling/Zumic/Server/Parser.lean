/- From a frame to a command (`parser.rs`, `command.rs`). -/

import Zumic.Database.Value
import Zumic.Zsp.Frame

namespace Zumic.Server

open Database Lib.ByteString Lib.Utf8 Zsp

inductive ParseError where
  | expectedArray
  | commandMustBeString
  | invalidUtf8
  | unknownCommand
  | invalidKey (command : String)
  | keyNotUtf8 (command : String)
  | invalidValueType (command : String)
  | wrongArgCount (command : String) (count : Nat)
  | msetWrongArgCount
  deriving DecidableEq

def ParseError.toStr : ParseError → Str
  | .expectedArray => Str.lit "Expected array for command"
  | .commandMustBeString => Str.lit "Command must be a string"
  | .invalidUtf8 => Str.lit "Invalid UTF-8 in command"
  | .unknownCommand => Str.lit "Unknown command"
  | .invalidKey command => Str.lit command ++ Str.lit ": invalid key"
  | .keyNotUtf8 command => Str.lit command ++ Str.lit ": key must be valid UTF-8"
  | .invalidValueType command => Str.lit command ++ Str.lit ": unsupported value type"
  | .wrongArgCount command count =>
      Str.lit command ++ Str.lit " requires " ++ Str.ofNat count ++ Str.lit " argument(s)"
  | .msetWrongArgCount => Str.lit "MSET requires even number of arguments after command"

/-- A published message; of a JSON document only its text is kept. -/
inductive PubSubMessage where
  | bytes (data : Bytes)
  | string (s : Str)
  | json (text : Str)
  | serialized (data : Bytes) (contentType : Str)

inductive Command where
  | ping
  | echo (message : Str)
  | set (key : Str) (value : Value)
  | get (key : Str)
  | del (key : Str)
  | mset (entries : List (Str × Value))
  | mget (keys : List Str)
  | setNx (key : Str) (value : Value)
  | rename (src dst : Str)
  | renameNx (src dst : Str)
  | auth (user : Option Str) (pass : Str)
  | subscribe (channels : List Str)
  | unsubscribe (channels : List Str)
  | publish (channel : Str) (message : PubSubMessage)

inductive StoreCommand where
  | set (key : Str) (value : Value)
  | get (key : Str)
  | del (key : Str)
  | mset (entries : List (Str × Value))
  | mget (keys : List Str)
  | setNx (key : Str) (value : Value)
  | rename (src dst : Str)
  | renamenx (src dst : Str)
  | auth (user pass : Str)

/-- How the parser ends. An `AUTH` without a user unwraps a value that is not there. -/
inductive Parsed where
  | command (c : StoreCommand)
  | error (e : ParseError)
  | panicked

def Command.intoExecutable : Command → Parsed
  | .set key value => .command (.set key value)
  | .get key => .command (.get key)
  | .del key => .command (.del key)
  | .mset entries => .command (.mset entries)
  | .mget keys => .command (.mget keys)
  | .setNx key value => .command (.setNx key value)
  | .rename src dst => .command (.rename src dst)
  | .renameNx src dst => .command (.renamenx src dst)
  | .auth (some user) pass => .command (.auth user pass)
  | .auth none _ => .panicked
  | .publish _ _ => .error .unknownCommand
  | .subscribe _ => .error .unknownCommand
  | .unsubscribe _ => .error .unknownCommand
  | .ping => .error .unknownCommand
  | .echo _ => .error .unknownCommand

def parseKey (frame : ZspFrame) (command : String) : Except ParseError Str :=
  match frame with
  | .inlineString s => .ok s
  | .binaryString (some b) =>
      match Str.fromUtf8 b with
      | some s => .ok s
      | none => .error (.keyNotUtf8 command)
  | _ => .error (.invalidKey command)

def parseValue (frame : ZspFrame) (command : String) : Except ParseError Value :=
  match frame with
  | .inlineString s => .ok (.str s.bytes)
  | .binaryString (some b) => .ok (.str b)
  | .integer n => .ok (.int n)
  | .float f => .ok (.float f)
  | .bool b => .ok (.bool b)
  | .null => .ok .null
  | _ => .error (.invalidValueType command)

def parseBinaryData (frame : ZspFrame) (command : String) : Except ParseError Bytes :=
  match frame with
  | .binaryString (some b) => .ok b
  | .inlineString s => .ok s.bytes
  | _ => .error (.invalidValueType command)

def parseStringData (frame : ZspFrame) (command : String) : Except ParseError Str :=
  match frame with
  | .inlineString s => .ok s
  | .binaryString (some b) =>
      match Str.fromUtf8 b with
      | some s => .ok s
      | none => .error .invalidUtf8
  | _ => .error (.invalidValueType command)

def parsePubsubMessageLegacy (frame : ZspFrame) : Except ParseError PubSubMessage :=
  match frame with
  | .binaryString (some b) => .ok (.bytes b)
  | .inlineString s => .ok (.string s)
  | _ => .error (.invalidValueType "PUBLISH")

/-- The pairs of a list of even length, parsed in turn. -/
def parsePairs : List ZspFrame → Except ParseError (List (Str × Value))
  | key :: value :: rest => do
      let key ← parseKey key "MSET"
      let value ← parseValue value "MSET"
      let rest ← parsePairs rest
      pure ((key, value) :: rest)
  | _ => pure []

section

variable (validJson : Str → Bool)

/-- A message whose type is given as an argument. -/
def parseTypedMessage (args : List ZspFrame) : Except ParseError PubSubMessage :=
  match args with
  | kind :: first :: rest => do
      let kind ← parseKey kind "PUBLISH"
      if upper kind.bytes = bytesOf "BYTES" then
        let data ← parseBinaryData first "PUBLISH"
        pure (.bytes data)
      else if upper kind.bytes = bytesOf "STRING" then
        let s ← parseStringData first "PUBLISH"
        pure (.string s)
      else if upper kind.bytes = bytesOf "JSON" then
        let text ← parseStringData first "PUBLISH"
        if validJson text then pure (.json text) else throw (.invalidValueType "PUBLISH JSON")
      else if upper kind.bytes = bytesOf "SERIALIZED" then
        match rest with
        | [] => throw (.wrongArgCount "PUBLISH SERIALIZED" 4)
        | second :: _ =>
            let contentType ← parseKey first "PUBLISH"
            let data ← parseBinaryData second "PUBLISH"
            pure (.serialized data contentType)
      else throw (.invalidValueType "PUBLISH")
  | _ => throw (.wrongArgCount "PUBLISH" 2)

/-- A command of two keys. -/
def parseTwoKeys (command : String) (build : Str → Str → Command) :
    List ZspFrame → Except ParseError Command
  | [src, dst] => do
      let src ← parseKey src command
      let dst ← parseKey dst command
      pure (build src dst)
  | _ => .error (.wrongArgCount command 2)

/-- A command of a key and a value. -/
def parseKeyValue (command : String) (build : Str → Value → Command) :
    List ZspFrame → Except ParseError Command
  | [key, value] => do
      let key ← parseKey key command
      let value ← parseValue value command
      pure (build key value)
  | _ => .error (.wrongArgCount command 2)

/-- A command of one key. -/
def parseOneKey (command : String) (build : Str → Command) :
    List ZspFrame → Except ParseError Command
  | [key] => do
      let key ← parseKey key command
      pure (build key)
  | _ => .error (.wrongArgCount command 1)

/-- A command of at least one key. -/
def parseManyKeys (command : String) (build : List Str → Command) (args : List ZspFrame) :
    Except ParseError Command :=
  if args = [] then .error (.wrongArgCount command 1)
  else do
    let keys ← args.mapM fun f => parseKey f command
    pure (build keys)

/-- The command of a name and its arguments, with the name of the command in lower case. -/
def parseFromStrCommand (cmd : Str) (args : List ZspFrame) : Except ParseError Command :=
  let name := cmd.bytes.map asciiLower
  if name = bytesOf "ping" then .ok .ping
  else if name = bytesOf "set" then parseKeyValue "SET" .set args
  else if name = bytesOf "get" then parseOneKey "GET" .get args
  else if name = bytesOf "del" then parseOneKey "DEL" .del args
  else if name = bytesOf "mset" then
    if args.length < 2 ∨ args.length % 2 = 1 then .error .msetWrongArgCount
    else do
      let entries ← parsePairs args
      pure (.mset entries)
  else if name = bytesOf "mget" then parseManyKeys "MGET" .mget args
  else if name = bytesOf "setnx" then parseKeyValue "SETNX" .setNx args
  else if name = bytesOf "rename" then parseTwoKeys "RENAME" .rename args
  else if name = bytesOf "renamenx" then parseTwoKeys "RENAMENX" .renameNx args
  else if name = bytesOf "auth" then
    match args with
    | [pass] => do
        let pass ← parseKey pass "AUTH"
        pure (.auth none pass)
    | [user, pass] => do
        let user ← parseKey user "AUTH"
        let pass ← parseKey pass "AUTH"
        pure (.auth (some user) pass)
    | _ => .error (.wrongArgCount "AUTH" 1)
  else if name = bytesOf "subscribe" then parseManyKeys "SUBSCRIBE" .subscribe args
  else if name = bytesOf "unsubscribe" then parseManyKeys "UNSUBSCRIBE" .unsubscribe args
  else if name = bytesOf "publish" then
    match args with
    | [channel, message] => do
        let channel ← parseKey channel "PUBLISH"
        let message ← parsePubsubMessageLegacy message
        pure (.publish channel message)
    | channel :: args@(_ :: _ :: _) => do
        let channel ← parseKey channel "PUBLISH"
        let message ← parseTypedMessage validJson args
        pure (.publish channel message)
    | _ => .error (.wrongArgCount "PUBLISH" 2)
  else .error .unknownCommand

def parseRawCommand (frame : ZspFrame) : Except ParseError Command :=
  match frame with
  | .array (.inlineString cmd :: args) => parseFromStrCommand validJson cmd args
  | .array (.binaryString (some b) :: args) =>
      match Str.fromUtf8 b with
      | some cmd => parseFromStrCommand validJson cmd args
      | none => .error .invalidUtf8
  | .array (_ :: _) => .error .commandMustBeString
  | _ => .error .expectedArray

def parseCommand (frame : ZspFrame) : Parsed :=
  match parseRawCommand validJson frame with
  | .ok c => c.intoExecutable
  | .error e => .error e

end

/-- An error whose text stays on one line. -/
def ParseError.Plain (e : ParseError) : Prop := 13 ∉ e.toStr.bytes ∧ 10 ∉ e.toStr.bytes

instance (e : ParseError) : Decidable e.Plain := inferInstanceAs (Decidable (_ ∧ _))

/-- A computation whose errors stay on one line. -/
def PlainErrors {α : Type} (x : Except ParseError α) : Prop := ∀ e, x = .error e → e.Plain

theorem plainErrors_ok {α : Type} (a : α) : PlainErrors (.ok a) := by
  intro e failed
  cases failed

/-- The errors that do not depend on the command. -/
private def fixedErrors : List ParseError :=
  [.expectedArray, .commandMustBeString, .invalidUtf8, .unknownCommand, .msetWrongArgCount,
    .invalidValueType "PUBLISH JSON", .wrongArgCount "PUBLISH SERIALIZED" 4]

theorem plain_fixed {e : ParseError} (fixed : e ∈ fixedErrors) : e.Plain := by
  have each : ∀ e ∈ fixedErrors, e.Plain := by decide +kernel
  exact each e fixed

theorem plainErrors_error {α : Type} {e : ParseError} (plain : e.Plain) :
    PlainErrors (.error e : Except ParseError α) := by
  intro e' failed
  obtain rfl := Except.error.inj failed
  exact plain

theorem PlainErrors.bind {α β : Type} {x : Except ParseError α}
    {f : α → Except ParseError β} (first : PlainErrors x) (second : ∀ a, PlainErrors (f a)) :
    PlainErrors (x >>= f) := by
  cases x with
  | error e => exact plainErrors_error (first e rfl)
  | ok a => exact second a

theorem PlainErrors.ite {α : Type} {p : Prop} [Decidable p] {x y : Except ParseError α}
    (first : PlainErrors x) (second : PlainErrors y) : PlainErrors (if p then x else y) := by
  split
  · exact first
  · exact second

/-- A name under which every error is plain. -/
private structure PlainName (command : String) : Prop where
  key : (ParseError.invalidKey command).Plain
  utf8 : (ParseError.keyNotUtf8 command).Plain
  value : (ParseError.invalidValueType command).Plain
  one : (ParseError.wrongArgCount command 1).Plain
  two : (ParseError.wrongArgCount command 2).Plain

theorem plain_parseKey {command : String} (name : PlainName command) (frame : ZspFrame) :
    PlainErrors (parseKey frame command) := by
  unfold parseKey
  split
  · exact plainErrors_ok _
  · split
    · exact plainErrors_ok _
    · exact plainErrors_error name.utf8
  · exact plainErrors_error name.key

theorem plain_parseValue {command : String} (name : PlainName command) (frame : ZspFrame) :
    PlainErrors (parseValue frame command) := by
  unfold parseValue
  split
  case h_7 => exact plainErrors_error name.value
  all_goals exact plainErrors_ok _

theorem plain_parseBinaryData {command : String} (name : PlainName command)
    (frame : ZspFrame) : PlainErrors (parseBinaryData frame command) := by
  unfold parseBinaryData
  split
  case h_3 => exact plainErrors_error name.value
  all_goals exact plainErrors_ok _

theorem plain_parseStringData {command : String} (name : PlainName command)
    (frame : ZspFrame) : PlainErrors (parseStringData frame command) := by
  unfold parseStringData
  split
  · exact plainErrors_ok _
  · split
    · exact plainErrors_ok _
    · exact plainErrors_error (plain_fixed (by simp [fixedErrors]))
  · exact plainErrors_error name.value

theorem plain_parsePubsubMessageLegacy (name : PlainName "PUBLISH") (frame : ZspFrame) :
    PlainErrors (parsePubsubMessageLegacy frame) := by
  unfold parsePubsubMessageLegacy
  split
  case h_3 => exact plainErrors_error name.value
  all_goals exact plainErrors_ok _

theorem plain_parseOneKey {command : String} (name : PlainName command)
    (build : Str → Command) (args : List ZspFrame) :
    PlainErrors (parseOneKey command build args) := by
  unfold parseOneKey
  split
  · exact (plain_parseKey name _).bind fun _ => plainErrors_ok _
  · exact plainErrors_error name.one

theorem plain_parseKeyValue {command : String} (name : PlainName command)
    (build : Str → Value → Command) (args : List ZspFrame) :
    PlainErrors (parseKeyValue command build args) := by
  unfold parseKeyValue
  split
  · exact (plain_parseKey name _).bind fun _ => (plain_parseValue name _).bind fun _ =>
      plainErrors_ok _
  · exact plainErrors_error name.two

theorem plain_parseTwoKeys {command : String} (name : PlainName command)
    (build : Str → Str → Command) (args : List ZspFrame) :
    PlainErrors (parseTwoKeys command build args) := by
  unfold parseTwoKeys
  split
  · exact (plain_parseKey name _).bind fun _ => (plain_parseKey name _).bind fun _ =>
      plainErrors_ok _
  · exact plainErrors_error name.two

theorem plain_mapM_parseKey {command : String} (name : PlainName command)
    (args : List ZspFrame) : PlainErrors (args.mapM fun f => parseKey f command) := by
  induction args with
  | nil => exact plainErrors_ok _
  | cons f args ih =>
      rw [List.mapM_cons]
      exact (plain_parseKey name f).bind fun _ => ih.bind fun _ => plainErrors_ok _

theorem plain_parseManyKeys {command : String} (name : PlainName command)
    (build : List Str → Command) (args : List ZspFrame) :
    PlainErrors (parseManyKeys command build args) := by
  unfold parseManyKeys
  split
  · exact plainErrors_error name.one
  · exact (plain_mapM_parseKey name args).bind fun _ => plainErrors_ok _

theorem plain_parsePairs (name : PlainName "MSET") (args : List ZspFrame) :
    PlainErrors (parsePairs args) := by
  fun_induction parsePairs args with
  | case1 key value rest ih =>
      exact (plain_parseKey name key).bind fun _ => (plain_parseValue name value).bind fun _ =>
        ih.bind fun _ => plainErrors_ok _
  | case2 args => exact plainErrors_ok _

theorem plain_parseTypedMessage (validJson : Str → Bool) (name : PlainName "PUBLISH")
    (args : List ZspFrame) : PlainErrors (parseTypedMessage validJson args) := by
  unfold parseTypedMessage
  split
  · refine (plain_parseKey name _).bind fun kind => ?_
    split_ifs
    · exact (plain_parseBinaryData name _).bind fun _ => plainErrors_ok _
    · exact (plain_parseStringData name _).bind fun _ => plainErrors_ok _
    · refine (plain_parseStringData name _).bind fun text => ?_
      split_ifs
      · exact plainErrors_ok _
      · exact plainErrors_error (plain_fixed (by simp [fixedErrors]))
    · split
      · exact plainErrors_error (plain_fixed (by simp [fixedErrors]))
      · exact (plain_parseKey name _).bind fun _ => (plain_parseBinaryData name _).bind fun _ =>
          plainErrors_ok _
    · exact plainErrors_error name.value
  · exact plainErrors_error name.two

theorem plain_parseFromStrCommand (validJson : Str → Bool) (cmd : Str)
    (args : List ZspFrame) : PlainErrors (parseFromStrCommand validJson cmd args) := by
  have names : ∀ command ∈ ["SET", "GET", "DEL", "MSET", "MGET", "SETNX", "RENAME", "RENAMENX",
      "AUTH", "SUBSCRIBE", "UNSUBSCRIBE", "PUBLISH"], PlainName command := by
    intro command member
    have texts : ∀ command ∈ ["SET", "GET", "DEL", "MSET", "MGET", "SETNX", "RENAME", "RENAMENX",
        "AUTH", "SUBSCRIBE", "UNSUBSCRIBE", "PUBLISH"],
        (ParseError.invalidKey command).Plain ∧ (ParseError.keyNotUtf8 command).Plain ∧
          (ParseError.invalidValueType command).Plain ∧
          (ParseError.wrongArgCount command 1).Plain ∧
          (ParseError.wrongArgCount command 2).Plain := by decide +kernel
    obtain ⟨key, utf8, value, one, two⟩ := texts command member
    exact ⟨key, utf8, value, one, two⟩
  unfold parseFromStrCommand
  dsimp only
  refine (plainErrors_ok _).ite ?_
  refine (plain_parseKeyValue (names _ (by simp)) _ _).ite ?_
  refine (plain_parseOneKey (names _ (by simp)) _ _).ite ?_
  refine (plain_parseOneKey (names _ (by simp)) _ _).ite ?_
  refine PlainErrors.ite ?_ ?_
  · exact (plainErrors_error (plain_fixed (by simp [fixedErrors]))).ite
      ((plain_parsePairs (names _ (by simp)) _).bind fun _ => plainErrors_ok _)
  refine (plain_parseManyKeys (names _ (by simp)) _ _).ite ?_
  refine (plain_parseKeyValue (names _ (by simp)) _ _).ite ?_
  refine (plain_parseTwoKeys (names _ (by simp)) _ _).ite ?_
  refine (plain_parseTwoKeys (names _ (by simp)) _ _).ite ?_
  refine PlainErrors.ite ?_ ?_
  · split
    · exact (plain_parseKey (names _ (by simp)) _).bind fun _ => plainErrors_ok _
    · exact (plain_parseKey (names _ (by simp)) _).bind fun _ =>
        (plain_parseKey (names _ (by simp)) _).bind fun _ => plainErrors_ok _
    · exact plainErrors_error (names _ (by simp)).one
  refine (plain_parseManyKeys (names _ (by simp)) _ _).ite ?_
  refine (plain_parseManyKeys (names _ (by simp)) _ _).ite ?_
  refine PlainErrors.ite ?_ (plainErrors_error (plain_fixed (by simp [fixedErrors])))
  split
  · exact (plain_parseKey (names _ (by simp)) _).bind fun _ =>
      (plain_parsePubsubMessageLegacy (names _ (by simp)) _).bind fun _ => plainErrors_ok _
  · exact (plain_parseKey (names _ (by simp)) _).bind fun _ =>
      (plain_parseTypedMessage validJson (names _ (by simp)) _).bind fun _ => plainErrors_ok _
  · exact plainErrors_error (names _ (by simp)).two

theorem parseCommand_error_plain {validJson : Str → Bool} {frame : ZspFrame} {e : ParseError}
    (failed : parseCommand validJson frame = .error e) : e.Plain := by
  have raw : PlainErrors (parseRawCommand validJson frame) := by
    unfold parseRawCommand
    split
    · exact plain_parseFromStrCommand validJson _ _
    · split
      · exact plain_parseFromStrCommand validJson _ _
      · exact plainErrors_error (plain_fixed (by simp [fixedErrors]))
    · exact plainErrors_error (plain_fixed (by simp [fixedErrors]))
    · exact plainErrors_error (plain_fixed (by simp [fixedErrors]))
  unfold parseCommand at failed
  cases parsed : parseRawCommand validJson frame with
  | error e' =>
      rw [parsed] at failed
      obtain rfl : e' = e := by simpa using failed
      exact raw e' parsed
  | ok c =>
      rw [parsed] at failed
      have unknown : ParseError.unknownCommand.Plain := plain_fixed (by simp [fixedErrors])
      cases c with
      | auth user pass => cases user <;> simp [Command.intoExecutable] at failed
      | _ =>
          simp only [Command.intoExecutable, Parsed.error.injEq, reduceCtorEq] at failed
          try exact failed ▸ unknown

end Zumic.Server
