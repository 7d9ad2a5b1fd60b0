/- The two forms of a string in a command frame: the parser does not tell them apart. -/

import Zumic.Server.Parser

namespace Zumic.Server

open Database Lib.ByteString Lib.Utf8 Zsp

/-- The same element, or an inline string and the binary string with its bytes. -/
inductive SameText : ZspFrame → ZspFrame → Prop
  | same (f : ZspFrame) : SameText f f
  | reformed (s : Str) : SameText (.inlineString s) (.binaryString (some s.bytes))

/-- The same command, or an error in both cases. -/
def Parsed.Alike : Parsed → Parsed → Prop
  | .command c, .command c' => c = c'
  | .error _, .error _ => True
  | _, _ => False

/-- The parser comes back from the frame and gives the same for every form of its strings. -/
def Robust (validJson : Str → Bool) (frame : ZspFrame) : Prop :=
  parseCommand validJson frame ≠ .panicked ∧
    ∀ items items', frame = .array items → List.Forall₂ SameText items items' →
      (parseCommand validJson frame).Alike (parseCommand validJson (.array items'))

/-- The text of a string element. -/
def elementText : ZspFrame → Option Str
  | .inlineString s => some s
  | .binaryString (some b) => Str.fromUtf8 b
  | _ => none

/-- `AUTH` with a password alone. -/
def AuthWithoutUser (frame : ZspFrame) : Prop :=
  ∃ name pass cmd text, frame = .array [name, pass] ∧ elementText name = some cmd ∧
    cmd.bytes.map asciiLower = bytesOf "auth" ∧ elementText pass = some text

section

variable {f g : ZspFrame}

theorem parseKey_same (same : SameText f g) (command : String) :
    parseKey f command = parseKey g command := by
  cases same with
  | same => rfl
  | reformed s => simp only [parseKey, Str.fromUtf8_bytes]

theorem parseValue_same (same : SameText f g) (command : String) :
    parseValue f command = parseValue g command := by
  cases same <;> rfl

theorem parseBinaryData_same (same : SameText f g) (command : String) :
    parseBinaryData f command = parseBinaryData g command := by
  cases same <;> rfl

theorem parseStringData_same (same : SameText f g) (command : String) :
    parseStringData f command = parseStringData g command := by
  cases same with
  | same => rfl
  | reformed s => simp only [parseStringData, Str.fromUtf8_bytes]

theorem parseKey_ok {command : String} {s : Str} :
    parseKey f command = .ok s ↔ elementText f = some s := by
  unfold parseKey elementText
  split
  · simp
  · rename_i b
    show _ ↔ Str.fromUtf8 b = some s
    cases Str.fromUtf8 b with
    | none => simp
    | some t => simp
  · simp

end

section

variable {args args' : List ZspFrame}

theorem parseOneKey_same (same : List.Forall₂ SameText args args') (command : String)
    (build : Str → Command) : parseOneKey command build args = parseOneKey command build args' := by
  rcases same with _ | ⟨first, _ | ⟨second, rest⟩⟩
  · rfl
  · simp only [parseOneKey, parseKey_same first]
  · rfl

theorem parseKeyValue_same (same : List.Forall₂ SameText args args') (command : String)
    (build : Str → Value → Command) :
    parseKeyValue command build args = parseKeyValue command build args' := by
  rcases same with _ | ⟨first, _ | ⟨second, _ | ⟨third, rest⟩⟩⟩
  · rfl
  · rfl
  · simp only [parseKeyValue, parseKey_same first, parseValue_same second]
  · rfl

theorem parseTwoKeys_same (same : List.Forall₂ SameText args args') (command : String)
    (build : Str → Str → Command) :
    parseTwoKeys command build args = parseTwoKeys command build args' := by
  rcases same with _ | ⟨first, _ | ⟨second, _ | ⟨third, rest⟩⟩⟩
  · rfl
  · rfl
  · simp only [parseTwoKeys, parseKey_same first, parseKey_same second]
  · rfl

theorem mapM_parseKey_same (same : List.Forall₂ SameText args args') (command : String) :
    args.mapM (fun f => parseKey f command) = args'.mapM fun f => parseKey f command := by
  induction same with
  | nil => rfl
  | cons first rest ih => simp only [List.mapM_cons, parseKey_same first, ih]

theorem parseManyKeys_same (same : List.Forall₂ SameText args args') (command : String)
    (build : List Str → Command) :
    parseManyKeys command build args = parseManyKeys command build args' := by
  unfold parseManyKeys
  rw [mapM_parseKey_same same]
  cases same <;> rfl

theorem parsePairs_same (same : List.Forall₂ SameText args args') :
    parsePairs args = parsePairs args' := by
  fun_induction parsePairs args generalizing args' with
  | case1 key value rest ih =>
      rcases same with _ | ⟨first, _ | ⟨second, others⟩⟩
      simp only [parsePairs, parseKey_same first, parseValue_same second, ih others]
  | case2 args short =>
      rcases same with _ | ⟨first, _ | ⟨second, others⟩⟩
      · rfl
      · rfl
      · exact absurd rfl (short _ _ _)

theorem parseTypedMessage_same (validJson : Str → Bool)
    (same : List.Forall₂ SameText args args') :
    parseTypedMessage validJson args = parseTypedMessage validJson args' := by
  rcases same with _ | ⟨kind, _ | ⟨first, _ | ⟨second, rest⟩⟩⟩
  · rfl
  · rfl
  · simp only [parseTypedMessage, parseKey_same kind, parseBinaryData_same first,
      parseStringData_same first]
  · simp only [parseTypedMessage, parseKey_same kind, parseBinaryData_same first,
      parseStringData_same first, parseKey_same first, parseBinaryData_same second]

end

/-- What comes of a command that was read. -/
def executed : Except ParseError Command → Parsed
  | .ok c => c.intoExecutable
  | .error e => .error e

theorem parseCommand_eq (validJson : Str → Bool) (frame : ZspFrame) :
    parseCommand validJson frame = executed (parseRawCommand validJson frame) := by
  unfold parseCommand executed
  cases parseRawCommand validJson frame <;> rfl

theorem executed_ite {p : Prop} [Decidable p] {x x' y y' : Except ParseError Command}
    (first : executed x = executed x') (second : executed y = executed y') :
    executed (if p then x else y) = executed (if p then x' else y') := by
  split
  · exact first
  · exact second

theorem executed_publish_same {f g : ZspFrame} (same : SameText f g)
    (channel : Except ParseError Str) :
    executed (do pure (.publish (← channel) (← parsePubsubMessageLegacy f))) =
      executed (do pure (.publish (← channel) (← parsePubsubMessageLegacy g))) := by
  cases channel with
  | error e => rfl
  | ok channel => cases same <;> rfl

section

variable (validJson : Str → Bool) {args args' : List ZspFrame}

theorem executed_parseFromStrCommand_same (cmd : Str) (same : List.Forall₂ SameText args args') :
    executed (parseFromStrCommand validJson cmd args) =
      executed (parseFromStrCommand validJson cmd args') := by
  unfold parseFromStrCommand
  dsimp only
  refine executed_ite rfl ?_
  refine executed_ite (congrArg executed (parseKeyValue_same same _ _)) ?_
  refine executed_ite (congrArg executed (parseOneKey_same same _ _)) ?_
  refine executed_ite (congrArg executed (parseOneKey_same same _ _)) ?_
  refine executed_ite ?_ ?_
  · rw [parsePairs_same same, same.length_eq]
  refine executed_ite (congrArg executed (parseManyKeys_same same _ _)) ?_
  refine executed_ite (congrArg executed (parseKeyValue_same same _ _)) ?_
  refine executed_ite (congrArg executed (parseTwoKeys_same same _ _)) ?_
  refine executed_ite (congrArg executed (parseTwoKeys_same same _ _)) ?_
  refine executed_ite ?_ ?_
  · rcases same with _ | ⟨first, _ | ⟨second, _ | ⟨third, rest⟩⟩⟩
    · rfl
    · simp only [parseKey_same first]
    · simp only [parseKey_same first, parseKey_same second]
    · rfl
  refine executed_ite (congrArg executed (parseManyKeys_same same _ _)) ?_
  refine executed_ite (congrArg executed (parseManyKeys_same same _ _)) ?_
  refine executed_ite ?_ rfl
  rcases same with _ | ⟨channel, _ | ⟨message, _ | ⟨third, rest⟩⟩⟩
  · rfl
  · rfl
  · simp only [parseKey_same channel]
    exact executed_publish_same message _
  · simp only [parseKey_same channel,
      parseTypedMessage_same validJson (.cons message (.cons third rest))]

end

section

variable (validJson : Str → Bool)

theorem parseCommand_same {items items' : List ZspFrame}
    (same : List.Forall₂ SameText items items') :
    parseCommand validJson (.array items) = parseCommand validJson (.array items') := by
  simp only [parseCommand_eq]
  cases same with
  | nil => rfl
  | @cons name name' args args' first rest =>
      have arguments (cmd : Str) := executed_parseFromStrCommand_same validJson cmd rest
      cases first with
      | same =>
          match name with
          | .inlineString cmd => exact arguments cmd
          | .binaryString (some b) =>
              simp only [parseRawCommand]
              cases Str.fromUtf8 b with
              | none => rfl
              | some cmd => exact arguments cmd
          | .binaryString none | .frameError _ | .integer _ | .float _ | .bool _ | .null
          | .array _ | .dictionary _ | .set _ | .push _ | .zset _ => rfl
      | reformed cmd =>
          simp only [parseRawCommand, Str.fromUtf8_bytes]
          exact arguments cmd

end

/-- A reading that never ends in an unwrapped user that is not there. -/
def Answered (x : Except ParseError Command) : Prop := executed x ≠ .panicked

theorem answered_error (e : ParseError) : Answered (.error e) := by
  intro panicked
  cases panicked

theorem answered_bind {α : Type} {x : Except ParseError α} {f : α → Except ParseError Command}
    (second : ∀ a, Answered (f a)) : Answered (x >>= f) := by
  cases x with
  | error e => exact answered_error e
  | ok a => exact second a

theorem answered_ite {p : Prop} [Decidable p] {x y : Except ParseError Command}
    (first : Answered x) (second : Answered y) : Answered (if p then x else y) := by
  split
  · exact first
  · exact second

theorem answered_oneKey {command : String} {build : Str → Command}
    (built : ∀ key, (build key).intoExecutable ≠ .panicked) (args : List ZspFrame) :
    Answered (parseOneKey command build args) := by
  unfold parseOneKey
  split
  · exact answered_bind built
  · exact answered_error _

theorem answered_keyValue {command : String} {build : Str → Value → Command}
    (built : ∀ key value, (build key value).intoExecutable ≠ .panicked) (args : List ZspFrame) :
    Answered (parseKeyValue command build args) := by
  unfold parseKeyValue
  split
  · exact answered_bind fun key => answered_bind fun value => built key value
  · exact answered_error _

theorem answered_twoKeys {command : String} {build : Str → Str → Command}
    (built : ∀ src dst, (build src dst).intoExecutable ≠ .panicked) (args : List ZspFrame) :
    Answered (parseTwoKeys command build args) := by
  unfold parseTwoKeys
  split
  · exact answered_bind fun src => answered_bind fun dst => built src dst
  · exact answered_error _

theorem answered_manyKeys {command : String} {build : List Str → Command}
    (built : ∀ keys, (build keys).intoExecutable ≠ .panicked) (args : List ZspFrame) :
    Answered (parseManyKeys command build args) :=
  answered_ite (answered_error _) (answered_bind built)

section

variable (validJson : Str → Bool) (cmd : Str) (args : List ZspFrame)

theorem answered_parseFromStrCommand (other : cmd.bytes.map asciiLower ≠ bytesOf "auth") :
    Answered (parseFromStrCommand validJson cmd args) := by
  have error (e : ParseError) : Answered (.error e) := answered_error e
  unfold parseFromStrCommand
  dsimp only
  refine answered_ite (by simp [Answered, executed, Command.intoExecutable]) ?_
  refine answered_ite (answered_keyValue (by simp [Command.intoExecutable]) _) ?_
  refine answered_ite (answered_oneKey (by simp [Command.intoExecutable]) _) ?_
  refine answered_ite (answered_oneKey (by simp [Command.intoExecutable]) _) ?_
  refine answered_ite (answered_ite (error _) (answered_bind fun entries => ?_)) ?_
  · simp [Answered, executed, Command.intoExecutable, pure, Except.pure]
  refine answered_ite (answered_manyKeys (by simp [Command.intoExecutable]) _) ?_
  refine answered_ite (answered_keyValue (by simp [Command.intoExecutable]) _) ?_
  refine answered_ite (answered_twoKeys (by simp [Command.intoExecutable]) _) ?_
  refine answered_ite (answered_twoKeys (by simp [Command.intoExecutable]) _) ?_
  rw [if_neg other]
  refine answered_ite (answered_manyKeys (by simp [Command.intoExecutable]) _) ?_
  refine answered_ite (answered_manyKeys (by simp [Command.intoExecutable]) _) ?_
  refine answered_ite ?_ (error _)
  have published (channel : Str) (message : PubSubMessage) :
      Answered (.ok (.publish channel message)) := by
    simp [Answered, executed, Command.intoExecutable]
  split
  · exact answered_bind fun channel => answered_bind fun message => published channel message
  · exact answered_bind fun channel => answered_bind fun message => published channel message
  · exact error _

theorem executed_parseFromStrCommand_panicked :
    executed (parseFromStrCommand validJson cmd args) = .panicked ↔
      cmd.bytes.map asciiLower = bytesOf "auth" ∧
        ∃ pass text, args = [pass] ∧ elementText pass = some text := by
  by_cases auth : cmd.bytes.map asciiLower = bytesOf "auth"
  · have others : ∀ name ∈ ["ping", "set", "get", "del", "mset", "mget", "setnx", "rename",
        "renamenx"], bytesOf "auth" ≠ bytesOf name := by decide +kernel
    unfold parseFromStrCommand
    dsimp only
    rewrite [auth, if_neg (others _ (by simp)), if_neg (others _ (by simp)),
      if_neg (others _ (by simp)), if_neg (others _ (by simp)), if_neg (others _ (by simp)),
      if_neg (others _ (by simp)), if_neg (others _ (by simp)), if_neg (others _ (by simp)),
      if_neg (others _ (by simp)), if_pos rfl]
    simp only [true_and]
    constructor
    · intro panicked
      split at panicked
      case h_1 pass =>
        cases read : parseKey pass "AUTH" with
        | error e =>
            rw [read] at panicked
            cases panicked
        | ok text => exact ⟨pass, text, rfl, parseKey_ok.1 read⟩
      case h_2 user pass =>
        refine absurd panicked (answered_bind fun user => answered_bind fun pass => ?_)
        simp [Answered, executed, Command.intoExecutable, pure, Except.pure]
      case h_3 => cases panicked
    · rintro ⟨pass, text, rfl, read⟩
      simp only [parseKey_ok.2 read]
      rfl
  · simp only [auth, false_and, iff_false]
    exact answered_parseFromStrCommand validJson cmd args auth

end

section

variable (validJson : Str → Bool)

theorem parseRawCommand_named {name : ZspFrame} {cmd : Str} (text : elementText name = some cmd)
    (args : List ZspFrame) :
    parseRawCommand validJson (.array (name :: args)) = parseFromStrCommand validJson cmd args := by
  unfold elementText at text
  split at text
  case h_1 s =>
    obtain rfl := Option.some.inj text
    rfl
  case h_2 b => simp only [parseRawCommand, text]
  case h_3 => cases text

theorem parseRawCommand_unnamed {frame : ZspFrame}
    (noText : ∀ name args, frame = .array (name :: args) → elementText name = none) :
    ∃ e, parseRawCommand validJson frame = .error e := by
  unfold parseRawCommand
  split
  case h_1 cmd args => cases noText _ _ rfl
  case h_2 b args =>
    have unread : Str.fromUtf8 b = none := noText _ _ rfl
    exact ⟨.invalidUtf8, by rw [unread]⟩
  case h_3 => exact ⟨_, rfl⟩
  case h_4 => exact ⟨_, rfl⟩

theorem parseCommand_panicked (frame : ZspFrame) :
    parseCommand validJson frame = .panicked ↔ AuthWithoutUser frame := by
  rw [parseCommand_eq]
  by_cases named : ∃ name args cmd, frame = .array (name :: args) ∧ elementText name = some cmd
  · obtain ⟨name, args, cmd, rfl, text⟩ := named
    rw [parseRawCommand_named validJson text, executed_parseFromStrCommand_panicked]
    constructor
    · rintro ⟨auth, pass, secret, rfl, read⟩
      exact ⟨name, pass, cmd, secret, rfl, text, auth, read⟩
    · rintro ⟨name', pass, cmd', secret, alike, text', auth, read⟩
      obtain ⟨rfl, rfl⟩ : name = name' ∧ args = [pass] := by simpa using alike
      obtain rfl : cmd = cmd' := by simpa [text] using text'
      exact ⟨auth, pass, secret, rfl, read⟩
  · have noText (name : ZspFrame) (args : List ZspFrame) (array : frame = .array (name :: args)) :
        elementText name = none := by
      refine Option.eq_none_iff_forall_ne_some.2 fun cmd text => ?_
      exact named ⟨name, args, cmd, array, text⟩
    obtain ⟨e, raw⟩ := parseRawCommand_unnamed validJson noText
    rw [raw]
    constructor
    · intro panicked
      cases panicked
    · rintro ⟨name, pass, cmd, secret, rfl, text, auth, read⟩
      exact absurd ⟨name, [pass], cmd, rfl, text⟩ named

/-- The parser answers for every frame, and the same for every form of its strings, but for an
`AUTH` with a password alone, whose user it unwraps. -/
theorem robust_iff (frame : ZspFrame) : Robust validJson frame ↔ ¬ AuthWithoutUser frame := by
  rw [← parseCommand_panicked validJson frame]
  constructor
  · intro robust
    exact robust.1
  · intro answered
    refine ⟨answered, ?_⟩
    rintro items items' rfl same
    have equal := parseCommand_same validJson same
    rw [← equal]
    cases parsed : parseCommand validJson (.array items) with
    | command c => rfl
    | error e => trivial
    | panicked => exact absurd parsed answered

end

theorem not_robust_auth :
    ¬ Robust (fun _ => true) (.array [.inlineString (Str.lit "AUTH"),
      .inlineString (Str.lit "secret")]) := by
  intro robust
  refine robust.1 ((parseCommand_panicked _ _).2 ?_)
  exact ⟨_, _, Str.lit "AUTH", Str.lit "secret", rfl, rfl, by decide +kernel, rfl⟩

end Zumic.Server
