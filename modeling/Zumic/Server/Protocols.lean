/- The text protocol and ZSP as two interpreters of the same commands. -/

import Zumic.Lib.Runs
import Zumic.Lib.Words
import Zumic.Server.Connection
import Zumic.Server.Replies

namespace Zumic.Server

open Database Engine Lib Lib.ByteString Lib.Decimal Lib.Utf8 Zsp

inductive KeyCommand where
  | set
  | get
  | del
  | mset
  | mget
  deriving DecidableEq

def KeyCommand.lower : KeyCommand → Bytes
  | .set => bytesOf "set"
  | .get => bytesOf "get"
  | .del => bytesOf "del"
  | .mset => bytesOf "mset"
  | .mget => bytesOf "mget"

/-- A command of any number of words, its name spelled in any case. -/
structure Spoken where
  command : KeyCommand
  name : Word
  spelled : name.bytes.map asciiLower = command.lower
  args : List Word

namespace Spoken

/-- The command as a line of text. -/
def text (c : Spoken) : Str := Str.lossy (joined c.name c.args)

/-- The command as an array of binary strings. -/
def frame (c : Spoken) : ZspFrame :=
  .array ((c.name :: c.args).map fun w => .binaryString (some w.bytes))

end Spoken

/-- One item of a reply on either side: the choice of string and the text of an error are free. -/
inductive SameItem : ZspFrame → ZspFrame → Prop
  | error (s t : Str) : SameItem (.frameError s) (.frameError t)
  | integer (i : Int64) : SameItem (.integer i) (.integer i)
  | nil : SameItem (.binaryString none) (.binaryString none)
  | string {f g : ZspFrame} (b : Bytes) (left : frameString f = some b)
      (right : frameString g = some b) : SameItem f g

inductive SameReply : ZspFrame → ZspFrame → Prop
  | item {f g : ZspFrame} (same : SameItem f g) : SameReply f g
  | list {l m : List ZspFrame} (same : List.Forall₂ SameItem l m) :
      SameReply (.array l) (.array m)

/-- A frame whose lines are lines. -/
def unbroken : ZspFrame → Bool
  | .inlineString s => !hasLineBreak s
  | .frameError s => !hasLineBreak s
  | _ => true

/-- A text reply is the wire form of a frame, and that frame says what the ZSP reply says. -/
def Alike (text : Bytes) (reply : Option ZspFrame) : Prop :=
  ∃ said frame, text = wire said ∧ said.all unbroken = true ∧ reply = some frame ∧
    SameReply said frame

def isStr : Value → Bool
  | .str _ => true
  | _ => false

section

variable {γ : Type} (geo : GeoIndex γ) (validJson : Str → Bool)

/-- Two stores that are sent the same commands, one by text lines and one by frames, and the
pairs of their replies. -/
structure Both (γ : Type) where
  text : InMemoryStore γ
  zsp : InMemoryStore γ
  replies : List (Bytes × Option ZspFrame)

def Both.step (s : Both γ) (c : Spoken) : Option (Both γ) :=
  let (said, text) := processCommand (InMemoryStore.storage geo) c.text s.text
  let (reply, zsp) := frameReply (InMemoryStore.storage geo) validJson c.frame s.zsp
  some ⟨text, zsp, s.replies ++ [(said, reply)]⟩

/-- A string value that one line can hold, or a hash set. -/
def Plain : Value → Prop
  | .str b => IsWord b
  | .set _ => True
  | _ => False

/-- No `MGET` asks for a key that holds a value other than a string. -/
def Strings (s : Both γ) (c : Spoken) : Prop :=
  c.command = .mget → ∀ w ∈ c.args, (Assoc.get s.text.data w.bytes).all isStr = true

instance decidableStrings (s : Both γ) (c : Spoken) : Decidable (Strings s c) :=
  inferInstanceAs (Decidable (_ → _))

end

section

theorem asciiUpper_asciiLower (x : UInt8) : asciiUpper (asciiLower x) = asciiUpper x := by
  unfold asciiLower
  split
  · rename_i letter
    have low : 65 ≤ x.toNat := UInt8.le_iff_toNat_le.mp letter.1
    have high : x.toNat ≤ 90 := UInt8.le_iff_toNat_le.mp letter.2
    have shifted : (x + 32).toNat = x.toNat + 32 := by
      rw [UInt8.toNat_add]
      exact Nat.mod_eq_of_lt (by change x.toNat + 32 < 256; omega)
    have inside : 97 ≤ x + 32 ∧ x + 32 ≤ 122 := by
      rw [UInt8.le_iff_toNat_le, UInt8.le_iff_toNat_le, shifted]
      change 97 ≤ x.toNat + 32 ∧ x.toNat + 32 ≤ 122
      omega
    have outside : ¬ (97 ≤ x ∧ x ≤ 122) := by
      rw [UInt8.le_iff_toNat_le]
      change ¬ (97 ≤ x.toNat ∧ x ≤ 122)
      omega
    rw [asciiUpper, asciiUpper, if_pos inside, if_neg outside, UInt8.add_sub_cancel]
  · rfl

theorem ascii_of_asciiLower {x : UInt8} (ascii : asciiLower x < 0x80) : x < 0x80 := by
  unfold asciiLower at ascii
  split at ascii
  · rename_i letter
    exact UInt8.lt_of_le_of_lt letter.2 (by decide)
  · exact ascii

theorem upper_of_lower {name lower : Bytes} (spelled : name.map asciiLower = lower)
    (ascii : ∀ x ∈ lower, x < 0x80) : upper name = lower.map asciiUpper := by
  have low : ∀ x ∈ name, x < 0x80 := by
    intro x member
    apply ascii_of_asciiLower
    apply ascii
    rw [← spelled]
    exact List.mem_map_of_mem member
  rw [upper_ascii low, ← spelled, List.map_map]
  apply List.map_congr_left
  intro x _
  exact (asciiUpper_asciiLower x).symm

def KeyCommand.upper : KeyCommand → Bytes
  | .set => bytesOf "SET"
  | .get => bytesOf "GET"
  | .del => bytesOf "DEL"
  | .mset => bytesOf "MSET"
  | .mget => bytesOf "MGET"

set_option maxRecDepth 2000 in
theorem upper_spelled (c : Spoken) : upper c.name.bytes = c.command.upper := by
  rw [upper_of_lower c.spelled (by cases c.command <;> decide)]
  cases c.command <;> decide

variable {σ : Type} (S : Storage σ)

/-- What the text protocol does with the words of a command. -/
def textCommand (command : KeyCommand) (args : List Bytes) : Reply σ :=
  match command with
  | .set => setCommand S args
  | .get => getCommand S args
  | .del => delCommand S args
  | .mset => msetCommand S args
  | .mget => mgetCommand S args

theorem processCommand_spoken (c : Spoken) :
    processCommand S c.text = textCommand S c.command (c.args.map Word.bytes) := by
  have text : c.text.bytes = joined c.name c.args := lossy_of_valid (validUtf8_joined c.name c.args)
  rw [processCommand, text, splitWhitespace_joined]
  show runCommand S (upper c.name.bytes) (c.args.map Word.bytes) = _
  rw [upper_spelled]
  unfold runCommand textCommand
  cases c.command <;> simp only [KeyCommand.upper] <;> rfl

/-- The command of a name that the frame parser knows. -/
def zspCommand (command : KeyCommand) (args : List ZspFrame) : Except ParseError Command :=
  match command with
  | .set => parseKeyValue "SET" .set args
  | .get => parseOneKey "GET" .get args
  | .del => parseOneKey "DEL" .del args
  | .mset =>
      if args.length < 2 ∨ args.length % 2 = 1 then .error .msetWrongArgCount
      else do
        let entries ← parsePairs args
        pure (.mset entries)
  | .mget => parseManyKeys "MGET" .mget args

def Word.str (w : Word) : Str := ⟨w.bytes, w.valid⟩

def Word.frame (w : Word) : ZspFrame := .binaryString (some w.bytes)

/-- How the parser ends. -/
def parsedOf : Except ParseError Command → Parsed
  | .ok c => c.intoExecutable
  | .error e => .error e

theorem parseCommand_spoken (validJson : Str → Bool) (c : Spoken) :
    parseCommand validJson c.frame =
      parsedOf (zspCommand c.command (c.args.map Word.frame)) := by
  have read : Str.fromUtf8 c.name.bytes = some (Word.str c.name) :=
    Str.fromUtf8_bytes (Word.str c.name)
  have named : (Word.str c.name).bytes.map asciiLower = c.command.lower := c.spelled
  have raw : parseRawCommand validJson c.frame =
      parseFromStrCommand validJson (Word.str c.name) (c.args.map Word.frame) := by
    simp only [Spoken.frame, List.map_cons, parseRawCommand, read]
    rfl
  have parsed : parseFromStrCommand validJson (Word.str c.name) (c.args.map Word.frame) =
      zspCommand c.command (c.args.map Word.frame) := by
    unfold parseFromStrCommand zspCommand
    simp only [named]
    cases c.command <;> rfl
  rw [parseCommand, raw, parsed]
  cases zspCommand c.command (c.args.map Word.frame) <;> rfl

theorem parseKey_word (w : Word) (command : String) :
    parseKey (Word.frame w) command = .ok (Word.str w) := by
  have read : Str.fromUtf8 w.bytes = some (Word.str w) := Str.fromUtf8_bytes (Word.str w)
  rw [Word.frame, parseKey, read]

theorem mapM_parseKey (words : List Word) (command : String) :
    (words.map Word.frame).mapM (fun f => parseKey f command) = .ok (words.map Word.str) := by
  induction words with
  | nil => rfl
  | cons w words ih =>
      rw [List.map_cons, List.mapM_cons, parseKey_word, ih]
      rfl

/-- The entries of a list of even length. -/
def entriesOf : List Word → List (Str × Value)
  | key :: value :: rest => (Word.str key, .str value.bytes) :: entriesOf rest
  | _ => []

theorem parsePairs_words (words : List Word) :
    parsePairs (words.map Word.frame) = .ok (entriesOf words) := by
  induction words using entriesOf.induct with
  | case1 key value rest ih =>
      rw [List.map_cons, List.map_cons, parsePairs, parseKey_word, ih]
      rfl
  | case2 words short =>
      cases words with
      | nil => rfl
      | cons w words =>
          cases words with
          | nil => rfl
          | cons v words => exact absurd rfl (short w v words)

theorem setPairs_entries (words : List Word) (even : words.length % 2 = 0) (s : σ) :
    setPairs S (words.map Word.bytes) s = setEntries S (entriesOf words) s := by
  induction words using entriesOf.induct generalizing s with
  | case1 key value rest ih =>
      have shorter : rest.length % 2 = 0 := by
        simp only [List.length_cons] at even
        omega
      have same : (Word.str key).bytes = key.bytes := rfl
      simp only [List.map_cons, setPairs, entriesOf, setEntries, same]
      rcases S.set key.bytes (.str value.bytes) s with ⟨result, s'⟩
      cases result with
      | ok done => exact ih shorter s'
      | error e => rfl
  | case2 words short =>
      cases words with
      | nil => rfl
      | cons w words =>
          cases words with
          | nil => simp at even
          | cons v words => exact absurd rfl (short w v words)

/-- What ZSP answers to the items of a command. -/
def zspReply (command : KeyCommand) (args : List ZspFrame) (s : σ) : Option ZspFrame × σ :=
  match parsedOf (zspCommand command args) with
  | .command c =>
      match executeStoreCommand S c s with
      | (.ok reply, s) => (some reply, s)
      | (.error e, s) => (some (.frameError (Str.lit "ERR exec: " ++ e.toStr)), s)
  | .error e => (some (.frameError (Str.lit "ERR parse: " ++ e.toStr)), s)
  | .panicked => (none, s)

theorem frameReply_spoken (validJson : Str → Bool) (c : Spoken) (s : σ) :
    frameReply S validJson c.frame s =
      zspReply S c.command (c.args.map Word.frame) s := by
  unfold frameReply zspReply
  rewrite [parseCommand_spoken]
  cases parsedOf (zspCommand c.command (c.args.map Word.frame)) with
  | command parsed =>
      rcases executeStoreCommand S parsed s with ⟨result, s'⟩
      cases result <;> rfl
  | error e => rfl
  | panicked => rfl

theorem zspReply_error {command : KeyCommand} {args : List ZspFrame} {e : ParseError}
    (failed : zspCommand command args = .error e) (s : σ) :
    zspReply S command args s = (some (.frameError (Str.lit "ERR parse: " ++ e.toStr)), s) := by
  unfold zspReply
  rw [failed]
  rfl

end

theorem alike_ok : Alike okReply (some (.inlineString (Str.lit "OK"))) :=
  ⟨.inlineString (Str.lit "OK"), _, by decide, by decide, rfl, .item (.string _ rfl rfl)⟩

theorem alike_error (message : String)
    (clean : validUtf8 (bytesOf message) = true ∧ 13 ∉ bytesOf message ∧ 10 ∉ bytesOf message)
    (t : Str) : Alike (errorReply message) (some (.frameError t)) := by
  refine ⟨.frameError ⟨bytesOf message, clean.1⟩, _, rfl, ?_, rfl, .item (.error _ t)⟩
  simp [ZspFrame.all, unbroken, hasLineBreak, clean]

theorem alike_nil : Alike nilReply (some (.binaryString none)) :=
  ⟨.binaryString none, _, rfl, by decide, rfl, .item .nil⟩

theorem alike_bool (b : Bool) :
    Alike (boolReply b) (some (.integer (if b then 1 else 0))) := by
  refine ⟨.integer (if b then 1 else 0), _, ?_, rfl, rfl, .item (.integer _)⟩
  cases b <;> decide

theorem alike_line {b : Bytes} (word : IsWord b) :
    Alike (line 43 b) (some (.binaryString (some b))) := by
  obtain ⟨valid, cr, lf⟩ := word
  refine ⟨.inlineString ⟨b, valid⟩, _, rfl, ?_, rfl, .item (.string b rfl rfl)⟩
  simp [ZspFrame.all, unbroken, hasLineBreak, cr, lf]

theorem itemReply_eq_wire {value : Option Value} (word : ∀ b, value = some (.str b) → IsWord b) :
    itemReply (stringOf value) = wire (.binaryString (stringOf value)) := by
  rcases value with _ | v
  · rfl
  · cases v with
    | str b => rw [stringOf, itemReply, bulkReply, lossy_of_valid (word b rfl).1, wire, bulk]
    | _ => rfl

theorem flatMap_itemReply {values : List (Option Value)}
    (words : ∀ b, some (.str b) ∈ values → IsWord b) :
    (values.map stringOf).flatMap itemReply =
      ((values.map stringOf).map ZspFrame.binaryString).flatMap wire := by
  induction values with
  | nil => rfl
  | cons value values ih =>
      simp only [List.map_cons, List.flatMap_cons]
      rw [itemReply_eq_wire fun b same => words b (by simp [same]),
        ih fun b member => words b (List.mem_cons_of_mem _ member)]

theorem alike_array {values : List (Option Value)}
    (words : ∀ b, some (.str b) ∈ values → IsWord b)
    (strings : ∀ value ∈ values, value.all isStr = true) (unsupported : String) :
    Alike (arrayReply (values.map stringOf))
      (some (.array (values.map (valueFrame unsupported)))) := by
  refine ⟨.array ((values.map stringOf).map ZspFrame.binaryString), _, ?_, ?_, rfl, .list ?_⟩
  · rw [arrayReply, wire, wireItems_eq_flatMap, flatMap_itemReply words, List.length_map,
      List.length_map, List.length_map]
  · simp [ZspFrame.all, ZspFrame.allItems_iff, unbroken]
  · induction values with
    | nil => exact .nil
    | cons value values ih =>
        refine .cons ?_ (ih (fun b member => words b (List.mem_cons_of_mem _ member))
          (fun v member => strings v (List.mem_cons_of_mem _ member)))
        have one := strings value (by simp)
        rcases value with _ | v
        · exact .nil
        · cases v with
          | str b => exact .string b rfl rfl
          | _ => simp [isStr] at one

section

variable {γ : Type} (geo : GeoIndex γ)

/-- The values of a store are strings of one line and hash sets. -/
def PlainStore (s : InMemoryStore γ) : Prop :=
  ∀ key value, Assoc.get s.data key = some value → Plain value

theorem plainStore_set {s : InMemoryStore γ} (plain : PlainStore s) (key : Sds) (w : Word) :
    PlainStore (InMemoryStore.set key (.str w.bytes) s).2 := by
  intro key' value read
  simp only [InMemoryStore.set, Assoc.get_insert] at read
  split at read
  · cases read
    exact w.isWord
  · exact plain key' value read

theorem plainStore_del {s : InMemoryStore γ} (plain : PlainStore s) (key : Sds) :
    PlainStore (InMemoryStore.del key s).2 := by
  intro key' value read
  simp only [InMemoryStore.del, Assoc.get_erase] at read
  split at read
  · cases read
  · exact plain key' value read

theorem setEntries_words (words : List Word) {s : InMemoryStore γ} (plain : PlainStore s) :
    ∃ s', setEntries (InMemoryStore.storage geo) (entriesOf words) s = (.ok (), s') ∧
      PlainStore s' := by
  induction words using entriesOf.induct generalizing s with
  | case1 key value rest ih =>
      obtain ⟨s', ran, kept⟩ := ih (plainStore_set plain key.bytes value)
      refine ⟨s', ?_, kept⟩
      rw [entriesOf, setEntries]
      exact ran
  | case2 words short =>
      refine ⟨s, ?_, plain⟩
      rw [entriesOf]
      · rfl
      · exact short

/-- One command: both protocols leave one plain store, and their replies are alike. -/
def Agree (text : Bytes × InMemoryStore γ) (zsp : Option ZspFrame × InMemoryStore γ) : Prop :=
  text.2 = zsp.2 ∧ PlainStore text.2 ∧ Alike text.1 zsp.1

theorem agree_unknown {command : KeyCommand} {args : List Word} {e : ParseError}
    (failed : zspCommand command (args.map Word.frame) = .error e) {s : InMemoryStore γ}
    (plain : PlainStore s) :
    Agree (unknown s) (zspReply (InMemoryStore.storage geo) command (args.map Word.frame) s) := by
  rw [zspReply_error _ failed]
  exact ⟨rfl, plain, alike_error _ (by decide) _⟩

theorem agree_set (args : List Word) {s : InMemoryStore γ} (plain : PlainStore s) :
    Agree (setCommand (InMemoryStore.storage geo) (args.map Word.bytes) s)
      (zspReply (InMemoryStore.storage geo) .set (args.map Word.frame) s) := by
  rcases args with _ | ⟨key, _ | ⟨value, _ | ⟨more, rest⟩⟩⟩
  · exact agree_unknown geo rfl plain
  · exact agree_unknown geo rfl plain
  · have parsed : zspCommand .set ([key, value].map Word.frame) =
        .ok (.set (Word.str key) (.str value.bytes)) := by
      simp only [List.map_cons, List.map_nil, zspCommand, parseKeyValue, parseKey_word]
      rfl
    unfold zspReply
    rw [parsed]
    exact ⟨rfl, plainStore_set plain key.bytes value, alike_ok⟩
  · exact agree_unknown geo rfl plain

theorem agree_get (args : List Word) {s : InMemoryStore γ} (plain : PlainStore s) :
    Agree (getCommand (InMemoryStore.storage geo) (args.map Word.bytes) s)
      (zspReply (InMemoryStore.storage geo) .get (args.map Word.frame) s) := by
  rcases args with _ | ⟨key, _ | ⟨more, rest⟩⟩
  · exact agree_unknown geo rfl plain
  · have parsed : zspCommand .get ([key].map Word.frame) = .ok (.get (Word.str key)) := by
      simp only [List.map_cons, List.map_nil, zspCommand, parseOneKey, parseKey_word]
      rfl
    unfold zspReply
    rw [parsed]
    refine ⟨rfl, plain, ?_⟩
    show Alike (getReply (Assoc.get s.data key.bytes))
      (some (valueFrame "ERR Unsupported type" (Assoc.get s.data key.bytes)))
    cases found : Assoc.get s.data key.bytes with
    | none => exact alike_nil
    | some value =>
        have kind := plain key.bytes value found
        cases value with
        | str b =>
            have read : Str.fromUtf8 b = some ⟨b, kind.1⟩ := Str.fromUtf8_bytes ⟨b, kind.1⟩
            rw [getReply, read]
            exact alike_line kind
        | set members => exact alike_error _ (by decide) _
        | _ => cases kind
  · exact agree_unknown geo rfl plain

theorem agree_del (args : List Word) {s : InMemoryStore γ} (plain : PlainStore s) :
    Agree (delCommand (InMemoryStore.storage geo) (args.map Word.bytes) s)
      (zspReply (InMemoryStore.storage geo) .del (args.map Word.frame) s) := by
  rcases args with _ | ⟨key, _ | ⟨more, rest⟩⟩
  · exact agree_unknown geo rfl plain
  · have parsed : zspCommand .del ([key].map Word.frame) = .ok (.del (Word.str key)) := by
      simp only [List.map_cons, List.map_nil, zspCommand, parseOneKey, parseKey_word]
      rfl
    unfold zspReply
    rw [parsed]
    exact ⟨rfl, plainStore_del plain key.bytes, alike_bool _⟩
  · exact agree_unknown geo rfl plain

theorem agree_mset (args : List Word) {s : InMemoryStore γ} (plain : PlainStore s) :
    Agree (msetCommand (InMemoryStore.storage geo) (args.map Word.bytes) s)
      (zspReply (InMemoryStore.storage geo) .mset (args.map Word.frame) s) := by
  cases args with
  | nil => exact agree_unknown geo rfl plain
  | cons first rest =>
      by_cases even : (first :: rest).length % 2 = 0
      · have enough : ¬ (((first :: rest).map Word.frame).length < 2 ∨
            ((first :: rest).map Word.frame).length % 2 = 1) := by
          rw [List.length_map]
          simp only [List.length_cons] at even ⊢
          omega
        have parsed : zspCommand .mset ((first :: rest).map Word.frame) =
            .ok (.mset (entriesOf (first :: rest))) := by
          rw [zspCommand, if_neg enough, parsePairs_words]
          rfl
        obtain ⟨s', ran, kept⟩ := setEntries_words geo (first :: rest) plain
        have text : msetCommand (InMemoryStore.storage geo) ((first :: rest).map Word.bytes) s =
            (okReply, s') := by
          have pairs := (setPairs_entries (InMemoryStore.storage geo) _ even s).trans ran
          have count : ((first :: rest).map Word.bytes).length % 2 = 0 := by
            rw [List.length_map]
            exact even
          rw [List.map_cons] at count pairs ⊢
          simp only [msetCommand, if_pos count, answer, pairs]
        have zsp : zspReply (InMemoryStore.storage geo) .mset ((first :: rest).map Word.frame) s =
            (some (.inlineString (Str.lit "OK")), s') := by
          simp only [zspReply, parsed, parsedOf, Command.intoExecutable, executeStoreCommand, frameOf,
            ran]
        rw [text, zsp]
        exact ⟨rfl, kept, alike_ok⟩
      · have failed : zspCommand .mset ((first :: rest).map Word.frame) =
            .error .msetWrongArgCount := by
          rw [zspCommand, if_pos]
          rw [List.length_map]
          omega
        have text : msetCommand (InMemoryStore.storage geo) ((first :: rest).map Word.bytes) s =
            (errorReply "ERR Wrong number of arguments for MSET", s) := by
          have count : ¬ ((first :: rest).map Word.bytes).length % 2 = 0 := by
            rw [List.length_map]
            exact even
          rw [List.map_cons] at count ⊢
          simp only [msetCommand, if_neg count]
        rw [text, zspReply_error _ failed]
        exact ⟨rfl, plain, alike_error _ (by decide) _⟩

theorem agree_mget (args : List Word) {s : InMemoryStore γ} (plain : PlainStore s)
    (strings : ∀ w ∈ args, (Assoc.get s.data w.bytes).all isStr = true) :
    Agree (mgetCommand (InMemoryStore.storage geo) (args.map Word.bytes) s)
      (zspReply (InMemoryStore.storage geo) .mget (args.map Word.frame) s) := by
  cases args with
  | nil => exact agree_unknown geo rfl plain
  | cons first rest =>
      have parsed : zspCommand .mget ((first :: rest).map Word.frame) =
          .ok (.mget ((first :: rest).map Word.str)) := by
        rw [zspCommand, parseManyKeys, if_neg (by simp), mapM_parseKey]
        rfl
      have keys : ((first :: rest).map Word.str).map Str.bytes = (first :: rest).map Word.bytes := by
        rw [List.map_map]
        rfl
      have zsp : zspReply (InMemoryStore.storage geo) .mget ((first :: rest).map Word.frame) s =
          (some (.array ((((first :: rest).map Word.bytes).map (Assoc.get s.data)).map
            (valueFrame "ERR unsupported type"))), s) := by
        simp only [zspReply, parsed, parsedOf, Command.intoExecutable, executeStoreCommand, keys]
        rfl
      rw [zsp]
      refine ⟨rfl, plain, alike_array ?_ ?_ _⟩
      · intro b member
        obtain ⟨key, -, found⟩ := List.mem_map.mp member
        exact plain key _ found
      · intro value member
        rw [List.map_map] at member
        obtain ⟨w, asked, rfl⟩ := List.mem_map.mp member
        exact strings w asked

theorem agree_textCommand (command : KeyCommand) (args : List Word) {s : InMemoryStore γ}
    (plain : PlainStore s)
    (strings : command = .mget → ∀ w ∈ args, (Assoc.get s.data w.bytes).all isStr = true) :
    Agree (textCommand (InMemoryStore.storage geo) command (args.map Word.bytes) s)
      (zspReply (InMemoryStore.storage geo) command (args.map Word.frame) s) := by
  cases command with
  | set => exact agree_set geo args plain
  | get => exact agree_get geo args plain
  | del => exact agree_del geo args plain
  | mset => exact agree_mset geo args plain
  | mget => exact agree_mget geo args plain (strings rfl)

/-- The two stores are one, and so far the replies were alike. -/
structure InStep (s : Both γ) : Prop where
  same : s.text = s.zsp
  plain : PlainStore s.text
  alike : ∀ p ∈ s.replies, Alike p.1 p.2

theorem inStep_step {validJson : Str → Bool} (s : Both γ) (c : Spoken) (s' : Both γ)
    (start : InStep s) (strings : Strings s c) (done : Both.step geo validJson s c = some s') :
    InStep s' := by
  obtain ⟨same, kept, alike⟩ := agree_textCommand geo c.command c.args start.plain strings
  rw [← processCommand_spoken (InMemoryStore.storage geo) c] at same kept alike
  rw [← frameReply_spoken (InMemoryStore.storage geo) validJson c s.text, start.same] at same alike
  rw [start.same] at kept
  cases done
  rw [start.same]
  refine ⟨same, kept, ?_⟩
  intro p member
  rcases List.mem_append.mp member with old | new
  · exact start.alike p old
  · rw [List.mem_singleton.mp new]
    exact alike

theorem protocols_in_step (validJson : Str → Bool) (store : InMemoryStore γ)
    (plain : PlainStore store) (commands : List Spoken) (final : Both γ)
    (strings : Runs.Along (Both.step geo validJson) Strings ⟨store, store, []⟩ commands)
    (ran : Runs.run (Both.step geo validJson) ⟨store, store, []⟩ commands = some final) :
    final.text = final.zsp ∧ ∀ p ∈ final.replies, Alike p.1 p.2 := by
  have start : InStep (⟨store, store, []⟩ : Both γ) := ⟨rfl, plain, by simp⟩
  have reached := Runs.kept_run (inStep_step geo) start strings ran
  exact ⟨reached.same, reached.alike⟩

end

/-- A word of ASCII letters. -/
def word (s : String) (letters : validUtf8 (bytesOf s) = true ∧ bytesOf s ≠ [] ∧
    ∀ c ∈ chars (bytesOf s), isWhitespace c = false) : Word :=
  ⟨bytesOf s, letters.1, letters.2.1, letters.2.2⟩

def wordK : Word := word "k" (by decide)

/-- `SET k k`, then `MGET k x`. -/
def setAndMget : List Spoken :=
  [⟨.set, word "Set" (by decide), by decide, [wordK, wordK]⟩,
    ⟨.mget, word "mget" (by decide), by decide, [wordK, word "x" (by decide)]⟩]

/-- The key `k` holds a hash set. -/
def setAtK : InMemoryStore Unit := ⟨[(bytesOf "k", .set [bytesOf "a"])], (), fun _ => 0⟩

theorem plainStore_setAtK : PlainStore setAtK := by
  intro key value read
  unfold setAtK at read
  simp only [Assoc.get] at read
  split at read
  · cases read
    trivial
  · cases read

theorem protocols_in_step_overwritten :
    ((Runs.run (Both.step GeoIndex.empty fun _ => true) ⟨setAtK, setAtK, []⟩ setAndMget).map
        fun s => s.replies.map Prod.fst) =
      some [bytesOf "+OK\r\n", bytesOf "*2\r\n$1\r\nk\r\n$-1\r\n"] ∧
    ∀ final, Runs.run (Both.step GeoIndex.empty fun _ => true) ⟨setAtK, setAtK, []⟩ setAndMget =
      some final → final.text = final.zsp ∧ ∀ p ∈ final.replies, Alike p.1 p.2 := by
  refine ⟨by decide +kernel, fun final ran => ?_⟩
  exact protocols_in_step GeoIndex.empty _ setAtK plainStore_setAtK setAndMget final
    (by decide +kernel) ran

/-- `MGET` of a hash set is nil in the text protocol and an error in ZSP. -/
theorem protocols_differ :
    ¬ ∀ (validJson : Str → Bool) (store : InMemoryStore Unit), PlainStore store →
      ∀ (commands : List Spoken) (final : Both Unit),
        Runs.run (Both.step GeoIndex.empty validJson) ⟨store, store, []⟩ commands = some final →
          final.text = final.zsp ∧ ∀ p ∈ final.replies, Alike p.1 p.2 := by
  intro always
  have alike := (always (fun _ => true) setAtK plainStore_setAtK
    [⟨.mget, word "mget" (by decide), by decide, [wordK]⟩] _ rfl).2 _ (List.mem_singleton.mpr rfl)
  obtain ⟨said, frame, text, -, reply, same⟩ := alike
  have answered : frame = .array [.frameError (Str.lit "ERR unsupported type")] := by
    exact (Option.some.inj reply).symm
  subst answered
  cases same with
  | item same =>
      cases same with
      | string b left right => cases right
  | list same =>
      rename_i items
      obtain ⟨item, rest, first, others, rfl⟩ := List.forall₂_cons_right_iff.mp same
      cases others
      cases first with
      | error s t =>
          have reply_bytes : [42, 49, 13, 10, 36, 45, 49, 13, 10] =
              wire (.array [.frameError s]) := text
          rw [wire, wireItems, wireItems, wire, show renderNat _ = [49] from rfl] at reply_bytes
          have marker := congrArg (fun b => b[4]?) reply_bytes
          exact absurd marker (by simp [line, crlf])
      | string b left right => cases right

end Zumic.Server
