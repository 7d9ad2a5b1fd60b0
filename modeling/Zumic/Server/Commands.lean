/- The commands of the text protocol (`process_command` in `connection.rs`). -/

import Zumic.Engine.Storage
import Zumic.Zsp.Frame

namespace Zumic.Server

open Database Engine Lib Lib.ByteString Lib.Decimal Lib.Utf8 Zsp

def okReply : Bytes := line 43 (bytesOf "OK")

def errorReply (message : String) : Bytes := line 45 (bytesOf message)

def failedReply (command : String) : Bytes := errorReply ("ERR " ++ command ++ " failed")

def unknownReply : Bytes := errorReply "ERR Unknown command"

def countReply (n : Nat) : Bytes := line 58 (renderNat n)

def boolReply (b : Bool) : Bytes := countReply (if b then 1 else 0)

def nilReply : Bytes := line 36 (bytesOf "-1")

/-- A string after the length of its bytes. Bytes that are not UTF-8 are replaced in the body but
counted in the length. -/
def bulkReply (b : Bytes) : Bytes := line 36 (renderNat b.length) ++ lossy b ++ crlf

def itemReply : Option Bytes → Bytes
  | some b => bulkReply b
  | none => nilReply

def arrayReply (items : List (Option Bytes)) : Bytes :=
  line 42 (renderNat items.length) ++ items.flatMap itemReply

/-- Text after its own length, as coordinates and names of members are written. -/
def textReply (b : Bytes) : Bytes := bulk b

def pointReply (p : GeoPoint) : Bytes :=
  line 42 (renderNat 2) ++ textReply p.lon.display ++ textReply p.lat.display

/-- The reply to a request for members: one of them, or an array. -/
def membersReply (single : Bool) (members : List Sds) : Bytes :=
  if single then
    match members with
    | [] => nilReply
    | b :: _ => bulkReply b
  else arrayReply (members.map some)

section

variable {σ : Type} (S : Storage σ)

/-- A reply and the store after it. -/
abbrev Reply (σ : Type) := σ → Bytes × σ

/-- The reply to a call that changes the store. -/
def answer {α : Type} (command : String) (call : StoreM σ α) (reply : α → Bytes) : Reply σ := fun s =>
  match call s with
  | (.ok a, s) => (reply a, s)
  | (.error _, s) => (failedReply command, s)

/-- The reply to a call that reads the store. -/
def answerRead {α : Type} (command : String) (call : StoreRead σ α) (reply : α → Bytes) : Reply σ :=
  fun s =>
    match call s with
    | .ok a => (reply a, s)
    | .error _ => (failedReply command, s)

def unknown : Reply σ := fun s => (unknownReply, s)

def pingCommand : List Bytes → Reply σ
  | [] => fun s => (line 43 (bytesOf "PONG"), s)
  | word :: _ => fun s => (line 43 word, s)

def setCommand : List Bytes → Reply σ
  | [key, value] => answer "SET" (S.set key (.str value)) fun _ => okReply
  | _ => unknown

def getReply : Option Value → Bytes
  | some (.str b) =>
      match Str.fromUtf8 b with
      | some text => line 43 text.bytes
      | none => errorReply "ERR Invalid UTF-8"
  | some _ => errorReply "ERR Unsupported type"
  | none => nilReply

def getCommand : List Bytes → Reply σ
  | [key] => answerRead "GET" (S.get key) getReply
  | _ => unknown

def delCommand : List Bytes → Reply σ
  | [key] => answer "DEL" (S.del key) boolReply
  | _ => unknown

/-- Sets pair after pair, up to the first that fails. -/
def setPairs : List Bytes → StoreM σ Unit
  | key :: value :: rest => fun s =>
      match S.set key (.str value) s with
      | (.ok _, s) => setPairs rest s
      | (.error e, s) => (.error e, s)
  | _ => fun s => (.ok (), s)

def msetCommand : List Bytes → Reply σ
  | [] => unknown
  | args =>
      if args.length % 2 = 0 then answer "MSET" (setPairs S args) fun _ => okReply
      else fun s => (errorReply "ERR Wrong number of arguments for MSET", s)

/-- The string of a value that is one. -/
def stringOf : Option Value → Option Bytes
  | some (.str b) => some b
  | _ => none

def mgetCommand : List Bytes → Reply σ
  | [] => unknown
  | keys => answerRead "MGET" (S.mget keys) fun values => arrayReply (values.map stringOf)

def parseFloatOr (b : Bytes) : F64 := (F64.parse b).getD (F64.ofInt 0)

def geoaddCommand : List Bytes → Reply σ
  | [key, lon, lat, member] =>
      answer "GEOADD" (S.geoAdd key (parseFloatOr lon) (parseFloatOr lat) member) boolReply
  | _ => unknown

def geoposCommand : List Bytes → Reply σ
  | [key, member] => answerRead "GEOPOS" (S.geoPos key member) fun point =>
      match point with
      | some p => pointReply p
      | none => nilReply
  | _ => unknown

/-- An optional argument that names a unit. -/
def unitOf (fallback : String) (arg : Option Bytes) : Str :=
  (arg.bind Str.fromUtf8).getD (Str.lit fallback)

def geodistReply : Option F64 → Bytes
  | some d => line 43 d.display
  | none => nilReply

def geodistCommand : List Bytes → Reply σ
  | [key, first, second] =>
      answerRead "GEODIST" (S.geoDist key first second (unitOf "m" none)) geodistReply
  | [key, first, second, unit] =>
      answerRead "GEODIST" (S.geoDist key first second (unitOf "m" (some unit))) geodistReply
  | _ => unknown

def georadiusReply (results : List (Str × F64 × GeoPoint)) : Bytes :=
  line 42 (renderNat results.length) ++ results.flatMap fun r =>
    line 42 (renderNat 3) ++ textReply r.1.bytes ++ line 43 r.2.1.display ++ pointReply r.2.2

def georadiusCommand : List Bytes → Reply σ
  | key :: lon :: lat :: radius :: rest =>
      answer "GEORADIUS" (S.geoRadius key (parseFloatOr lon) (parseFloatOr lat)
        (parseFloatOr radius) (unitOf "km" rest.head?)) georadiusReply
  | _ => unknown

def saddCommand : List Bytes → Reply σ
  | key :: first :: rest => answer "SADD" (S.sadd key (first :: rest)) countReply
  | _ => unknown

def smembersCommand : List Bytes → Reply σ
  | [key] => answerRead "SMEMBERS" (S.smembers key) fun members => arrayReply (members.map some)
  | _ => unknown

def scardCommand : List Bytes → Reply σ
  | [key] => answerRead "SCARD" (S.scard key) countReply
  | _ => unknown

def sismemberCommand : List Bytes → Reply σ
  | [key, member] => answerRead "SISMEMBER" (S.sismember key member) boolReply
  | _ => unknown

def sremCommand : List Bytes → Reply σ
  | key :: first :: rest => answer "SREM" (S.srem key (first :: rest)) countReply
  | _ => unknown

/-- The count of a request for members; one that cannot be read counts as one. -/
def countArg (arg : Option Bytes) : Int64 := (arg.bind readI64).getD 1

def srandmemberCommand : List Bytes → Reply σ
  | [key] => answer "SRANDMEMBER" (S.srandmember key 1) (membersReply true)
  | [key, count] =>
      answer "SRANDMEMBER" (S.srandmember key (countArg (some count)))
        (membersReply (countArg (some count) = 1))
  | _ => unknown

def spopCommand : List Bytes → Reply σ
  | [key] => answer "SPOP" (S.spop key 1) (membersReply true)
  | [key, count] =>
      answer "SPOP" (S.spop key (countArg (some count)))
        (membersReply (countArg (some count) = 1))
  | _ => unknown

/-- The command of a name in upper case. -/
def runCommand (name : Bytes) (args : List Bytes) : Reply σ :=
  if name = bytesOf "PING" then pingCommand args
  else if name = bytesOf "QUIT" then fun s => (okReply, s)
  else if name = bytesOf "SET" then setCommand S args
  else if name = bytesOf "GET" then getCommand S args
  else if name = bytesOf "DEL" then delCommand S args
  else if name = bytesOf "MSET" then msetCommand S args
  else if name = bytesOf "MGET" then mgetCommand S args
  else if name = bytesOf "GEOADD" then geoaddCommand S args
  else if name = bytesOf "GEOPOS" then geoposCommand S args
  else if name = bytesOf "GEODIST" then geodistCommand S args
  else if name = bytesOf "GEORADIUS" then georadiusCommand S args
  else if name = bytesOf "SADD" then saddCommand S args
  else if name = bytesOf "SMEMBERS" then smembersCommand S args
  else if name = bytesOf "SCARD" then scardCommand S args
  else if name = bytesOf "SISMEMBER" then sismemberCommand S args
  else if name = bytesOf "SREM" then sremCommand S args
  else if name = bytesOf "SRANDMEMBER" then srandmemberCommand S args
  else if name = bytesOf "SPOP" then spopCommand S args
  else unknown

/-- The reply to a line; a blank one has none. -/
def processCommand (text : Str) : Reply σ :=
  match splitWhitespace text.bytes with
  | [] => fun s => ([], s)
  | name :: args => runCommand S (upper name) args

variable {S}

theorem line_ne_nil (marker : UInt8) (text : Bytes) : line marker text ≠ [] := by
  simp [line]

/-- A reply that is never empty. -/
private def Speaks (r : Reply σ) : Prop := ∀ s, (r s).1 ≠ []

theorem Speaks.ite {p : Prop} [Decidable p] {x y : Reply σ} (first : Speaks x)
    (second : Speaks y) : Speaks (if p then x else y) := by
  split
  · exact first
  · exact second

theorem speaks_unknown : Speaks (unknown : Reply σ) := fun _ => line_ne_nil _ _

theorem speaks_answer {α : Type} {command : String} {call : StoreM σ α} {reply : α → Bytes}
    (each : ∀ a, reply a ≠ []) : Speaks (answer command call reply) := by
  intro s
  unfold answer
  split
  · exact each _
  · exact line_ne_nil _ _

theorem speaks_answerRead {α : Type} {command : String} {call : StoreRead σ α}
    {reply : α → Bytes} (each : ∀ a, reply a ≠ []) : Speaks (answerRead command call reply) := by
  intro s
  unfold answerRead
  split
  · exact each _
  · exact line_ne_nil _ _

theorem countReply_ne_nil (n : Nat) : countReply n ≠ [] := line_ne_nil _ _

theorem boolReply_ne_nil (b : Bool) : boolReply b ≠ [] := line_ne_nil _ _

theorem arrayReply_ne_nil (items : List (Option Bytes)) : arrayReply items ≠ [] := by
  simp [arrayReply, line]

theorem membersReply_ne_nil (single : Bool) (members : List Sds) :
    membersReply single members ≠ [] := by
  unfold membersReply
  split
  · split
    · exact line_ne_nil _ _
    · simp [bulkReply, line]
  · exact arrayReply_ne_nil _

theorem getReply_ne_nil (value : Option Value) : getReply value ≠ [] := by
  unfold getReply
  split
  · split <;> exact line_ne_nil _ _
  · exact line_ne_nil _ _
  · exact line_ne_nil _ _

theorem geodistReply_ne_nil (distance : Option F64) : geodistReply distance ≠ [] := by
  cases distance <;> exact line_ne_nil _ _

theorem speaks_ping (args : List Bytes) : Speaks (pingCommand args : Reply σ) := by
  unfold pingCommand
  split <;> exact fun _ => line_ne_nil _ _

theorem speaks_set (args : List Bytes) : Speaks (setCommand S args) := by
  unfold setCommand
  split
  · exact speaks_answer fun _ => line_ne_nil _ _
  · exact speaks_unknown

theorem speaks_get (args : List Bytes) : Speaks (getCommand S args) := by
  unfold getCommand
  split
  · exact speaks_answerRead getReply_ne_nil
  · exact speaks_unknown

theorem speaks_del (args : List Bytes) : Speaks (delCommand S args) := by
  unfold delCommand
  split
  · exact speaks_answer boolReply_ne_nil
  · exact speaks_unknown

theorem speaks_mset (args : List Bytes) : Speaks (msetCommand S args) := by
  unfold msetCommand
  split
  · exact speaks_unknown
  · exact (speaks_answer fun _ => line_ne_nil _ _).ite fun _ => line_ne_nil _ _

theorem speaks_mget (args : List Bytes) : Speaks (mgetCommand S args) := by
  unfold mgetCommand
  split
  · exact speaks_unknown
  · exact speaks_answerRead fun _ => arrayReply_ne_nil _

theorem speaks_geoadd (args : List Bytes) : Speaks (geoaddCommand S args) := by
  unfold geoaddCommand
  split
  · exact speaks_answer boolReply_ne_nil
  · exact speaks_unknown

theorem speaks_geopos (args : List Bytes) : Speaks (geoposCommand S args) := by
  unfold geoposCommand
  split
  · refine speaks_answerRead fun point => ?_
    cases point with
    | none => exact line_ne_nil _ _
    | some p => simp [pointReply, line]
  · exact speaks_unknown

theorem speaks_geodist (args : List Bytes) : Speaks (geodistCommand S args) := by
  unfold geodistCommand
  split
  · exact speaks_answerRead geodistReply_ne_nil
  · exact speaks_answerRead geodistReply_ne_nil
  · exact speaks_unknown

theorem speaks_georadius (args : List Bytes) : Speaks (georadiusCommand S args) := by
  unfold georadiusCommand
  split
  · exact speaks_answer fun _ => by simp [georadiusReply, line]
  · exact speaks_unknown

theorem speaks_sadd (args : List Bytes) : Speaks (saddCommand S args) := by
  unfold saddCommand
  split
  · exact speaks_answer countReply_ne_nil
  · exact speaks_unknown

theorem speaks_smembers (args : List Bytes) : Speaks (smembersCommand S args) := by
  unfold smembersCommand
  split
  · exact speaks_answerRead fun _ => arrayReply_ne_nil _
  · exact speaks_unknown

theorem speaks_scard (args : List Bytes) : Speaks (scardCommand S args) := by
  unfold scardCommand
  split
  · exact speaks_answerRead countReply_ne_nil
  · exact speaks_unknown

theorem speaks_sismember (args : List Bytes) : Speaks (sismemberCommand S args) := by
  unfold sismemberCommand
  split
  · exact speaks_answerRead boolReply_ne_nil
  · exact speaks_unknown

theorem speaks_srem (args : List Bytes) : Speaks (sremCommand S args) := by
  unfold sremCommand
  split
  · exact speaks_answer countReply_ne_nil
  · exact speaks_unknown

theorem speaks_srandmember (args : List Bytes) : Speaks (srandmemberCommand S args) := by
  unfold srandmemberCommand
  split
  · exact speaks_answer (membersReply_ne_nil _)
  · exact speaks_answer (membersReply_ne_nil _)
  · exact speaks_unknown

theorem speaks_spop (args : List Bytes) : Speaks (spopCommand S args) := by
  unfold spopCommand
  split
  · exact speaks_answer (membersReply_ne_nil _)
  · exact speaks_answer (membersReply_ne_nil _)
  · exact speaks_unknown

theorem runCommand_ne_nil (name : Bytes) (args : List Bytes) (s : σ) :
    (runCommand S name args s).1 ≠ [] := by
  have quit : Speaks (fun s : σ => (okReply, s)) := fun _ => line_ne_nil _ _
  have spoken : Speaks (runCommand S name args) := by
    unfold runCommand
    refine (speaks_ping args).ite (quit.ite ?_)
    refine (speaks_set args).ite ((speaks_get args).ite ((speaks_del args).ite ?_))
    refine (speaks_mset args).ite ((speaks_mget args).ite ?_)
    refine (speaks_geoadd args).ite ((speaks_geopos args).ite ?_)
    refine (speaks_geodist args).ite ((speaks_georadius args).ite ?_)
    refine (speaks_sadd args).ite ((speaks_smembers args).ite ((speaks_scard args).ite ?_))
    refine (speaks_sismember args).ite ((speaks_srem args).ite ?_)
    exact (speaks_srandmember args).ite ((speaks_spop args).ite speaks_unknown)
  exact spoken s

end

end Zumic.Server
