/- Users, rules and permissions (`auth/acl.rs`, `auth/manager.rs`). A text is its UTF-8 bytes. -/

import Zumic.Lib.Assoc
import Zumic.Lib.Utf8

namespace Zumic.Auth

open Lib Lib.ByteString Lib.Utf8

inductive AclError where
  | userNotFound
  | permissionDenied
  | invalidAclRule (text : Bytes)
  deriving DecidableEq

inductive PasswordError where
  | hash
  | verify
  deriving DecidableEq

inductive AuthError where
  | authenticationFailed
  | userNotFound
  | password (e : PasswordError)
  | acl (e : AclError)
  | userAlreadyExists
  | tooManyAttempts
  deriving DecidableEq

/-- How a call ends that does not return a value. -/
inductive Stop where
  | error (e : AclError)
  | panicked
  deriving DecidableEq

abbrev CmdCategory := BitVec 32

namespace CmdCategory

def read : CmdCategory := 1 <<< 0
def write : CmdCategory := 1 <<< 1
def admin : CmdCategory := 1 <<< 2

def contains (mask other : CmdCategory) : Bool := mask &&& other = other

def remove (mask other : CmdCategory) : CmdCategory := mask &&& ~~~other

end CmdCategory

/-- `COMMAND_INDEX`. -/
def commandIndex : List (Bytes × Nat) :=
  [(bytesOf "get", 0), (bytesOf "set", 1), (bytesOf "del", 2), (bytesOf "flushall", 3)]

inductive AclRule where
  | on
  | off
  | passwordHash (hash : Bytes)
  | allowCategory (c : CmdCategory)
  | denyCategory (c : CmdCategory)
  | allowCommand (idx : Nat)
  | denyCommand (idx : Nat)
  | allowKeyPattern (p : Bytes)
  | denyKeyPattern (p : Bytes)
  | allowChannelPattern (p : Bytes)
  | denyChannelPattern (p : Bytes)
  | noPass
  deriving DecidableEq

/-- The `globset` package: which patterns are globs, which lists of globs can be compiled, and
what a compiled list matches. -/
structure Globs where
  isGlob : Bytes → Bool
  builds : List Bytes → Bool
  isMatch : List Bytes → Bytes → Bool

/-- A glob is kept as its pattern, a compiled set as the patterns that it was compiled from. -/
structure AclUser where
  username : Bytes
  enabled : Bool
  passwordHashes : List Bytes
  allowedCategories : CmdCategory
  allowedCommands : BitVec 128
  deniedCommands : BitVec 128
  rawKeyPatterns : List Bytes
  rawDenyKeyPatterns : List Bytes
  rawChannelPatterns : List Bytes
  rawDenyChannelPatterns : List Bytes
  keyPatterns : List Bytes
  denyKeyPatterns : List Bytes
  channelPatterns : List Bytes
  denyChannelPatterns : List Bytes
  deriving DecidableEq

/-- A method on `&mut AclUser`: what an error leaves behind is kept. -/
abbrev UserM := AclUser → AclUser × Except AclError Unit

namespace UserM

def ok : UserM := fun u => (u, .ok ())

def andThen (first second : UserM) : UserM := fun u =>
  match first u with
  | (u, .ok ()) => second u
  | (u, .error e) => (u, .error e)

end UserM

def parseCategory (cat : Bytes) : CmdCategory :=
  if cat = bytesOf "read" then CmdCategory.read
  else if cat = bytesOf "write" then CmdCategory.write
  else if cat = bytesOf "admin" then CmdCategory.admin
  else 0

def lookupCmdIdx (cmd : Bytes) : Option Nat := Assoc.get commandIndex (cmd.map asciiLower)

/-- `str::split_at(1)`, which panics when a character does not end after the first byte. -/
def splitAtOne : Bytes → Option (UInt8 × Bytes)
  | [] => none
  | [b] => some (b, [])
  | b :: c :: rest => if 0x80 ≤ c ∧ c < 0xC0 then none else some (b, c :: rest)

def parseCommandRule (build : Nat → AclRule) (rest : Bytes) : Except Stop AclRule :=
  match lookupCmdIdx rest with
  | some idx => .ok (build idx)
  | none => .error (.error (.invalidAclRule rest))

def AclRule.fromStr (s : Bytes) : Except Stop AclRule :=
  if s = bytesOf "on" then .ok .on
  else if s = bytesOf "off" then .ok .off
  else if s = bytesOf "nopass" then .ok .noPass
  else
    match splitAtOne s with
    | none => .error .panicked
    | some (62, rest) => .ok (.passwordHash rest)
    | some (43, 64 :: rest) => .ok (.allowCategory (parseCategory rest))
    | some (43, rest) => parseCommandRule .allowCommand rest
    | some (45, 64 :: rest) => .ok (.denyCategory (parseCategory rest))
    | some (45, 126 :: rest) => .ok (.denyKeyPattern rest)
    | some (45, 38 :: rest) => .ok (.denyChannelPattern rest)
    | some (45, rest) => parseCommandRule .denyCommand rest
    | some (126, rest) => .ok (.allowKeyPattern rest)
    | some (38, rest) => .ok (.allowChannelPattern rest)
    | some _ => .error (.error (.invalidAclRule s))

def parseRules : List Bytes → Except Stop (List AclRule)
  | [] => .ok []
  | s :: rules =>
      match AclRule.fromStr s with
      | .error e => .error e
      | .ok rule =>
          match parseRules rules with
          | .error e => .error e
          | .ok parsed => .ok (rule :: parsed)

section

variable (globs : Globs)

def rebuildGlobset (patterns : List Bytes) : Except AclError (List Bytes) :=
  if globs.builds patterns then .ok patterns
  else .error (.invalidAclRule (bytesOf "globset build"))

/-- `self.set = Self::rebuild_globset(&self.raw)?`. -/
def rebuild (raw : AclUser → List Bytes) (store : AclUser → List Bytes → AclUser) : UserM :=
  fun u =>
    match rebuildGlobset globs (raw u) with
    | .ok set => (store u set, .ok ())
    | .error e => (u, .error e)

def rebuildKeys : UserM :=
  rebuild globs AclUser.rawKeyPatterns fun u set => { u with keyPatterns := set }

def rebuildDenyKeys : UserM :=
  rebuild globs AclUser.rawDenyKeyPatterns fun u set => { u with denyKeyPatterns := set }

def rebuildChannels : UserM :=
  rebuild globs AclUser.rawChannelPatterns fun u set => { u with channelPatterns := set }

def rebuildDenyChannels : UserM :=
  rebuild globs AclUser.rawDenyChannelPatterns fun u set => { u with denyChannelPatterns := set }

def rebuildAllPatterns : UserM := (rebuildKeys globs).andThen (rebuildChannels globs)

def rebuildAllDenyPatterns : UserM :=
  (rebuildDenyKeys globs).andThen (rebuildDenyChannels globs)

def AclUser.blank (username : Bytes) : AclUser where
  username := username
  enabled := true
  passwordHashes := []
  allowedCategories := CmdCategory.read ||| CmdCategory.write ||| CmdCategory.admin
  allowedCommands := 0
  deniedCommands := 0
  rawKeyPatterns := [bytesOf "*"]
  rawDenyKeyPatterns := []
  rawChannelPatterns := [bytesOf "*"]
  rawDenyChannelPatterns := []
  keyPatterns := []
  denyKeyPatterns := []
  channelPatterns := []
  denyChannelPatterns := []

def AclUser.new (username : Bytes) : Except AclError AclUser :=
  match (rebuildAllPatterns globs).andThen (rebuildAllDenyPatterns globs) (.blank username) with
  | (u, .ok ()) => .ok u
  | (_, .error e) => .error e

/-- Adds a glob to the raw patterns, then compiles that list anew. -/
def addPattern (add : AclUser → Bytes → AclUser) (compile : UserM) (pat : Bytes) : UserM :=
  fun u =>
    if globs.isGlob pat then compile (add u pat) else (u, .error (.invalidAclRule pat))

def allowKeyPattern : Bytes → UserM :=
  addPattern globs (fun u p => { u with rawKeyPatterns := u.rawKeyPatterns ++ [p] })
    (rebuildKeys globs)

def denyKeyPattern : Bytes → UserM :=
  addPattern globs (fun u p => { u with rawDenyKeyPatterns := u.rawDenyKeyPatterns ++ [p] })
    (rebuildDenyKeys globs)

def allowChannelPattern : Bytes → UserM :=
  addPattern globs (fun u p => { u with rawChannelPatterns := u.rawChannelPatterns ++ [p] })
    (rebuildChannels globs)

def denyChannelPattern : Bytes → UserM :=
  addPattern globs (fun u p => { u with rawDenyChannelPatterns := u.rawDenyChannelPatterns ++ [p] })
    (rebuildDenyChannels globs)

/-- Everything but the name; the results of the two rebuilds are dropped. -/
def AclUser.resetRules (u : AclUser) : AclUser :=
  let cleared : AclUser :=
    { u with
      enabled := false
      passwordHashes := []
      allowedCategories := 0
      allowedCommands := 0
      deniedCommands := 0
      rawKeyPatterns := []
      rawDenyKeyPatterns := []
      rawChannelPatterns := []
      rawDenyChannelPatterns := [] }
  (rebuildAllDenyPatterns globs (rebuildAllPatterns globs cleared).1).1

def commandBit (idx : Nat) : BitVec 128 := 1 <<< idx

def applyRule : AclRule → UserM
  | .on => fun u => UserM.ok { u with enabled := true }
  | .off => fun u => UserM.ok { u with enabled := false }
  | .passwordHash h => fun u => UserM.ok { u with passwordHashes := u.passwordHashes ++ [h] }
  | .allowCategory c => fun u =>
      UserM.ok { u with allowedCategories := u.allowedCategories ||| c }
  | .denyCategory c => fun u =>
      UserM.ok { u with allowedCategories := CmdCategory.remove u.allowedCategories c }
  | .allowCommand i => fun u =>
      UserM.ok { u with allowedCommands := u.allowedCommands ||| commandBit i }
  | .denyCommand i => fun u =>
      UserM.ok { u with deniedCommands := u.deniedCommands ||| commandBit i }
  | .allowKeyPattern p => allowKeyPattern globs p
  | .denyKeyPattern p => denyKeyPattern globs p
  | .allowChannelPattern p => allowChannelPattern globs p
  | .denyChannelPattern p => denyChannelPattern globs p
  | .noPass => UserM.ok

def applyRules : List AclRule → UserM
  | [] => UserM.ok
  | rule :: rules => (applyRule globs rule).andThen (applyRules rules)

def AclUser.checkIdx (u : AclUser) (category : CmdCategory) (cmdIdx : Option Nat) : Bool :=
  if !u.enabled then false
  else
    match cmdIdx with
    | some idx =>
        if u.deniedCommands &&& commandBit idx ≠ 0 then false
        else if CmdCategory.contains u.allowedCategories category then true
        else u.allowedCommands &&& commandBit idx ≠ 0
    | none => CmdCategory.contains u.allowedCategories category

/-- `check_key` and `check_channel`, on the compiled sets of either. -/
def AclUser.checkPatterns (allow deny : AclUser → List Bytes) (u : AclUser) (text : Bytes) : Bool :=
  if !u.enabled then false
  else if globs.isMatch (deny u) text then false
  else if (allow u).isEmpty then true
  else globs.isMatch (allow u) text

def AclUser.checkKey : AclUser → Bytes → Bool :=
  AclUser.checkPatterns globs AclUser.keyPatterns AclUser.denyKeyPatterns

def AclUser.checkChannel : AclUser → Bytes → Bool :=
  AclUser.checkPatterns globs AclUser.channelPatterns AclUser.denyChannelPatterns

structure Acl where
  users : List (Bytes × AclUser)

namespace Acl

def empty : Acl := ⟨[]⟩

def aclGetuser (acl : Acl) (username : Bytes) : Option AclUser := Assoc.get acl.users username

/-- `entry(username).or_insert_with(..)`; the new user is unwrapped. -/
def getOrCreate (acl : Acl) (username : Bytes) : Except Stop AclUser :=
  match acl.aclGetuser username with
  | some u => .ok u
  | none =>
      match AclUser.new globs username with
      | .ok u => .ok u
      | .error _ => .error .panicked

def aclSetuser (acl : Acl) (username : Bytes) (rules : List Bytes) : Acl × Except Stop Unit :=
  match parseRules rules with
  | .error e => (acl, .error e)
  | .ok parsed =>
      match acl.getOrCreate globs username with
      | .error e => (acl, .error e)
      | .ok found =>
          let set := (applyRules globs parsed).andThen
            ((rebuildAllPatterns globs).andThen (rebuildAllDenyPatterns globs))
          match set (found.resetRules globs) with
          | (u, .ok ()) => (⟨Assoc.insert acl.users username u⟩, .ok ())
          | (u, .error e) => (⟨Assoc.insert acl.users username u⟩, .error (.error e))

/-- `AuthManager::authorize_command`, on the manager's user table. -/
def authorizeCommand (acl : Acl) (username category command : Bytes) : Except AuthError Unit :=
  match acl.aclGetuser username with
  | none => .error .userNotFound
  | some u =>
      if u.checkIdx (parseCategory category) (lookupCmdIdx command) then .ok ()
      else .error (.acl .permissionDenied)

end Acl

end

end Zumic.Auth
