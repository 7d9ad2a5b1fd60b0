/- Passwords, users from the configuration and authentication (`auth/manager.rs`,
`auth/password.rs`, `auth/config.rs`). -/

import Zumic.Auth.Acl

namespace Zumic.Auth

open Lib Lib.ByteString

/-- The `argon2` package. `verify` gives nothing for a text that is not a password hash. -/
structure Argon2 where
  hash : (salt : Bytes) → (password : Bytes) → Option Bytes
  verify : (hash : Bytes) → (password : Bytes) → Option Bool

section

variable (argon2 : Argon2)

def hashPassword (salt password : Bytes) (pepper : Option Bytes) : Except PasswordError Bytes :=
  match argon2.hash salt (password ++ pepper.getD []) with
  | some hash => .ok hash
  | none => .error .hash

def verifyPassword (hash password : Bytes) (pepper : Option Bytes) : Except PasswordError Bool :=
  match argon2.verify hash (password ++ pepper.getD []) with
  | some verified => .ok verified
  | none => .error .verify

/-- The closure of `authenticate`: a hash that cannot be read counts as not verified. -/
def verifiesAny (hashes : List Bytes) (password : Bytes) (pepper : Option Bytes) : Bool :=
  hashes.any fun hash =>
    match verifyPassword argon2 hash password pepper with
    | .ok verified => verified
    | .error _ => false

end

structure UserConfig where
  username : Bytes
  enabled : Bool
  nopass : Bool
  password : Option Bytes
  keys : List Bytes
  permissions : List Bytes

structure ServerConfig where
  requirepass : Option Bytes
  authPepper : Option Bytes
  users : List UserConfig

def maxFails : UInt8 := 5

/-- In nanoseconds, as the readings of the clock. -/
def blockDuration : Nat := 60 * 1000000000

/-- Failed attempts by user: their number and the time of the first. -/
abbrev Failures := List (Bytes × UInt8 × Nat)

structure AuthManager where
  acl : Acl
  pepper : Option Bytes
  failures : Failures

inductive Halt where
  | error (e : AuthError)
  | panicked
  deriving DecidableEq

def Stop.halt : Stop → Halt
  | .error e => .error (.acl e)
  | .panicked => .panicked

/-- The readings of the clock in one call: the two of the check and the one of the record. -/
structure Readings where
  blocked : Nat
  expired : Nat
  failed : Nat

/-- The first section on the failures; `true` when the user is blocked. -/
def checkFailures (failures : Failures) (username : Bytes) (times : Readings) : Failures × Bool :=
  match Assoc.get failures username with
  | none => (failures, false)
  | some (count, ts) =>
      if maxFails ≤ count ∧ times.blocked - ts < blockDuration then (failures, true)
      else if blockDuration ≤ times.expired - ts then (Assoc.erase failures username, false)
      else (failures, false)

/-- The second section on the failures. -/
def recordAttempt (failures : Failures) (username : Bytes) (times : Readings) :
    Bool → Failures × Except AuthError Unit
  | true => (Assoc.erase failures username, .ok ())
  | false =>
      let entry := (Assoc.get failures username).getD (0, times.failed)
      (Assoc.insert failures username (entry.1 + 1, entry.2), .error .authenticationFailed)

namespace AuthManager

variable (globs : Globs) (argon2 : Argon2)

def aclSetuser (m : AuthManager) (username : Bytes) (rules : List Bytes) :
    AuthManager × Except Halt Unit :=
  match m.acl.aclSetuser globs username rules with
  | (acl, .ok ()) => ({ m with acl := acl }, .ok ())
  | (acl, .error e) => ({ m with acl := acl }, .error e.halt)

def hashRule (hash : Bytes) : Bytes := bytesOf ">" ++ hash

def createUser (m : AuthManager) (salt username password : Bytes) (permissions : List Bytes) :
    AuthManager × Except Halt Unit :=
  match hashPassword argon2 salt password m.pepper with
  | .error e => (m, .error (.error (.password e)))
  | .ok hash =>
      if (m.acl.aclGetuser username).isSome then (m, .error (.error .userAlreadyExists))
      else m.aclSetuser globs username ([hashRule hash, bytesOf "on"] ++ permissions)

/-- Between the two sections: the user, and whether the password lets in. -/
def verify (m : AuthManager) (username password : Bytes) : Except AuthError Bool :=
  match m.acl.aclGetuser username with
  | none => .error .userNotFound
  | some user =>
      if user.passwordHashes.isEmpty then .ok true
      else .ok (verifiesAny argon2 user.passwordHashes password m.pepper)

def authenticate (m : AuthManager) (username password : Bytes) (times : Readings) :
    AuthManager × Except AuthError Unit :=
  match checkFailures m.failures username times with
  | (failures, true) => ({ m with failures := failures }, .error .tooManyAttempts)
  | (failures, false) =>
      match m.verify argon2 username password with
      | .error e => ({ m with failures := failures }, .error e)
      | .ok ok =>
          match recordAttempt failures username times ok with
          | (failures, result) => ({ m with failures := failures }, result)

/-- The hash rule of a user from the configuration, if it has a password. -/
def configHash (pepper : Option Bytes) (salt : Bytes) (user : UserConfig) :
    Except PasswordError (List Bytes) :=
  if user.nopass then .ok []
  else
    match user.password with
    | none => .ok []
    | some pass =>
        match hashPassword argon2 salt pass pepper with
        | .error e => .error e
        | .ok hash => .ok [hashRule hash]

def configRules (hashRules : List Bytes) (user : UserConfig) : List Bytes :=
  hashRules ++ [if user.enabled then bytesOf "on" else bytesOf "off"] ++
    (if user.nopass then [bytesOf "nopass"] else []) ++ user.keys ++ user.permissions

/-- The loop over the users of the configuration; each one has a salt of its own. -/
def addUsers (pepper : Option Bytes) : List (UserConfig × Bytes) → Acl → Except Halt Acl
  | [], acl => .ok acl
  | (user, salt) :: users, acl =>
      match configHash argon2 pepper salt user with
      | .error e => .error (.error (.password e))
      | .ok hashRules =>
          match acl.aclSetuser globs user.username (configRules hashRules user) with
          | (_, .error e) => .error e.halt
          | (acl, .ok ()) => addUsers pepper users acl

def defaultRules (hash : Bytes) : List Bytes :=
  [hashRule hash, bytesOf "on", bytesOf "~*", bytesOf "+@all"]

/-- The global password. Both branches of the source make the same call. -/
def addDefault (pepper : Option Bytes) (salt : Bytes) (requirepass : Option Bytes) (acl : Acl) :
    Except Halt Acl :=
  match requirepass with
  | none => .ok acl
  | some pass =>
      match hashPassword argon2 salt pass pepper with
      | .error e => .error (.error (.password e))
      | .ok hash =>
          match acl.aclSetuser globs (bytesOf "default") (defaultRules hash) with
          | (_, .error e) => .error e.halt
          | (acl, .ok ()) => .ok acl

/-- The salts are those that the calls of `hash_password` draw: one for the global password, then
one for each user. -/
def fromConfig (salts : Nat → Bytes) (config : ServerConfig) : Except Halt AuthManager :=
  match addDefault globs argon2 config.authPepper (salts 0) config.requirepass Acl.empty with
  | .error e => .error e
  | .ok acl =>
      let users := config.users.mapIdx fun i user => (user, salts (i + 1))
      match addUsers globs argon2 config.authPepper users acl with
      | .error e => .error e
      | .ok acl => .ok { acl := acl, pepper := config.authPepper, failures := [] }

end AuthManager

/-- An `argon2` whose hash of a password shows the password. -/
def openArgon2 : Argon2 where
  hash salt password := some (36 :: salt ++ [36] ++ password)
  verify hash password := some ((36 :: password).isSuffixOf hash)

end Zumic.Auth
