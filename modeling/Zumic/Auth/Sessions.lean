/- Signed tokens and their revocation (`auth/tokens.rs`), and sessions with their storage
(`auth/session/data.rs`, `auth/session/manager.rs`, `SessionStorage for InMemoryStore` in
`engine/memory.rs`). -/

import Mathlib.Data.List.Sort
import Zumic.Lib.Assoc
import Zumic.Lib.ByteString

namespace Zumic.Auth

open Lib Lib.ByteString

structure TokenClaims where
  jti : Bytes
  sub : Bytes
  permissions : Bytes
  iat : Nat
  exp : Nat
  tokenType : Bytes
  deriving DecidableEq

/-- The `jwt` package with the key of the manager. -/
structure Jwt where
  sign : TokenClaims → Option Bytes
  verify : Bytes → Option TokenClaims

/-- A signed token verifies as what was signed. -/
def Jwt.Correct (jwt : Jwt) : Prop :=
  ∀ claims token, jwt.sign claims = some token → jwt.verify token = some claims

/-- The errors of `tokens.rs`, with the reasons that it gives. -/
inductive TokenError where
  | invalidToken (reason : Bytes)
  | signingFailed (reason : Bytes)
  | revoked (reason : Bytes)
  deriving DecidableEq

structure TokenConfig where
  accessTokenTtl : Nat
  refreshTokenTtl : Nat

structure TokenPair where
  accessToken : Bytes
  refreshToken : Bytes
  expiresIn : Nat

/-- Times are seconds since the epoch; a revoked `jti` is kept with an expiry. -/
structure TokenManager where
  config : TokenConfig
  revokedTokens : List (Bytes × Nat)

namespace TokenManager

def new (config : TokenConfig) : TokenManager := ⟨config, []⟩

/-- The claims of one token of a pair; the sum is a `u64`. -/
def claims (jti username : Bytes) (permissions : List Bytes) (now ttl : Nat) (tokenType : Bytes) :
    TokenClaims where
  jti := jti
  sub := username
  permissions := List.intercalate (bytesOf ",") permissions
  iat := now
  exp := (now + ttl) % 2 ^ 64
  tokenType := tokenType

def accessClaims (m : TokenManager) (jti username : Bytes) (permissions : List Bytes) (now : Nat) :
    TokenClaims :=
  claims jti username permissions now m.config.accessTokenTtl (bytesOf "access")

def refreshClaims (m : TokenManager) (jti username : Bytes) (permissions : List Bytes) (now : Nat) :
    TokenClaims :=
  claims jti username permissions now m.config.refreshTokenTtl (bytesOf "refresh")

/-- The two identifiers are those that `Uuid::new_v4` draws. -/
def generateTokenPair (m : TokenManager) (jwt : Jwt) (now : Nat) (accessJti refreshJti : Bytes)
    (username : Bytes) (permissions : List Bytes) : Except TokenError TokenPair :=
  match jwt.sign (m.accessClaims accessJti username permissions now) with
  | none => .error (.signingFailed (bytesOf "sdsd"))
  | some accessToken =>
      match jwt.sign (m.refreshClaims refreshJti username permissions now) with
      | none => .error (.signingFailed (bytesOf "sdsd"))
      | some refreshToken => .ok ⟨accessToken, refreshToken, m.config.accessTokenTtl⟩

def isRevoked (m : TokenManager) (jti : Bytes) : Bool := (Assoc.get m.revokedTokens jti).isSome

def verifyToken (m : TokenManager) (jwt : Jwt) (now : Nat) (token : Bytes) :
    Except TokenError TokenClaims :=
  match jwt.verify token with
  | none => .error (.invalidToken (bytesOf "sd"))
  | some claims =>
      if claims.exp < now then .error (.invalidToken (bytesOf "asd"))
      else if m.isRevoked claims.jti then .error (.revoked (bytesOf "df"))
      else .ok claims

def revokeToken (m : TokenManager) (jti : Bytes) (exp : Nat) : TokenManager :=
  { m with revokedTokens := Assoc.insert m.revokedTokens jti exp }

def revokeTokenClaims (m : TokenManager) (jwt : Jwt) (now : Nat) (token : Bytes) :
    TokenManager × Except TokenError Unit :=
  match m.verifyToken jwt now token with
  | .error e => (m, .error e)
  | .ok claims => (m.revokeToken claims.jti claims.exp, .ok ())

/-- Keeps what expires later than now, and counts the others. -/
def cleanupExpired (m : TokenManager) (now : Nat) : TokenManager × Nat :=
  ({ m with revokedTokens := m.revokedTokens.filter fun p => now < p.2 },
    m.revokedTokens.countP fun p => !decide (now < p.2))

end TokenManager

/-- A UUID. -/
abbrev SessionId := BitVec 128

inductive SessionError where
  | notFound
  | expired
  | ipMismatch
  | userAgentMismatch
  | tokenExpired
  | tokenRevoked
  deriving DecidableEq

/-- The readings of the two clocks: seconds since the epoch, and nanoseconds of `Instant`. -/
structure Now where
  unix : Nat
  instant : Nat
  deriving DecidableEq

structure SessionConfig where
  ttl : Nat
  maxSessionsPerUser : Option Nat
  validateIp : Bool
  validateUserAgent : Bool

structure SessionData where
  username : Bytes
  tokenClaims : Option TokenClaims
  ipAddress : Option Bytes
  userAgent : Option Bytes
  createdAt : Nat
  lastActivity : Nat
  expiresAt : Nat
  deriving DecidableEq

namespace SessionData

def newWithToken (username : Bytes) (claims : TokenClaims) (ip agent : Option Bytes)
    (ttl now : Nat) : SessionData where
  username := username
  tokenClaims := some claims
  ipAddress := ip
  userAgent := agent
  createdAt := now
  lastActivity := now
  expiresAt := now + ttl

/-- The claims that stand for a token of which only the `jti` is known. -/
def bareClaims (username jti : Bytes) : TokenClaims where
  jti := jti
  sub := username
  permissions := []
  iat := 0
  exp := 0
  tokenType := bytesOf "access"

def newFull (username : Bytes) (tokenId ip agent : Option Bytes) (ttl now : Nat) : SessionData where
  username := username
  tokenClaims := tokenId.map (bareClaims username)
  ipAddress := ip
  userAgent := agent
  createdAt := now
  lastActivity := now
  expiresAt := now + ttl

def tokenId (s : SessionData) : Option Bytes := s.tokenClaims.map TokenClaims.jti

def isTokenExpired (s : SessionData) (unix : Nat) : Bool :=
  match s.tokenClaims with
  | some claims => claims.exp < unix
  | none => false

def isExpired (s : SessionData) (instant : Nat) : Bool := s.expiresAt ≤ instant

def updateActivity (s : SessionData) (ttl instant : Nat) : SessionData :=
  { s with lastActivity := instant, expiresAt := instant + ttl }

end SessionData

/-- `validate_ip` and `validate_user_agent`: what is not known on either side matches. -/
def validateSame (known request : Option Bytes) : Bool :=
  match known, request with
  | some mine, some theirs => mine = theirs
  | none, _ | _, none => true

abbrev SessionStorage := List (SessionId × SessionData)

def getUserSessions (storage : SessionStorage) (username : Bytes) : SessionStorage :=
  storage.filter fun p => p.2.username = username

def removeUserSessions (storage : SessionStorage) (username : Bytes) : SessionStorage × Nat :=
  (storage.filter fun p => p.2.username ≠ username, (getUserSessions storage username).length)

def cleanupSessions (storage : SessionStorage) (instant : Nat) : SessionStorage × Nat :=
  (storage.filter fun p => !p.2.isExpired instant,
    storage.countP fun p => p.2.isExpired instant)

/-- `sort_by_key(created_at)` and `first`, on the sessions as they were listed. -/
def oldest (listed : SessionStorage) : Option SessionId :=
  (listed.insertionSort fun a b => a.2.createdAt ≤ b.2.createdAt).head?.map Prod.fst

/-- The session to evict, where the user has reached the limit. -/
def pickEvicted (config : SessionConfig) (listed : SessionStorage) : Option SessionId :=
  match config.maxSessionsPerUser with
  | none => none
  | some max => if max ≤ listed.length then oldest listed else none

def evict {α : Type} (storage : List (SessionId × α)) : Option SessionId → List (SessionId × α)
  | none => storage
  | some id => Assoc.erase storage id

structure SessionManager where
  storage : SessionStorage
  config : SessionConfig
  tokenManager : Option TokenManager

/-- What a session is created from. -/
inductive Origin where
  | full (username : Bytes) (tokenId : Option Bytes)
  | token (claims : TokenClaims)

def Origin.username : Origin → Bytes
  | .full username _ => username
  | .token claims => claims.sub

namespace SessionManager

/-- The data of a new session, by `new_full` or by `new_with_token`. -/
def newData (config : SessionConfig) (origin : Origin) (ip agent : Option Bytes)
    (instant : Nat) : SessionData :=
  match origin with
  | .full username tokenId => .newFull username tokenId ip agent config.ttl instant
  | .token claims => .newWithToken claims.sub claims ip agent config.ttl instant

/-- `create_session_full` and `create_session_from_token` without other calls in between: the same
steps in other sections. `listed` are the user's sessions in the order of the table. -/
def create (m : SessionManager) (id : SessionId) (origin : Origin) (ip agent : Option Bytes)
    (instant : Nat) (listed : SessionStorage) : SessionManager :=
  { m with
    storage :=
      Assoc.insert (evict m.storage (pickEvicted m.config listed)) id
        (newData m.config origin ip agent instant) }

def createSessionFull (m : SessionManager) (id : SessionId) (username : Bytes)
    (tokenId ip agent : Option Bytes) (instant : Nat) (listed : SessionStorage) : SessionManager :=
  m.create id (.full username tokenId) ip agent instant listed

def createSession (m : SessionManager) (id : SessionId) (username : Bytes) (ip : Option Bytes)
    (instant : Nat) (listed : SessionStorage) : SessionManager :=
  m.createSessionFull id username none ip none instant listed

def createSessionFromToken (m : SessionManager) (id : SessionId) (claims : TokenClaims)
    (ip agent : Option Bytes) (instant : Nat) (listed : SessionStorage) : SessionManager :=
  m.create id (.token claims) ip agent instant listed

/-- `with_session`: the closure works on the entry in the table. -/
def withSession (m : SessionManager) (id : SessionId)
    (f : SessionData → SessionData × Except SessionError Unit) :
    SessionManager × Except SessionError Unit :=
  match Assoc.get m.storage id with
  | none => (m, .error .notFound)
  | some session =>
      ({ m with storage := Assoc.insert m.storage id (f session).1 }, (f session).2)

def validateSession (m : SessionManager) (id : SessionId) (ip : Option Bytes) (instant : Nat) :
    SessionManager × Except SessionError Unit :=
  m.withSession id fun session =>
    if session.isExpired instant then (session, .error .expired)
    else if m.config.validateIp && !validateSame session.ipAddress ip then
      (session, .error .ipMismatch)
    else (session.updateActivity m.config.ttl instant, .ok ())

/-- Whether the manager knows the session's token for revoked. -/
def tokenRevoked (m : SessionManager) (session : SessionData) : Bool :=
  match m.tokenManager, session.tokenId with
  | some tokens, some jti => tokens.isRevoked jti
  | _, _ => false

def validateSessionFull (m : SessionManager) (id : SessionId) (ip agent : Option Bytes)
    (now : Now) : SessionManager × Except SessionError Unit :=
  m.withSession id fun session =>
    if session.isExpired now.instant then (session, .error .expired)
    else if session.isTokenExpired now.unix then (session, .error .tokenExpired)
    else if m.tokenRevoked session then (session, .error .tokenRevoked)
    else if m.config.validateIp && !validateSame session.ipAddress ip then
      (session, .error .ipMismatch)
    else if m.config.validateUserAgent && !validateSame session.userAgent agent then
      (session, .error .userAgentMismatch)
    else (session.updateActivity m.config.ttl now.instant, .ok ())

/-- `get_session_info`; `get_username` reads a field of what it returns. An expired session is
removed. -/
def getSessionInfo (m : SessionManager) (id : SessionId) (instant : Nat) :
    SessionManager × Except SessionError SessionData :=
  match Assoc.get m.storage id with
  | none => (m, .error .notFound)
  | some session =>
      if session.isExpired instant then
        ({ m with storage := Assoc.erase m.storage id }, .error .expired)
      else (m, .ok session)

def getUsername (m : SessionManager) (id : SessionId) (instant : Nat) :
    SessionManager × Except SessionError Bytes :=
  match m.getSessionInfo id instant with
  | (m, .error e) => (m, .error e)
  | (m, .ok session) => (m, .ok session.username)

/-- Revokes the token of a session where there is a token and a manager for it. -/
def revokeTokenOf (tokenManager : Option TokenManager) (session : SessionData) :
    Option TokenManager :=
  match tokenManager, session.tokenClaims with
  | some tokens, some claims => some (tokens.revokeToken claims.jti claims.exp)
  | tokens, _ => tokens

def revokeSession (m : SessionManager) (id : SessionId) :
    SessionManager × Except SessionError Unit :=
  match Assoc.get m.storage id with
  | none => (m, .error .notFound)
  | some session =>
      ({ m with
          storage := Assoc.erase m.storage id
          tokenManager := revokeTokenOf m.tokenManager session }, .ok ())

/-- `listed` are the user's sessions in the order of the table. -/
def revokeUserSessions (m : SessionManager) (username : Bytes) (listed : SessionStorage) :
    SessionManager × Nat :=
  let removed := removeUserSessions m.storage username
  ({ m with
      storage := removed.1
      tokenManager := listed.foldl (fun tokens p => revokeTokenOf tokens p.2) m.tokenManager },
    removed.2)

def cleanupExpired (m : SessionManager) (instant : Nat) : SessionManager × Nat :=
  ({ m with storage := (cleanupSessions m.storage instant).1 }, (cleanupSessions m.storage instant).2)

end SessionManager

end Zumic.Auth
