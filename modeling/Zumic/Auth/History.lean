/- Runs of the session manager and of the token manager that it shares, with a record of what was
issued, revoked and created. -/

import Zumic.Auth.Sessions
import Zumic.Lib.Runs

namespace Zumic.Auth

open Lib Lib.ByteString

/-- A token that was issued, and what it says. -/
structure Issued where
  token : Bytes
  claims : TokenClaims
  deriving DecidableEq

/-- The token that a session was created with: by its `jti` alone, or by its claims. -/
inductive Made where
  | plain
  | byId (i : Issued)
  | byToken (i : Issued)
  deriving DecidableEq

def Made.token : Made → Option Issued
  | .plain => none
  | .byId i | .byToken i => some i

/-- What the history tells of a session; `refreshed` is its creation or its last accepted
validation. -/
structure Record where
  username : Bytes
  made : Made
  refreshed : Nat
  ipAddress : Option Bytes
  userAgent : Option Bytes
  deriving DecidableEq

/-- The managers and the clocks; then the history: the tokens that were issued, every `jti` that
was revoked, and the sessions created that were neither revoked nor evicted. -/
structure World where
  storage : SessionStorage
  config : SessionConfig
  tokens : TokenManager
  now : Now
  issued : List Issued
  revoked : List Bytes
  sessions : List (SessionId × Record)

inductive Event where
  | tick (now : Now)
  | generateTokenPair (accessJti refreshJti username : Bytes) (permissions : List Bytes)
  | verifyToken (token : Bytes)
  | revokeToken (i : Issued)
  | revokeTokenClaims (token : Bytes)
  | cleanupTokens
  | createSession (id : SessionId) (username : Bytes) (ip : Option Bytes)
      (listed : SessionStorage)
  | createSessionFull (id : SessionId) (username : Bytes) (token : Option Issued)
      (ip agent : Option Bytes) (listed : SessionStorage)
  | createSessionFromToken (id : SessionId) (token : Issued) (ip agent : Option Bytes)
      (listed : SessionStorage)
  | validateSession (id : SessionId) (ip : Option Bytes)
  | validateSessionFull (id : SessionId) (ip agent : Option Bytes)
  | getUsername (id : SessionId)
  | getSessionInfo (id : SessionId)
  | revokeSession (id : SessionId)
  | revokeUserSessions (username : Bytes) (listed : SessionStorage)
  | cleanupSessions

namespace World

def opened (config : SessionConfig) (tokenConfig : TokenConfig) (now : Now) : World where
  storage := []
  config := config
  tokens := .new tokenConfig
  now := now
  issued := []
  revoked := []
  sessions := []

def manager (w : World) : SessionManager := ⟨w.storage, w.config, some w.tokens⟩

/-- What a call of the session manager leaves behind. -/
def keep (w : World) (m : SessionManager) : World :=
  { w with storage := m.storage, tokens := m.tokenManager.getD w.tokens }

/-- No identifier that `Uuid::new_v4` draws was seen before. -/
def Fresh (w : World) (jti : Bytes) : Prop :=
  jti ∉ w.revoked ∧ ∀ i ∈ w.issued, i.claims.jti ≠ jti

instance (w : World) (jti : Bytes) : Decidable (w.Fresh jti) :=
  inferInstanceAs (Decidable (jti ∉ w.revoked ∧ ∀ i ∈ w.issued, i.claims.jti ≠ jti))

/-- A creation; the sessions of the user are listed in any order. -/
def created (w : World) (m : SessionManager) (id : SessionId) (r : Record)
    (listed : SessionStorage) : Option World :=
  if listed.Perm (getUserSessions w.storage r.username) ∧ ∀ i ∈ r.made.token, i ∈ w.issued then
    some
      { w.keep m with
        sessions := Assoc.insert (evict w.sessions (pickEvicted w.config listed)) id r }
  else none

def validated (w : World) (id : SessionId) (result : SessionManager × Except SessionError Unit) :
    World :=
  { w.keep result.1 with
    sessions :=
      match result.2, Assoc.get w.sessions id with
      | .ok (), some r => Assoc.insert w.sessions id { r with refreshed := w.now.instant }
      | _, _ => w.sessions }

variable (jwt : Jwt)

def step (w : World) : Event → Option World
  | .tick now =>
      if w.now.unix ≤ now.unix ∧ w.now.instant ≤ now.instant then some { w with now := now }
      else none
  | .generateTokenPair accessJti refreshJti username permissions =>
      if w.Fresh accessJti ∧ w.Fresh refreshJti ∧ accessJti ≠ refreshJti then
        match w.tokens.generateTokenPair jwt w.now.unix accessJti refreshJti username
            permissions with
        | .error _ => some w
        | .ok pair =>
            some
              { w with
                issued := w.issued ++
                  [⟨pair.accessToken,
                      w.tokens.accessClaims accessJti username permissions w.now.unix⟩,
                    ⟨pair.refreshToken,
                      w.tokens.refreshClaims refreshJti username permissions w.now.unix⟩] }
      else none
  | .verifyToken _ => some w
  | .revokeToken i =>
      if i ∈ w.issued then
        some
          { w with
            tokens := w.tokens.revokeToken i.claims.jti i.claims.exp
            revoked := i.claims.jti :: w.revoked }
      else none
  | .revokeTokenClaims token =>
      some
        { w with
          tokens := (w.tokens.revokeTokenClaims jwt w.now.unix token).1
          revoked :=
            match w.tokens.verifyToken jwt w.now.unix token with
            | .ok claims => claims.jti :: w.revoked
            | .error _ => w.revoked }
  | .cleanupTokens => some { w with tokens := (w.tokens.cleanupExpired w.now.unix).1 }
  | .createSession id username ip listed =>
      w.created (w.manager.createSession id username ip w.now.instant listed) id
        ⟨username, .plain, w.now.instant, ip, none⟩ listed
  | .createSessionFull id username token ip agent listed =>
      w.created
        (w.manager.createSessionFull id username (token.map fun i => i.claims.jti) ip agent
          w.now.instant listed)
        id ⟨username, token.elim .plain .byId, w.now.instant, ip, agent⟩ listed
  | .createSessionFromToken id token ip agent listed =>
      w.created (w.manager.createSessionFromToken id token.claims ip agent w.now.instant listed) id
        ⟨token.claims.sub, .byToken token, w.now.instant, ip, agent⟩ listed
  | .validateSession id ip =>
      some (w.validated id (w.manager.validateSession id ip w.now.instant))
  | .validateSessionFull id ip agent =>
      some (w.validated id (w.manager.validateSessionFull id ip agent w.now))
  | .getUsername id => some (w.keep (w.manager.getUsername id w.now.instant).1)
  | .getSessionInfo id => some (w.keep (w.manager.getSessionInfo id w.now.instant).1)
  | .revokeSession id =>
      some
        { w.keep (w.manager.revokeSession id).1 with
          revoked := ((Assoc.get w.storage id).bind SessionData.tokenId).toList ++ w.revoked
          sessions := Assoc.erase w.sessions id }
  | .revokeUserSessions username listed =>
      if listed.Perm (getUserSessions w.storage username) then
        some
          { w.keep (w.manager.revokeUserSessions username listed).1 with
            revoked := listed.filterMap (fun p => p.2.tokenId) ++ w.revoked
            sessions := w.sessions.filter fun p => p.2.username ≠ username }
      else none
  | .cleanupSessions => some (w.keep (w.manager.cleanupExpired w.now.instant).1)

end World

end Zumic.Auth
