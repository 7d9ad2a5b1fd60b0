/- What becomes of a revoked token (`auth/tokens.rs`, `auth/session/manager.rs`). -/

import Zumic.Auth.History

namespace Zumic.Auth

open Lib Lib.ByteString

namespace TokenManager

def revokeAll (m : TokenManager) (entries : List (Bytes × Nat)) : TokenManager :=
  entries.foldl (fun m p => m.revokeToken p.1 p.2) m

theorem isRevoked_revokeToken (m : TokenManager) (jti : Bytes) (exp : Nat) (other : Bytes) :
    (m.revokeToken jti exp).isRevoked other = true ↔ other = jti ∨ m.isRevoked other = true := by
  unfold isRevoked revokeToken
  rw [Assoc.get_insert]
  by_cases same : jti = other
  · simp [same]
  · simp [same, Ne.symm same]

theorem isRevoked_revokeAll (m : TokenManager) (entries : List (Bytes × Nat)) (jti : Bytes) :
    (m.revokeAll entries).isRevoked jti = true ↔
      jti ∈ entries.map Prod.fst ∨ m.isRevoked jti = true := by
  induction entries generalizing m with
  | nil => simp [revokeAll]
  | cons p entries ih =>
      have rest : (m.revokeAll (p :: entries)).isRevoked jti = true ↔ _ :=
        ih (m.revokeToken p.1 p.2)
      rw [rest, isRevoked_revokeToken, List.map_cons, List.mem_cons]
      tauto

theorem mem_revokeAll {m : TokenManager} {entries : List (Bytes × Nat)} {p : Bytes × Nat}
    (member : p ∈ (m.revokeAll entries).revokedTokens) :
    p.1 ∈ entries.map Prod.fst ∨ p ∈ m.revokedTokens := by
  induction entries generalizing m with
  | nil => exact .inr member
  | cons q entries ih =>
      have rest : p.1 ∈ entries.map Prod.fst ∨ p ∈ (m.revokeToken q.1 q.2).revokedTokens :=
        ih member
      rw [List.map_cons, List.mem_cons]
      rcases rest with later | inserted
      · exact .inl (.inr later)
      · rcases Assoc.mem_insert inserted with rfl | old
        · exact .inl (.inl rfl)
        · exact .inr old

theorem nodup_revokeAll {m : TokenManager} (distinct : (Assoc.keys m.revokedTokens).Nodup)
    (entries : List (Bytes × Nat)) :
    (Assoc.keys (m.revokeAll entries).revokedTokens).Nodup := by
  induction entries generalizing m with
  | nil => exact distinct
  | cons q entries ih => exact ih (Assoc.nodup_keys_insert distinct q.1 q.2)

end TokenManager

/-- What a session's token adds to the table of revoked tokens. -/
def SessionData.entry (s : SessionData) : Option (Bytes × Nat) :=
  s.tokenClaims.map fun claims => (claims.jti, claims.exp)

theorem entry_fst (s : SessionData) : s.entry.map Prod.fst = s.tokenId := by
  unfold SessionData.entry SessionData.tokenId
  cases s.tokenClaims <;> rfl

theorem revokeTokenOf_eq (tokens : TokenManager) (s : SessionData) :
    SessionManager.revokeTokenOf (some tokens) s = some (tokens.revokeAll s.entry.toList) := by
  unfold SessionManager.revokeTokenOf SessionData.entry
  cases s.tokenClaims <;> rfl

theorem revokeTokenOf_foldl (tokens : TokenManager) (listed : SessionStorage) :
    listed.foldl (fun tokens p => SessionManager.revokeTokenOf tokens p.2) (some tokens) =
      some (tokens.revokeAll (listed.filterMap fun p => p.2.entry)) := by
  induction listed generalizing tokens with
  | nil => rfl
  | cons p listed ih =>
      rw [List.foldl_cons, revokeTokenOf_eq, ih]
      cases found : p.2.entry with
      | none => simp [found, TokenManager.revokeAll]
      | some entry => simp [found, TokenManager.revokeAll]

theorem withSession_tokenManager (m : SessionManager) (id : SessionId)
    (f : SessionData → SessionData × Except SessionError Unit) :
    (m.withSession id f).1.tokenManager = m.tokenManager := by
  unfold SessionManager.withSession
  split <;> rfl

theorem getSessionInfo_tokenManager (m : SessionManager) (id : SessionId) (instant : Nat) :
    (m.getSessionInfo id instant).1.tokenManager = m.tokenManager := by
  unfold SessionManager.getSessionInfo
  split
  · rfl
  · split <;> rfl

theorem getUsername_fst (m : SessionManager) (id : SessionId) (instant : Nat) :
    (m.getUsername id instant).1 = (m.getSessionInfo id instant).1 := by
  unfold SessionManager.getUsername
  split <;> simp_all

namespace World

variable {jwt : Jwt}

theorem created_eq {w w' : World} {m : SessionManager} {id : SessionId} {r : Record}
    {listed : SessionStorage} (made : w.created m id r listed = some w') :
    (listed.Perm (getUserSessions w.storage r.username) ∧ ∀ i ∈ r.made.token, i ∈ w.issued) ∧
      w' = { w.keep m with
        sessions := Assoc.insert (evict w.sessions (pickEvicted w.config listed)) id r } := by
  unfold created at made
  split at made
  · rename_i allowed
    exact ⟨allowed, (Option.some.inj made).symm⟩
  · cases made

theorem step_tokens {w w' : World} {e : Event} (stepped : w.step jwt e = some w') :
    (w'.tokens = w.tokens ∧ w'.issued = w.issued ∧ w'.revoked = w.revoked ∧
        w.now.unix ≤ w'.now.unix) ∨
      (∃ added, w'.tokens = w.tokens ∧ w'.issued = w.issued ++ added ∧ w'.revoked = w.revoked ∧
        w'.now = w.now ∧
        ∀ i ∈ added, i.claims.jti ∉ w.revoked ∧ jwt.sign i.claims = some i.token) ∨
      (∃ entries, w'.tokens = w.tokens.revokeAll entries ∧ w'.issued = w.issued ∧
        w'.revoked = entries.map Prod.fst ++ w.revoked ∧ w'.now = w.now) ∨
      (e = .cleanupTokens ∧
        w' = { w with tokens := (w.tokens.cleanupExpired w.now.unix).1 }) := by
  cases e with
  | tick now =>
      simp only [step] at stepped
      split at stepped
      · rename_i later
        obtain rfl := Option.some.inj stepped
        exact .inl ⟨rfl, rfl, rfl, later.1⟩
      · cases stepped
  | generateTokenPair accessJti refreshJti username permissions =>
      simp only [step] at stepped
      split at stepped
      · rename_i fresh
        cases generated : w.tokens.generateTokenPair jwt w.now.unix accessJti refreshJti username
            permissions with
        | error e =>
            rw [generated] at stepped
            obtain rfl := Option.some.inj stepped
            exact .inl ⟨rfl, rfl, rfl, Nat.le_refl _⟩
        | ok pair =>
            rw [generated] at stepped
            obtain rfl := Option.some.inj stepped
            refine .inr (.inl ⟨_, rfl, rfl, rfl, rfl, ?_⟩)
            unfold TokenManager.generateTokenPair at generated
            split at generated
            · cases generated
            rename_i accessToken access
            split at generated
            · cases generated
            rename_i refreshToken refresh
            obtain rfl := Except.ok.inj generated
            intro i member
            simp only [List.mem_cons, List.not_mem_nil, or_false] at member
            rcases member with rfl | rfl
            · exact ⟨fresh.1.1, access⟩
            · exact ⟨fresh.2.1.1, refresh⟩
      · cases stepped
  | verifyToken token =>
      obtain rfl := Option.some.inj stepped
      exact .inl ⟨rfl, rfl, rfl, Nat.le_refl _⟩
  | revokeToken i =>
      simp only [step] at stepped
      split at stepped
      · obtain rfl := Option.some.inj stepped
        exact .inr (.inr (.inl ⟨[(i.claims.jti, i.claims.exp)], rfl, rfl, rfl, rfl⟩))
      · cases stepped
  | revokeTokenClaims token =>
      obtain rfl := Option.some.inj stepped
      cases verified : w.tokens.verifyToken jwt w.now.unix token with
      | error e =>
          refine .inl ⟨?_, rfl, ?_, Nat.le_refl _⟩
          · simp [TokenManager.revokeTokenClaims, verified]
          · rfl
      | ok claims =>
          refine .inr (.inr (.inl ⟨[(claims.jti, claims.exp)], ?_, rfl, ?_, rfl⟩))
          · simp [TokenManager.revokeTokenClaims, verified, TokenManager.revokeAll]
          · rfl
  | cleanupTokens =>
      obtain rfl := Option.some.inj stepped
      exact .inr (.inr (.inr ⟨rfl, rfl⟩))
  | createSession id username ip listed =>
      obtain ⟨-, rfl⟩ := created_eq stepped
      exact .inl ⟨rfl, rfl, rfl, Nat.le_refl _⟩
  | createSessionFull id username token ip agent listed =>
      obtain ⟨-, rfl⟩ := created_eq stepped
      exact .inl ⟨rfl, rfl, rfl, Nat.le_refl _⟩
  | createSessionFromToken id token ip agent listed =>
      obtain ⟨-, rfl⟩ := created_eq stepped
      exact .inl ⟨rfl, rfl, rfl, Nat.le_refl _⟩
  | validateSession id ip =>
      obtain rfl := Option.some.inj stepped
      refine .inl ⟨?_, rfl, rfl, Nat.le_refl _⟩
      simp [validated, keep, SessionManager.validateSession, withSession_tokenManager, manager]
  | validateSessionFull id ip agent =>
      obtain rfl := Option.some.inj stepped
      refine .inl ⟨?_, rfl, rfl, Nat.le_refl _⟩
      simp [validated, keep, SessionManager.validateSessionFull, withSession_tokenManager, manager]
  | getUsername id =>
      obtain rfl := Option.some.inj stepped
      refine .inl ⟨?_, rfl, rfl, Nat.le_refl _⟩
      simp [keep, getUsername_fst, getSessionInfo_tokenManager, manager]
  | getSessionInfo id =>
      obtain rfl := Option.some.inj stepped
      refine .inl ⟨?_, rfl, rfl, Nat.le_refl _⟩
      simp [keep, getSessionInfo_tokenManager, manager]
  | revokeSession id =>
      obtain rfl := Option.some.inj stepped
      cases found : Assoc.get w.storage id with
      | none =>
          refine .inr (.inr (.inl ⟨[], ?_, rfl, ?_, rfl⟩))
          · simp [keep, SessionManager.revokeSession, manager, found, TokenManager.revokeAll]
          · rfl
      | some s =>
          refine .inr (.inr (.inl ⟨s.entry.toList, ?_, rfl, ?_, rfl⟩))
          · simp [keep, SessionManager.revokeSession, manager, found, revokeTokenOf_eq]
          · simp only [Option.bind_some, ← entry_fst]
            cases s.entry <;> rfl
  | revokeUserSessions username listed =>
      simp only [step] at stepped
      split at stepped
      · obtain rfl := Option.some.inj stepped
        refine .inr (.inr (.inl ⟨listed.filterMap fun p => p.2.entry, ?_, rfl, ?_, rfl⟩))
        · simp [keep, SessionManager.revokeUserSessions, manager, revokeTokenOf_foldl]
        · rw [List.map_filterMap]
          simp only [entry_fst]
      · cases stepped
  | cleanupSessions =>
      obtain rfl := Option.some.inj stepped
      exact .inl ⟨rfl, rfl, rfl, Nat.le_refl _⟩

variable (jwt)

/-- No token whose `jti` was revoked is accepted now. -/
def Permanent (w : World) : Prop :=
  ∀ i ∈ w.issued, i.claims.jti ∈ w.revoked →
    ∀ claims, w.tokens.verifyToken jwt w.now.unix i.token ≠ .ok claims

variable {jwt}

/-- The cleanup forgets no `jti` of a token that has not expired. -/
def Retains (w : World) : Event → Prop
  | .cleanupTokens => ∀ p ∈ w.tokens.revokedTokens, p.2 ≤ w.now.unix →
      ∀ i ∈ w.issued, i.claims.jti = p.1 → i.claims.exp < w.now.unix
  | _ => True

/-- What every step keeps. -/
structure Tracked (jwt : Jwt) (w : World) : Prop where
  signed : ∀ i ∈ w.issued, jwt.sign i.claims = some i.token
  known : ∀ p ∈ w.tokens.revokedTokens, p.1 ∈ w.revoked
  distinct : (Assoc.keys w.tokens.revokedTokens).Nodup

theorem tracked_opened (config : SessionConfig) (tokenConfig : TokenConfig) (now : Now) :
    Tracked jwt (opened config tokenConfig now) := by
  constructor
  · intro i member
    cases member
  · intro p member
    cases member
  · exact List.nodup_nil

theorem tracked_step {w w' : World} {e : Event} (tracked : Tracked jwt w)
    (stepped : w.step jwt e = some w') : Tracked jwt w' := by
  obtain ⟨signed, known, distinct⟩ := tracked
  rcases step_tokens stepped with ⟨tokens, issued, revoked, -⟩ |
    ⟨added, tokens, issued, revoked, -, fresh⟩ | ⟨entries, tokens, issued, revoked, -⟩ | ⟨-, rfl⟩
  · exact ⟨by rwa [issued], by rwa [tokens, revoked], by rwa [tokens]⟩
  · refine ⟨?_, by rwa [tokens, revoked], by rwa [tokens]⟩
    rw [issued]
    intro i member
    rcases List.mem_append.mp member with old | new
    · exact signed i old
    · exact (fresh i new).2
  · refine ⟨by rwa [issued], ?_, ?_⟩
    · rw [tokens, revoked]
      intro p member
      rcases TokenManager.mem_revokeAll member with new | old
      · exact List.mem_append_left _ new
      · exact List.mem_append_right _ (known p old)
    · rw [tokens]
      exact TokenManager.nodup_revokeAll distinct entries
  · refine ⟨signed, ?_, ?_⟩
    · intro p member
      exact known p (List.mem_filter.mp member).1
    · exact distinct.sublist (List.filter_sublist.map Prod.fst)

theorem verifyToken_ok_iff (correct : jwt.Correct) (m : TokenManager) (unix : Nat) {i : Issued}
    (signed : jwt.sign i.claims = some i.token) (claims : TokenClaims) :
    m.verifyToken jwt unix i.token = .ok claims ↔
      claims = i.claims ∧ unix ≤ i.claims.exp ∧ ¬ m.isRevoked i.claims.jti = true := by
  unfold TokenManager.verifyToken
  rw [correct i.claims i.token signed]
  by_cases late : i.claims.exp < unix
  · simp [late]
  · by_cases revoked : m.isRevoked i.claims.jti = true
    · simp [late, revoked]
    · simp only [late, if_false, revoked, Bool.false_eq_true, Except.ok.injEq, not_false_eq_true,
        and_true, not_lt.mp late]
      exact eq_comm

theorem permanent_iff (correct : jwt.Correct) {w : World} (tracked : Tracked jwt w) :
    Permanent jwt w ↔ ∀ i ∈ w.issued, i.claims.jti ∈ w.revoked →
      i.claims.exp < w.now.unix ∨ w.tokens.isRevoked i.claims.jti = true := by
  refine forall₃_congr fun i member _ => ?_
  constructor
  · intro rejected
    by_contra open_
    rw [not_or, not_lt] at open_
    exact rejected i.claims ((verifyToken_ok_iff correct w.tokens w.now.unix
      (tracked.signed i member) i.claims).mpr ⟨rfl, open_⟩)
  · intro closed claims accepted
    obtain ⟨-, early, unrevoked⟩ := (verifyToken_ok_iff correct w.tokens w.now.unix
      (tracked.signed i member) claims).mp accepted
    rcases closed with late | revoked
    · omega
    · exact unrevoked revoked

theorem isRevoked_of_mem {m : TokenManager} {p : Bytes × Nat} (member : p ∈ m.revokedTokens) :
    m.isRevoked p.1 = true := by
  have key : p.1 ∈ Assoc.keys m.revokedTokens := List.mem_map_of_mem member
  rwa [Assoc.mem_keys_iff_isSome] at key

theorem mem_of_isRevoked {m : TokenManager} {jti : Bytes} (revoked : m.isRevoked jti = true) :
    ∃ exp, (jti, exp) ∈ m.revokedTokens := by
  obtain ⟨exp, found⟩ := Option.isSome_iff_exists.mp revoked
  exact ⟨exp, Assoc.mem_of_get found⟩

theorem isRevoked_cleanup {m : TokenManager} (distinct : (Assoc.keys m.revokedTokens).Nodup)
    {unix : Nat} {p : Bytes × Nat} (member : p ∈ m.revokedTokens) :
    (m.cleanupExpired unix).1.isRevoked p.1 = true ↔ unix < p.2 := by
  constructor
  · intro kept
    obtain ⟨exp, found⟩ := mem_of_isRevoked kept
    obtain ⟨old, later⟩ := List.mem_filter.mp found
    have same : (p.1, exp) = p := by
      have first := Assoc.get_of_mem distinct old
      have second := Assoc.get_of_mem distinct member
      rw [first] at second
      exact Prod.ext rfl (Option.some.inj second)
    rw [← same]
    exact of_decide_eq_true later
  · intro later
    have kept : p ∈ (m.cleanupExpired unix).1.revokedTokens :=
      List.mem_filter.mpr ⟨member, decide_eq_true later⟩
    exact isRevoked_of_mem kept

theorem permanent_step (correct : jwt.Correct) {w w' : World} {e : Event}
    (tracked : Tracked jwt w) (permanent : Permanent jwt w)
    (stepped : w.step jwt e = some w') : Retains w e ↔ Permanent jwt w' := by
  have tracked' := tracked_step tracked stepped
  rw [permanent_iff correct tracked] at permanent
  rw [permanent_iff correct tracked']
  have other : e ≠ .cleanupTokens → Retains w e := by
    intro no_cleanup
    cases e with
    | cleanupTokens => exact absurd rfl no_cleanup
    | _ => trivial
  by_cases cleanup : e = .cleanupTokens
  · subst cleanup
    obtain rfl := Option.some.inj stepped
    constructor
    · intro retains i member revoked
      rcases permanent i member revoked with late | listed
      · exact .inl late
      · obtain ⟨exp, found⟩ := mem_of_isRevoked listed
        by_cases later : w.now.unix < exp
        · exact .inr ((isRevoked_cleanup tracked.distinct found).mpr later)
        · exact .inl (retains _ found (not_lt.mp later) i member rfl)
    · intro kept p found early i member same
      have revoked : i.claims.jti ∈ w.revoked := same ▸ tracked.known p found
      rcases kept i member revoked with late | listed
      · exact late
      · have later := (isRevoked_cleanup tracked.distinct found).mp (same ▸ listed)
        omega
  · refine iff_of_true (other cleanup) ?_
    rcases step_tokens stepped with ⟨tokens, issued, revoked, later⟩ |
      ⟨added, tokens, issued, revoked, now, fresh⟩ | ⟨entries, tokens, issued, revoked, now⟩ |
      ⟨same, -⟩
    · rw [tokens, issued, revoked]
      intro i member gone
      rcases permanent i member gone with late | listed
      · exact .inl (Nat.lt_of_lt_of_le late later)
      · exact .inr listed
    · rw [tokens, issued, revoked, now]
      intro i member gone
      rcases List.mem_append.mp member with old | new
      · exact permanent i old gone
      · exact absurd gone (fresh i new).1
    · rw [tokens, issued, revoked, now]
      intro i member gone
      rw [TokenManager.isRevoked_revokeAll]
      rcases List.mem_append.mp gone with new | old
      · exact .inr (.inl new)
      · rcases permanent i member old with late | listed
        · exact .inl late
        · exact .inr (.inr listed)
    · exact absurd same cleanup

/-- Revocations hold in every state of a run if and only if every cleanup retains them. -/
theorem permanent_run (correct : jwt.Correct) {w w' : World} {events : List Event}
    (tracked : Tracked jwt w) (permanent : Permanent jwt w)
    (ran : Runs.run (World.step jwt) w events = some w') :
    (Runs.Along (World.step jwt) (fun w _ => Permanent jwt w) w events ∧ Permanent jwt w') ↔
      Runs.Along (World.step jwt) Retains w events := by
  induction events generalizing w with
  | nil =>
      obtain rfl := Option.some.inj ran
      exact iff_of_true ⟨trivial, permanent⟩ trivial
  | cons e events ih =>
      rw [Runs.run, List.foldlM_cons] at ran
      obtain ⟨next, stepped, ran⟩ := Option.bind_eq_some_iff.mp ran
      have one := permanent_step correct tracked permanent stepped
      have tracked' := tracked_step tracked stepped
      constructor
      · rintro ⟨⟨-, along⟩, last⟩
        have next_permanent : Permanent jwt next := by
          cases events with
          | nil =>
              obtain rfl := Option.some.inj ran
              exact last
          | cons e' events => exact (along next stepped).1
        exact .cons (one.mpr next_permanent) stepped
          ((ih tracked' next_permanent ran).mp ⟨along next stepped, last⟩)
      · rintro ⟨now, along⟩
        obtain ⟨rest, last⟩ := (ih tracked' (one.mp now) ran).mpr (along next stepped)
        exact ⟨.cons permanent stepped rest, last⟩

/-- Every run from a new manager. -/
theorem permanent_iff_retained (jwt : Jwt) (correct : jwt.Correct) (config : SessionConfig)
    (tokenConfig : TokenConfig) (now : Now) (events : List Event) (w : World)
    (ran : Runs.run (World.step jwt) (opened config tokenConfig now) events = some w) :
    (Runs.Along (World.step jwt) (fun w _ => Permanent jwt w) (opened config tokenConfig now)
        events ∧ Permanent jwt w) ↔
      Runs.Along (World.step jwt) Retains (opened config tokenConfig now) events := by
  refine permanent_run correct (tracked_opened config tokenConfig now) ?_ ran
  intro i member
  cases member

def antonConfig : SessionConfig := ⟨10, none, false, false⟩

/-- Access tokens live for a second. -/
def antonTokens : TokenConfig := ⟨1, 100⟩

def antonAccess : Issued :=
  ⟨bytesOf "1", (TokenManager.new antonTokens).accessClaims (bytesOf "a") (bytesOf "anton") [] 5⟩

def antonRefresh : Issued :=
  ⟨bytesOf "2", (TokenManager.new antonTokens).refreshClaims (bytesOf "r") (bytesOf "anton") [] 5⟩

/-- A `jwt` that signs two claims. -/
def antonJwt : Jwt where
  sign claims :=
    if claims = antonAccess.claims then some antonAccess.token
    else if claims = antonRefresh.claims then some antonRefresh.token
    else none
  verify token :=
    if token = antonAccess.token then some antonAccess.claims
    else if token = antonRefresh.token then some antonRefresh.claims
    else none

theorem antonJwt_correct : antonJwt.Correct := by
  have apart : antonRefresh.token ≠ antonAccess.token := by decide +kernel
  intro claims token signed
  simp only [antonJwt] at signed
  split at signed
  · rename_i access
    rw [← Option.some.inj signed, access]
    simp [antonJwt]
  · split at signed
    · rename_i refresh
      rw [← Option.some.inj signed, refresh]
      simp [antonJwt, apart]
    · cases signed

def antonStart : World := opened antonConfig antonTokens ⟨5, 0⟩

def antonIssue : Event := .generateTokenPair (bytesOf "a") (bytesOf "r") (bytesOf "anton") []

/-- A token is revoked, and forgotten after it has expired. -/
def antonRevoke : List Event := [antonIssue, .revokeToken antonAccess, .tick ⟨7, 2⟩, .cleanupTokens]

theorem permanent_anton :
    ∃ w, Runs.run (World.step antonJwt) antonStart antonRevoke = some w ∧ Permanent antonJwt w := by
  obtain ⟨w, ran⟩ : ∃ w, Runs.run (World.step antonJwt) antonStart antonRevoke = some w :=
    ⟨_, rfl⟩
  refine ⟨w, ran, ((permanent_iff_retained antonJwt antonJwt_correct antonConfig antonTokens ⟨5, 0⟩
    antonRevoke w ran).mpr ?_).2⟩
  refine .cons trivial rfl (.cons trivial rfl (.cons trivial rfl (.cons ?_ rfl trivial)))
  intro p member early i issued same
  have expired : ∀ i ∈ [antonAccess, antonRefresh], i.claims.jti = bytesOf "a" →
      i.claims.exp < 7 := by decide +kernel
  have entry : p.1 = bytesOf "a" := by
    have one : ∀ p ∈ [(bytesOf "a", antonAccess.claims.exp)], p.1 = bytesOf "a" := by
      simp
    exact one p member
  exact expired i issued (same.trans entry)

/-- A session that was created with the token's `jti` is revoked: the table says that the token
expired long ago, and the cleanup forgets it. -/
def antonForget : List Event :=
  [antonIssue, .createSessionFull 1 (bytesOf "anton") (some antonAccess) none none [],
    .revokeSession 1, .cleanupTokens]

theorem revocation_forgotten :
    ¬ ∀ (jwt : Jwt), jwt.Correct → ∀ (config : SessionConfig) (tokenConfig : TokenConfig)
      (now : Now) (events : List Event) (w : World),
      Runs.run (World.step jwt) (opened config tokenConfig now) events = some w →
        Permanent jwt w := by
  intro always
  obtain ⟨w, ran⟩ : ∃ w, Runs.run (World.step antonJwt) antonStart antonForget = some w :=
    ⟨_, rfl⟩
  have permanent := always antonJwt antonJwt_correct antonConfig antonTokens ⟨5, 0⟩ antonForget w ran
  obtain rfl := Option.some.inj ran
  refine permanent antonAccess ?_ ?_ antonAccess.claims ?_
  · exact List.mem_cons_self
  · exact List.mem_cons_self
  · rfl

end World

end Zumic.Auth
