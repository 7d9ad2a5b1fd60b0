/- Which sessions are accepted (`auth/session/manager.rs`). -/

import Zumic.Auth.Revocation

namespace Zumic.Auth

open Lib Lib.ByteString

/-- The claims that a session keeps of its token. -/
def Record.claims (r : Record) : Option TokenClaims :=
  match r.made with
  | .plain => none
  | .byId i => some (SessionData.bareClaims r.username i.claims.jti)
  | .byToken i => some i.claims

/-- The data of a session say what the history tells. -/
structure Shows (ttl : Nat) (s : SessionData) (r : Record) : Prop where
  username : s.username = r.username
  claims : s.tokenClaims = r.claims
  expires : s.expiresAt = r.refreshed + ttl
  ip : s.ipAddress = r.ipAddress
  agent : s.userAgent = r.userAgent

/-- A session of the history is in the table, or it has expired. -/
inductive Mirror (ttl instant : Nat) : Option SessionData → Option Record → Prop
  | stored {s : SessionData} {r : Record} (shows_ : Shows ttl s r) :
      Mirror ttl instant (some s) (some r)
  | lapsed {r : Record} (old : r.refreshed + ttl ≤ instant) : Mirror ttl instant none (some r)
  | absent : Mirror ttl instant none none

section

variable {ttl instant : Nat} {storage : SessionStorage} {sessions : List (SessionId × Record)}

def Mirrors (ttl instant : Nat) (storage : SessionStorage)
    (sessions : List (SessionId × Record)) : Prop :=
  ∀ id, Mirror ttl instant (Assoc.get storage id) (Assoc.get sessions id)

theorem Mirror.later {found : Option SessionData} {told : Option Record} {instant' : Nat}
    (mirror : Mirror ttl instant found told) (later : instant ≤ instant') :
    Mirror ttl instant' found told := by
  cases mirror with
  | stored shows_ => exact .stored shows_
  | lapsed old => exact .lapsed (Nat.le_trans old later)
  | absent => exact .absent

theorem Mirror.gone {s : SessionData} {told : Option Record}
    (mirror : Mirror ttl instant (some s) told) (expired : s.isExpired instant = true) :
    Mirror ttl instant none told := by
  cases mirror with
  | stored shows_ =>
      refine .lapsed ?_
      rw [← shows_.expires]
      exact of_decide_eq_true expired

theorem Mirrors.insert (mirrors : Mirrors ttl instant storage sessions) (id : SessionId)
    {s : SessionData} {r : Record} (shows_ : Shows ttl s r) :
    Mirrors ttl instant (Assoc.insert storage id s) (Assoc.insert sessions id r) := by
  intro other
  rw [Assoc.get_insert, Assoc.get_insert]
  split
  · exact .stored shows_
  · exact mirrors other

theorem Mirrors.erase (mirrors : Mirrors ttl instant storage sessions) (id : SessionId) :
    Mirrors ttl instant (Assoc.erase storage id) (Assoc.erase sessions id) := by
  intro other
  rw [Assoc.get_erase, Assoc.get_erase]
  split
  · exact .absent
  · exact mirrors other

theorem Mirrors.evict (mirrors : Mirrors ttl instant storage sessions) (picked : Option SessionId) :
    Mirrors ttl instant (evict storage picked) (evict sessions picked) := by
  cases picked with
  | none => exact mirrors
  | some id => exact mirrors.erase id

theorem Mirrors.lapse (mirrors : Mirrors ttl instant storage sessions) {id : SessionId}
    {s : SessionData} (found : Assoc.get storage id = some s)
    (expired : s.isExpired instant = true) :
    Mirrors ttl instant (Assoc.erase storage id) sessions := by
  intro other
  rw [Assoc.get_erase]
  split
  · rename_i same
    subst same
    have here := mirrors id
    rw [found] at here
    exact here.gone expired
  · exact mirrors other

theorem Mirrors.cleanup (mirrors : Mirrors ttl instant storage sessions)
    (distinct : (Assoc.keys storage).Nodup) :
    Mirrors ttl instant (cleanupSessions storage instant).1 sessions := by
  intro id
  have here := mirrors id
  unfold cleanupSessions
  rw [Assoc.get_filter distinct]
  cases found : Assoc.get storage id with
  | none => rwa [found] at here
  | some s =>
      rw [found] at here
      cases expired : s.isExpired instant with
      | false => simpa [Option.filter, expired] using here
      | true =>
          simp only [Option.filter, expired, Bool.not_true, Bool.false_eq_true, if_false]
          exact here.gone expired

theorem Mirrors.removeUser (mirrors : Mirrors ttl instant storage sessions)
    (stored : (Assoc.keys storage).Nodup) (told : (Assoc.keys sessions).Nodup)
    (username : Bytes) :
    Mirrors ttl instant (removeUserSessions storage username).1
      (sessions.filter fun p => p.2.username ≠ username) := by
  intro id
  unfold removeUserSessions
  rw [Assoc.get_filter stored, Assoc.get_filter told]
  have here := mirrors id
  generalize Assoc.get storage id = found at here
  generalize Assoc.get sessions id = record at here
  cases here with
  | stored shows_ =>
      rename_i s r
      by_cases own : r.username = username
      · simp only [Option.filter, shows_.username, own, ne_eq, not_true_eq_false,
          decide_false, Bool.false_eq_true, if_false]
        exact .absent
      · simp only [Option.filter, shows_.username, own, ne_eq, not_false_eq_true,
          decide_true, if_true]
        exact .stored shows_
  | lapsed old =>
      rename_i r
      by_cases own : r.username = username
      · simp only [Option.filter, own, ne_eq, not_true_eq_false,
          decide_false, Bool.false_eq_true, if_false]
        exact .absent
      · simp only [Option.filter, own, ne_eq, not_false_eq_true,
          decide_true, if_true]
        exact .lapsed old
  | absent => exact .absent

end

/-- A closure for `with_session` that refuses, or accepts and notes the activity. -/
def Touches (ttl instant : Nat)
    (f : SessionData → SessionData × Except SessionError Unit) : Prop :=
  ∀ s, (∃ e, f s = (s, .error e)) ∨ f s = (s.updateActivity ttl instant, .ok ())

theorem nodup_keys_evict {α : Type} {m : List (SessionId × α)}
    (distinct : (Assoc.keys m).Nodup) (picked : Option SessionId) :
    (Assoc.keys (evict m picked)).Nodup := by
  cases picked with
  | none => exact distinct
  | some id => exact Assoc.nodup_keys_erase distinct id

theorem mem_evict {α : Type} {m : List (SessionId × α)} {picked : Option SessionId}
    {p : SessionId × α} (member : p ∈ evict m picked) : p ∈ m := by
  cases picked with
  | none => exact member
  | some id => exact (Assoc.erase_sublist m id).mem member

namespace World

variable {jwt : Jwt}

/-- The table says what the history tells, and the tokens of the history were issued. -/
structure Faithful (w : World) : Prop where
  mirrors : Mirrors w.config.ttl w.now.instant w.storage w.sessions
  stored : (Assoc.keys w.storage).Nodup
  told : (Assoc.keys w.sessions).Nodup
  tokens : ∀ p ∈ w.sessions, ∀ i ∈ p.2.made.token, i ∈ w.issued

theorem faithful_opened (config : SessionConfig) (tokenConfig : TokenConfig) (now : Now) :
    Faithful (opened config tokenConfig now) := by
  refine ⟨fun id => .absent, List.nodup_nil, List.nodup_nil, ?_⟩
  intro p member
  cases member

theorem faithful_created {w w' : World} (faithful : Faithful w) {id : SessionId} {r : Record}
    {listed : SessionStorage} {origin : Origin} {ip agent : Option Bytes}
    (shows_ : Shows w.config.ttl (SessionManager.newData w.config origin ip agent w.now.instant) r)
    (made : w.created (w.manager.create id origin ip agent w.now.instant listed) id r listed =
      some w') : Faithful w' := by
  obtain ⟨⟨-, token⟩, rfl⟩ := created_eq made
  have evicted := faithful.mirrors.evict (pickEvicted w.config listed)
  refine ⟨evicted.insert id shows_, ?_, ?_, ?_⟩
  · exact Assoc.nodup_keys_insert (nodup_keys_evict faithful.stored _) id _
  · exact Assoc.nodup_keys_insert (nodup_keys_evict faithful.told _) id r
  · intro p member i has
    rcases Assoc.mem_insert member with rfl | old
    · exact token i has
    · exact faithful.tokens p (mem_evict old) i has

theorem faithful_validated {w : World} (faithful : Faithful w) (id : SessionId)
    {f : SessionData → SessionData × Except SessionError Unit}
    (touches : Touches w.config.ttl w.now.instant f) :
    Faithful (w.validated id (w.manager.withSession id f)) := by
  have here := faithful.mirrors id
  cases found : Assoc.get w.storage id with
  | none =>
      have same : w.validated id (w.manager.withSession id f) = w := by
        simp [validated, SessionManager.withSession, manager, found, keep]
      rwa [same]
  | some s =>
      rcases touches s with ⟨e, refused⟩ | accepted
      · have same : w.validated id (w.manager.withSession id f) =
            { w with storage := Assoc.insert w.storage id s } := by
          simp [validated, SessionManager.withSession, manager, found, keep, refused]
        rw [same]
        refine ⟨?_, Assoc.nodup_keys_insert faithful.stored id s, faithful.told,
          faithful.tokens⟩
        intro other
        show Mirror _ _ (Assoc.get (Assoc.insert w.storage id s) other) _
        rw [Assoc.get_insert]
        split
        · rename_i same
          rw [← same, ← found]
          exact here
        · exact faithful.mirrors other
      · rw [found] at here
        rcases told : Assoc.get w.sessions id with _ | r
        · rw [told] at here
          cases here
        rw [told] at here
        obtain ⟨shows_⟩ := here
        have same : w.validated id (w.manager.withSession id f) =
            { w with
              storage :=
                Assoc.insert w.storage id (s.updateActivity w.config.ttl w.now.instant)
              sessions :=
                Assoc.insert w.sessions id { r with refreshed := w.now.instant } } := by
          simp [validated, SessionManager.withSession, manager, found, keep, accepted, told]
        rw [same]
        refine ⟨faithful.mirrors.insert id ⟨shows_.username, shows_.claims, rfl, shows_.ip,
          shows_.agent⟩, Assoc.nodup_keys_insert faithful.stored id _,
          Assoc.nodup_keys_insert faithful.told id _, ?_⟩
        intro p member i has
        rcases Assoc.mem_insert member with rfl | old
        · exact faithful.tokens (id, r) (Assoc.mem_of_get told) i has
        · exact faithful.tokens p old i has

theorem faithful_info {w : World} (faithful : Faithful w) (id : SessionId) :
    Faithful (w.keep (w.manager.getSessionInfo id w.now.instant).1) := by
  unfold SessionManager.getSessionInfo manager
  cases found : Assoc.get w.storage id with
  | none =>
      dsimp only
      exact faithful
  | some s =>
      dsimp only
      cases expired : s.isExpired w.now.instant with
      | false => exact faithful
      | true =>
          exact ⟨faithful.mirrors.lapse found expired, Assoc.nodup_keys_erase faithful.stored id,
            faithful.told, faithful.tokens⟩

theorem touches_session (m : SessionManager) (ip : Option Bytes) (instant : Nat) :
    Touches m.config.ttl instant fun session =>
      if session.isExpired instant then (session, .error .expired)
      else if m.config.validateIp && !validateSame session.ipAddress ip then
        (session, .error .ipMismatch)
      else (session.updateActivity m.config.ttl instant, .ok ()) := by
  intro s
  dsimp only
  split
  · exact .inl ⟨_, rfl⟩
  split
  · exact .inl ⟨_, rfl⟩
  · exact .inr rfl

theorem touches_sessionFull (m : SessionManager) (ip agent : Option Bytes) (now : Now) :
    Touches m.config.ttl now.instant fun session =>
      if session.isExpired now.instant then (session, .error .expired)
      else if session.isTokenExpired now.unix then (session, .error .tokenExpired)
      else if m.tokenRevoked session then (session, .error .tokenRevoked)
      else if m.config.validateIp && !validateSame session.ipAddress ip then
        (session, .error .ipMismatch)
      else if m.config.validateUserAgent && !validateSame session.userAgent agent then
        (session, .error .userAgentMismatch)
      else (session.updateActivity m.config.ttl now.instant, .ok ()) := by
  intro s
  dsimp only
  split
  · exact .inl ⟨_, rfl⟩
  split
  · exact .inl ⟨_, rfl⟩
  split
  · exact .inl ⟨_, rfl⟩
  split
  · exact .inl ⟨_, rfl⟩
  split
  · exact .inl ⟨_, rfl⟩
  · exact .inr rfl

theorem faithful_step {w w' : World} {e : Event} (faithful : Faithful w)
    (stepped : w.step jwt e = some w') : Faithful w' := by
  cases e with
  | tick now =>
      simp only [step] at stepped
      split at stepped
      · rename_i later
        obtain rfl := Option.some.inj stepped
        exact ⟨fun id => (faithful.mirrors id).later later.2, faithful.stored, faithful.told,
          faithful.tokens⟩
      · cases stepped
  | generateTokenPair accessJti refreshJti username permissions =>
      simp only [step] at stepped
      split at stepped
      · split at stepped
        · obtain rfl := Option.some.inj stepped
          exact faithful
        · obtain rfl := Option.some.inj stepped
          exact ⟨faithful.mirrors, faithful.stored, faithful.told,
            fun p member i has => List.mem_append_left _ (faithful.tokens p member i has)⟩
      · cases stepped
  | verifyToken token =>
      obtain rfl := Option.some.inj stepped
      exact faithful
  | revokeToken i =>
      simp only [step] at stepped
      split at stepped
      · obtain rfl := Option.some.inj stepped
        exact ⟨faithful.mirrors, faithful.stored, faithful.told, faithful.tokens⟩
      · cases stepped
  | revokeTokenClaims token =>
      obtain rfl := Option.some.inj stepped
      exact ⟨faithful.mirrors, faithful.stored, faithful.told, faithful.tokens⟩
  | cleanupTokens =>
      obtain rfl := Option.some.inj stepped
      exact ⟨faithful.mirrors, faithful.stored, faithful.told, faithful.tokens⟩
  | createSession id username ip listed =>
      exact faithful_created faithful ⟨rfl, rfl, rfl, rfl, rfl⟩ stepped
  | createSessionFull id username token ip agent listed =>
      refine faithful_created faithful ⟨rfl, ?_, rfl, rfl, rfl⟩ stepped
      cases token <;> rfl
  | createSessionFromToken id token ip agent listed =>
      exact faithful_created faithful ⟨rfl, rfl, rfl, rfl, rfl⟩ stepped
  | validateSession id ip =>
      obtain rfl := Option.some.inj stepped
      exact faithful_validated faithful id (touches_session w.manager ip w.now.instant)
  | validateSessionFull id ip agent =>
      obtain rfl := Option.some.inj stepped
      exact faithful_validated faithful id (touches_sessionFull w.manager ip agent w.now)
  | getUsername id =>
      obtain rfl := Option.some.inj stepped
      rw [getUsername_fst]
      exact faithful_info faithful id
  | getSessionInfo id =>
      obtain rfl := Option.some.inj stepped
      exact faithful_info faithful id
  | revokeSession id =>
      obtain rfl := Option.some.inj stepped
      have erased : (w.keep (w.manager.revokeSession id).1).storage = Assoc.erase w.storage id := by
        unfold SessionManager.revokeSession manager
        cases found : Assoc.get w.storage id with
        | none =>
            dsimp only
            exact (Assoc.erase_of_not_mem (Assoc.get_eq_none_iff.mp found)).symm
        | some s => simp only [keep]
      refine ⟨?_, ?_, Assoc.nodup_keys_erase faithful.told id, ?_⟩
      · show Mirrors _ _ (w.keep (w.manager.revokeSession id).1).storage _
        rw [erased]
        exact faithful.mirrors.erase id
      · show (Assoc.keys (w.keep (w.manager.revokeSession id).1).storage).Nodup
        rw [erased]
        exact Assoc.nodup_keys_erase faithful.stored id
      · intro p member i has
        exact faithful.tokens p ((Assoc.erase_sublist w.sessions id).mem member) i has
  | revokeUserSessions username listed =>
      simp only [step] at stepped
      split at stepped
      · obtain rfl := Option.some.inj stepped
        exact ⟨faithful.mirrors.removeUser faithful.stored faithful.told username,
          faithful.stored.sublist (List.filter_sublist.map Prod.fst),
          faithful.told.sublist (List.filter_sublist.map Prod.fst),
          fun p member i has => faithful.tokens p (List.mem_filter.mp member).1 i has⟩
      · cases stepped
  | cleanupSessions =>
      obtain rfl := Option.some.inj stepped
      exact ⟨faithful.mirrors.cleanup faithful.stored,
        faithful.stored.sublist (List.filter_sublist.map Prod.fst), faithful.told,
        faithful.tokens⟩

theorem faithful_run {w w' : World} {events : List Event} (faithful : Faithful w)
    (tracked : Tracked jwt w) (ran : Runs.run (World.step jwt) w events = some w') :
    Faithful w' ∧ Tracked jwt w' := by
  have keeps : ∀ w e w', Faithful w ∧ Tracked jwt w → World.step jwt w e = some w' →
      Faithful w' ∧ Tracked jwt w' := by
    rintro w e w' ⟨faithful, tracked⟩ stepped
    exact ⟨faithful_step faithful stepped, tracked_step tracked stepped⟩
  exact Runs.kept_run_always keeps ⟨faithful, tracked⟩ ran

variable (jwt)

/-- `verify_token` would accept the token now. -/
def Verifies (w : World) (i : Issued) : Prop :=
  ∃ claims, w.tokens.verifyToken jwt w.now.unix i.token = .ok claims

/-- What is asked of a session that is accepted. -/
def Live (w : World) (id : SessionId) : Prop :=
  ∃ r, Assoc.get w.sessions id = some r ∧ w.now.instant < r.refreshed + w.config.ttl ∧
    ∀ i ∈ r.made.token, Verifies jwt w i

/-- The address and the agent of a request go with those of the session. -/
def Matching (w : World) (id : SessionId) (ip agent : Option Bytes) : Prop :=
  ∀ r ∈ Assoc.get w.sessions id,
    (w.config.validateIp = true → validateSame r.ipAddress ip = true) ∧
      (w.config.validateUserAgent = true → validateSame r.userAgent agent = true)

/-- A live session that was created with the `jti` alone: its token counts as expired since the
epoch. -/
def Misdated (w : World) (id : SessionId) : Prop :=
  0 < w.now.unix ∧ ∃ r i, Assoc.get w.sessions id = some r ∧ r.made = .byId i ∧
    w.now.instant < r.refreshed + w.config.ttl ∧ Verifies jwt w i

variable {jwt}

theorem verifies_iff (correct : jwt.Correct) {w : World} (tracked : Tracked jwt w) {i : Issued}
    (issued : i ∈ w.issued) :
    Verifies jwt w i ↔ w.now.unix ≤ i.claims.exp ∧ w.tokens.isRevoked i.claims.jti = false := by
  unfold Verifies
  simp only [verifyToken_ok_iff correct w.tokens w.now.unix (tracked.signed i issued),
    exists_eq_left, Bool.not_eq_true]

theorem accepts_stored_iff {w : World} {id : SessionId} {s : SessionData} {ip agent : Option Bytes}
    (found : Assoc.get w.storage id = some s)
    (same_ip : w.config.validateIp = true → validateSame s.ipAddress ip = true)
    (same_agent : w.config.validateUserAgent = true → validateSame s.userAgent agent = true) :
    (w.manager.validateSessionFull id ip agent w.now).2 = .ok () ↔
      s.isExpired w.now.instant = false ∧ s.isTokenExpired w.now.unix = false ∧
        w.manager.tokenRevoked s = false := by
  have address : (w.config.validateIp && !validateSame s.ipAddress ip) = false := by
    cases asked : w.config.validateIp with
    | false => rfl
    | true => simp [same_ip asked]
  have browser : (w.config.validateUserAgent && !validateSame s.userAgent agent) = false := by
    cases asked : w.config.validateUserAgent with
    | false => rfl
    | true => simp [same_agent asked]
  have here : Assoc.get w.manager.storage id = some s := found
  unfold SessionManager.validateSessionFull SessionManager.withSession
  simp only [here, show w.manager.config = w.config from rfl, address, browser]
  cases s.isExpired w.now.instant <;> cases s.isTokenExpired w.now.unix <;>
    cases w.manager.tokenRevoked s <;> simp

theorem token_checks_iff (correct : jwt.Correct) {w : World} (tracked : Tracked jwt w)
    {s : SessionData} {r : Record} (shows_ : Shows w.config.ttl s r)
    (issued : ∀ i ∈ r.made.token, i ∈ w.issued) :
    (s.isTokenExpired w.now.unix = false ∧ w.manager.tokenRevoked s = false) ↔
      (∀ i ∈ r.made.token, Verifies jwt w i) ∧
        ¬ (0 < w.now.unix ∧ ∃ i, r.made = .byId i ∧ Verifies jwt w i) := by
  have claims := shows_.claims
  unfold Record.claims at claims
  unfold SessionData.isTokenExpired SessionManager.tokenRevoked SessionData.tokenId
  cases made : r.made with
  | plain =>
      rw [made] at claims
      simp [claims, Made.token]
  | byId i =>
      rw [made] at claims issued
      have verifies := verifies_iff correct tracked (issued i rfl)
      simp only [claims, Option.map_some, Made.token, Option.mem_def, Option.some.injEq,
        forall_eq', Made.byId.injEq, exists_eq_left', verifies, manager, SessionData.bareClaims,
        decide_eq_false_iff_not, not_and, not_lt]
      constructor
      · rintro ⟨early, unrevoked⟩
        exact ⟨⟨Nat.le_trans early (Nat.zero_le _), unrevoked⟩, fun late => absurd early (by omega)⟩
      · rintro ⟨⟨early, unrevoked⟩, epoch⟩
        refine ⟨?_, unrevoked⟩
        by_contra late
        exact epoch (by omega) early unrevoked
  | byToken i =>
      rw [made] at claims issued
      have verifies := verifies_iff correct tracked (issued i rfl)
      simp [claims, Made.token, verifies, manager]

/-- In a state of any run: the code accepts the live sessions but for the misdated ones. -/
theorem accepts_iff (correct : jwt.Correct) {w : World} (faithful : Faithful w)
    (tracked : Tracked jwt w) {id : SessionId} {ip agent : Option Bytes}
    (matching : Matching w id ip agent) :
    (w.manager.validateSessionFull id ip agent w.now).2 = .ok () ↔
      Live jwt w id ∧ ¬ Misdated jwt w id := by
  have here := faithful.mirrors id
  unfold Live Misdated
  cases found : Assoc.get w.storage id with
  | none =>
      have refused : (w.manager.validateSessionFull id ip agent w.now).2 = .error .notFound := by
        have absent : Assoc.get w.manager.storage id = none := found
        simp [SessionManager.validateSessionFull, SessionManager.withSession, absent]
      rw [found] at here
      rw [refused]
      simp only [reduceCtorEq, false_iff, not_and]
      rintro ⟨r, told, fresh, -⟩
      rw [told] at here
      cases here with
      | lapsed old => omega
  | some s =>
      rcases told : Assoc.get w.sessions id with _ | r
      · rw [found, told] at here
        cases here
      rw [found, told] at here
      obtain ⟨shows_⟩ := here
      have asked := matching r told
      rw [← shows_.ip, ← shows_.agent] at asked
      have issued := faithful.tokens (id, r) (Assoc.mem_of_get told)
      have fresh : s.isExpired w.now.instant = false ↔
          w.now.instant < r.refreshed + w.config.ttl := by
        rw [SessionData.isExpired, shows_.expires, decide_eq_false_iff_not, not_le]
      rw [accepts_stored_iff found asked.1 asked.2, token_checks_iff correct tracked shows_ issued,
        fresh]
      constructor
      · rintro ⟨early, verified, dated⟩
        refine ⟨⟨r, rfl, early, verified⟩, ?_⟩
        rintro ⟨started, r', i, same, made, -, accepted⟩
        obtain rfl := Option.some.inj same
        exact dated ⟨started, i, made, accepted⟩
      · rintro ⟨⟨r', same, early, verified⟩, dated⟩
        obtain rfl := Option.some.inj same
        refine ⟨early, verified, ?_⟩
        rintro ⟨started, i, made, accepted⟩
        exact dated ⟨started, r, i, rfl, made, early, accepted⟩

/-- Every run from a new manager, and every request that goes with its session. -/
theorem accepts_live_iff (jwt : Jwt) (correct : jwt.Correct) (config : SessionConfig)
    (tokenConfig : TokenConfig) (now : Now) (events : List Event) (w : World)
    (ran : Runs.run (World.step jwt) (opened config tokenConfig now) events = some w)
    (id : SessionId) (ip agent : Option Bytes) (matching : Matching w id ip agent) :
    ((w.manager.validateSessionFull id ip agent w.now).2 = .ok () ↔ Live jwt w id) ↔
      ¬ Misdated jwt w id := by
  obtain ⟨faithful, tracked⟩ := faithful_run (faithful_opened config tokenConfig now)
    (tracked_opened config tokenConfig now) ran
  have live_of_misdated : Misdated jwt w id → Live jwt w id := by
    rintro ⟨-, r, i, told, made, fresh, verified⟩
    refine ⟨r, told, fresh, fun j has => ?_⟩
    rw [made] at has
    rwa [← Option.some.inj has]
  rw [accepts_iff correct faithful tracked matching]
  tauto

theorem antonConfig_matching {w : World} (config : w.config = antonConfig) (id : SessionId)
    (ip agent : Option Bytes) : Matching w id ip agent := by
  intro r _
  rw [config]
  constructor
  · intro asked
    cases asked
  · intro asked
    cases asked

theorem accepts_anton :
    ∃ w, Runs.run (World.step antonJwt) antonStart
        [antonIssue, .createSessionFromToken 1 antonAccess none none []] = some w ∧
      ((w.manager.validateSessionFull 1 none none w.now).2 = .ok () ↔ Live antonJwt w 1) := by
  obtain ⟨w, ran⟩ : ∃ w, Runs.run (World.step antonJwt) antonStart
      [antonIssue, .createSessionFromToken 1 antonAccess none none []] = some w := ⟨_, rfl⟩
  have config : w.config = antonConfig := by
    obtain rfl := Option.some.inj ran
    rfl
  refine ⟨w, ran, (accepts_live_iff antonJwt antonJwt_correct antonConfig antonTokens ⟨5, 0⟩ _ w ran
    1 none none (antonConfig_matching config 1 none none)).mpr ?_⟩
  rintro ⟨-, r, i, told, made, -⟩
  obtain rfl := Option.some.inj ran
  obtain rfl := Option.some.inj told
  cases made

/-- A session that was just created with the `jti` of a good token is refused. -/
theorem live_session_refused :
    ¬ ∀ (jwt : Jwt), jwt.Correct → ∀ (config : SessionConfig) (tokenConfig : TokenConfig)
      (now : Now) (events : List Event) (w : World),
      Runs.run (World.step jwt) (opened config tokenConfig now) events = some w →
        ∀ (id : SessionId) (ip agent : Option Bytes), Matching w id ip agent →
          ((w.manager.validateSessionFull id ip agent w.now).2 = .ok () ↔ Live jwt w id) := by
  intro always
  obtain ⟨w, ran⟩ : ∃ w, Runs.run (World.step antonJwt) antonStart
      [antonIssue, .createSessionFull 1 (bytesOf "anton") (some antonAccess) none none []] =
        some w := ⟨_, rfl⟩
  have config : w.config = antonConfig := by
    obtain rfl := Option.some.inj ran
    rfl
  have accepted := always antonJwt antonJwt_correct antonConfig antonTokens ⟨5, 0⟩ _ w ran 1 none
    none (antonConfig_matching config 1 none none)
  obtain rfl := Option.some.inj ran
  have live := accepted.mpr ⟨_, rfl, by decide +kernel, fun i has => ?_⟩
  · exact absurd live (by decide +kernel)
  · obtain rfl := Option.some.inj has
    exact ⟨antonAccess.claims, by rfl⟩

end World

end Zumic.Auth
