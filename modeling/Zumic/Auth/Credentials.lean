/- What lets a user in: its rules, its hashes and the password (`auth/manager.rs`). -/

import Zumic.Auth.Permissions
import Zumic.Auth.Manager
import Zumic.Lib.Runs

namespace Zumic.Auth

open Lib Lib.ByteString

section

def AclRule.isOnOff (rule : AclRule) : Bool := rule = .on || rule = .off

/-- The last of `on` and `off` is `on`. -/
def switchedOn (rules : List AclRule) : Bool :=
  (rules.filter AclRule.isOnOff).getLast? = some .on

def AclRule.hash? : AclRule → Option Bytes
  | .passwordHash h => some h
  | _ => none

def hashesOf (rules : List AclRule) : List Bytes := rules.filterMap AclRule.hash?

/-- The part of a user that decides who may enter. -/
def AclUser.credentials (u : AclUser) : Bool × List Bytes := (u.enabled, u.passwordHashes)

def AclRule.credit (rule : AclRule) (c : Bool × List Bytes) : Bool × List Bytes :=
  match rule with
  | .on => (true, c.2)
  | .off => (false, c.2)
  | .passwordHash h => (c.1, c.2 ++ [h])
  | _ => c

theorem credentials_unpatterned : Unpatterned AclUser.credentials where
  keys _ _ := rfl
  denyKeys _ _ := rfl
  channels _ _ := rfl
  denyChannels _ _ := rfl
  rawKeys _ _ := rfl
  rawDenyKeys _ _ := rfl
  rawChannels _ _ := rfl
  rawDenyChannels _ _ := rfl

variable {globs : Globs}

theorem credentials_applyRule (rule : AclRule) (u : AclUser) :
    (applyRule globs rule u).1.credentials = rule.credit u.credentials := by
  cases rule with
  | allowKeyPattern p => exact view_patternRule credentials_unpatterned rfl u
  | denyKeyPattern p => exact view_patternRule credentials_unpatterned rfl u
  | allowChannelPattern p => exact view_patternRule credentials_unpatterned rfl u
  | denyChannelPattern p => exact view_patternRule credentials_unpatterned rfl u
  | _ => rfl

theorem credentials_resetRules (u : AclUser) : (u.resetRules globs).credentials = (false, []) := by
  unfold AclUser.resetRules
  rw [view_rebuildAllDenyPatterns credentials_unpatterned.toUncompiled,
    view_rebuildAllPatterns credentials_unpatterned.toUncompiled]
  rfl

theorem credit_of_failed {rule : AclRule} {u u' : AclUser} {e : AclError}
    (failed : applyRule globs rule u = (u', .error e)) : u'.credentials = u.credentials := by
  have effect : (applyRule globs rule u).1.credentials = _ := credentials_applyRule rule u
  rw [failed] at effect
  rw [effect]
  cases rule with
  | on => cases failed
  | off => cases failed
  | passwordHash h => cases failed
  | _ => rfl

theorem foldl_credit (rules : List AclRule) :
    rules.foldl (fun c rule => rule.credit c) (false, []) = (switchedOn rules, hashesOf rules) := by
  induction rules using List.reverseRecOn with
  | nil => rfl
  | append_singleton rules rule ih =>
      rw [List.foldl_append, ih]
      cases rule <;> simp [AclRule.credit, switchedOn, hashesOf, AclRule.isOnOff, AclRule.hash?]

end

section

variable (globs : Globs)

/-- The rules that are carried out: all up to the first that fails. -/
def carriedOut : List AclRule → AclUser → List AclRule
  | [], _ => []
  | rule :: rules, u =>
      match applyRule globs rule u with
      | (u, .ok ()) => rule :: carriedOut rules u
      | (_, .error _) => []

/-- The users, and beside them the rules that each one was given last. -/
structure Ledger where
  acl : Acl
  current : List (Bytes × List AclRule)

namespace Ledger

def empty : Ledger := ⟨Acl.empty, []⟩

def rulesOf (l : Ledger) (username : Bytes) : List AclRule :=
  (Assoc.get l.current username).getD []

/-- `acl_setuser`. Rules that cannot be read, and a user that cannot be made, leave all as it is. -/
def setuser (l : Ledger) (username : Bytes) (rules : List Bytes) : Ledger where
  acl := (l.acl.aclSetuser globs username rules).1
  current :=
    match parseRules rules, l.acl.getOrCreate globs username with
    | .ok parsed, .ok found =>
        Assoc.insert l.current username (carriedOut globs parsed (found.resetRules globs))
    | _, _ => l.current

/-- The rules of a user are what its credentials come from. -/
def Reflects (user : AclUser) (rules : List AclRule) : Prop :=
  user.credentials = (switchedOn rules, hashesOf rules)

def Kept (l : Ledger) : Prop :=
  ∀ username, Option.Rel Reflects (l.acl.aclGetuser username) (Assoc.get l.current username)

end Ledger

variable {globs}

theorem credentials_applyRules (parsed : List AclRule) (u : AclUser) :
    (applyRules globs parsed u).1.credentials =
      (carriedOut globs parsed u).foldl (fun c rule => rule.credit c) u.credentials := by
  induction parsed generalizing u with
  | nil => rfl
  | cons rule parsed ih =>
      unfold applyRules carriedOut UserM.andThen
      rcases applied : applyRule globs rule u with ⟨mid, ⟨e⟩ | ⟨⟨⟩⟩⟩
      · exact credit_of_failed applied
      · have effect : (applyRule globs rule u).1.credentials = _ := credentials_applyRule rule u
        rw [applied] at effect
        simp only [List.foldl_cons]
        rw [ih mid, effect]

namespace Ledger

theorem kept_empty : empty.Kept := fun _ => .none

theorem kept_insert {l l' : Ledger} (kept : l.Kept) (username : Bytes) {user : AclUser}
    {rules : List AclRule} (reflects : Reflects user rules)
    (users : l'.acl.users = Assoc.insert l.acl.users username user)
    (current : l'.current = Assoc.insert l.current username rules) : l'.Kept := by
  intro name
  rw [Acl.aclGetuser, users, current, Assoc.get_insert, Assoc.get_insert]
  split
  · exact .some reflects
  · exact kept name

theorem kept_setuser {l : Ledger} (kept : l.Kept) (username : Bytes) (rules : List Bytes) :
    (l.setuser globs username rules).Kept := by
  cases read : parseRules rules with
  | error e =>
      have same : l.setuser globs username rules = l := by
        simp [setuser, Acl.aclSetuser, read]
      rw [same]
      exact kept
  | ok parsed =>
      cases made : l.acl.getOrCreate globs username with
      | error e =>
          have same : l.setuser globs username rules = l := by
            simp [setuser, Acl.aclSetuser, read, made]
          rw [same]
          exact kept
      | ok found =>
          have reflects : Reflects ((applyRules globs parsed).andThen
              ((rebuildAllPatterns globs).andThen (rebuildAllDenyPatterns globs))
                (found.resetRules globs)).1 (carriedOut globs parsed (found.resetRules globs)) := by
            unfold Reflects
            rw [view_andThen_first (view_rebuildBoth credentials_unpatterned.toUncompiled),
              credentials_applyRules, credentials_resetRules, foldl_credit]
          refine kept_insert kept username reflects ?_ ?_
          · simp only [setuser, Acl.aclSetuser, read, made]
            split
            · rename_i ran
              rw [ran]
            · rename_i ran
              rw [ran]
          · simp only [setuser, read, made]

end Ledger

end

section

variable (globs : Globs) (argon2 : Argon2) (salts : Nat → Bytes)

def Ledger.setusers (l : Ledger) (calls : List (Bytes × List Bytes)) : Ledger :=
  calls.foldl (fun l call => l.setuser globs call.1 call.2) l

/-- The call that the global password leads to. -/
def defaultCall (config : ServerConfig) : List (Bytes × List Bytes) :=
  match config.requirepass with
  | none => []
  | some pass =>
      match hashPassword argon2 (salts 0) pass config.authPepper with
      | .error _ => []
      | .ok hash => [(bytesOf "default", AuthManager.defaultRules hash)]

def userCall (pepper : Option Bytes) (entry : UserConfig × Bytes) :
    Option (Bytes × List Bytes) :=
  match AuthManager.configHash argon2 pepper entry.2 entry.1 with
  | .error _ => none
  | .ok hashRules => some (entry.1.username, AuthManager.configRules hashRules entry.1)

/-- The `acl_setuser` calls of `from_config`. -/
def configCalls (config : ServerConfig) : List (Bytes × List Bytes) :=
  defaultCall argon2 salts config ++
    (config.users.mapIdx fun i user => (user, salts (i + 1))).filterMap
      (userCall argon2 config.authPepper)

variable {globs argon2 salts}

theorem Ledger.kept_setusers {l : Ledger} (kept : l.Kept) (calls : List (Bytes × List Bytes)) :
    (l.setusers globs calls).Kept := by
  induction calls generalizing l with
  | nil => exact kept
  | cons call calls ih => exact ih (kept_setuser kept call.1 call.2)

theorem acl_setusers_append (l : Ledger) (before after : List (Bytes × List Bytes)) :
    l.setusers globs (before ++ after) = (l.setusers globs before).setusers globs after :=
  List.foldl_append

theorem addDefault_ok {config : ServerConfig} {l : Ledger} {acl : Acl}
    (added : AuthManager.addDefault globs argon2 config.authPepper (salts 0) config.requirepass
      l.acl = .ok acl) : (l.setusers globs (defaultCall argon2 salts config)).acl = acl := by
  unfold AuthManager.addDefault at added
  unfold defaultCall
  cases pass : config.requirepass with
  | none =>
      rw [pass] at added
      exact Except.ok.inj added
  | some pass' =>
      rw [pass] at added
      simp only at added ⊢
      cases hashed : hashPassword argon2 (salts 0) pass' config.authPepper with
      | error e => simp [hashed] at added
      | ok hash =>
          simp only [hashed] at added
          split at added
          · cases added
          · rename_i accepted
            rw [← Except.ok.inj added]
            show (l.acl.aclSetuser globs _ _).1 = _
            rw [accepted]

theorem addUsers_ok {pepper : Option Bytes} {users : List (UserConfig × Bytes)} {l : Ledger}
    {acl : Acl} (added : AuthManager.addUsers globs argon2 pepper users l.acl = .ok acl) :
    (l.setusers globs (users.filterMap (userCall argon2 pepper))).acl = acl := by
  induction users generalizing l with
  | nil => exact Except.ok.inj added
  | cons entry users ih =>
      obtain ⟨user, salt⟩ := entry
      unfold AuthManager.addUsers at added
      cases hashed : AuthManager.configHash argon2 pepper salt user with
      | error e => simp [hashed] at added
      | ok hashRules =>
          simp only [hashed] at added
          split at added
          · cases added
          · rename_i next accepted
            have call : userCall argon2 pepper (user, salt) =
                some (user.username, AuthManager.configRules hashRules user) := by
              simp only [userCall, hashed]
            rw [List.filterMap_cons_some call]
            have stepped : (l.setuser globs user.username
                (AuthManager.configRules hashRules user)).acl = next := by
              show (l.acl.aclSetuser globs _ _).1 = next
              rw [accepted]
            rw [← stepped] at added
            exact ih added

theorem fromConfig_ok {config : ServerConfig} {m : AuthManager}
    (made : AuthManager.fromConfig globs argon2 salts config = .ok m) :
    (Ledger.empty.setusers globs (configCalls argon2 salts config)).acl = m.acl := by
  unfold AuthManager.fromConfig at made
  split at made
  · cases made
  rename_i acl default_added
  simp only at made
  split at made
  · cases made
  rename_i acl' users_added
  rw [← Except.ok.inj made, configCalls, acl_setusers_append]
  have first := addDefault_ok (l := Ledger.empty) default_added
  rw [← first] at users_added
  exact addUsers_ok users_added

end

section

inductive Call where
  | createUser (salt username password : Bytes) (permissions : List Bytes)
  | aclSetuser (username : Bytes) (rules : List Bytes)
  | authenticate (username password : Bytes) (times : Readings)

/-- A manager, and beside it the rules that each user was given last. -/
structure Book where
  manager : AuthManager
  current : List (Bytes × List AclRule)

variable (globs : Globs) (argon2 : Argon2)

/-- The manager that a call leaves behind. -/
def AuthManager.after (m : AuthManager) : Call → AuthManager
  | .createUser salt username password permissions =>
      (m.createUser globs argon2 salt username password permissions).1
  | .aclSetuser username rules => (m.aclSetuser globs username rules).1
  | .authenticate username password times => (m.authenticate argon2 username password times).1

/-- What a call hands to `acl_setuser`. -/
def AuthManager.setCall (m : AuthManager) : Call → Option (Bytes × List Bytes)
  | .createUser salt username password permissions =>
      match hashPassword argon2 salt password m.pepper with
      | .error _ => none
      | .ok hash =>
          if (m.acl.aclGetuser username).isSome then none
          else some (username, [AuthManager.hashRule hash, bytesOf "on"] ++ permissions)
  | .aclSetuser username rules => some (username, rules)
  | .authenticate _ _ _ => none

namespace Book

def ledger (b : Book) : Ledger := ⟨b.manager.acl, b.current⟩

def rulesOf (b : Book) (username : Bytes) : List AclRule := b.ledger.rulesOf username

def step (b : Book) (call : Call) : Option Book :=
  some
    { manager := b.manager.after globs argon2 call
      current :=
        match b.manager.setCall argon2 call with
        | none => b.current
        | some (username, rules) => (b.ledger.setuser globs username rules).current }

/-- The book of a manager that `from_config` has just made. -/
def opened (salts : Nat → Bytes) (config : ServerConfig) (m : AuthManager) : Book where
  manager := m
  current := (Ledger.empty.setusers globs (configCalls argon2 salts config)).current

def Verified (b : Book) (username password : Bytes) : Prop :=
  ∃ user, b.manager.acl.aclGetuser username = some user ∧
    verifiesAny argon2 user.passwordHashes password b.manager.pepper = true

def Vouched (b : Book) (username password : Bytes) : Prop :=
  ∃ user, b.manager.acl.aclGetuser username = some user ∧ user.enabled = true ∧
    (.noPass ∈ b.rulesOf username ∨
      verifiesAny argon2 user.passwordHashes password b.manager.pepper = true)

/-- Only a user in force with a credential enters, and the rejections of two wrong passwords tell
nothing of them. -/
def Rightful (b : Book) : Call → Prop
  | .authenticate username password times =>
      ((b.manager.authenticate argon2 username password times).2 = .ok () →
        b.Vouched argon2 username password) ∧
      ∀ other, ¬ b.Verified argon2 username password → ¬ b.Verified argon2 username other →
        .noPass ∉ b.rulesOf username →
        ∃ m e, b.manager.authenticate argon2 username password times = (m, .error e) ∧
          b.manager.authenticate argon2 username other times = (m, .error e)
  | _ => True

/-- A user in force has a hash or `nopass` among its rules, and one that is switched off has
hashes of which none is met. -/
def Guarded (b : Book) : Call → Prop
  | .authenticate username password times =>
      (checkFailures b.manager.failures username times).2 = true ∨
        b.manager.acl.aclGetuser username = none ∨
        (switchedOn (b.rulesOf username) = true ∧
          (hashesOf (b.rulesOf username) ≠ [] ∨ .noPass ∈ b.rulesOf username)) ∨
        (switchedOn (b.rulesOf username) = false ∧ hashesOf (b.rulesOf username) ≠ [] ∧
          verifiesAny argon2 (hashesOf (b.rulesOf username)) password b.manager.pepper = false)
  | _ => True

end Book

variable {globs argon2}

theorem aclSetuser_acl (m : AuthManager) (username : Bytes) (rules : List Bytes) :
    (m.aclSetuser globs username rules).1.acl = (m.acl.aclSetuser globs username rules).1 := by
  unfold AuthManager.aclSetuser
  split
  · rename_i ran
    rw [ran]
  · rename_i ran
    rw [ran]

theorem authenticate_acl (m : AuthManager) (username password : Bytes) (times : Readings) :
    (m.authenticate argon2 username password times).1.acl = m.acl := by
  unfold AuthManager.authenticate
  split
  · rfl
  · split <;> rfl

theorem after_acl (m : AuthManager) (call : Call) :
    (m.after globs argon2 call).acl = (m.setCall argon2 call).elim m.acl
      fun made => (m.acl.aclSetuser globs made.1 made.2).1 := by
  cases call with
  | createUser salt username password permissions =>
      simp only [AuthManager.after, AuthManager.createUser, AuthManager.setCall]
      cases hashPassword argon2 salt password m.pepper with
      | error e => rfl
      | ok hash =>
          by_cases known : (m.acl.aclGetuser username).isSome = true
          · simp [known]
          · simp only [known, Bool.false_eq_true, if_false]
            exact aclSetuser_acl m username _
  | aclSetuser username rules => exact aclSetuser_acl m username rules
  | authenticate username password times => exact authenticate_acl m username password times

namespace Book

theorem ledger_step {b b' : Book} {call : Call} (stepped : b.step globs argon2 call = some b') :
    b'.ledger = (b.manager.setCall argon2 call).elim b.ledger
      fun made => b.ledger.setuser globs made.1 made.2 := by
  obtain rfl := Option.some.inj stepped
  have users := @after_acl globs argon2 b.manager call
  unfold ledger
  simp only [users]
  cases b.manager.setCall argon2 call with
  | none => rfl
  | some made => rfl

theorem kept_step {b b' : Book} {call : Call} (kept : b.ledger.Kept)
    (stepped : b.step globs argon2 call = some b') : b'.ledger.Kept := by
  rw [ledger_step stepped]
  cases b.manager.setCall argon2 call with
  | none => exact kept
  | some made => exact Ledger.kept_setuser kept made.1 made.2

theorem authenticate_known {m : AuthManager} {username : Bytes} {user : AclUser} {times : Readings}
    (passed : (checkFailures m.failures username times).2 = false)
    (known : m.acl.aclGetuser username = some user) (password : Bytes) :
    m.authenticate argon2 username password times =
      let recorded := recordAttempt (checkFailures m.failures username times).1 username times
        (user.passwordHashes.isEmpty || verifiesAny argon2 user.passwordHashes password m.pepper)
      ({ m with failures := recorded.1 }, recorded.2) := by
  unfold AuthManager.authenticate AuthManager.verify
  rcases checked : checkFailures m.failures username times with ⟨failures, blocked⟩
  rw [checked] at passed
  obtain rfl : blocked = false := passed
  simp only [known]
  cases user.passwordHashes.isEmpty with
  | true => rfl
  | false => rfl

theorem recordAttempt_ok_iff {failures : Failures} {username : Bytes} {times : Readings}
    {ok : Bool} : (recordAttempt failures username times ok).2 = .ok () ↔ ok = true := by
  cases ok <;> simp [recordAttempt]

theorem rightful_of_alike {b : Book} {username password : Bytes} {times : Readings}
    {m : AuthManager} {e : AuthError}
    (alike : ∀ p, b.manager.authenticate argon2 username p times = (m, .error e)) :
    b.Rightful argon2 (.authenticate username password times) := by
  refine ⟨fun entered => ?_, fun other _ _ _ => ⟨m, e, alike password, alike other⟩⟩
  rw [alike] at entered
  cases entered

theorem authenticate_blocked {m : AuthManager} {username : Bytes} {times : Readings}
    (blocked : (checkFailures m.failures username times).2 = true) (password : Bytes) :
    m.authenticate argon2 username password times =
      ({ m with failures := (checkFailures m.failures username times).1 },
        .error .tooManyAttempts) := by
  unfold AuthManager.authenticate
  rcases checked : checkFailures m.failures username times with ⟨failures, stopped⟩
  rw [checked] at blocked
  obtain rfl : stopped = true := blocked
  rfl

theorem authenticate_unknown {m : AuthManager} {username : Bytes} {times : Readings}
    (passed : (checkFailures m.failures username times).2 = false)
    (unknown : m.acl.aclGetuser username = none) (password : Bytes) :
    m.authenticate argon2 username password times =
      ({ m with failures := (checkFailures m.failures username times).1 },
        .error .userNotFound) := by
  unfold AuthManager.authenticate AuthManager.verify
  rcases checked : checkFailures m.failures username times with ⟨failures, stopped⟩
  rw [checked] at passed
  obtain rfl : stopped = false := passed
  simp only [unknown]

theorem rightful_known_iff {b : Book} {username password : Bytes} {times : Readings}
    {user : AclUser}
    (passed : (checkFailures b.manager.failures username times).2 = false)
    (known : b.manager.acl.aclGetuser username = some user) :
    b.Rightful argon2 (.authenticate username password times) ↔
      if user.passwordHashes = [] then user.enabled = true ∧ .noPass ∈ b.rulesOf username
      else verifiesAny argon2 user.passwordHashes password b.manager.pepper = true →
        user.enabled = true := by
  have result := @authenticate_known argon2 b.manager username user times passed known
  have entered : (b.manager.authenticate argon2 username password times).2 = .ok () ↔
      (user.passwordHashes.isEmpty ||
        verifiesAny argon2 user.passwordHashes password b.manager.pepper) = true := by
    rw [result]
    exact recordAttempt_ok_iff
  have vouched : b.Vouched argon2 username password ↔ user.enabled = true ∧
      (.noPass ∈ b.rulesOf username ∨
        verifiesAny argon2 user.passwordHashes password b.manager.pepper = true) := by
    simp [Vouched, known]
  have verified : ∀ p, b.Verified argon2 username p ↔
      verifiesAny argon2 user.passwordHashes p b.manager.pepper = true := by
    intro p
    simp [Verified, known]
  unfold Rightful
  simp only [entered, vouched, verified]
  by_cases bare : user.passwordHashes = []
  · have never : ∀ p, ¬ verifiesAny argon2 [] p b.manager.pepper = true := by
      intro p met
      cases met
    rw [if_pos bare, bare]
    constructor
    · rintro ⟨rightful, -⟩
      obtain ⟨enabled, bound | met⟩ := rightful rfl
      · exact ⟨enabled, bound⟩
      · exact absurd met (never password)
    · rintro ⟨enabled, bound⟩
      exact ⟨fun _ => ⟨enabled, .inl bound⟩, fun _ _ _ unbound => absurd bound unbound⟩
  · rw [if_neg bare]
    have filled : user.passwordHashes.isEmpty = false := by simpa using bare
    simp only [filled, Bool.false_or]
    constructor
    · rintro ⟨rightful, -⟩ met
      exact (rightful met).1
    · refine fun granted => ⟨fun met => ⟨granted met, .inr met⟩, ?_⟩
      intro other wrong wrong' _
      rw [Bool.not_eq_true] at wrong wrong'
      have alike : ∀ p, verifiesAny argon2 user.passwordHashes p b.manager.pepper = false →
          b.manager.authenticate argon2 username p times =
            ({ b.manager with failures := (recordAttempt (checkFailures b.manager.failures username
                times).1 username times false).1 }, .error .authenticationFailed) := by
        intro p unmet
        rw [result p, filled, unmet]
        rfl
      exact ⟨_, _, alike password wrong, alike other wrong'⟩

theorem rightful_iff_guarded {b : Book} (kept : b.ledger.Kept) (call : Call) :
    b.Rightful argon2 call ↔ b.Guarded argon2 call := by
  cases call with
  | createUser salt username password permissions => exact Iff.rfl
  | aclSetuser username rules => exact Iff.rfl
  | authenticate username password times =>
      cases passed : (checkFailures b.manager.failures username times).2 with
      | true =>
          exact iff_of_true (rightful_of_alike (authenticate_blocked passed)) (.inl passed)
      | false =>
          cases known : b.manager.acl.aclGetuser username with
          | none =>
              exact iff_of_true (rightful_of_alike (authenticate_unknown passed known))
                (.inr (.inl known))
          | some user =>
              rw [rightful_known_iff passed known]
              have mirrored : Option.Rel Ledger.Reflects (b.manager.acl.aclGetuser username)
                (Assoc.get b.current username) := kept username
              rw [known] at mirrored
              rcases current : Assoc.get b.current username with _ | rules
              · rw [current] at mirrored
                cases mirrored
              rw [current] at mirrored
              obtain ⟨reflects⟩ := mirrored
              obtain ⟨switch, hashes⟩ := Prod.mk.inj reflects
              have listed : b.rulesOf username = rules := by
                simp [rulesOf, ledger, Ledger.rulesOf, current]
              unfold Guarded
              simp only [passed, known, listed, ← switch, ← hashes, Bool.false_eq_true, false_or,
                reduceCtorEq]
              by_cases bare : user.passwordHashes = []
              · simp [bare]
              · cases user.enabled with
                | true => simp [bare]
                | false => simp [bare]

/-- Every server configuration, and every run of calls on the manager made from it. -/
theorem rightful_run_iff (globs : Globs) (argon2 : Argon2) (salts : Nat → Bytes)
    (config : ServerConfig) (m : AuthManager)
    (made : AuthManager.fromConfig globs argon2 salts config = .ok m) (calls : List Call) :
    Runs.Along (Book.step globs argon2) (Book.Rightful argon2)
        (opened globs argon2 salts config m) calls ↔
      Runs.Along (Book.step globs argon2) (Book.Guarded argon2)
        (opened globs argon2 salts config m) calls := by
  have start : (opened globs argon2 salts config m).ledger.Kept := by
    have kept := @Ledger.kept_setusers globs _ Ledger.kept_empty (configCalls argon2 salts config)
    have users := fromConfig_ok made
    unfold ledger opened
    rw [← users]
    exact kept
  exact Runs.along_congr (fun _ _ _ kept stepped => kept_step kept stepped)
    (fun _ call kept => rightful_iff_guarded kept call) start

end Book

def bareConfig : ServerConfig := ⟨none, none, []⟩

def noSalts : Nat → Bytes := fun _ => []

def bareManager : AuthManager := ⟨Acl.empty, none, []⟩

theorem rightful_run_created :
    Runs.Along (Book.step anyGlobs openArgon2) (Book.Rightful openArgon2)
      (Book.opened anyGlobs openArgon2 noSalts bareConfig bareManager)
      [.createUser [] (bytesOf "anton") (bytesOf "secret") [bytesOf "~*"],
        .authenticate (bytesOf "anton") (bytesOf "secret") ⟨1, 1, 1⟩] := by
  refine (Book.rightful_run_iff anyGlobs openArgon2 noSalts bareConfig bareManager rfl _).mpr ?_
  refine .cons trivial rfl (.cons ?_ rfl trivial)
  exact .inr (.inr (.inl ⟨by decide +kernel, .inl (by decide +kernel)⟩))

/-- A user with the single rule `on` is let in with any password. -/
theorem enters_without_credential :
    ¬ ∀ (globs : Globs) (argon2 : Argon2) (salts : Nat → Bytes) (config : ServerConfig)
      (m : AuthManager), AuthManager.fromConfig globs argon2 salts config = .ok m →
        ∀ calls : List Call, Runs.Along (Book.step globs argon2) (Book.Rightful argon2)
          (Book.opened globs argon2 salts config m) calls := by
  intro always
  have rightful := always anyGlobs openArgon2 noSalts bareConfig bareManager rfl
    [.aclSetuser (bytesOf "anton") [bytesOf "on"],
      .authenticate (bytesOf "anton") (bytesOf "x") ⟨1, 1, 1⟩]
  obtain ⟨⟨rightful, -⟩, -⟩ := rightful.2 _ rfl
  obtain ⟨user, known, -, bound | met⟩ := rightful (by rfl)
  · exact absurd bound (by decide +kernel)
  · cases known
    cases met

end

end Zumic.Auth
